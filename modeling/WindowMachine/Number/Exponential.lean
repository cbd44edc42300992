/-!
The exponential function and the natural logarithm in double precision. Both take a power of
two off their argument and evaluate a polynomial in what is left.
-/

namespace WindowMachine.Exponential

/-- The value of a polynomial with its coefficients from the highest power down. -/
def polynomial (coefficients : List Float) (x : Float) : Float :=
  match coefficients with
  | [] => 0
  | first :: rest => rest.foldl (fun sum coefficient => sum * x + coefficient) first

/-! ## Logarithm -/

/-- The logarithm of two as the sum of a number with few bits and a small one. -/
def logTwoHigh : Float := 6.93147180369123816490e-01

def logTwoLow : Float := 1.90821492927058770002e-10

/-- A positive number as a fraction between the root of one half and that of two, and an
exponent of two. -/
def centred (x : Float) : Float × Int :=
  let (fraction, exponent) := x.frExp
  if fraction < (2 : Float).sqrt / 2 then (2 * fraction, exponent - 1) else (fraction, exponent)

/-- The logarithm of a positive number. With `s = f / (2 + f)` the logarithm of `1 + f` is
`2 s` and a series in `s`, of which odd and even terms are summed apart. -/
def logarithm (x : Float) : Float :=
  let (fraction, exponent) := centred x
  let k := Float.ofInt exponent
  let f := fraction - 1
  let s := f / (2 + f)
  let s2 := s * s
  let s4 := s2 * s2
  let odd := s2 * polynomial [1.479819860511658591e-01, 1.818357216161805012e-01,
    2.857142874366239149e-01, 6.666666666666735130e-01] s4
  let even := s4 * polynomial [1.531383769920937332e-01, 2.222219843214978396e-01,
    3.999999999940941908e-01] s4
  let half := 0.5 * f * f
  k * logTwoHigh - ((half - (s * (half + (odd + even)) + k * logTwoLow)) - f)

/-! ## Exponential -/

/-- The integer nearest to a number of moderate size, a tie going to the even one. -/
def nearestInteger (x : Float) : Float := (x + 6755399441055744.0) - 6755399441055744.0

/-- One less than the square, for a number that is given less one: `(1 + x) ^ 2 - 1`. -/
def squareLessOne (x : Float) : Float := x * (x + 2)

/-- The exponential of a number of moderate size. A sixteenth of what is left after the power
of two goes through the polynomial, and four squarings undo the division. -/
def exponential (x : Float) : Float :=
  let k := nearestInteger (x * 1.4426950408889634073599246810018920)
  let rest := x - k * 0.69314718055966295651160180568695068359375
  let rest := rest - k * 0.28235290563031577122588448175013436025525412068e-12
  let part := rest * 0.0625
  let first := part * polynomial [2.4801587301587301587e-5, 1.9841269841269841270e-4,
    1.3888888888888888889e-3, 8.3333333333333333333e-3, 4.1666666666666666667e-2,
    1.6666666666666666667e-1, 0.5, 1.0] part
  let power := squareLessOne (squareLessOne (squareLessOne (squareLessOne first)))
  (power + 1).scaleB k.toInt64.toInt

end WindowMachine.Exponential
