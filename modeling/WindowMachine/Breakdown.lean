import WindowMachine.Text.Numeral

/-!
Breakdowns: what a machine does not survive. They are no failures, for no operation reports
them; whoever was using the machine is stopped as well.
-/

namespace WindowMachine

/-- What a machine breaks down on. -/
inductive Breakdown where
  /-- A stack of more slots than there are addresses for. -/
  | stackSize
  /-- Room for more suspended calls than there are addresses for. -/
  | depthSize
  /-- A slot below the stack. -/
  | slot (index : Int64)
  deriving DecidableEq, Repr

def Breakdown.message : Breakdown → String
  | .stackSize => "runtime error: makeslice: len out of range"
  | .depthSize => "runtime error: makeslice: cap out of range"
  | .slot index => "runtime error: index out of range [" ++ Numeral.ofInt index.toInt ++ "]"

end WindowMachine
