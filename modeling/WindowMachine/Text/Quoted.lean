import WindowMachine.Text.Numeral
import WindowMachine.Text.Printable

/-!
Texts in double quotes. Printable characters stand for themselves, the usual control
characters have a letter of their own, and the rest are written by their number.
-/

namespace WindowMachine.Text

/-- How one character is written between double quotes. -/
def quotedChar (c : Char) : String :=
  match c.toNat with
  | 0x22 => "\\\""
  | 0x5C => "\\\\"
  | 0x07 => "\\a"
  | 0x08 => "\\b"
  | 0x0C => "\\f"
  | 0x0A => "\\n"
  | 0x0D => "\\r"
  | 0x09 => "\\t"
  | 0x0B => "\\v"
  | n =>
    if isPrintable c then String.ofList [c]
    else if n < 0x80 then "\\x" ++ Numeral.lowerHex 2 n
    else if n < 0x10000 then "\\u" ++ Numeral.lowerHex 4 n
    else "\\U" ++ Numeral.lowerHex 8 n

/-- A text in double quotes. -/
def quoted (s : String) : String :=
  s.toList.foldl (fun acc c => acc ++ quotedChar c) "\"" ++ "\""

end WindowMachine.Text
