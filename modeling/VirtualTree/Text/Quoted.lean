import VirtualTree.Text.Unprintable

/-!
# Quoted text

Messages and the printed form of atomic values show strings between double quotes.  The quote and
the backslash are escaped by a backslash, line ends, tabs and NUL have letters of their own, and any
other character that does not show is given by its code point in lower-case hexadecimal digits.
-/

namespace VirtualTree.Text

/-- The quoted form of one character. -/
def quoteChar (c : Char) : List Char :=
  match c with
  | '"' => ['\\', '"']
  | '\\' => ['\\', '\\']
  | '\n' => ['\\', 'n']
  | '\r' => ['\\', 'r']
  | '\t' => ['\\', 't']
  | '\x00' => ['\\', '0']
  | c =>
    if isUnprintable c then ['\\', 'u', '\x7b'] ++ Nat.toDigits 16 c.toNat ++ ['\x7d'] else [c]

/-- The quoted form of a string. -/
def quote (s : String) : String :=
  String.ofList ('"' :: s.toList.flatMap quoteChar ++ ['"'])

/-- The quoted form of a string that may be absent. -/
def quoteOption : Option String → String
  | none => "None"
  | some s => "Some(" ++ quote s ++ ")"

end VirtualTree.Text
