import Lila.Text.Escaped

/-!
# Quoted characters

A character in single quotes: line ends, tabs, NUL, quotes and backslashes by
their letters, other characters that do not show by their code point, and the
rest as they are.
-/

namespace Lila.Text

def hexDigits (n : Nat) : String := String.ofList (Nat.toDigits 16 n)

def escaped (c : Char) : String :=
  match c with
  | '\x00' => "\\0"
  | '\t' => "\\t"
  | '\n' => "\\n"
  | '\r' => "\\r"
  | '\'' => "\\'"
  | '\\' => "\\\\"
  | _ => if isEscaped c then "\\u\x7b" ++ hexDigits c.toNat ++ "\x7d" else c.toString

def quoted (c : Char) : String := "'" ++ escaped c ++ "'"

end Lila.Text
