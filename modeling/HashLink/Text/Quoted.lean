import HashLink.Text.Plain

/-!
# Quoted text

Text in double quotes, with a backslash before a double quote or a backslash, short names for the
usual control characters, and the code point in hexadecimal for everything else that has no glyph of
its own.
-/

namespace HashLink

/-- The lower-case hexadecimal digits of a number. -/
def hexDigits (n : Nat) : String := String.ofList (Nat.toDigits 16 n)

/-- A character between quotes. -/
def quotedChar (c : Char) : String :=
  match c with
  | '"' => "\\\""
  | '\\' => "\\\\"
  | '\n' => "\\n"
  | '\r' => "\\r"
  | '\t' => "\\t"
  | '\x00' => "\\0"
  | c => if isPlain c then c.toString else "\\u\x7b" ++ hexDigits c.toNat ++ "\x7d"

/-- A text in quotes. -/
def quoted (s : String) : String :=
  "\"" ++ String.join (s.toList.map quotedChar) ++ "\""

end HashLink
