import ScriptBridge.Text.Printable

/-!
# Quoted text

A text between double quotes. Quotes and backslashes are escaped, four control characters have
short escapes, and any other character without a graphic form of its own is written by its code
point in hexadecimal.
-/

namespace ScriptBridge.Text

/-- A code point in lower-case hexadecimal digits. -/
def hexDigits (n : Nat) : String := String.ofList (Nat.toDigits 16 n)

/-- The escape of one character. -/
def quoteChar (c : Char) : String :=
  if c == '"' then "\\\""
  else if c == '\\' then "\\\\"
  else if c == '\n' then "\\n"
  else if c == '\r' then "\\r"
  else if c == '\t' then "\\t"
  else if c.toNat == 0 then "\\0"
  else if isPrintable c then String.singleton c
  else "\\u\x7b" ++ hexDigits c.toNat ++ "\x7d"

def quote (s : String) : String := "\"" ++ String.join (s.toList.map quoteChar) ++ "\""

end ScriptBridge.Text
