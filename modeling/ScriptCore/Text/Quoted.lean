/-
Text in double quotes, as diagnostics show a name: the quote and the backslash are escaped, four
controls have a letter or digit of their own, and any other character that would not be seen is
written by its code point in hexadecimal.
-/
import ScriptCore.Text.Printable

set_option autoImplicit false

namespace ScriptCore.Text

/-- One character inside the quotes. A single quote stands for itself. -/
def escaped (c : Char) : List Char :=
  if c = '"' then ['\\', '"']
  else if c = '\\' then ['\\', '\\']
  else if c = '\x00' then ['\\', '0']
  else if c = '\t' then ['\\', 't']
  else if c = '\n' then ['\\', 'n']
  else if c = '\r' then ['\\', 'r']
  else if isPrintable c then [c]
  else ['\\', 'u', '\x7b'] ++ Nat.toDigits 16 c.toNat ++ ['\x7d']

/-- The text in quotes, with what cannot be shown escaped. -/
def quoted (s : String) : String :=
  String.ofList ('"' :: s.toList.flatMap escaped ++ ['"'])

end ScriptCore.Text
