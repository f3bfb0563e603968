import CallDispatch.Text.Hexadecimal
import CallDispatch.Text.Unseen

/-!
# Quoted text

Messages show a text between double quotes. Quotes and backslashes are escaped, the common control
characters have short forms, and every other character that does not show is written as its code
point.
-/

namespace CallDispatch.Text

/-- One character inside quotes. -/
def quotedChar (c : Char) : List Char :=
  if c = '"' then ['\\', '"']
  else if c = '\\' then ['\\', '\\']
  else if c = '\n' then ['\\', 'n']
  else if c = '\r' then ['\\', 'r']
  else if c = '\t' then ['\\', 't']
  else if c.toNat = 0 then ['\\', '0']
  else if isUnseen c then ['\\', 'u', '\x7b'] ++ hex c.toNat ++ ['\x7d']
  else [c]

/-- A text between quotes. -/
def quoted (s : String) : String :=
  String.ofList ('"' :: s.toList.flatMap quotedChar ++ ['"'])

end CallDispatch.Text
