import FormFlow.Text.Printable

/-!
# Quoted texts

A text between double quotes as error messages show it: quotes and backslashes are escaped, the
common control characters have short names, and any other character without a shape is written
by its code point.
-/

namespace FormFlow.Text

/-- Lower-case hexadecimal digits, without leading zeros. -/
def hexDigits (n : Nat) : List Char :=
  if n < 16 then [Nat.digitChar n] else hexDigits (n / 16) ++ [Nat.digitChar (n % 16)]
termination_by n

/-- One character inside quotes. -/
def escaped (c : Char) : List Char :=
  if c = '"' then ['\\', '"']
  else if c = '\\' then ['\\', '\\']
  else if c = '\n' then ['\\', 'n']
  else if c = '\t' then ['\\', 't']
  else if c = '\r' then ['\\', 'r']
  else if c = '\x00' then ['\\', '0']
  else if isPrintable c then [c]
  else ['\\', 'u', '\x7b'] ++ hexDigits c.toNat ++ ['\x7d']

def quoted (text : String) : String :=
  String.ofList ('"' :: text.toList.flatMap escaped ++ ['"'])

end FormFlow.Text
