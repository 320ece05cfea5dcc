import LocalFleet.Encoding.Radix
import LocalFleet.Text.Printable

/-! Quoted text: a text or a character in quotes, with a backslash before what would break the
quotes and the code point of what cannot be seen. -/

namespace LocalFleet.Quoted

def codePoint (c : Char) : List Char :=
  if c.toNat = 0 then ['0']
  else (Radix.digits 14 c.toNat).map fun v => "0123456789abcdef".toList.getD v '0'

/-- A character as it stands between the given quotes. -/
def escape (quote c : Char) : List Char :=
  if c = '\x00' then ['\\', '0']
  else if c = '\t' then ['\\', 't']
  else if c = '\r' then ['\\', 'r']
  else if c = '\n' then ['\\', 'n']
  else if c = '\\' ∨ c = quote then ['\\', c]
  else if Text.isPrintable c then [c]
  else ['\\', 'u', '\x7b'] ++ codePoint c ++ ['\x7d']

def text (s : String) : String :=
  String.ofList ('"' :: s.toList.flatMap (escape '"') ++ ['"'])

def char (c : Char) : String := String.ofList ('\'' :: escape '\'' c ++ ['\''])

def option : Option String → String
  | none => "None"
  | some s => "Some(" ++ text s ++ ")"

end LocalFleet.Quoted
