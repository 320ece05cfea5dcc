import LocalFleet.Encoding.Hex
import LocalFleet.Json.Value

/-! JSON text, compact or indented by two blanks a level. -/

namespace LocalFleet.Json

/-- A character inside a quoted text: quotes, backslashes and control characters are escaped. -/
def escape (c : Char) : List Char :=
  if c = '"' then ['\\', '"']
  else if c = '\\' then ['\\', '\\']
  else if c = '\n' then ['\\', 'n']
  else if c = '\r' then ['\\', 'r']
  else if c = '\t' then ['\\', 't']
  else if c = '\x08' then ['\\', 'b']
  else if c = '\x0c' then ['\\', 'f']
  else if c.toNat < 32 then ['\\', 'u', '0', '0'] ++ Hex.pair (UInt8.ofNat c.toNat)
  else [c]

def quote (s : String) : List Char := '"' :: s.toList.flatMap escape ++ ['"']

/-- A text that names no string has no written form and is written as an empty one. -/
def quoteLexeme (s : Lexeme) : List Char := quote (s.getD "")

def newline (level : Nat) : List Char := '\n' :: List.replicate (2 * level) ' '

mutual
/-- Indented text; an empty list or object takes no lines of its own. -/
def pretty (level : Nat) : Value → List Char
  | .null => ['n', 'u', 'l', 'l']
  | .bool true => ['t', 'r', 'u', 'e']
  | .bool false => ['f', 'a', 'l', 's', 'e']
  | .number literal => literal.toList
  | .text s => quoteLexeme s
  | .list [] => ['[', ']']
  | .list (v :: vs) =>
    '[' :: newline (level + 1) ++ pretty (level + 1) v ++ prettyItems level vs
  | .object [] => ['\x7b', '\x7d']
  | .object ((name, v) :: ms) =>
    '\x7b' :: newline (level + 1) ++ quoteLexeme name ++ [':', ' '] ++ pretty (level + 1) v
      ++ prettyMembers level ms
def prettyItems (level : Nat) : List Value → List Char
  | [] => newline level ++ [']']
  | v :: vs => ',' :: newline (level + 1) ++ pretty (level + 1) v ++ prettyItems level vs
def prettyMembers (level : Nat) : List (Lexeme × Value) → List Char
  | [] => newline level ++ ['\x7d']
  | (name, v) :: ms =>
    ',' :: newline (level + 1) ++ quoteLexeme name ++ [':', ' '] ++ pretty (level + 1) v
      ++ prettyMembers level ms
end

mutual
def compact : Value → List Char
  | .null => ['n', 'u', 'l', 'l']
  | .bool true => ['t', 'r', 'u', 'e']
  | .bool false => ['f', 'a', 'l', 's', 'e']
  | .number literal => literal.toList
  | .text s => quoteLexeme s
  | .list [] => ['[', ']']
  | .list (v :: vs) => '[' :: compact v ++ compactItems vs
  | .object [] => ['\x7b', '\x7d']
  | .object ((name, v) :: ms) => '\x7b' :: quoteLexeme name ++ ':' :: compact v ++ compactMembers ms
def compactItems : List Value → List Char
  | [] => [']']
  | v :: vs => ',' :: compact v ++ compactItems vs
def compactMembers : List (Lexeme × Value) → List Char
  | [] => ['\x7d']
  | (name, v) :: ms => ',' :: quoteLexeme name ++ ':' :: compact v ++ compactMembers ms
end

namespace Value

def toPretty (v : Value) : String := String.ofList (pretty 0 v)

def toCompact (v : Value) : String := String.ofList (compact v)

end Value

end LocalFleet.Json
