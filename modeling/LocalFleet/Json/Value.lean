import LocalFleet.Text.Decimal
import LocalFleet.Text.Utf8

/-! JSON values as they are written: a number is its literal, and a text may be one that names no
string, because of bytes that are not UTF-8 or of half a surrogate pair. -/

namespace LocalFleet.Json

/-- A text of a document; none if it is no string of characters. -/
abbrev Lexeme := Option String

inductive Value where
  | null
  | bool (b : Bool)
  | number (literal : String)
  | text (s : Lexeme)
  | list (items : List Value)
  | object (members : List (Lexeme × Value))
  deriving Repr, Inhabited

namespace Value

def str (s : String) : Value := text (some s)

def nat (n : Nat) : Value := number (toString n)

def int (n : Int) : Value := number (toString n)

def strings (xs : List String) : Value := list (xs.map str)

def record (members : List (String × Value)) : Value :=
  object (members.map fun (name, v) => (some name, v))

/-- The last member of this name, of an object. -/
def member? : Value → String → Option Value
  | object members, name => (members.reverse.find? (·.1 = some name)).map Prod.snd
  | _, _ => none

def string? : Value → Option String
  | text s => s
  | _ => none

def bool? : Value → Option Bool
  | bool b => some b
  | _ => none

def list? : Value → Option (List Value)
  | list items => some items
  | _ => none

/-- The number of a literal of digits only. -/
def nat? : Value → Option Nat
  | number literal => Decimal.nat? literal.toList
  | _ => none

def int? : Value → Option Int
  | number literal => Decimal.signed? literal.toList
  | _ => none

def isNull : Value → Bool
  | null => true
  | _ => false

mutual
def depth : Value → Nat
  | list items => depthList items + 1
  | object members => depthMembers members + 1
  | _ => 0
def depthList : List Value → Nat
  | [] => 0
  | v :: vs => max (depth v) (depthList vs)
def depthMembers : List (Lexeme × Value) → Nat
  | [] => 0
  | (_, v) :: ms => max (depth v) (depthMembers ms)
end

/-- Digits and power of ten of a literal: `m · 10 ^ e`, with the number of digits. -/
def magnitude (literal : List Char) : Nat × Nat × Int :=
  let body := if literal.head? = some '-' then literal.drop 1 else literal
  let isExponent (c : Char) := c = 'e' ∨ c = 'E'
  let digits := body.takeWhile fun c => !isExponent c
  let exponent := (Decimal.signed? ((body.dropWhile fun c => !isExponent c).drop 1)).getD 0
  let places := ((digits.dropWhile (· ≠ '.')).drop 1).length
  let all := (digits.filter (· ≠ '.')).dropWhile (· = '0')
  ((Decimal.natFrom? 0 all).getD 0, all.length, exponent - places)

def isFinite (literal : String) : Bool :=
  let (m, digits, e) := magnitude literal.toList
  let bound := (Nat.pow 2 54 - 1) * Nat.pow 2 970
  if m = 0 then true
  else if e + digits > 310 then false
  else if e + digits < 300 then true
  else if e ≥ 0 then m * Nat.pow 10 e.toNat < bound
  else m < bound * Nat.pow 10 (-e).toNat

mutual
/-- Whether every text names a string and every number fits a double. -/
def isSound : Value → Bool
  | text s => s.isSome
  | number literal => isFinite literal
  | list items => isSoundList items
  | object members => isSoundMembers members
  | _ => true
def isSoundList : List Value → Bool
  | [] => true
  | v :: vs => isSound v && isSoundList vs
def isSoundMembers : List (Lexeme × Value) → Bool
  | [] => true
  | (name, v) :: ms => name.isSome && isSound v && isSoundMembers ms
end

end Value

end LocalFleet.Json
