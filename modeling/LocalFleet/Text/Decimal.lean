/-! Numbers as digits of a base, and numbers in decimal text. -/

namespace LocalFleet.Decimal

def digit? (c : Char) : Option Nat :=
  if '0' ≤ c ∧ c ≤ '9' then some (c.toNat - '0'.toNat) else none

/-- The number written by decimal digits after `v`; none if some character is no digit. -/
def natFrom? (v : Nat) : List Char → Option Nat
  | [] => some v
  | c :: text => (digit? c).bind fun d => natFrom? (10 * v + d) text

def nat? (text : List Char) : Option Nat :=
  if text = [] then none else natFrom? 0 text

def unsigned? : List Char → Option Nat
  | '+' :: text => nat? text
  | text => nat? text

def signed? : List Char → Option Int
  | '+' :: text => (nat? text).map Int.ofNat
  | '-' :: text => (nat? text).map fun n => - Int.ofNat n
  | text => (nat? text).map Int.ofNat

/-- `unsigned?` for numbers below `2 ^ bits`. -/
def word? (bits : Nat) (text : List Char) : Option Nat :=
  (unsigned? text).filter (· < Nat.pow 2 bits)

def signedWord? (bits : Nat) (text : List Char) : Option Int :=
  (signed? text).filter fun v => - Int.pow 2 (bits - 1) ≤ v ∧ v < Int.pow 2 (bits - 1)

end LocalFleet.Decimal
