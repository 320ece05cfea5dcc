import LocalFleet.Bytes

/-! Numbers written with the digits of a base, most significant first and without leading zeros. -/

namespace LocalFleet.Radix

/-- The digits of `n` in base `b + 2`, put in front of `tail`. -/
def digitsOnto (b n : Nat) (tail : List Nat) : List Nat :=
  if n = 0 then tail else digitsOnto b (n / (b + 2)) (n % (b + 2) :: tail)
termination_by n
decreasing_by exact Nat.div_lt_self (Nat.pos_of_ne_zero (by assumption)) (by omega)

def digits (b n : Nat) : List Nat := digitsOnto b n []

def value (b : Nat) (ds : List Nat) : Nat := ds.foldl (fun v d => (b + 2) * v + d) 0

/-- A digit list in one base rewritten in another: leading zeros are kept one for one, and what
follows is read as a number. -/
def convert (source target : Nat) (ds : List Nat) : List Nat :=
  List.replicate (ds.takeWhile (· = 0)).length 0
    ++ digits target (value source (ds.dropWhile (· = 0)))

end LocalFleet.Radix
