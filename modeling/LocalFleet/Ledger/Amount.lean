/-! Amounts of the native asset in its smallest unit, as words of sixty-four bits. -/

namespace LocalFleet

/-- An amount in the smallest unit, one thousand-millionth of a coin. -/
abbrev Amount := UInt64

namespace Amount

def top : Amount := 0xffffffffffffffff

/-- A number as an amount; a number too large becomes the largest amount. -/
def capped (n : Nat) : Amount := if n < 0x10000000000000000 then UInt64.ofNat n else top

def addCapped (a b : Amount) : Amount := capped (a.toNat + b.toNat)

theorem toNat_capped (n : Nat) : (capped n).toNat = min n 0xffffffffffffffff := by
  unfold capped top
  split <;> simp <;> omega

theorem toNat_addCapped (a b : Amount) :
    (addCapped a b).toNat = min (a.toNat + b.toNat) 0xffffffffffffffff := toNat_capped _

/-- A balance of the contract chain, which counts in a unit a thousand million times smaller: whole
units, at most the largest amount. -/
def ofWei (wei : Nat) : Amount := capped (wei / 1000000000)

end Amount

end LocalFleet
