import LocalFleet.Text.Decimal

/-! Binary floating point numbers of sixty-four bits as exact values: read from decimal text, rounded
to whole numbers, and written with the fewest digits that read back. -/

namespace LocalFleet

/-- A number `± mantissa · 2 ^ exponent`, an infinity, or no number. -/
inductive Binary64 where
  | nan
  | infinite (negative : Bool)
  | finite (negative : Bool) (mantissa : Nat) (exponent : Int)
  deriving DecidableEq, Repr

namespace Binary64

def leastExponent : Int := -1074

def greatestExponent : Int := 971

/-- A quotient rounded to the nearest whole number; a half goes to the even one. -/
def roundEven (num den : Nat) : Nat :=
  let q := num / den
  let twice := 2 * (num % den)
  if twice > den ∨ (twice = den ∧ q % 2 = 1) then q + 1 else q

def inUnits (num den : Nat) (e : Int) : Nat × Nat :=
  if e ≥ 0 then (num, den * Nat.pow 2 e.toNat) else (num * Nat.pow 2 (-e).toNat, den)

/-- The exponent at which a positive quotient has a mantissa of fifty-three bits, or the least. -/
def exponentOf (num den : Nat) : Int :=
  let e : Int := (Nat.log2 num : Int) - Nat.log2 den - 52
  let (n, d) := inUnits num den e
  max leastExponent (if n / d < Nat.pow 2 52 then e - 1 else e)

def ofQuotient (negative : Bool) (num den : Nat) : Binary64 :=
  let e := exponentOf num den
  let (n, d) := inUnits num den e
  let m := roundEven n d
  let (m, e) := if m = Nat.pow 2 53 then (Nat.pow 2 52, e + 1) else (m, e)
  if e > greatestExponent then infinite negative else finite negative m e

def ofDecimal (negative : Bool) (m : Nat) (e : Int) : Binary64 :=
  let size : Int := (Nat.toDigits 10 m).length + e
  if m = 0 ∨ size < -330 then finite negative 0 0
  else if size > 310 then infinite negative
  else if e ≥ 0 then ofQuotient negative (m * Nat.pow 10 e.toNat) 1
  else ofQuotient negative m (Nat.pow 10 (-e).toNat)

/-- The number of digits with an optional point and an optional exponent, at least one digit in all
before the exponent. -/
def ofUnsigned? (negative : Bool) (text : List Char) : Option Binary64 := do
  let isMark (c : Char) := c = 'e' || c = 'E'
  let mantissa := text.takeWhile (!isMark ·)
  let exponent ← match text.dropWhile (!isMark ·) with
    | [] => some 0
    | _ :: digits => Decimal.signed? digits
  let whole := mantissa.takeWhile (· ≠ '.')
  let places := (mantissa.dropWhile (· ≠ '.')).drop 1
  let m ← Decimal.nat? (whole ++ places)
  return ofDecimal negative m (exponent - places.length)

/-- The number that a text names: digits, `inf`, `infinity` or `nan` in any case, after an optional
sign. -/
def ofText? (text : List Char) : Option Binary64 :=
  let (negative, body) := match text with
    | '-' :: rest => (true, rest)
    | '+' :: rest => (false, rest)
    | _ => (false, text)
  let lower := body.map Char.toLower
  if lower = "nan".toList then some nan
  else if lower = "inf".toList ∨ lower = "infinity".toList then some (infinite negative)
  else ofUnsigned? negative body

/-- The nearest whole number from zero to `2 ^ bits - 1`; a half goes up, and no number is zero. -/
def toWord (bits : Nat) : Binary64 → Nat
  | nan | infinite true | finite true .. => 0
  | infinite false => Nat.pow 2 bits - 1
  | finite false m e =>
    if e ≥ 0 then min (m * Nat.pow 2 e.toNat) (Nat.pow 2 bits - 1)
    else min ((2 * m + Nat.pow 2 (-e).toNat) / (2 * Nat.pow 2 (-e).toNat)) (Nat.pow 2 bits - 1)

/-- The numbers that round to a positive number, as a quarter of its last place: the number is
`mid / den`, and those between `low / den` and `high / den` round to it. -/
structure Neighbourhood where
  low : Nat
  mid : Nat
  high : Nat
  den : Nat
  closed : Bool

def neighbourhood (m : Nat) (e : Int) : Neighbourhood :=
  let below := if m = Nat.pow 2 52 ∧ e > leastExponent then 1 else 2
  let up (v : Nat) : Nat := if e ≥ 2 then v * Nat.pow 2 (e - 2).toNat else v
  let den := if e ≥ 2 then 1 else Nat.pow 2 (2 - e).toNat
  ⟨up (4 * m - below), up (4 * m), up (4 * m + 2), den, m % 2 = 0⟩

/-- The multiple of `10 ^ k` nearest to a number, if it rounds to the number; of two equally near the
greater. -/
def onGrid? (n : Neighbourhood) (k : Int) : Option Nat :=
  let up (v : Nat) : Nat := if k ≥ 0 then v else v * Nat.pow 10 (-k).toNat
  let unit := if k ≥ 0 then n.den * Nat.pow 10 k.toNat else n.den
  let hit (d : Nat) : Bool :=
    if n.closed then up n.low ≤ d * unit && d * unit ≤ up n.high
    else up n.low < d * unit && d * unit < up n.high
  let d := up n.mid / unit
  let nearer := if 2 * (up n.mid % unit) ≥ unit then d + 1 else d
  if hit nearer then some nearer else if hit d then some d else if hit (d + 1) then some (d + 1)
  else none

/-- The fewest digits that read back, as a multiple of a power of ten. -/
def shortest (m : Nat) (e : Int) : Nat × Int :=
  let n := neighbourhood m e
  let top : Int := if n.mid ≥ n.den then (Nat.toDigits 10 (n.mid / n.den)).length
    else 1 - (Nat.toDigits 10 (n.den / n.mid)).length
  let grids : List Int := (List.range 19).map fun (i : Nat) => top - i
  ((grids.filterMap fun k => (onGrid? n k).bind fun d =>
    if d = 0 then none else some (d, k)).head?).getD (m, 0)

def plain (d : Nat) (k : Int) : String :=
  if k ≥ 0 then toString (d * Nat.pow 10 k.toNat)
  else
    let places := (-k).toNat
    let digits := Nat.toDigits 10 d
    let padded := List.replicate (places + 1 - digits.length) '0' ++ digits
    let after := (padded.drop (padded.length - places)).reverse.dropWhile (· = '0')
    String.ofList (padded.take (padded.length - places)
      ++ (if after = [] then [] else '.' :: after.reverse))

def text : Binary64 → String
  | nan => "NaN"
  | infinite negative => if negative then "-inf" else "inf"
  | finite negative m e =>
    let sign := if negative then "-" else ""
    if m = 0 then sign ++ "0" else let (d, k) := shortest m e; sign ++ plain d k

end Binary64

end LocalFleet
