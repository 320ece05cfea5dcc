import LocalFleet.Encoding.Hex
import LocalFleet.Json.Value

/-! Reading JSON text from bytes. The grammar is the strict one: no comments, no trailing commas, no
leading zeros, one value and nothing but blanks around it. What a text means is settled piece by
piece, so a document with a text that names no string can still be read around it. -/

namespace LocalFleet.Json

def ascii (c : Char) : UInt8 := UInt8.ofNat c.toNat

def isBlank (b : UInt8) : Bool := b = 0x20 || b = 0x0a || b = 0x0d || b = 0x09

def skipBlank (bs : Bytes) : Bytes := bs.dropWhile isBlank

/-- A piece of a quoted text: a byte of it, or a code unit of sixteen bits given by an escape. -/
inductive Piece where
  | byte (b : UInt8)
  | unit (u : Nat)
  deriving DecidableEq, Repr

def hexUnit? (a b c d : UInt8) : Option Nat := do
  let v (x : UInt8) := Hex.value? (Char.ofNat x.toNat)
  return ((← v a) * 16 + (← v b)) * 256 + (← v c) * 16 + (← v d)

def shortEscape? (b : UInt8) : Option UInt8 :=
  if b = ascii '"' || b = ascii '\\' || b = ascii '/' then some b
  else if b = ascii 'b' then some 8
  else if b = ascii 'f' then some 12
  else if b = ascii 'n' then some 10
  else if b = ascii 'r' then some 13
  else if b = ascii 't' then some 9
  else none

def pieces : Bytes → Option (List Piece × Bytes)
  | [] => none
  | b :: rest =>
    if b = ascii '"' then some ([], rest)
    else if b = ascii '\\' then
      match rest with
      | [] => none
      | e :: rest =>
        if e = ascii 'u' then
          match rest with
          | h :: i :: j :: k :: rest => do
            let u ← hexUnit? h i j k
            let (ps, rest) ← pieces rest
            return (.unit u :: ps, rest)
          | _ => none
        else do
          let c ← shortEscape? e
          let (ps, rest) ← pieces rest
          return (.byte c :: ps, rest)
    else if b < 0x20 then none
    else do
      let (ps, rest) ← pieces rest
      return (.byte b :: ps, rest)

def codePoint (n : Nat) : Bytes := String.utf8EncodeChar (Char.ofNat n)

/-- The bytes that pieces name. A code unit of the surrogate range counts only as the first of a
pair with the unit after it. -/
def assemble : List Piece → Option Bytes
  | [] => some []
  | .byte b :: ps => (assemble ps).map (b :: ·)
  | .unit u :: ps =>
    if u < 0xD800 ∨ 0xDFFF < u then (assemble ps).map (codePoint u ++ ·)
    else if 0xDC00 ≤ u then none
    else match ps with
      | .unit v :: ps =>
        if 0xDC00 ≤ v ∧ v ≤ 0xDFFF then
          (assemble ps).map (codePoint (0x10000 + (u - 0xD800) * 0x400 + (v - 0xDC00)) ++ ·)
        else none
      | _ => none

def ofUtf8? (bs : Bytes) : Option String := String.fromUTF8? ⟨bs.toArray⟩

def lexeme (bs : Bytes) : Option (Lexeme × Bytes) := do
  let (ps, rest) ← pieces bs
  return ((assemble ps).bind ofUtf8?, rest)

def isDigit (b : UInt8) : Bool := ascii '0' ≤ b && b ≤ ascii '9'

def digits (bs : Bytes) : Option (Bytes × Bytes) :=
  if (bs.takeWhile isDigit).isEmpty then none else some (bs.takeWhile isDigit, bs.dropWhile isDigit)

/-- The digits before the point: a zero stands alone. -/
def whole (bs : Bytes) : Option (Bytes × Bytes) := do
  let (ds, rest) ← digits bs
  if ds.length > 1 ∧ ds.head? = some (ascii '0') then none else some (ds, rest)

def fractional : Bytes → Option (Bytes × Bytes)
  | b :: rest => if b = ascii '.' then (digits rest).map fun (ds, rest) => (b :: ds, rest)
    else some ([], b :: rest)
  | [] => some ([], [])

def exponent : Bytes → Option (Bytes × Bytes)
  | b :: rest =>
    if b = ascii 'e' || b = ascii 'E' then
      match rest with
      | s :: rest' =>
        if s = ascii '+' || s = ascii '-' then
          (digits rest').map fun (ds, rest) => (b :: s :: ds, rest)
        else (digits rest).map fun (ds, rest) => (b :: ds, rest)
      | [] => none
    else some ([], b :: rest)
  | [] => some ([], [])

def number (bs : Bytes) : Option (Value × Bytes) := do
  let (sign, rest) : Bytes × Bytes := match bs with
    | b :: rest => if b = ascii '-' then ([b], rest) else ([], bs)
    | [] => ([], [])
  let (w, rest) ← whole rest
  let (f, rest) ← fractional rest
  let (e, rest) ← exponent rest
  let literal := (sign ++ w ++ f ++ e).map fun b => Char.ofNat b.toNat
  return (.number (String.ofList literal), rest)

def word? : List Char → Bytes → Option Bytes
  | [], bs => some bs
  | c :: cs, b :: bs => if b = ascii c then word? cs bs else none
  | _ :: _, [] => none

mutual
/-- The value at the head of the bytes, after blanks, and what follows it. -/
def value : (fuel : Nat) → Bytes → Option (Value × Bytes)
  | 0, _ => none
  | fuel + 1, bs =>
    match skipBlank bs with
    | [] => none
    | b :: rest =>
      if b = ascii '"' then (lexeme rest).map fun (s, rest) => (.text s, rest)
      else if b = ascii '[' then
        match skipBlank rest with
        | c :: after => if c = ascii ']' then some (.list [], after) else do
            let (v, rest) ← value fuel rest
            let (vs, rest) ← items fuel rest
            return (.list (v :: vs), rest)
        | [] => none
      else if b = ascii '\x7b' then
        match skipBlank rest with
        | c :: after => if c = ascii '\x7d' then some (.object [], after) else do
            let (m, rest) ← member fuel rest
            let (ms, rest) ← members fuel rest
            return (.object (m :: ms), rest)
        | [] => none
      else if b = ascii 't' then (word? ['r', 'u', 'e'] rest).map fun rest => (.bool true, rest)
      else if b = ascii 'f' then (word? ['a', 'l', 's', 'e'] rest).map fun rest => (.bool false, rest)
      else if b = ascii 'n' then (word? ['u', 'l', 'l'] rest).map fun rest => (.null, rest)
      else number (b :: rest)
def items : (fuel : Nat) → Bytes → Option (List Value × Bytes)
  | 0, _ => none
  | fuel + 1, bs =>
    match skipBlank bs with
    | [] => none
    | b :: rest =>
      if b = ascii ']' then some ([], rest)
      else if b = ascii ',' then do
        let (v, rest) ← value fuel rest
        let (vs, rest) ← items fuel rest
        return (v :: vs, rest)
      else none
def member : (fuel : Nat) → Bytes → Option ((Lexeme × Value) × Bytes)
  | 0, _ => none
  | fuel + 1, bs =>
    match skipBlank bs with
    | [] => none
    | b :: rest =>
      if b = ascii '"' then do
        let (name, rest) ← lexeme rest
        let rest ← word? [':'] (skipBlank rest)
        let (v, rest) ← value fuel rest
        return ((name, v), rest)
      else none
def members : (fuel : Nat) → Bytes → Option (List (Lexeme × Value) × Bytes)
  | 0, _ => none
  | fuel + 1, bs =>
    match skipBlank bs with
    | [] => none
    | b :: rest =>
      if b = ascii '\x7d' then some ([], rest)
      else if b = ascii ',' then do
        let (m, rest) ← member fuel rest
        let (ms, rest) ← members fuel rest
        return (m :: ms, rest)
      else none
end

/-- The value of a document. A value takes at least one byte, and no byte costs more than two
steps. -/
def parse (bs : Bytes) : Option Value := do
  let (v, rest) ← value (2 * bs.length + 2) bs
  if (skipBlank rest).isEmpty then some v else none

/-- The value of a document that is read whole: every text names a string, every number fits a
double, and lists and objects nest at most 127 deep. -/
def parseSound (bs : Bytes) : Option Value :=
  (parse bs).filter fun v => v.isSound && v.depth ≤ 127

end LocalFleet.Json
