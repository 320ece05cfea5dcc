import LocalFleet.Encoding.Hex
import LocalFleet.Settings.Layer

/-! Single values of TOML text: quoted texts, truth values, numbers and dates. Each reader takes a
value from the head of the text and gives what follows it. -/

namespace LocalFleet.Toml

open Settings (Item)

def isBlank (c : Char) : Bool := c = ' ' || c = '\t'

def skipBlank (text : List Char) : List Char := text.dropWhile isBlank

def lineEnd? : List Char → Option (List Char)
  | '\n' :: rest => some rest
  | '\r' :: '\n' :: rest => some rest
  | _ => none

/-- Whether a character may stand in a comment or a quoted text: anything but controls. -/
def isVisible (c : Char) : Bool := c = '\t' || (c.toNat ≥ 32 && c.toNat ≠ 127)

def hexNumber? (digits : List Char) : Option Nat :=
  digits.foldlM (fun v c => (Hex.value? c).map fun d => 16 * v + d) 0

def charOf? (n : Nat) : Option Char :=
  if h : n.isValidChar then some (Char.ofNatAux n h) else none

def codePoint? (count : Nat) (text : List Char) : Option (Char × List Char) := do
  if text.length < count then none
  return (← charOf? (← hexNumber? (text.take count)), text.drop count)

def shortEscape? : Char → Option Char
  | 'b' => some '\x08'
  | 't' => some '\t'
  | 'n' => some '\n'
  | 'f' => some '\x0c'
  | 'r' => some '\r'
  | '"' => some '"'
  | '\\' => some '\\'
  | _ => none

def escape? : List Char → Option (Char × List Char)
  | 'u' :: rest => codePoint? 4 rest
  | 'U' :: rest => codePoint? 8 rest
  | c :: rest => (shortEscape? c).map (·, rest)
  | [] => none

def basic : (fuel : Nat) → List Char → Option (List Char × List Char)
  | 0, _ => none
  | _ + 1, [] => none
  | _ + 1, '"' :: rest => some ([], rest)
  | fuel + 1, '\\' :: rest => do
    let (c, rest) ← escape? rest
    let (cs, rest) ← basic fuel rest
    return (c :: cs, rest)
  | fuel + 1, c :: rest => do
    if !isVisible c then none
    let (cs, rest) ← basic fuel rest
    return (c :: cs, rest)

def literal : List Char → Option (List Char × List Char)
  | [] => none
  | '\'' :: rest => some ([], rest)
  | c :: rest => do
    if !isVisible c then none
    let (cs, rest) ← literal rest
    return (c :: cs, rest)

/-- The run of a quote at the end of a long text: of three to five quotes the last three close it. -/
def closing? (quote : Char) (text : List Char) : Option (List Char × List Char) :=
  let run := text.takeWhile (· = quote)
  if run.length < 3 then none
  else
    let kept := min (run.length - 3) 2
    some (run.take kept, text.drop (kept + 3))

def skipLines : List Char → List Char
  | ' ' :: rest => skipLines rest
  | '\t' :: rest => skipLines rest
  | '\n' :: rest => skipLines rest
  | '\r' :: '\n' :: rest => skipLines rest
  | text => text

/-- A long text after its opening quotes. A backslash at the end of a line takes away the blanks and
line ends after it; a line end is a line feed. -/
def longBasic : (fuel : Nat) → List Char → Option (List Char × List Char)
  | 0, _ => none
  | _ + 1, [] => none
  | fuel + 1, '\\' :: rest =>
    match lineEnd? (skipBlank rest) with
    | some after => longBasic fuel (skipLines after)
    | none => do
      let (c, rest) ← escape? rest
      let (cs, rest) ← longBasic fuel rest
      return (c :: cs, rest)
  | fuel + 1, c :: rest => do
    match closing? '"' (c :: rest) with
    | some closed => some closed
    | none => match lineEnd? (c :: rest) with
      | some after => do
        let (cs, rest) ← longBasic fuel after
        return ('\n' :: cs, rest)
      | none => do
        if !isVisible c then none
        let (cs, rest) ← longBasic fuel rest
        return (c :: cs, rest)

def longLiteral : (fuel : Nat) → List Char → Option (List Char × List Char)
  | 0, _ => none
  | _ + 1, [] => none
  | fuel + 1, c :: rest =>
    match closing? '\'' (c :: rest) with
    | some closed => some closed
    | none => match lineEnd? (c :: rest) with
      | some after => do
        let (cs, rest) ← longLiteral fuel after
        return ('\n' :: cs, rest)
      | none => do
        if !isVisible c then none
        let (cs, rest) ← longLiteral fuel rest
        return (c :: cs, rest)

/-- What follows the line end right after opening quotes, which does not count. -/
def afterOpening (text : List Char) : List Char := (lineEnd? text).getD text

def quoted? (text : List Char) : Option (List Char × List Char) :=
  match text with
  | '"' :: '"' :: '"' :: rest => longBasic (text.length + 1) (afterOpening rest)
  | '\'' :: '\'' :: '\'' :: rest => longLiteral (text.length + 1) (afterOpening rest)
  | '"' :: rest => basic (text.length + 1) rest
  | '\'' :: rest => literal rest
  | _ => none

/-- Digits of which each is one of a kind, with single underscores between digits only. -/
def separated? (isOne : Char → Bool) (digits : List Char) : Option (List Char) :=
  let groups := Text.splitOn '_' digits
  if groups.all fun group => !group.isEmpty && group.all isOne then some groups.flatten else none

def isDigit (c : Char) : Bool := (Decimal.digit? c).isSome

def whole? (digits : List Char) : Option (List Char) := do
  let ds ← separated? isDigit digits
  if ds.length > 1 ∧ ds.head? = some '0' then none else some ds

def inBase? (base : Nat) (digits : List Char) : Option Nat := do
  let isOne (c : Char) : Bool := ((Hex.value? c).filter (· < base)).isSome
  let ds ← separated? isOne digits
  ds.foldlM (fun v c => (Hex.value? c).map fun d => base * v + d) 0

def signOf : List Char → Bool × List Char
  | '-' :: rest => (true, rest)
  | '+' :: rest => (false, rest)
  | text => (false, text)

/-- A whole number; it must fit in sixty-four bits with a sign. -/
def integer? (token : List Char) : Option Int := do
  let v : Int ← match token with
    | '0' :: 'x' :: ds => (inBase? 16 ds).map Int.ofNat
    | '0' :: 'o' :: ds => (inBase? 8 ds).map Int.ofNat
    | '0' :: 'b' :: ds => (inBase? 2 ds).map Int.ofNat
    | _ =>
      let (negative, ds) := signOf token
      let n ← Decimal.nat? (← whole? ds)
      some (if negative then - (n : Int) else n)
  if -0x8000000000000000 ≤ v ∧ v < 0x8000000000000000 then some v else none

/-- A number with a point or an exponent, an infinity, or no number. One too large is refused, and one
too small counts as the infinity below all numbers. -/
def real? (token : List Char) : Option Binary64 := do
  let (negative, body) := signOf token
  if body = "inf".toList then return .infinite negative
  if body = "nan".toList then return .nan
  let isMark (c : Char) : Bool := c = 'e' || c = 'E'
  let mantissa := body.takeWhile (!isMark ·)
  let exponent ← match body.dropWhile (!isMark ·) with
    | [] => some 0
    | _ :: marked =>
      let (below, ds) := signOf marked
      (separated? isDigit ds).bind fun ds => (Decimal.nat? ds).map fun n =>
        if below then - (n : Int) else n
  let ds ← whole? (mantissa.takeWhile (· ≠ '.'))
  let places ← match mantissa.dropWhile (· ≠ '.') with
    | [] => some []
    | _ :: places => separated? isDigit places
  if mantissa = body ∧ places = [] then none
  let v := Binary64.ofDecimal negative (← Decimal.nat? (ds ++ places)) (exponent - places.length)
  if v = .infinite false then none else some v

def fixed? (count : Nat) (text : List Char) : Option (Nat × List Char) := do
  let ds := text.take count
  if ds.length < count ∨ !ds.all isDigit then none
  return (← Decimal.nat? ds, text.drop count)

def after? (c : Char) : List Char → Option (List Char)
  | d :: rest => if c = d then some rest else none
  | [] => none

def twoDigits (n : Nat) : List Char :=
  if n < 10 then '0' :: Nat.toDigits 10 n else Nat.toDigits 10 n

def daysOf (year month : Nat) : Nat :=
  if month = 2 then
    if year % 4 = 0 ∧ (year % 100 ≠ 0 ∨ year % 400 = 0) then 29 else 28
  else if month = 4 ∨ month = 6 ∨ month = 9 ∨ month = 11 then 30
  else 31

def date? (text : List Char) : Option (List Char × List Char) := do
  let (year, rest) ← fixed? 4 text
  let (month, rest) ← fixed? 2 (← after? '-' rest)
  let (day, rest) ← fixed? 2 (← after? '-' rest)
  if month < 1 ∨ 12 < month ∨ day < 1 ∨ daysOf year month < day then none
  return (text.take 10, rest)

/-- The nine digits after the point of a second, without trailing zeros and with the point. -/
def fraction (digits : List Char) : List Char :=
  let kept := ((digits.take 9).reverse.dropWhile (· = '0')).reverse
  if kept = [] then [] else '.' :: kept

/-- A time of the day, as it is written, with at most nine digits of a second. -/
def time? (text : List Char) : Option (List Char × List Char) := do
  let (hour, rest) ← fixed? 2 text
  let (minute, rest) ← fixed? 2 (← after? ':' rest)
  let (second, rest) ← fixed? 2 (← after? ':' rest)
  if 23 < hour ∨ 59 < minute ∨ 60 < second then none
  let clock := text.take 8
  match rest with
  | '.' :: more =>
    if (more.takeWhile isDigit).isEmpty then none
    return (clock ++ fraction (more.takeWhile isDigit), more.dropWhile isDigit)
  | _ => return (clock, rest)

def offset? : List Char → Option (List Char × List Char)
  | 'Z' :: rest => some (['Z'], rest)
  | 'z' :: rest => some (['Z'], rest)
  | c :: rest => do
    if c ≠ '+' ∧ c ≠ '-' then none
    let (hour, more) ← fixed? 2 rest
    let (minute, more) ← fixed? 2 (← after? ':' more)
    if 23 < hour ∨ 59 < minute then none
    let sign := if hour = 0 ∧ minute = 0 then '+' else c
    return (sign :: twoDigits hour ++ ':' :: twoDigits minute, more)
  | [] => none

/-- A date with or without a time, or a time alone, in its plain form. -/
def dateTime? (text : List Char) : Option (List Char × List Char) :=
  match date? text with
  | none => time? text
  | some (date, rest) =>
    match rest with
    | c :: more =>
      if c = 'T' ∨ c = 't' ∨ c = ' ' then
        match time? more with
        | none => some (date, rest)
        | some (time, rest) =>
          match offset? rest with
          | some (offset, rest) => some (date ++ 'T' :: time ++ offset, rest)
          | none => some (date ++ 'T' :: time, rest)
      else some (date, rest)
    | [] => some (date, rest)

/-- A number, a truth value or a date. Outside of dates it ends at the first character that none of
these contains. -/
def plain? (text : List Char) : Option (Item × List Char) :=
  match dateTime? text with
  | some (v, rest) => some (.text (String.ofList v), rest)
  | none =>
    let isPart (c : Char) : Bool := c.isAlphanum || c = '_' || c = '+' || c = '-' || c = '.'
    let token := text.takeWhile isPart
    let rest := text.dropWhile isPart
    if token = "true".toList then some (.bool true, rest)
    else if token = "false".toList then some (.bool false, rest)
    else match integer? token with
      | some v => some (.int v, rest)
      | none => (real? token).map fun v => (.real v, rest)

end LocalFleet.Toml
