import LocalFleet.Text.Binary64
import LocalFleet.Text.Utf8

/-! Layers of settings. A layer is a tree of named values; layers are laid over each other, a later
one winning name by name, and a value is turned into the kind that a setting wants. -/

namespace LocalFleet.Settings

inductive Item where
  /-- a setting that is known to be absent -/
  | absent
  | bool (b : Bool)
  | int (v : Int)
  | real (v : Binary64)
  | text (s : String)
  | list (items : List Item)
  | table (members : List (String × Item))
  deriving Repr, Inhabited

/-- Named values; each name once. -/
abbrev Members := List (String × Item)

/-- A character in lower case, if its lower case is ASCII: besides the capital letters this is the
Kelvin sign. -/
def lowerChar (c : Char) : Char := if c = '\u212a' then 'k' else c.toLower

def lower (s : String) : String := String.ofList (s.toList.map lowerChar)

namespace Members

def find? (ms : Members) (name : String) : Option Item := ms.lookup name

def put (ms : Members) (name : String) (v : Item) : Members :=
  match ms with
  | [] => [(name, v)]
  | (n, w) :: rest => if n = name then (n, v) :: rest else (n, w) :: put rest name v

end Members

namespace Item

def members : Item → Members
  | table ms => ms
  | _ => []

mutual
/-- Lays a value over what is there, if anything: the members of a table are laid over what is there
name by name, so that an empty table changes nothing, and any other value takes its place. -/
def cover (base : Option Item) : Item → Item
  | table [] => base.getD (table [])
  | table (m :: ms) => table (coverMembers ((base.map members).getD []) (m :: ms))
  | v => v
def coverMembers (base : Members) : Members → Members
  | [] => base
  | (name, v) :: ms =>
    coverMembers (base.put (lower name) (cover (base.find? (lower name)) v)) ms
end

def assign (base : Option Item) : (path : List String) → Item → Item
  | [], v => cover base v
  | name :: path, v =>
    let ms := (base.map members).getD []
    table (ms.put (lower name) (assign (ms.find? (lower name)) path v))

def fitsSigned : Item → Bool
  | int v => v < 0x8000000000000000
  | list items => items.attach.all fun ⟨v, _⟩ => fitsSigned v
  | table ms => ms.attach.all fun ⟨(_, v), _⟩ => fitsSigned v
  | _ => true
termination_by v => sizeOf v
decreasing_by
  all_goals simp_wf
  · rename_i h; have := List.sizeOf_lt_of_mem h; omega
  · rename_i h; have := List.sizeOf_lt_of_mem h; simp at this; omega

end Item

def isNameChar (c : Char) : Bool := c.isAlphanum || c = ' ' || c = '_' || c = '-'

/-- The path that a name with points in it means: the pieces between the points. A name with an
empty piece or another character stands for itself. -/
def pathOf (name : String) : List String :=
  let pieces := Text.splitOn '.' name.toList
  if pieces.all fun piece => !piece.isEmpty && piece.all isNameChar then pieces.map String.ofList
  else [name]

def Item.overlay (base : Item) (ms : Members) : Item :=
  ms.foldl (fun layer (name, v) => assign (some layer) (pathOf (lower name)) v) base

/-! What a setting takes of a value. -/

/-- A number from zero to `2 ^ 64 - 1`: whole numbers in range, other numbers rounded into it, truth
values, and texts that write a number or a truth value. -/
def Item.word? : Item → Option Nat
  | .bool b => some b.toNat
  | .int v => if 0 ≤ v ∧ v < 0x10000000000000000 then some v.toNat else none
  | .real v => some (v.toWord 64)
  | .text s =>
    if ["true", "on", "yes"].contains (lower s) then some 1
    else if ["false", "off", "no"].contains (lower s) then some 0
    else Decimal.word? 64 s.toList
  | _ => none

/-- A text: texts themselves, and numbers and truth values as they are written. -/
def Item.text? : Item → Option String
  | .bool b => some (if b then "true" else "false")
  | .int v => some (toString v)
  | .real v => some v.text
  | .text s => some s
  | _ => none

end LocalFleet.Settings
