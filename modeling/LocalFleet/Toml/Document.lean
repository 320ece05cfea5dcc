import LocalFleet.Toml.Scalar

/-! TOML documents as layers of settings. A document is a list of statements, each of which opens a
table or sets a value in the open one; no statement may define anything twice. -/

namespace LocalFleet.Toml

open Settings (Item Members)

inductive Node where
  | value (v : Item)
  /-- a table; `implied` if so far only tables below it were opened, or it was made by a path of names,
  which `byPath` tells -/
  | table (implied byPath : Bool) (members : List (String × Node))
  /-- a list of tables, the last one first -/
  | rows (last : List (String × Node)) (earlier : List (List (String × Node)))
  deriving Inhabited

abbrev Scope := List (String × Node)

namespace Scope

def put (scope : Scope) (name : String) (node : Node) : Scope :=
  match scope with
  | [] => [(name, node)]
  | (n, old) :: rest => if n = name then (n, node) :: rest else (n, old) :: put rest name node

/-- Changes the table at the end of a path of opened tables; the last of a list of tables counts, and
tables that are not there yet are implied. -/
def within (f : Scope → Option Scope) : (path : List String) → Scope → Option Scope
  | [], scope => f scope
  | name :: path, scope =>
    match scope.lookup name with
    | none => (within f path []).map fun inner => scope.put name (.table true false inner)
    | some (.value _) => none
    | some (.table implied byPath inner) =>
      (within f path inner).map fun inner => scope.put name (.table implied byPath inner)
    | some (.rows last earlier) =>
      (within f path last).map fun last => scope.put name (.rows last earlier)

/-- Opens a table: a new one, or one that was only implied. -/
def openTable (name : String) (scope : Scope) : Option Scope :=
  match scope.lookup name with
  | none => some (scope.put name (.table false false []))
  | some (.table true false inner) => some (scope.put name (.table false false inner))
  | _ => none

def openRow (name : String) (scope : Scope) : Option Scope :=
  match scope.lookup name with
  | none => some (scope.put name (.rows [] []))
  | some (.rows last earlier) => some (scope.put name (.rows [] (last :: earlier)))
  | _ => none

/-- Sets a value at the end of a path of names below a table. The path may lead only through tables
that were made by such paths; `owned` tells whether this table can take a value itself. -/
def set (v : Item) : (path : List String) → (owned : Bool) → Scope → Option Scope
  | [], _, _ => none
  | [name], owned, scope =>
    if owned ∧ (scope.lookup name).isNone then some (scope.put name (.value v)) else none
  | name :: path, _, scope =>
    match scope.lookup name with
    | none => (set v path true []).map fun inner => scope.put name (.table true true inner)
    | some (.table true byPath inner) =>
      (set v path byPath inner).map fun inner => scope.put name (.table true byPath inner)
    | some (.rows last earlier) =>
      (set v path false last).map fun last => scope.put name (.rows last earlier)
    | _ => none

end Scope

mutual
def Node.toItem : Node → Item
  | .value v => v
  | .table _ _ members => .table (toMembers members)
  | .rows last earlier => .list (toItems earlier ++ [.table (toMembers last)])
def toMembers : List (String × Node) → Members
  | [] => []
  | (name, node) :: rest => (name, node.toItem) :: toMembers rest
def toItems : List (List (String × Node)) → List Item
  | [] => []
  | row :: rows => toItems rows ++ [.table (toMembers row)]
end

/-- How deep lists and tables may nest, and how long a path of names may be. -/
def depthLimit : Nat := 79

def isBareChar (c : Char) : Bool := c.isAlphanum || c = '_' || c = '-'

def name? (text : List Char) : Option (String × List Char) :=
  match text with
  | '"' :: rest => (basic (text.length + 1) rest).map fun (cs, rest) => (String.ofList cs, rest)
  | '\'' :: rest => (literal rest).map fun (cs, rest) => (String.ofList cs, rest)
  | _ =>
    if (text.takeWhile isBareChar).isEmpty then none
    else some (String.ofList (text.takeWhile isBareChar), text.dropWhile isBareChar)

def path? : (fuel : Nat) → List Char → Option (List String × List Char)
  | 0, _ => none
  | fuel + 1, text => do
    let (name, rest) ← name? (skipBlank text)
    match skipBlank rest with
    | '.' :: rest =>
      let (names, rest) ← path? fuel rest
      return (name :: names, rest)
    | rest => return ([name], rest)

def skipComment (text : List Char) : List Char := text.dropWhile isVisible

def skipSpace : (fuel : Nat) → List Char → List Char
  | 0, text => text
  | fuel + 1, text =>
    match skipBlank text with
    | '#' :: rest => skipSpace fuel (skipComment rest)
    | text => match lineEnd? text with
      | some rest => skipSpace fuel rest
      | none => text

mutual
def value : (fuel depth : Nat) → List Char → Option (Item × List Char)
  | 0, _, _ => none
  | fuel + 1, depth, text =>
    match text with
    | '[' :: rest =>
      match depth with
      | 0 => none
      | depth + 1 => (items fuel depth rest).map fun (vs, rest) => (.list vs, rest)
    | '\x7b' :: rest =>
      match depth with
      | 0 => none
      | depth + 1 =>
        match skipBlank rest with
        | '\x7d' :: rest => some (.table [], rest)
        | _ => (pairs fuel depth [] rest).map fun (ms, rest) => (.table (toMembers ms), rest)
    | c :: _ =>
      if c = '"' ∨ c = '\'' then
        (quoted? text).map fun (cs, rest) => (.text (String.ofList cs), rest)
      else plain? text
    | [] => none
def items : (fuel depth : Nat) → List Char → Option (List Item × List Char)
  | 0, _, _ => none
  | fuel + 1, depth, text =>
    match skipSpace (text.length + 1) text with
    | ']' :: rest => some ([], rest)
    | text => do
      let (v, rest) ← value fuel depth text
      match skipSpace (rest.length + 1) rest with
      | ']' :: rest => return ([v], rest)
      | ',' :: rest =>
        let (vs, rest) ← items fuel depth rest
        return (v :: vs, rest)
      | _ => none
def pairs : (fuel depth : Nat) → Scope → List Char → Option (Scope × List Char)
  | 0, _, _, _ => none
  | fuel + 1, depth, scope, text => do
    let (names, rest) ← path? (depthLimit + 1) text
    let rest ← after? '=' rest
    let (v, rest) ← value fuel depth (skipBlank rest)
    let scope ← scope.set v names true
    match skipBlank rest with
    | '\x7d' :: rest => return (scope, rest)
    | ',' :: rest => pairs fuel depth scope rest
    | _ => none
end

/-- A document while it is read: what is known so far, and the path of the open table. -/
structure Draft where
  root : Scope
  current : List String

def statement (draft : Draft) (text : List Char) : Option (Draft × List Char) :=
  match text with
  | '[' :: '[' :: rest => do
    let (names, rest) ← path? (depthLimit + 1) rest
    let rest ← after? ']' (← after? ']' rest)
    let root ← draft.root.within (Scope.openRow (names.getLastD "")) names.dropLast
    return (⟨root, names⟩, rest)
  | '[' :: rest => do
    let (names, rest) ← path? (depthLimit + 1) rest
    let rest ← after? ']' rest
    let root ← draft.root.within (Scope.openTable (names.getLastD "")) names.dropLast
    return (⟨root, names⟩, rest)
  | _ => do
    let (names, rest) ← path? (depthLimit + 1) text
    let rest ← after? '=' rest
    let (v, rest) ← value (2 * rest.length + 2) depthLimit (skipBlank rest)
    let root ← draft.root.within (fun scope => scope.set v names true) draft.current
    return (⟨root, draft.current⟩, rest)

/-- Reads statements up to the end of the text. Nothing but blanks and a comment may follow one on its
line. -/
def statements : (fuel : Nat) → Draft → List Char → Option Draft
  | 0, _, _ => none
  | fuel + 1, draft, text =>
    match skipSpace (text.length + 1) text with
    | [] => some draft
    | text => do
      let (draft, rest) ← statement draft text
      match skipBlank rest with
      | [] => some draft
      | '#' :: rest => statements fuel draft (← lineEndOrEnd (skipComment rest))
      | rest => statements fuel draft (← lineEnd? rest)
where
  lineEndOrEnd : List Char → Option (List Char)
    | [] => some []
    | text => lineEnd? text

def parse (text : String) : Option Members :=
  let cs := match text.toList with
    | '\ufeff' :: rest => rest
    | cs => cs
  (statements (cs.length + 1) ⟨[], []⟩ cs).map fun draft => toMembers draft.root

end LocalFleet.Toml
