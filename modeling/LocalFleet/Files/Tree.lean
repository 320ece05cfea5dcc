import LocalFleet.Bytes
import LocalFleet.Files.Fault
import LocalFleet.Text.Utf8

/-! A tree of directories and files without links, and what the operations on it change, for a process that no
permissions and no limits of the system hold back. Writing is split into the single steps that the system carries out one after
another, so that every state between them can be spoken of. -/

namespace LocalFleet.Files

/-- The components of a place below the root, in order; the root itself has none. -/
abbrev Place := List String

inductive Entry where
  | dir
  | file (content : Bytes) (mode : Nat)
  deriving DecidableEq, Repr

/-- What lies where; the root is always a directory. -/
structure Tree where
  entries : List (Place × Entry)
  deriving Repr

def names (path : String) : List String :=
  ((Text.splitOn '/' path.toList).map String.ofList).filter fun part => part ≠ "" ∧ part ≠ "."

def origin (cwd : Place) (path : String) : Place := if path.toList.head? = some '/' then [] else cwd

/-- Where a name leads from a place; `..` leads to the directory above. -/
def enter (here : Place) (name : String) : Place := if name = ".." then here.dropLast else here ++ [name]

def place (cwd : Place) (path : String) : Place := (names path).foldl enter (origin cwd path)

def wayFrom (here : Place) : List String → List Place
  | [] => []
  | name :: rest => enter here name :: wayFrom (enter here name) rest

def way (cwd : Place) (path : String) : List Place := wayFrom (origin cwd path) (names path)

namespace Tree

def empty : Tree := ⟨[]⟩

def get? (t : Tree) (p : Place) : Option Entry :=
  if p = [] then some .dir else (t.entries.find? (·.1 = p)).map Prod.snd

/-- Puts an entry at a place, over what was there. -/
def put (t : Tree) (p : Place) (e : Entry) : Tree :=
  ⟨t.entries.filter (·.1 ≠ p) ++ [(p, e)]⟩

def remove (t : Tree) (p : Place) : Tree := ⟨t.entries.filter fun entry => !p.isPrefixOf entry.1⟩

/-- What lies at a place; the way there leads through directories. -/
def locateFrom (t : Tree) (done : Place) : List String → Except Fault (Option Entry)
  | [] => .ok (t.get? done)
  | name :: rest =>
    match t.get? done with
    | some .dir => locateFrom t (done ++ [name]) rest
    | some (.file ..) => .error .notADirectory
    | none => .error .notFound

def locate (t : Tree) (p : Place) : Except Fault (Option Entry) := locateFrom t [] p

def exists? (t : Tree) (p : Place) : Bool :=
  match t.locate p with
  | .ok (some _) => true
  | _ => false

def read (t : Tree) (p : Place) : Except Fault Bytes :=
  match t.locate p with
  | .error fault => .error fault
  | .ok none => .error .notFound
  | .ok (some .dir) => .error .isADirectory
  | .ok (some (.file content _)) => .ok content

/-- Whether a way leads, through directories, to something that exists. -/
def leads (t : Tree) : List Place → Bool
  | [] => true
  | [here] => (t.get? here).isSome
  | here :: next :: rest => t.get? here = some .dir && t.leads (next :: rest)

/-- The part of a way from the first missing place on; what is before is to be directories. -/
def missing (t : Tree) : List Place → Except Fault (List Place)
  | [] => .ok []
  | here :: rest =>
    match t.get? here with
    | some .dir => t.missing rest
    | some (.file ..) => .error (if rest = [] then .alreadyExists else .notADirectory)
    | none => .ok (here :: rest)

def traverse (t : Tree) : List Place → Except Fault Unit
  | [] => .ok ()
  | here :: rest =>
    match t.get? here with
    | some .dir => t.traverse rest
    | some (.file ..) => .error .notADirectory
    | none => .error .notFound

end Tree

/-- A change that the system makes as one. -/
inductive Step where
  /-- makes a directory, unless it is there -/
  | makeDir (at_ : Place)
  /-- opens a file for writing from its start: an absent one is made with the mode, another is cut to
  nothing and keeps its permissions -/
  | truncate (at_ : Place) (mode : Nat)
  /-- opens a file for writing at its end: an absent one is made with the mode -/
  | extend (at_ : Place) (mode : Nat)
  | setMode (at_ : Place) (mode : Nat)
  | append (at_ : Place) (content : Bytes)
  deriving DecidableEq, Repr

/-- The permissions that a mode stands for; its other bits are passed over. -/
def permissions (mode : Nat) : Nat := mode &&& 0o7777

/-- The permissions that a new file gets for a wished mode: group and others may not write. -/
def maskedMode (mode : Nat) : Nat := mode &&& 0o7755

namespace Step

/-- Opening a file for writing, where `cut` is applied to what it holds. -/
def openFile (t : Tree) (p : Place) (mode : Nat) (cut : Bytes → Bytes) : Except Fault Tree :=
  match t.locate p with
  | .error fault => .error fault
  | .ok none => .ok (t.put p (.file [] (maskedMode mode)))
  | .ok (some .dir) => .error .isADirectory
  | .ok (some (.file content old)) => .ok (t.put p (.file (cut content) old))

def apply (t : Tree) : Step → Except Fault Tree
  | makeDir p =>
    match t.locate p with
    | .error fault => .error fault
    | .ok (some (.file ..)) => .error .alreadyExists
    | .ok (some .dir) => .ok t
    | .ok none => .ok (t.put p .dir)
  | truncate p mode => openFile t p mode fun _ => []
  | extend p mode => openFile t p mode id
  | setMode p mode =>
    match t.read p with
    | .error fault => .error fault
    | .ok content => .ok (t.put p (.file content (permissions mode)))
  | append p more =>
    match t.get? p with
    | some (.file content mode) => .ok (t.put p (.file (content ++ more) mode))
    | _ => .error .notFound

def states (t : Tree) : List Step → List Tree
  | [] => []
  | s :: ss =>
    match s.apply t with
    | .error _ => []
    | .ok t' => t' :: states t' ss

/-- The state after all steps, or why one of them failed, with the state at that moment. -/
def run (t : Tree) : List Step → Tree × Except Fault Unit
  | [] => (t, .ok ())
  | s :: ss =>
    match s.apply t with
    | .error fault => (t, .error fault)
    | .ok t' => run t' ss

end Step

def createDirSteps (t : Tree) (way : List Place) : Except Fault (List Step) :=
  (t.missing way).map (·.map Step.makeDir)

/-- The steps that make the directories which the way to a file leads through, if the last of them does not
exist. -/
def createParentSteps (t : Tree) (way : List Place) : Except Fault (List Step) :=
  if t.leads way.dropLast then .ok [] else createDirSteps t way.dropLast

/-- The steps that write the file at the end of a way, the content arriving in the given pieces: the
permissions are set while the file is empty. -/
def writeSteps (t : Tree) (way : List Place) (pieces : List Bytes) (mode : Nat) :
    Except Fault (List Step) := do
  let parents ← createParentSteps t way
  let p := way.getLast?.getD []
  return parents ++ Step.truncate p mode :: Step.setMode p mode :: pieces.map (Step.append p)

def carryOut (t : Tree) : Except Fault (List Step) → Tree × Except Fault Unit
  | .error fault => (t, .error fault)
  | .ok steps => Step.run t steps

def createDirAll (t : Tree) (p : Place) : Tree × Except Fault Unit :=
  carryOut t (createDirSteps t (wayFrom [] p))

/-- Writes a file with exactly these permissions; an existing file is cut to nothing first. -/
def writeAlong (t : Tree) (way : List Place) (content : Bytes) (mode : Nat) : Tree × Except Fault Unit :=
  carryOut t (writeSteps t way [content] mode)

def writeWithMode (t : Tree) (p : Place) (content : Bytes) (mode : Nat) : Tree × Except Fault Unit :=
  writeAlong t (wayFrom [] p) content mode

def appendAlong (t : Tree) (way : List Place) (content : Bytes) : Tree × Except Fault Unit :=
  carryOut t do
    let parents ← createParentSteps t way
    let p := way.getLast?.getD []
    return parents ++ [.extend p 0o666, .append p content]

def writePlain (t : Tree) (p : Place) (content : Bytes) : Tree × Except Fault Unit :=
  Step.run t [.truncate p 0o666, .append p content]

/-- Makes a directory empty: what is there is taken away, and the directory is made again. -/
def resetDir (t : Tree) (p : Place) : Tree × Except Fault Unit :=
  match t.locate p with
  | .ok (some (.file ..)) => (t, .error .notADirectory)
  | .ok (some .dir) => createDirAll (t.remove p) p
  | _ => createDirAll t p

def namesDirectory (path : String) : Bool :=
  match ((Text.splitOn '/' path.toList).getLast?).getD [] with
  | [] | ['.'] | ['.', '.'] => true
  | _ => false

/-- Whether a text has the character that ends texts for the system. -/
def hasEnd (text : String) : Bool := text.toList.any (· = '\x00')

def namesFile (path : String) : Bool := !hasEnd path && !namesDirectory path

/-- The names in a path before its last part, where separators at the end and dots are parts too. -/
def leadingNames (path : String) : List String :=
  let parts := (Text.splitOn '/' path.toList).reverse.dropWhile (· = [])
  (parts.tail.reverse.map String.ofList).filter fun part => part ≠ "" ∧ part ≠ "."

/-- Why a path that can name no file is not opened for writing. -/
def refusal (t : Tree) (cwd : Place) (path : String) : Fault :=
  if hasEnd path then .invalidInput
  else if path = "" then .notFound
  else match t.traverse (wayFrom (origin cwd path) (leadingNames path)) with
    | .error fault => fault
    | .ok () => .isADirectory

def createParentAt (t : Tree) (cwd : Place) (path : String) : Tree × Except Fault Unit :=
  if (names path).dropLast.any hasEnd then (t, .error .invalidInput)
  else carryOut t (createParentSteps t (way cwd path))

/-- Carries out an operation on the file that a path leads to. For a path that can name no file only the
directories are made before it is refused. -/
def onFile (t : Tree) (cwd : Place) (path : String)
    (operate : Tree → List Place → Tree × Except Fault Unit) : Tree × Except Fault Unit :=
  if namesFile path then operate t (way cwd path)
  else
    let (t, made) := createParentAt t cwd path
    (t, made.bind fun _ => .error (refusal t cwd path))

def writeAt (t : Tree) (cwd : Place) (path : String) (content : Bytes) (mode : Nat) :
    Tree × Except Fault Unit :=
  onFile t cwd path fun t way => writeAlong t way content mode

def appendAt (t : Tree) (cwd : Place) (path : String) (content : Bytes) : Tree × Except Fault Unit :=
  onFile t cwd path fun t way => appendAlong t way content

end LocalFleet.Files
