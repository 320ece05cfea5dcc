import LocalFleet.Cli.Machine

/-! The command line program. It reads what it needs of the machine, has the command carried out, and
makes the changes that come of it. It starts no processes and opens no connections: to it every program
runs on without being reached, and no request is answered. -/

namespace LocalFleet.Main

def entries (raw : Bytes) : List Bytes :=
  match raw with
  | [] => []
  | b :: rest =>
    if b = 0 then [] :: entries rest
    else match entries rest with
      | [] => [[b]]
      | e :: es => (b :: e) :: es

def environment (raw : Bytes) : Settings.Environment :=
  (entries raw).filterMap fun e => do
    let (name, value) ← Cli.assignment? (← Json.ofUtf8? e).toList
    return (String.ofList name, String.ofList value)

/-- Notes what lies at a place and below it; only a wanted file is read. -/
partial def survey (wanted : List Files.Place) (p : Files.Place) (t : Files.Tree) : IO Files.Tree := do
  let path := (← IO.currentDir) / Path.ofPieces p
  if ← path.isDir then
    let mut t := t.put p .dir
    for entry in ← path.readDir do
      t ← survey wanted (p ++ [entry.fileName]) t
    return t
  else if ← path.pathExists then
    let content ← if wanted.contains p then IO.FS.readBinFile path else pure .empty
    return t.put p (.file content.toList 0o644)
  else return t

def surveyWay (p : Files.Place) (t : Files.Tree) : IO Files.Tree := do
  let mut t := t
  for n in List.range p.length do
    let above := p.take n
    let path := (← IO.currentDir) / Path.ofPieces above
    if above ≠ [] then
      if ← path.isDir then t := t.put above .dir
      else if ← path.pathExists then t := t.put above (.file [] 0o644)
  return t

/-- The files and directories that a command works on, as far as its arguments say. -/
def named : Cli.Command → List String
  | .run flags => flags.config.toList
  | .createCerts dir _ => [dir]
  | .createScript spec => [spec.dbDir, spec.certsDir, spec.scriptPath]
  | .transfer .. => []

def namedBy (s : Settings) : List String :=
  s.cluster.logDir.toList ++ s.subnet.genesisPath.toList ++ s.output.path.toList ++ [s.cluster.binary]

def surveyAll (cwd : Files.Place) (paths : List String) (t : Files.Tree) : IO Files.Tree := do
  let places := (paths.map (Files.place cwd)).flatMap fun p =>
    [p, p.dropLast ++ [p.getLastD "" ++ Settings.ending]]
  let mut t := t
  for p in places do
    t ← surveyWay p t
  for p in places do
    if p ≠ [] then t ← survey places p t
  return t

def access (bits : Nat) : IO.AccessRight :=
  ⟨bits &&& 4 ≠ 0, bits &&& 2 ≠ 0, bits &&& 1 ≠ 0⟩

def rights (mode : Nat) : IO.FileRight :=
  ⟨access (mode / 64 % 8), access (mode / 8 % 8), access (mode % 8)⟩

def store (before after : Files.Tree) : IO Unit := do
  for (p, e) in before.entries.reverse do
    if after.get? p = none then
      match e with
      | .dir => IO.FS.removeDirAll (Path.ofPieces p)
      | .file .. => if ← ((← IO.currentDir) / Path.ofPieces p).pathExists then IO.FS.removeFile (Path.ofPieces p)
  for (p, e) in after.entries do
    if before.get? p ≠ some e then
      match e with
      | .dir => IO.FS.createDirAll (Path.ofPieces p)
      | .file content mode =>
        IO.FS.writeBinFile (Path.ofPieces p) ⟨content.toArray⟩
        IO.setAccessRights (Path.ofPieces p) (rights mode)

def identity (seed : Bytes) (number : Nat) : Identity :=
  let part (name : String) : Bytes := (Sha256.digest (seed ++ Text.bytes s!"{name} {number}")).val
  ⟨part "certificate", part "key", nodeId (part "certificate")⟩

def wallet (seed : Bytes) (nameLength number : Nat) : Wallet :=
  let digest := Sha256.digest (seed ++ Text.bytes s!"wallet {number}")
  let draws := BigEndian.decode (Sha256.digest digest.val).val
  .new (Name.ofDraws ((List.range nameLength).map fun i => draws / Nat.pow 36 (i % 40) + i)) ⟨digest⟩

def machine : IO Cli.Machine := do
  let env := environment (← IO.FS.readBinFile "/proc/self/environ").toList
  let seed := (← IO.getRandomBytes 32).toList
  let started ← ((← IO.currentDir) / "/proc/self").metadata
  let stat ← IO.FS.readFile "/proc/self/stat"
  let cwd := Files.place [] (← IO.currentDir).toString
  let files ← surveyWay cwd .empty
  return {
    files := files.put cwd .dir
    cwd
    environment := env
    tempDir := (env.get? "TMPDIR").getD "/tmp"
    identity := identity seed
    program := fun _ => ⟨none, .code 0⟩
    deliver := fun base r => .error s!"error sending request for url ({base}{r.path})"
    clock := fun now => .ofInt (started.modified.sec + now / 1000)
    pid := .ofNat ((Decimal.nat? (stat.toList.takeWhile (· ≠ ' '))).getD 0)
    draw := fun i => BigEndian.decode (Sha256.digest (seed ++ BigEndian.encode 8 i)).val
    wallet := wallet seed }

def prepared (command : Cli.Command) : IO Cli.Machine := do
  let m ← machine
  let files ← surveyAll m.cwd ((m.environment.get? "CONFIG_PATH").toList ++ named command) m.files
  let m := { m with files }
  match command with
  | .run flags =>
    match m.runSettings flags with
    | .error _ => return m
    | .ok s => return { m with files := ← surveyAll m.cwd (namedBy s) m.files }
  | _ => return m

def run (arguments : List String) : IO UInt32 := do
  match Cli.Command.parse? arguments with
  | none =>
    IO.eprintln "error: the arguments are not understood"
    return 2
  | some command =>
    let m ← prepared command
    let outcome := m.perform command
    store m.files outcome.files
    IO.print outcome.output
    IO.eprint outcome.errors
    return .ofNat outcome.exitCode

end LocalFleet.Main

def main (arguments : List String) : IO UInt32 := LocalFleet.Main.run arguments
