import LocalFleet.Run.Plan

/-! Carrying plans out on a clock of milliseconds. Nothing takes time but the answers of the fleet and
the intervals between checks. A run may be stopped at an instant: whatever waits then is given up at
that instant, and nothing that can be given up is begun any more. -/

namespace LocalFleet

inductive Event where
  | asked (inquiry : Inquiry)
  | installed
  | entered (phase : Phase)
  | ready
  | failed (e : Error)
  | published (path : String)
  deriving DecidableEq

structure Dated where
  time : Nat
  event : Event

structure World (σ : Type) where
  now : Nat
  fleet : σ
  files : Files.Tree
  printed : List String
  wallets : Nat
  /-- what happened, the latest first -/
  log : List Dated

namespace World

variable {σ : Type}

def note (w : World σ) (event : Event) : World σ := { w with log := ⟨w.now, event⟩ :: w.log }

def history (w : World σ) : List Dated := w.log.reverse

end World

/-- Everything that answers a run and is not changed by it. -/
structure Surroundings (σ : Type) where
  fleet : Fleet σ
  cwd : Files.Place
  /-- the second since 1970 at an instant -/
  clock : Nat → UInt64
  wallet : (nameLength number : Nat) → Wallet

namespace Surroundings

variable {σ : Type} (env : Surroundings σ) (stopAt : Option Nat)

def inquire (inquiry : Inquiry) (w : World σ) : Response σ inquiry.Answer × World σ :=
  let r := env.fleet inquiry w.fleet
  (r, { w.note (.asked inquiry) with fleet := r.state })

def uninterrupted (inquiry : Inquiry) (w : World σ) : Result inquiry.Answer × World σ :=
  let (r, w) := env.inquire inquiry w
  (r.answer, { w with now := w.now + r.latency })

/-- An inquiry that is given up when the run is stopped, and not begun after that. -/
def guarded (what : String) (inquiry : Inquiry) (w : World σ) : Result inquiry.Answer × World σ :=
  if reached stopAt w.now then (.error (.abandoned what), w)
  else
    let (r, w) := env.inquire inquiry w
    let ended := w.now + r.latency
    if r.latency ≠ 0 ∧ reached stopAt ended then
      (.error (.abandoned what), { w with now := stopAt.getD ended })
    else (r.answer, { w with now := ended })

/-- Waits for the fleet, so many milliseconds at most. An answer at the last instant counts. -/
def awaitHealth (what : String) (limit : UInt64) (w : World σ) : Result Unit × World σ :=
  if reached stopAt w.now then (.error (.abandoned what), w)
  else
    let (r, w) := env.inquire .waitHealthy w
    let ended := w.now + r.latency
    let deadline := w.now + limit.toNat
    if r.latency ≠ 0 ∧ reached stopAt (min ended deadline) then
      (.error (.abandoned what), { w with now := stopAt.getD ended })
    else if r.latency ≠ 0 ∧ deadline < ended then
      (.error (.cluster (.healthTimeout (.ofMilliseconds limit.toNat))), { w with now := deadline })
    else (r.answer, { w with now := ended })

def attempt (node : NodeSpec) (c : Call) (enough : c.Answer → Bool) (now : Nat) (w : World σ) :
    Attempt c.Answer × World σ :=
  let (r, w) := env.inquire (.call node c) { w with now }
  match r.answer with
  | .ok a => (⟨r.latency, if enough a then some a else none⟩, w)
  | .error _ => (⟨r.latency, none⟩, w)

/-- Answers a question; no answer if a number left its range. -/
def answer : (q : Question) → World σ → Option q.Answer × World σ
  | .launch spec, w =>
    let (r, w) := env.uninterrupted (.launch spec) w
    (some r, w)
  | .install, w => (some (), w.note .installed)
  | .checkpoint after, w =>
    (some (if reached stopAt w.now then .error (.abandoned after) else .ok ()), w)
  | .awaitHealth what limit, w =>
    let (r, w) := env.awaitHealth stopAt what limit w
    (some r, w)
  | .listNodes what, w =>
    let (r, w) := env.guarded stopAt what .listNodes w
    (some r, w)
  | .call what node c, w =>
    let (r, w) := env.guarded stopAt what (.call node c) w
    (some r, w)
  | .await what pace node c enough, w =>
    match Poll.run pace stopAt (env.attempt node c enough) w.now w with
    | none => (none, w)
    | some ending => (some (ending.outcome.toResult what), { ending.state with now := ending.time })
  | .clock, w => (some (env.clock w.now), w)
  | .readFile path, w =>
    (some ((w.files.read (Files.place env.cwd path)).mapError IoCause.system), w)
  | .newWallets count nameLength, w =>
    (some ((List.range count).map fun i => env.wallet nameLength (w.wallets + i)),
      { w with wallets := w.wallets + count })
  | .enter phase, w => (some (), w.note (.entered phase))
  | .announceReady, w => (some (), w.note .ready)
  | .publish path record, w =>
    match record.writeAndEcho env.cwd path w.files with
    | (files, .error e) => (some (.error e), { w with files })
    | (files, .ok (_, text)) =>
      (some (.ok ()), { w with files, printed := w.printed ++ [text] }.note (.published path))
  | .report e, w =>
    (some (), if e.isCancelled ∨ reached stopAt w.now then w else w.note (.failed e))

def run {α : Type} : Plan α → World σ → Option α × World σ
  | .done a, w => (some a, w)
  | .overflow, w => (none, w)
  | .ask q next, w =>
    match env.answer stopAt q w with
    | (none, w) => (none, w)
    | (some a, w) => run (next a) w

end Surroundings

end LocalFleet
