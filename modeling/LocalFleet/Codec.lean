import LocalFleet.Encoding.Error

/-! The binary format of records and transactions: big-endian words and byte strings one after
another, without padding. What is written is a byte string; what is read is a program that takes bytes
from the front of a buffer. -/

namespace LocalFleet.Codec

def version : UInt16 := 0

def u16 (v : UInt16) : Bytes := BigEndian.encode 2 v.toNat

def u32 (v : UInt32) : Bytes := BigEndian.encode 4 v.toNat

def u64 (v : UInt64) : Bytes := BigEndian.encode 8 v.toNat

/-- The number of elements of the list that follows, in thirty-two bits. -/
def count (n : Nat) : Bytes := u32 (UInt32.ofNat n)

def list {α : Type} (write : α → Bytes) (xs : List α) : Bytes := count xs.length ++ xs.flatMap write

@[simp] theorem length_u16 (v : UInt16) : (u16 v).length = 2 := BigEndian.length_encode _ _
@[simp] theorem length_u32 (v : UInt32) : (u32 v).length = 4 := BigEndian.length_encode _ _
@[simp] theorem length_u64 (v : UInt64) : (u64 v).length = 8 := BigEndian.length_encode _ _
@[simp] theorem length_count (n : Nat) : (count n).length = 4 := length_u32 _

def slice (b : Bytes) (p n : Nat) : Bytes := (b.drop p).take n

/-- The largest word. Every buffer is shorter. -/
def limit : Nat := 0xffffffffffffffff

/-- The bytes from position `p` up to `q`, if these lie in order within the buffer. -/
def slice? (b : Bytes) (p q : Nat) : Option Bytes :=
  if p ≤ q ∧ q ≤ b.length then some (slice b p (q - p)) else none

structure Reader where
  buffer : Bytes
  pos : Nat
  deriving DecidableEq, Repr

namespace Reader

def start (buffer : Bytes) : Reader := ⟨buffer, 0⟩

/-- The next `n` bytes and the reader after them. Past the end of the buffer there are none, and the
position stays where it was. -/
def next? (n : Nat) (r : Reader) : Option (Octets n × Reader) :=
  if h : r.pos + n ≤ r.buffer.length then
    some (⟨(r.buffer.drop r.pos).take n, by simp; omega⟩, { r with pos := r.pos + n })
  else none

end Reader

inductive Outcome (α : Type) where
  | read (value : α) (r : Reader)
  | refused (cause : EncodingError) (r : Reader)
  /-- bytes were cut out that the buffer does not have, or copied to a place of another size -/
  | outOfBounds

namespace Outcome

variable {α β : Type}

def andThen : Outcome α → (α → Reader → Outcome β) → Outcome β
  | read a r, f => f a r
  | refused e r, _ => refused e r
  | outOfBounds, _ => outOfBounds

def result? : Outcome α → Option (Except EncodingError (α × Reader))
  | read a r => some (.ok (a, r))
  | refused e _ => some (.error e)
  | outOfBounds => none

end Outcome

namespace Reader

/-- Where the next `n` bytes end; a sum that no word holds is the largest word. -/
def stop (r : Reader) (n : Nat) : Nat := min (r.pos + n) limit

def take (n : Nat) (r : Reader) : Outcome Bytes :=
  if r.buffer.length < r.stop n then .refused (.tooShort r.buffer.length) r
  else match slice? r.buffer r.pos (r.stop n) with
    | none => .outOfBounds
    | some bytes => .read bytes { r with pos := r.stop n }

def array (n : Nat) (r : Reader) : Outcome (Octets n) :=
  (r.take n).andThen fun bytes r' =>
    match Octets.ofBytes? n bytes with
    | none => .outOfBounds
    | some o => .read o r'

end Reader

/-- A reading program. It takes the next bytes, so many at a time, and goes on with what it got, until
it ends with a value or refuses what it has read. -/
inductive Read (ε α : Type) where
  | done (value : α)
  | refuse (cause : ε)
  | take (n : Nat) (rest : Octets n → Read ε α)

namespace Read

variable {ε α β : Type}

protected def bind : Read ε α → (α → Read ε β) → Read ε β
  | done a, f => f a
  | refuse e, _ => refuse e
  | take n rest, f => take n fun o => (rest o).bind f

instance : Monad (Read ε) where
  pure := done
  bind := Read.bind

def octets (n : Nat) : Read ε (Octets n) := take n done

def u16 : Read ε UInt16 := do return UInt16.ofNat (BigEndian.decode (← octets 2).val)

def u32 : Read ε UInt32 := do return UInt32.ofNat (BigEndian.decode (← octets 4).val)

def u64 : Read ε UInt64 := do return UInt64.ofNat (BigEndian.decode (← octets 8).val)

def times (program : Read ε α) : Nat → Read ε (List α)
  | 0 => pure []
  | n + 1 => do
    let x ← program
    let xs ← times program n
    return x :: xs

def list (program : Read ε α) : Read ε (List α) := do
  let count ← u32
  times program count.toNat

/-- What a program makes of a reader: its value and the reader after it, or the cause of refusal. When
fewer bytes are left than it takes, the cause is told from the length of the whole buffer. -/
def run (short : Nat → ε) : Read ε α → Reader → Except ε (α × Reader)
  | done a, r => .ok (a, r)
  | refuse e, _ => .error e
  | take n rest, r =>
    match r.next? n with
    | none => .error (short r.buffer.length)
    | some (o, r') => (rest o).run short r'

/-- What a program makes of a reader, taking arrays. -/
def perform : Read EncodingError α → Reader → Outcome α
  | done a, r => .read a r
  | refuse e, r => .refused e r
  | take n rest, r => (r.array n).andThen fun o r' => (rest o).perform r'

end Read

end LocalFleet.Codec
