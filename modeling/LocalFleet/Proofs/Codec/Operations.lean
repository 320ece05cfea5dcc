import LocalFleet.Proofs.Codec.Bounds

/-! Operations on a reader, one after another, whatever they ask for and whether or not they are refused.
A reader never leaves its buffer, what it gave is all that lies behind it, and a refusal costs it nothing;
and fields that were written are read back by operations of their widths. -/

namespace LocalFleet.Codec

/-- A word or a byte string, written at once. -/
inductive Field where
  | u16 (v : UInt16)
  | u32 (v : UInt32)
  | u64 (v : UInt64)
  | bytes (content : Bytes)
  deriving DecidableEq, Repr

def Field.write : Field → Bytes
  | u16 v => Codec.u16 v
  | u32 v => Codec.u32 v
  | u64 v => Codec.u64 v
  | bytes content => content

def written (fields : List Field) : Bytes := fields.flatMap Field.write

theorem written_cons (f : Field) (fields : List Field) : written (f :: fields) = f.write ++ written fields :=
  List.flatMap_cons

namespace Reader

inductive Operation where
  | take (n : UInt64)
  | array (n : UInt64)
  | u16
  | u32
  | u64
  | position
  deriving DecidableEq, Repr

inductive Answer where
  | field (f : Field)
  | position (p : Nat)
  deriving DecidableEq, Repr

def Answer.bytes : Answer → Bytes
  | field f => f.write
  | position _ => []

def gathered (answers : List (Except EncodingError Answer)) : Bytes :=
  answers.flatMap fun
    | .ok a => a.bytes
    | .error _ => []

theorem gathered_cons_ok (a : Answer) (answers : List (Except EncodingError Answer)) :
    gathered (.ok a :: answers) = a.bytes ++ gathered answers := rfl

theorem gathered_cons_error (e : EncodingError) (answers : List (Except EncodingError Answer)) :
    gathered (.error e :: answers) = gathered answers := rfl

namespace Operation

def width : Operation → Nat
  | take n | array n => n.toNat
  | u16 => 2
  | u32 => 4
  | u64 => 8
  | position => 0

def perform : Operation → Reader → Outcome Answer
  | take n, r => (r.take n.toNat).andThen fun content => .read (.field (.bytes content))
  | array n, r => (r.array n.toNat).andThen fun o => .read (.field (.bytes o.val))
  | u16, r => (Read.u16.perform r).andThen fun v => .read (.field (.u16 v))
  | u32, r => (Read.u32.perform r).andThen fun v => .read (.field (.u32 v))
  | u64, r => (Read.u64.perform r).andThen fun v => .read (.field (.u64 v))
  | position, r => .read (.position r.pos) r

/-- What an operation answers at position `p` of a buffer that has bytes enough. -/
def answer (b : Bytes) (p : Nat) : Operation → Answer
  | take n | array n => .field (.bytes (slice b p n.toNat))
  | u16 => .field (.u16 (UInt16.ofNat (number b p 2)))
  | u32 => .field (.u32 (UInt32.ofNat (number b p 4)))
  | u64 => .field (.u64 (UInt64.ofNat (number b p 8)))
  | position => .position p

variable {b : Bytes} {p : Nat}

theorem bytes_answer (op : Operation) (h : p + op.width ≤ b.length) :
    (op.answer b p).bytes = slice b p op.width := by
  cases op with
  | take n | array n => rfl
  | u16 => exact u16_number h
  | u32 => exact u32_number h
  | u64 => exact u64_number h
  | position => exact List.take_zero.symm

theorem perform_of_le (op : Operation) (hb : b.length < limit) (h : p + op.width ≤ b.length) :
    op.perform ⟨b, p⟩ = .read (op.answer b p) ⟨b, p + op.width⟩ := by
  cases op with
  | take n => exact congrArg (Outcome.andThen · _) (take_of_le hb h)
  | array n => exact congrArg (Outcome.andThen · _) (array_of_le hb h)
  | u16 | u32 | u64 => exact congrArg (Outcome.andThen · _) (Read.perform_take_of_le hb h)
  | position => rfl

theorem perform_of_lt (op : Operation) (hb : b.length < limit) (hp : p ≤ b.length)
    (h : b.length < p + op.width) : op.perform ⟨b, p⟩ = .refused (.tooShort b.length) ⟨b, p⟩ := by
  cases op with
  | take n => exact congrArg (Outcome.andThen · _) (take_of_lt hb h)
  | array n => exact congrArg (Outcome.andThen · _) (array_of_lt hb h)
  | u16 | u32 | u64 => exact congrArg (Outcome.andThen · _) (Read.perform_take_of_lt hb h)
  | position => exact absurd h (Nat.not_lt.2 hp)

/-- An operation reads a field back that asks for its width and takes the bytes for the same. -/
inductive ReadsBack : Operation → Field → Prop
  | u16 (v : UInt16) : ReadsBack .u16 (.u16 v)
  | u32 (v : UInt32) : ReadsBack .u32 (.u32 v)
  | u64 (v : UInt64) : ReadsBack .u64 (.u64 v)
  | take {n : UInt64} {content : Bytes} (h : n.toNat = content.length) : ReadsBack (.take n) (.bytes content)
  | array {n : UInt64} {content : Bytes} (h : n.toNat = content.length) :
    ReadsBack (.array n) (.bytes content)

variable {op : Operation} {f : Field}

theorem ReadsBack.width_eq (h : ReadsBack op f) : op.width = f.write.length := by
  cases h with
  | u16 v => exact (length_u16 v).symm
  | u32 v => exact (length_u32 v).symm
  | u64 v => exact (length_u64 v).symm
  | take h | array h => exact h

theorem ReadsBack.answer_eq (h : ReadsBack op f) (hslice : slice b p op.width = f.write) :
    op.answer b p = .field f := by
  cases h with
  | u16 | u32 | u64 =>
    simp only [width, Field.write] at hslice
    simp only [answer, number, hslice, ofNat_decode_u16, ofNat_decode_u32, ofNat_decode_u64]
  | take | array => exact congrArg (Answer.field <| .bytes ·) hslice

end Operation

/-- The answers to operations one after another, and the reader after the last. A refusal ends nothing; bytes
out of bounds would end it all. -/
def performAll : List Operation → Reader → Option (List (Except EncodingError Answer) × Reader)
  | [], r => some ([], r)
  | op :: ops, r =>
    match op.perform r with
    | .read a r' => (performAll ops r').map fun (answers, last) => (.ok a :: answers, last)
    | .refused e r' => (performAll ops r').map fun (answers, last) => (.error e :: answers, last)
    | .outOfBounds => none

variable {b : Bytes} {p : Nat} {op : Operation} {ops : List Operation}

theorem performAll_cons_of_le (hb : b.length < limit) (h : p + op.width ≤ b.length) :
    performAll (op :: ops) ⟨b, p⟩ =
      (performAll ops ⟨b, p + op.width⟩).map fun (answers, r) => (.ok (op.answer b p) :: answers, r) := by
  rw [performAll, op.perform_of_le hb h]

theorem performAll_cons_of_lt (hb : b.length < limit) (hp : p ≤ b.length) (h : b.length < p + op.width) :
    performAll (op :: ops) ⟨b, p⟩ =
      (performAll ops ⟨b, p⟩).map fun (answers, r) => (.error (.tooShort b.length) :: answers, r) := by
  rw [performAll, op.perform_of_lt hb hp h]

theorem performAll_append (before after : List Operation) (r : Reader) :
    performAll (before ++ after) r = (performAll before r).bind fun (answers, r') =>
      (performAll after r').map fun (others, last) => (answers ++ others, last) := by
  induction before generalizing r with
  | nil => cases h : performAll after r <;> simp [performAll, h]
  | cons op before ih =>
    rw [List.cons_append, performAll, performAll]
    cases op.perform r with
    | read a r' => cases h : performAll before r' <;> simp [ih, h, Function.comp_def]
    | refused e r' => cases h : performAll before r' <;> simp [ih, h, Function.comp_def]
    | outOfBounds => rfl

/-- From any position in the buffer, operations lead on by the bytes that they gather. -/
theorem exists_performAll (hb : b.length < limit) (hp : p ≤ b.length) (ops : List Operation) :
    ∃ answers n, performAll ops ⟨b, p⟩ = some (answers, ⟨b, p + n⟩) ∧ p + n ≤ b.length ∧
      gathered answers = slice b p n := by
  induction ops generalizing p with
  | nil => exact ⟨[], 0, rfl, hp, List.take_zero.symm⟩
  | cons op ops ih =>
    -- the rest goes on from the end of what was read, or from here if the operation is refused
    by_cases h : p + op.width ≤ b.length
    · obtain ⟨answers, n, hrun, hle, hgathered⟩ := ih h
      refine ⟨.ok (op.answer b p) :: answers, op.width + n, ?_, by omega, ?_⟩
      · rw [performAll_cons_of_le hb h, hrun, Nat.add_assoc]
        rfl
      · rw [gathered_cons_ok, op.bytes_answer h, hgathered, slice_append_slice]
    · obtain ⟨answers, n, hrun, hle, hgathered⟩ := ih hp
      refine ⟨.error (.tooShort b.length) :: answers, n, ?_, hle, ?_⟩
      · rw [performAll_cons_of_lt hb hp (Nat.not_le.1 h), hrun]
        rfl
      · rw [gathered_cons_error, hgathered]

theorem performAll_singleton (hb : b.length < limit) (hp : p ≤ b.length) (op : Operation) :
    performAll [op] ⟨b, p⟩ =
      if p + op.width ≤ b.length then some ([.ok (op.answer b p)], ⟨b, p + op.width⟩)
      else some ([.error (.tooShort b.length)], ⟨b, p⟩) := by
  split
  · rename_i h
    rw [performAll_cons_of_le hb h]
    rfl
  · rename_i h
    rw [performAll_cons_of_lt hb hp (Nat.not_le.1 h)]
    rfl

/-- Behind any other bytes, fields are read back up to the end of the buffer. -/
theorem performAll_of_readsBack {fields : List Field} (h : List.Forall₂ Operation.ReadsBack ops fields)
    (before : Bytes) (hb : (before ++ written fields).length < limit) :
    performAll ops ⟨before ++ written fields, before.length⟩ = some (fields.map (.ok <| .field ·),
      ⟨before ++ written fields, (before ++ written fields).length⟩) := by
  -- a field that has been read joins the bytes before the others
  induction h generalizing before with
  | nil => simp [performAll, written]
  | @cons op f ops fields hop _ ih =>
    have hwidth := hop.width_eq
    rw [written_cons] at hb ⊢
    have hslice : slice (before ++ (f.write ++ written fields)) before.length op.width = f.write := by
      rw [hwidth, slice_append]
    have hroom : before.length + op.width ≤ (before ++ (f.write ++ written fields)).length := by
      simp only [List.length_append]
      omega
    have hrest := ih (before ++ f.write) (by rwa [List.append_assoc])
    rw [List.append_assoc, List.length_append, ← hwidth] at hrest
    rw [performAll_cons_of_le hb hroom, hop.answer_eq hslice, hrest]
    rfl

/-- Whatever is asked of a reader, it answers within its buffer: the bytes it gave, one answer after another,
are the buffer up to its position. The next operation reads just if there are bytes enough for it; otherwise
the buffer is too short, and the reader stays as it is. Fields that make up the buffer are read back to its
end. And a program that goes on from here comes to the same as by numbers without a bound. -/
theorem performAll_gathers (hb : b.length < limit) (ops : List Operation) :
    ∃ answers p, performAll ops (.start b) = some (answers, ⟨b, p⟩) ∧ p ≤ b.length ∧
      gathered answers = b.take p ∧
      (∀ op : Operation, performAll (ops ++ [op]) (.start b) =
        if p + op.width ≤ b.length then some (answers ++ [.ok (op.answer b p)], ⟨b, p + op.width⟩)
        else some (answers ++ [.error (.tooShort b.length)], ⟨b, p⟩)) ∧
      (∀ fields, written fields = b → List.Forall₂ Operation.ReadsBack ops fields →
        answers = fields.map (.ok <| .field ·) ∧ p = b.length) ∧
      ∀ (α : Type) (program : Read EncodingError α),
        (program.perform ⟨b, p⟩).result? = some (program.run .tooShort ⟨b, p⟩) := by
  obtain ⟨answers, p, hrun, hp, hgathered⟩ := exists_performAll hb (Nat.zero_le b.length) ops
  rw [Nat.zero_add] at hrun hp
  refine ⟨answers, p, hrun, hp, hgathered, fun op => ?_, ?_,
    fun α program => program.result?_perform hb p⟩
  · rw [performAll_append, start, hrun, Option.bind_some]
    simp only [performAll_singleton hb hp]
    split <;> rfl
  · rintro fields rfl hfields
    have hback := performAll_of_readsBack hfields [] hb
    simp only [List.nil_append, List.length_nil] at hback
    rw [hback] at hrun
    obtain ⟨hanswers, hr⟩ := Prod.mk.inj (Option.some.inj hrun)
    exact ⟨hanswers.symm, (Reader.mk.inj hr).2.symm⟩

/-- Two bytes are read, and then the largest length is asked for; all is read back that was written. -/
theorem performAll_gathers_specimen :
    let fields : List Field := [.u16 258, .bytes [7, 8, 9], .u64 5]
    let b := written fields
    b.length < limit ∧
      performAll [.u16, .take 0xffffffffffffffff] (.start b) =
        some ([.ok (.field (.u16 258)), .error (.tooShort 13)], ⟨b, 2⟩) ∧
      performAll [.u16, .array 3, .u64] (.start b) = some (fields.map (.ok <| .field ·), ⟨b, 13⟩) := by
  intro fields b
  have hb : b.length < limit := by decide
  have hfirst : performAll [.u16] (.start b) = some ([.ok (.field (.u16 258))], ⟨b, 2⟩) := by decide
  refine ⟨hb, ?_, ?_⟩
  · obtain ⟨answers, p, hrun, -, -, hnext, -⟩ := performAll_gathers hb [.u16]
    rw [hfirst] at hrun
    obtain ⟨rfl, hr⟩ := Prod.mk.inj (Option.some.inj hrun)
    obtain rfl : 2 = p := (Reader.mk.inj hr).2
    exact (hnext (.take 0xffffffffffffffff)).trans (if_neg (by decide))
  · obtain ⟨answers, p, hrun, -, -, -, hback, -⟩ := performAll_gathers hb [.u16, .array 3, .u64]
    obtain ⟨rfl, rfl⟩ := hback fields rfl
      (.cons (.u16 258) (.cons (.array rfl) (.cons (.u64 5) .nil)))
    exact hrun

end Reader

end LocalFleet.Codec
