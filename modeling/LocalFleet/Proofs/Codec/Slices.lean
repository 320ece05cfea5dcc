import LocalFleet.Proofs.Codec.Reads

/-! Where a program reads. Every program goes through its buffer from the front, never asks again once
the buffer has ended, and of any one width asks no more often than the buffer has room for, and once
more. -/

namespace LocalFleet.Codec

/-- The number that the `n` bytes from position `p` on write. -/
def number (b : Bytes) (p n : Nat) : Nat := BigEndian.decode (slice b p n)

variable {b : Bytes} {p n : Nat}

theorem length_slice (h : p + n ≤ b.length) : (slice b p n).length = n := by
  simp [slice]
  omega

theorem slice_zero (b : Bytes) (n : Nat) : slice b 0 n = b.take n := rfl

theorem slice_append_slice (b : Bytes) (p n m : Nat) :
    slice b p n ++ slice b (p + n) m = slice b p (n + m) := by
  rw [slice, slice, slice, List.take_add, List.drop_drop]

theorem slice_append (before bytes after : Bytes) :
    slice (before ++ (bytes ++ after)) before.length bytes.length = bytes := by
  simp [slice]

theorem number_lt (h : p + n ≤ b.length) : number b p n < 256 ^ n := by
  have hlt := BigEndian.decode_lt (slice b p n)
  rwa [length_slice h] at hlt

theorem encode_number (h : p + n ≤ b.length) : BigEndian.encode n (number b p n) = slice b p n := by
  have hencode := BigEndian.encode_decode (slice b p n)
  rwa [length_slice h] at hencode

theorem toNat_number_u16 (h : p + 2 ≤ b.length) : (UInt16.ofNat (number b p 2)).toNat = number b p 2 :=
  UInt16.toNat_ofNat_of_lt' (number_lt h)

theorem toNat_number_u32 (h : p + 4 ≤ b.length) : (UInt32.ofNat (number b p 4)).toNat = number b p 4 :=
  UInt32.toNat_ofNat_of_lt' (number_lt h)

theorem toNat_number_u64 (h : p + 8 ≤ b.length) : (UInt64.ofNat (number b p 8)).toNat = number b p 8 :=
  UInt64.toNat_ofNat_of_lt' (number_lt h)

theorem u16_number (h : p + 2 ≤ b.length) : u16 (UInt16.ofNat (number b p 2)) = slice b p 2 := by
  rw [u16, toNat_number_u16 h, encode_number h]

theorem u32_number (h : p + 4 ≤ b.length) : u32 (UInt32.ofNat (number b p 4)) = slice b p 4 := by
  rw [u32, toNat_number_u32 h, encode_number h]

theorem u64_number (h : p + 8 ≤ b.length) : u64 (UInt64.ofNat (number b p 8)) = slice b p 8 := by
  rw [u64, toNat_number_u64 h, encode_number h]

namespace Read

variable {ε α β : Type}

theorem octets_bind (n : Nat) (f : Octets n → Read ε α) : octets n >>= f = take n f := rfl

theorem u16_bind (f : UInt16 → Read ε α) :
    u16 >>= f = take 2 fun o => f (UInt16.ofNat (BigEndian.decode o.val)) := rfl

theorem u32_bind (f : UInt32 → Read ε α) :
    u32 >>= f = take 4 fun o => f (UInt32.ofNat (BigEndian.decode o.val)) := rfl

theorem u64_bind (f : UInt64 → Read ε α) :
    u64 >>= f = take 8 fun o => f (UInt64.ofNat (BigEndian.decode o.val)) := rfl

variable {short : Nat → ε}

theorem run_take_of_le {rest : Octets n → Read ε α} (h : p + n ≤ b.length) :
    (take n rest).run short ⟨b, p⟩ = (rest ⟨slice b p n, length_slice h⟩).run short ⟨b, p + n⟩ := by
  simp only [run, Reader.next?, dif_pos h]
  rfl

theorem run_take_of_lt {rest : Octets n → Read ε α} (h : b.length < p + n) :
    (take n rest).run short ⟨b, p⟩ = .error (short b.length) := by
  simp only [run, Reader.next?, dif_neg (Nat.not_le.2 h)]

theorem run_take_of_rest {rest : Octets n → Read ε α}
    (h : ∀ hle : p + n ≤ b.length,
      (rest ⟨slice b p n, length_slice hle⟩).run short ⟨b, p + n⟩ = .error (short b.length)) :
    (take n rest).run short ⟨b, p⟩ = .error (short b.length) := by
  by_cases hle : p + n ≤ b.length
  · rw [run_take_of_le hle, h hle]
  · exact run_take_of_lt (Nat.not_le.1 hle)

theorem run_times_of_le {c : Nat} (h : p + n * c ≤ b.length) : ∃ os : List (Octets n),
    os.length = c ∧ os.flatMap Subtype.val = slice b p (n * c) ∧
      (times (octets n) c).run short ⟨b, p⟩ = .ok (os, ⟨b, p + n * c⟩) := by
  induction c generalizing p with
  | zero => exact ⟨[], rfl, by simp [slice], rfl⟩
  | succ c ih =>
    have hsum : n * (c + 1) = n + n * c := by rw [Nat.mul_succ, Nat.add_comm]
    have hfirst : p + n ≤ b.length := by omega
    have hrest : p + n + n * c ≤ b.length := by omega
    obtain ⟨os, hlength, hbytes, hrun⟩ := ih hrest
    refine ⟨⟨slice b p n, length_slice hfirst⟩ :: os, by simp [hlength], ?_, ?_⟩
    · rw [List.flatMap_cons, hbytes, slice_append_slice, hsum]
    · rw [times, octets_bind, run_take_of_le hfirst, run_bind, hrun, hsum, Nat.add_assoc]
      rfl

theorem run_times_of_lt {c : Nat} (hp : p ≤ b.length) (h : b.length < p + n * c) :
    (times (octets n) c).run short ⟨b, p⟩ = .error (short b.length) := by
  induction c generalizing p with
  | zero => omega
  | succ c ih =>
    have hsum : n * (c + 1) = n + n * c := by rw [Nat.mul_succ, Nat.add_comm]
    rw [times, octets_bind]
    refine run_take_of_rest fun hle => ?_
    rw [run_bind, ih hle (by omega)]
    rfl

/-- A list that the buffer has room for: its bytes are those that would be written for it. -/
theorem run_list_of_le (h : p + (4 + n * number b p 4) ≤ b.length) : ∃ os : List (Octets n),
    os.length = number b p 4 ∧ Codec.list Subtype.val os = slice b p (4 + n * number b p 4) ∧
      (list (octets n)).run short ⟨b, p⟩ = .ok (os, ⟨b, p + (4 + n * number b p 4)⟩) := by
  have hcount : p + 4 ≤ b.length := by omega
  have hfit : p + 4 + n * number b p 4 ≤ b.length := by omega
  obtain ⟨os, hlength, hbytes, hrun⟩ := run_times_of_le hfit
  refine ⟨os, hlength, ?_, ?_⟩
  · rw [Codec.list, hlength, hbytes, count, u32_number hcount, slice_append_slice]
  · rw [list, u32_bind, run_take_of_le hcount]
    show (times (octets n) (UInt32.ofNat (number b p 4)).toNat).run short ⟨b, p + 4⟩ = _
    rw [toNat_number_u32 hcount, hrun, Nat.add_assoc]

theorem run_list_of_lt (h : b.length < p + (4 + n * number b p 4)) :
    (list (octets n)).run short ⟨b, p⟩ = .error (short b.length) := by
  rw [list, u32_bind]
  refine run_take_of_rest fun hcount => ?_
  show (times (octets n) (UInt32.ofNat (number b p 4)).toNat).run short ⟨b, p + 4⟩ = _
  rw [toNat_number_u32 hcount]
  exact run_times_of_lt hcount (by omega)

/-- A place in a buffer where a program asks for bytes, and for how many. -/
structure Ask where
  pos : Nat
  length : Nat
  deriving DecidableEq, Repr

/-- All that a program asks for, in order. The bytes that are not there are the last it asks for. -/
def asks : Read ε α → Reader → List Ask
  | done _, _ => []
  | refuse _, _ => []
  | take n rest, r =>
    ⟨r.pos, n⟩ :: match r.next? n with
      | none => []
      | some (o, r') => (rest o).asks r'

theorem asks_take_of_le {rest : Octets n → Read ε α} (h : p + n ≤ b.length) :
    (take n rest).asks ⟨b, p⟩ = ⟨p, n⟩ :: (rest ⟨slice b p n, length_slice h⟩).asks ⟨b, p + n⟩ := by
  simp only [asks, Reader.next?, dif_pos h]
  rfl

theorem asks_take_of_lt {rest : Octets n → Read ε α} (h : b.length < p + n) :
    (take n rest).asks ⟨b, p⟩ = [⟨p, n⟩] := by
  simp only [asks, Reader.next?, dif_neg (Nat.not_le.2 h)]

theorem within_of_mem_dropLast_asks (program : Read ε α) (p : Nat) {ask : Ask}
    (h : ask ∈ (program.asks ⟨b, p⟩).dropLast) : ask.pos + ask.length ≤ b.length := by
  induction program generalizing p with
  | done => simp [asks] at h
  | refuse => simp [asks] at h
  | take n rest ih =>
    by_cases hle : p + n ≤ b.length
    · rw [asks_take_of_le hle] at h
      cases hrest : (rest ⟨slice b p n, length_slice hle⟩).asks ⟨b, p + n⟩ with
      | nil => simp [hrest] at h
      | cons next others =>
        rw [hrest, List.dropLast_cons_cons, ← hrest] at h
        rcases List.mem_cons.1 h with rfl | h
        · exact hle
        · exact ih _ _ h
    · simp [asks_take_of_lt (Nat.not_le.1 hle)] at h

/-- The last ask lies within the buffer as well, unless the program is short of bytes. -/
theorem within_or_short (short : Nat → ε) (program : Read ε α) (p : Nat) :
    (∀ ask ∈ program.asks ⟨b, p⟩, ask.pos + ask.length ≤ b.length) ∨
      program.run short ⟨b, p⟩ = .error (short b.length) := by
  induction program generalizing p with
  | done => exact .inl (by simp [asks])
  | refuse => exact .inl (by simp [asks])
  | take n rest ih =>
    by_cases hle : p + n ≤ b.length
    · rw [asks_take_of_le hle, run_take_of_le hle]
      refine (ih _ (p + n)).imp (fun hall ask hask => ?_) id
      rcases List.mem_cons.1 hask with rfl | hask
      · exact hle
      · exact hall ask hask
    · exact .inr (run_take_of_lt (Nat.not_le.1 hle))

/-- Of one width, a program asks no more often than the rest of the buffer has room for, and once more. -/
theorem mul_countP_asks_le (program : Read ε α) (width : Nat) (hp : p ≤ b.length) :
    width * (program.asks ⟨b, p⟩).countP (·.length = width) ≤ b.length - p + width := by
  induction program generalizing p with
  | done => simp [asks]
  | refuse => simp [asks]
  | take n rest ih =>
    by_cases hle : p + n ≤ b.length
    · have hrest := ih ⟨slice b p n, length_slice hle⟩ hle
      rw [asks_take_of_le hle, List.countP_cons]
      by_cases hn : n = width
      · simp only [hn, decide_true, if_true, Nat.mul_add, Nat.mul_one] at hrest ⊢
        omega
      · simp only [hn, decide_false, Bool.false_eq_true, if_false, Nat.add_zero]
        omega
    · rw [asks_take_of_lt (Nat.not_le.1 hle)]
      by_cases hn : n = width <;> simp [hn]

end Read

end LocalFleet.Codec
