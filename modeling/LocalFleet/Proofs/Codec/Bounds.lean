import LocalFleet.Proofs.Codec.Slices

/-! Reading by positions that are machine words. Where the bytes end is compared with the end of the buffer
before they are cut out of it, and the sum of a position and a length is at most the largest word. So no
length, however large, leads out of the buffer, and on every buffer that a machine holds a program reads just
what it reads by numbers without a bound. -/

namespace LocalFleet.Codec

theorem slice?_add {b : Bytes} {p n : Nat} (h : p + n ≤ b.length) :
    slice? b p (p + n) = some (slice b p n) := by
  rw [slice?, if_pos ⟨Nat.le_add_right p n, h⟩, Nat.add_sub_cancel_left]

namespace Reader

variable {b : Bytes} {p n : Nat}

theorem stop_of_le (hb : b.length < limit) (h : p + n ≤ b.length) : stop ⟨b, p⟩ n = p + n :=
  Nat.min_eq_left (Nat.le_trans h (Nat.le_of_lt hb))

theorem lt_stop_of_lt (hb : b.length < limit) (h : b.length < p + n) : b.length < stop ⟨b, p⟩ n :=
  Nat.lt_min.2 ⟨h, hb⟩

theorem take_of_le (hb : b.length < limit) (h : p + n ≤ b.length) :
    take n ⟨b, p⟩ = .read (slice b p n) ⟨b, p + n⟩ := by
  simp only [take, stop_of_le hb h, if_neg (Nat.not_lt.2 h), slice?_add h]

theorem take_of_lt (hb : b.length < limit) (h : b.length < p + n) :
    take n ⟨b, p⟩ = .refused (.tooShort b.length) ⟨b, p⟩ :=
  if_pos (lt_stop_of_lt hb h)

theorem array_of_le (hb : b.length < limit) (h : p + n ≤ b.length) :
    array n ⟨b, p⟩ = .read ⟨slice b p n, length_slice h⟩ ⟨b, p + n⟩ := by
  have hcopy : Octets.ofBytes? n (slice b p n) = some ⟨slice b p n, length_slice h⟩ :=
    Octets.ofBytes?_eq_some_iff.2 rfl
  simp only [array, take_of_le hb h, Outcome.andThen, hcopy]

theorem array_of_lt (hb : b.length < limit) (h : b.length < p + n) :
    array n ⟨b, p⟩ = .refused (.tooShort b.length) ⟨b, p⟩ := by
  simp only [array, take_of_lt hb h, Outcome.andThen]

end Reader

namespace Read

variable {α : Type} {b : Bytes} {p n : Nat}

theorem perform_take_of_le {rest : Octets n → Read EncodingError α} (hb : b.length < limit)
    (h : p + n ≤ b.length) :
    (take n rest).perform ⟨b, p⟩ = (rest ⟨slice b p n, length_slice h⟩).perform ⟨b, p + n⟩ := by
  rw [perform, Reader.array_of_le hb h, Outcome.andThen]

theorem perform_take_of_lt {rest : Octets n → Read EncodingError α} (hb : b.length < limit)
    (h : b.length < p + n) :
    (take n rest).perform ⟨b, p⟩ = .refused (.tooShort b.length) ⟨b, p⟩ := by
  rw [perform, Reader.array_of_lt hb h, Outcome.andThen]

/-- Every program comes to the same in words and by numbers without a bound. -/
theorem result?_perform (hb : b.length < limit) (program : Read EncodingError α) (p : Nat) :
    (program.perform ⟨b, p⟩).result? = some (program.run .tooShort ⟨b, p⟩) := by
  induction program generalizing p with
  | done a => rfl
  | refuse e => rfl
  | take n rest ih =>
    by_cases h : p + n ≤ b.length
    · rw [perform_take_of_le hb h, run_take_of_le h, ih]
    · have hlt := Nat.not_le.1 h
      rw [perform_take_of_lt hb hlt, run_take_of_lt hlt]
      rfl

end Read

end LocalFleet.Codec
