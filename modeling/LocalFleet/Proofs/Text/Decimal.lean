import LocalFleet.Text.Decimal
import Mathlib

/-! What decimal texts write. Texts are read from their first digit on; a number is written with as few
digits as it takes, but may be read from a text with more. -/

namespace LocalFleet.Decimal

theorem toDigits_eq (n : Nat) : Nat.toDigits 10 n =
    if n < 10 then [n.digitChar] else Nat.toDigits 10 (n / 10) ++ [(n % 10).digitChar] := by
  split
  · exact Nat.toDigits_of_lt_base ‹_›
  · have happend := Nat.toDigits_append_toDigits (b := 10) (n := n / 10) (d := n % 10) (by omega) (by omega)
      (by omega)
    rw [Nat.toDigits_of_lt_base (n := n % 10) (by omega), Nat.div_add_mod] at happend
    exact happend.symm

theorem digitChar_spec : ∀ d < 10, digit? d.digitChar = some d ∧ d.digitChar.toNat = 48 + d := by
  decide

theorem digitChar_of_digit? {c : Char} {d : Nat} (h : digit? c = some d) : d < 10 ∧ d.digitChar = c := by
  unfold digit? at h
  split at h
  · rename_i hc
    obtain rfl := Option.some.inj h
    have hlow : 48 ≤ c.toNat := hc.1
    have hhigh : c.toNat ≤ 57 := hc.2
    have hd : c.toNat - '0'.toNat < 10 := by
      show c.toNat - 48 < 10
      omega
    refine ⟨hd, ?_⟩
    have hspec := (digitChar_spec _ hd).2
    have hzero : '0'.toNat = 48 := rfl
    exact Char.toNat_inj.mp (by omega)
  · cases h

theorem digit?_eq_some_iff {c : Char} {d : Nat} : digit? c = some d ↔ d < 10 ∧ d.digitChar = c := by
  refine ⟨digitChar_of_digit?, ?_⟩
  rintro ⟨hd, rfl⟩
  exact (digitChar_spec d hd).1

/-- A text writes a number by one or more digits, the most significant first, after an optional plus
sign. -/
def Writes (text : String) (n : Nat) : Prop :=
  ∃ digits : List Nat, digits ≠ [] ∧ (∀ d ∈ digits, d < 10) ∧ n = Nat.ofDigits 10 digits.reverse ∧
    (text.toList = digits.map Nat.digitChar ∨ text.toList = '+' :: digits.map Nat.digitChar)

theorem natFrom?_eq_some_iff {v n : Nat} {text : List Char} : natFrom? v text = some n ↔
    ∃ digits : List Nat, (∀ d ∈ digits, d < 10) ∧ text = digits.map Nat.digitChar ∧
      n = digits.foldl (fun v d => 10 * v + d) v := by
  induction text generalizing v with
  | nil => simp [natFrom?, eq_comm]
  | cons c text ih =>
    simp only [natFrom?, Option.bind_eq_some_iff, digit?_eq_some_iff, ih]
    constructor
    · rintro ⟨d, ⟨hd, rfl⟩, digits, hdigits, rfl, rfl⟩
      exact ⟨d :: digits, List.forall_mem_cons.2 ⟨hd, hdigits⟩, rfl, rfl⟩
    · rintro ⟨digits, hdigits, htext, rfl⟩
      obtain ⟨d, digits, rfl, rfl, rfl⟩ := List.map_eq_cons_iff.1 htext.symm
      exact ⟨d, ⟨hdigits d List.mem_cons_self, rfl⟩, digits, fun e he => hdigits e (List.mem_cons_of_mem d he),
        rfl, rfl⟩

theorem ofDigits_reverse (base : Nat) (digits : List Nat) :
    Nat.ofDigits base digits.reverse = digits.foldl (fun v d => base * v + d) 0 := by
  rw [Nat.ofDigits_eq_foldr, List.foldr_reverse]
  simp only [Nat.cast_id, Nat.add_comm]

theorem nat?_eq_some_iff {text : List Char} {n : Nat} : nat? text = some n ↔
    ∃ digits : List Nat, digits ≠ [] ∧ (∀ d ∈ digits, d < 10) ∧ n = Nat.ofDigits 10 digits.reverse ∧
      text = digits.map Nat.digitChar := by
  simp only [nat?, ofDigits_reverse]
  constructor
  · intro h
    split at h
    · cases h
    · rename_i hne
      obtain ⟨digits, hdigits, rfl, rfl⟩ := natFrom?_eq_some_iff.1 h
      exact ⟨digits, fun h => hne (by rw [h]; rfl), hdigits, rfl, rfl⟩
  · rintro ⟨digits, hne, hdigits, rfl, rfl⟩
    rw [if_neg (by simpa using hne)]
    exact natFrom?_eq_some_iff.2 ⟨digits, hdigits, rfl, rfl⟩

/-- No digit is a plus sign, so that a text is read in one way only. -/
theorem unsigned?_eq_some_iff {text : String} {n : Nat} :
    unsigned? text.toList = some n ↔ Writes text n := by
  have hplus : ∀ digits : List Nat, (∀ d ∈ digits, d < 10) → ∀ rest,
      digits.map Nat.digitChar ≠ '+' :: rest := by
    intro digits hdigits rest h
    obtain ⟨d, digits, rfl, hd, -⟩ := List.map_eq_cons_iff.1 h
    have hspec := (digitChar_spec d (hdigits d List.mem_cons_self)).2
    rw [hd] at hspec
    have : '+'.toNat = 43 := rfl
    omega
  unfold Writes unsigned?
  split
  · rename_i rest htext
    rw [nat?_eq_some_iff]
    constructor
    · rintro ⟨digits, hne, hdigits, hn, rfl⟩
      exact ⟨digits, hne, hdigits, hn, .inr htext⟩
    · rintro ⟨digits, hne, hdigits, hn, h | h⟩
      · exact absurd (h.symm.trans htext) (hplus digits hdigits rest)
      · exact ⟨digits, hne, hdigits, hn, List.tail_eq_of_cons_eq (htext.symm.trans h)⟩
  · rename_i htext
    rw [nat?_eq_some_iff]
    constructor
    · rintro ⟨digits, hne, hdigits, hn, h⟩
      exact ⟨digits, hne, hdigits, hn, .inl h⟩
    · rintro ⟨digits, hne, hdigits, hn, h | h⟩
      · exact ⟨digits, hne, hdigits, hn, h⟩
      · exact absurd h (htext _)

theorem word?_eq_some_iff {bits n : Nat} {text : String} :
    word? bits text.toList = some n ↔ Writes text n ∧ n < 2 ^ bits := by
  simp [word?, Option.filter_eq_some_iff, unsigned?_eq_some_iff]

theorem Writes.ne_empty {text : String} {n : Nat} (h : Writes text n) : text ≠ "" := by
  obtain ⟨digits, hne, -, -, htext⟩ := h
  rintro rfl
  rcases htext with htext | htext
  · exact hne (List.map_eq_nil_iff.1 htext.symm)
  · cases htext

theorem Writes.unique {text : String} {m n : Nat} (hm : Writes text m) (hn : Writes text n) : m = n :=
  Option.some.inj ((unsigned?_eq_some_iff.2 hm).symm.trans (unsigned?_eq_some_iff.2 hn))

theorem word?_eq_none_iff {bits : Nat} {text : String} :
    word? bits text.toList = none ↔ ∀ n, Writes text n → 2 ^ bits ≤ n := by
  simp only [Option.eq_none_iff_forall_ne_some, ne_eq, word?_eq_some_iff, not_and, not_lt]

theorem natFrom?_append (v : Nat) (text more : List Char) :
    natFrom? v (text ++ more) = (natFrom? v text).bind fun v => natFrom? v more := by
  induction text generalizing v with
  | nil => rfl
  | cons c text ih =>
    simp only [List.cons_append, natFrom?]
    cases digit? c with
    | none => rfl
    | some d => exact ih _

theorem natFrom?_toDigits (n : Nat) : natFrom? 0 (Nat.toDigits 10 n) = some n := by
  induction n using Nat.strongRecOn with
  | _ n ih =>
    rw [toDigits_eq]
    split
    · rename_i h
      simp [natFrom?, (digitChar_spec n h).1]
    · rename_i h
      rw [natFrom?_append, ih (n / 10) (by omega)]
      simp [natFrom?, (digitChar_spec (n % 10) (by omega)).1]
      omega

theorem toDigits_spec (n : Nat) :
    (∀ c ∈ Nat.toDigits 10 n, 48 ≤ c.toNat ∧ c.toNat ≤ 57) ∧
      ∃ c rest, Nat.toDigits 10 n = c :: rest ∧ (c.toNat = 48 → rest = [] ∧ n = 0) := by
  induction n using Nat.strongRecOn with
  | _ n ih =>
    rw [toDigits_eq]
    split
    · rename_i h
      have hd := (digitChar_spec n h).2
      refine ⟨fun c hc => ?_, _, _, rfl, fun h0 => ⟨rfl, by omega⟩⟩
      rw [List.mem_singleton.mp hc]
      omega
    · rename_i h
      have hd := (digitChar_spec (n % 10) (by omega)).2
      obtain ⟨hdigits, c, rest, heq, hzero⟩ := ih (n / 10) (by omega)
      refine ⟨fun d hd' => ?_, c, rest ++ [(n % 10).digitChar], by rw [heq]; rfl, fun h0 => ?_⟩
      · rcases List.mem_append.mp hd' with hmem | hmem
        · exact hdigits d hmem
        · rw [List.mem_singleton.mp hmem]
          omega
      · have := (hzero h0).2
        omega

theorem nat?_toString (n : Nat) : nat? (toString n).toList = some n := by
  have hlist : (toString n).toList = Nat.toDigits 10 n := String.toList_ofList
  obtain ⟨c, rest, heq, _⟩ := (toDigits_spec n).2
  rw [nat?, hlist, if_neg (by simp [heq]), natFrom?_toDigits]

end LocalFleet.Decimal
