import LocalFleet.Encoding.Radix
import Mathlib

/-! Digits and numbers determine each other: the digits of a number have that number as their value,
and digits without a leading zero are the digits of their value. -/

namespace LocalFleet.Radix

variable {b : Nat}

/-- Digits of base `b + 2` whose first is not zero. -/
structure IsCanonical (b : Nat) (ds : List Nat) : Prop where
  lt : ∀ d ∈ ds, d < b + 2
  head : ∀ d, ds.head? = some d → d ≠ 0

theorem IsCanonical.init {ds es : List Nat} (h : IsCanonical b (ds ++ es)) : IsCanonical b ds := by
  refine ⟨fun d hd => h.lt d (List.mem_append_left _ hd), fun d hd => h.head d ?_⟩
  cases ds with
  | nil => simp at hd
  | cons c ds => simpa using hd

theorem value_append_singleton (ds : List Nat) (d : Nat) :
    value b (ds ++ [d]) = (b + 2) * value b ds + d := by
  simp [value]

theorem digitsOnto_eq (n : Nat) (tail : List Nat) : digitsOnto b n tail = digits b n ++ tail := by
  induction n using Nat.strongRecOn generalizing tail with
  | _ n ih =>
    by_cases h : n = 0
    · simp [digits, digitsOnto, h]
    · have hlt : n / (b + 2) < n := Nat.div_lt_self (Nat.pos_of_ne_zero h) (by omega)
      have hunfold : ∀ tail, digitsOnto b n tail =
          digitsOnto b (n / (b + 2)) (n % (b + 2) :: tail) := by
        intro tail
        rw [digitsOnto, if_neg h]
      rw [hunfold, digits, hunfold, ih _ hlt, ih _ hlt [n % (b + 2)], List.append_assoc]
      rfl

@[simp] theorem digits_zero : digits b 0 = [] := by simp [digits, digitsOnto]

theorem digits_of_pos {n : Nat} (h : 0 < n) :
    digits b n = digits b (n / (b + 2)) ++ [n % (b + 2)] := by
  rw [← digitsOnto_eq, digits, digitsOnto, if_neg (by omega)]

@[simp] theorem value_digits (n : Nat) : value b (digits b n) = n := by
  induction n using Nat.strongRecOn with
  | _ n ih =>
    by_cases h : n = 0
    · simp [h, value]
    · have hlt : n / (b + 2) < n := Nat.div_lt_self (Nat.pos_of_ne_zero h) (by omega)
      rw [digits_of_pos (Nat.pos_of_ne_zero h), value_append_singleton, ih _ hlt]
      exact Nat.div_add_mod n (b + 2)

theorem isCanonical_digits (n : Nat) : IsCanonical b (digits b n) := by
  induction n using Nat.strongRecOn with
  | _ n ih =>
    by_cases h : n = 0
    · subst h
      exact ⟨by simp, by simp⟩
    · have hlt : n / (b + 2) < n := Nat.div_lt_self (Nat.pos_of_ne_zero h) (by omega)
      have hlast : n % (b + 2) < b + 2 := Nat.mod_lt n (by omega)
      rw [digits_of_pos (Nat.pos_of_ne_zero h)]
      refine ⟨fun d hd => ?_, fun d hd => ?_⟩
      · rcases List.mem_append.1 hd with hd | hd
        · exact (ih _ hlt).lt d hd
        · obtain rfl := List.mem_singleton.1 hd
          exact hlast
      · by_cases hq : n / (b + 2) = 0
        · rw [hq, digits_zero, List.nil_append, List.head?_cons, Option.some.injEq] at hd
          have := Nat.div_add_mod n (b + 2)
          rw [hq] at this
          omega
        · rw [digits_of_pos (Nat.pos_of_ne_zero hq), List.append_assoc] at hd
          refine (ih _ hlt).head d ?_
          rw [digits_of_pos (Nat.pos_of_ne_zero hq)]
          cases hcase : digits b (n / (b + 2) / (b + 2)) with
          | nil => simpa [hcase] using hd
          | cons c cs => simpa [hcase] using hd

theorem value_pos {ds : List Nat} (h : IsCanonical b ds) (hne : ds ≠ []) : 0 < value b ds := by
  induction ds using List.reverseRecOn with
  | nil => exact absurd rfl hne
  | append_singleton init last ih =>
    rw [value_append_singleton]
    by_cases hi : init = []
    · subst hi
      have := h.head last (by simp)
      omega
    · have := Nat.mul_pos (show 0 < b + 2 by omega) (ih h.init hi)
      omega

theorem digits_value {ds : List Nat} (h : IsCanonical b ds) : digits b (value b ds) = ds := by
  induction ds using List.reverseRecOn with
  | nil => simp [value]
  | append_singleton init last ih =>
    have hlast : last < b + 2 := h.lt last (by simp)
    have hpos : 0 < value b (init ++ [last]) := value_pos h (by simp)
    rw [digits_of_pos hpos, value_append_singleton, Nat.mul_add_div (by omega),
      Nat.div_eq_of_lt hlast, Nat.add_zero, Nat.mul_add_mod, Nat.mod_eq_of_lt hlast, ih h.init]

theorem isCanonical_dropWhile {ds : List Nat} (h : ∀ d ∈ ds, d < b + 2) :
    IsCanonical b (ds.dropWhile (· = 0)) := by
  refine ⟨fun d hd => h d (List.dropWhile_sublist _ |>.subset hd), fun d hd => ?_⟩
  have := List.head?_dropWhile_not (fun d => decide (d = 0)) ds
  rw [hd] at this
  simpa using this

theorem takeWhile_zeros {n : Nat} {ds : List Nat} (h : IsCanonical b ds) :
    (List.replicate n 0 ++ ds).takeWhile (· = 0) = List.replicate n 0 ∧
      (List.replicate n 0 ++ ds).dropWhile (· = 0) = ds := by
  induction n with
  | zero =>
    cases ds with
    | nil => exact ⟨rfl, rfl⟩
    | cons d ds =>
      have := h.head d rfl
      simp [this]
  | succ n ih => simpa [List.replicate_succ] using ih

theorem convert_convert {c : Nat} {ds : List Nat} (h : ∀ d ∈ ds, d < b + 2) :
    convert c b (convert b c ds) = ds := by
  have hzeros : List.replicate (ds.takeWhile (· = 0)).length 0 = ds.takeWhile (· = 0) := by
    refine (List.eq_replicate_of_mem fun d hd => ?_).symm
    simpa using List.mem_takeWhile_imp hd
  obtain ⟨htake, hdrop⟩ := takeWhile_zeros (n := (ds.takeWhile (· = 0)).length)
    (isCanonical_digits (b := c) (value b (ds.dropWhile (· = 0))))
  rw [convert, convert, htake, hdrop, value_digits, digits_value (isCanonical_dropWhile h),
    List.length_replicate, hzeros, List.takeWhile_append_dropWhile]

theorem convert_lt {c : Nat} (ds : List Nat) : ∀ d ∈ convert b c ds, d < c + 2 := by
  intro d hd
  rcases List.mem_append.1 hd with hd | hd
  · obtain rfl := List.eq_of_mem_replicate hd
    omega
  · exact (isCanonical_digits _).lt d hd

end LocalFleet.Radix
