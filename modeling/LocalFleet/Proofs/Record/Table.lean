import LocalFleet.Proofs.Record.Saved

/-! What an insertion does to a table: it settles the value of one key, and keeps the keys in order. -/

namespace LocalFleet

namespace Text

theorem le_trans {a b c : String} (h : le a b = true) (h' : le b c = true) : le a c = true := by
  simp only [le, decide_eq_true_eq] at *
  exact List.le_trans h h'

theorem le_total (a b : String) : (le a b || le b a) = true := by
  simp only [le, Bool.or_eq_true, decide_eq_true_eq]
  exact List.le_total _ _

theorem le_antisymm {a b : String} (h : le a b = true) (h' : le b a = true) : a = b := by
  simp only [le, decide_eq_true_eq] at h h'
  have hsame := congrArg Json.ofUtf8? (List.le_antisymm h h')
  rw [Json.ofUtf8?_bytes, Json.ofUtf8?_bytes] at hsame
  exact Option.some.inj hsame

theorem sorted_perm (texts : List String) : (sorted texts).Perm texts := List.mergeSort_perm ..

theorem pairwise_sorted (texts : List String) : (sorted texts).Pairwise fun a b => le a b = true := by
  have htrans (a b c : String) (h : le a b = true) (h' : le b c = true) : le a c = true := le_trans h h'
  exact List.pairwise_mergeSort htrans le_total texts

end Text

namespace Table

variable {t : Table} {key value other : String}

theorem insert_perm (h : key ∉ t.map Prod.fst) : (insert key value t).Perm ((key, value) :: t) := by
  induction t with
  | nil => exact .refl _
  | cons a t ih =>
    obtain ⟨k, v⟩ := a
    rw [List.map_cons, List.mem_cons, not_or] at h
    rw [insert, if_neg h.1]
    split
    · exact .refl _
    · exact ((ih h.2).cons _).trans (.swap _ _ _)

theorem find?_cons : find? ((key, value) :: t) other = if other = key then some value else find? t other := by
  rw [find?, List.lookup_cons]
  by_cases h : other = key
  · rw [if_pos h, h, beq_self_eq_true]
  · rw [if_neg h, beq_false_of_ne h]
    rfl

theorem find?_insert :
    find? (insert key value t) other = if other = key then some value else find? t other := by
  induction t with
  | nil => exact find?_cons
  | cons a t ih =>
    obtain ⟨k, v⟩ := a
    rw [insert]
    by_cases hkey : key = k
    · rw [if_pos hkey, find?_cons, find?_cons, ← hkey]
      split <;> rfl
    · rw [if_neg hkey]
      split
      · exact find?_cons
      · rw [find?_cons, find?_cons, ih]
        by_cases hother : other = k
        · rw [if_pos hother, if_neg fun h => hkey (h.symm.trans hother), if_pos hother]
        · rw [if_neg hother, if_neg hother]

theorem mem_insert {a : String × String} (h : a ∈ insert key value t) : a = (key, value) ∨ a ∈ t := by
  induction t with
  | nil => exact .inl (List.mem_singleton.1 h)
  | cons b t ih =>
    obtain ⟨k, v⟩ := b
    rw [insert] at h
    split at h
    · exact (List.mem_cons.1 h).imp_right (List.mem_cons_of_mem _)
    · split at h
      · exact List.mem_cons.1 h
      · rcases List.mem_cons.1 h with rfl | h
        · exact .inr List.mem_cons_self
        · exact (ih h).imp_right (List.mem_cons_of_mem _)

theorem Ordered.insert (h : Ordered t) : Ordered (t.insert key value) := by
  induction t with
  | nil => exact List.pairwise_singleton ..
  | cons a t ih =>
    obtain ⟨k, v⟩ := a
    obtain ⟨hfirst, hrest⟩ := List.pairwise_cons.1 h
    rw [Table.insert]
    by_cases hkey : key = k
    · rw [if_pos hkey, hkey]
      exact List.pairwise_cons.2 ⟨hfirst, hrest⟩
    · rw [if_neg hkey]
      by_cases hle : Text.le key k = true
      · rw [if_pos hle]
        refine List.pairwise_cons.2 ⟨fun b hb => ?_, h⟩
        rw [← Bool.not_eq_true]
        intro hb'
        rcases List.mem_cons.1 hb with rfl | hb
        · exact hkey (Text.le_antisymm hle hb')
        · exact Bool.false_ne_true ((hfirst b hb).symm.trans (Text.le_trans hb' hle))
      · rw [if_neg hle]
        refine List.pairwise_cons.2 ⟨fun b hb => ?_, ih hrest⟩
        rcases mem_insert hb with rfl | hb
        · exact Bool.not_eq_true _ ▸ hle
        · exact hfirst b hb

end Table

end LocalFleet
