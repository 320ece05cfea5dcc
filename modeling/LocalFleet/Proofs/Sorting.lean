import Mathlib

/-! What a stable sort keeps: members of which each is as good as the other stay in their order, and the
first of the least comes first. -/

namespace LocalFleet

variable {α : Type} {le : α → α → Bool} (htrans : ∀ a b c, le a b = true → le b c = true → le a c = true)
  (htotal : ∀ a b, (le a b || le b a) = true)

include htrans htotal

theorem filter_mergeSort {p : α → Bool} (hp : ∀ a b, p a = true → p b = true → le a b = true) (xs : List α) :
    (xs.mergeSort le).filter p = xs.filter p := by
  have hsame : (xs.filter p).Pairwise fun a b => le a b = true := by
    apply List.pairwise_of_forall_mem_list
    intro a ha b hb
    exact hp a b (List.mem_filter.1 ha).2 (List.mem_filter.1 hb).2
  have hsub := List.sublist_mergeSort htrans htotal hsame List.filter_sublist
  have hkept : (xs.filter p).Sublist ((xs.mergeSort le).filter p) := by
    have hh := hsub.filter p
    rwa [List.filter_filter, List.filter_congr fun _ _ => Bool.and_self _] at hh
  have hlength := ((List.mergeSort_perm xs le).filter p).length_eq
  exact (hkept.eq_of_length hlength.symm).symm

theorem head?_mergeSort {before after : List α} {x : α} (hbefore : ∀ b ∈ before, le b x = false)
    (hafter : ∀ a ∈ after, le x a = true) : ((before ++ x :: after).mergeSort le).head? = some x := by
  have hself : le x x = true := by simpa using htotal x x
  -- What is as good as `x` is in the same order before and after sorting, and begins with `x`.
  have hfilter := filter_mergeSort htrans htotal (p := fun a => le a x && le x a)
    (fun a b ha hb => by
      simp only [Bool.and_eq_true] at ha hb
      exact htrans a x b ha.1 hb.2) (before ++ x :: after)
  have hnone : before.filter (fun a => le a x && le x a) = [] := by
    simp +contextual [List.filter_eq_nil_iff, hbefore]
  rw [List.filter_append, hnone, List.nil_append, List.filter_cons_of_pos (by simp [hself])] at hfilter
  cases hsort : (before ++ x :: after).mergeSort le with
  | nil => simp [hsort] at hfilter
  | cons h rest =>
    have hpairwise : (h :: rest).Pairwise fun a b => le a b = true := by
      rw [← hsort]
      exact List.pairwise_mergeSort htrans htotal _
    have hperm := List.mergeSort_perm (before ++ x :: after) le
    rw [hsort] at hperm
    have hleast : le h x = true := by
      have hx : x ∈ h :: rest := hperm.mem_iff.2 (by simp)
      rcases List.mem_cons.1 hx with rfl | hx
      · exact hself
      · exact List.rel_of_pairwise_cons hpairwise hx
    have hmore : le x h = true := by
      have hh : h ∈ before ++ x :: after := hperm.mem_iff.1 List.mem_cons_self
      rcases List.mem_append.1 hh with hh | hh
      · simp [hbefore h hh] at hleast
      · rcases List.mem_cons.1 hh with rfl | hh
        · exact hself
        · exact hafter h hh
    rw [hsort, List.filter_cons_of_pos (by simp [hleast, hmore])] at hfilter
    exact congrArg some (List.cons.inj hfilter).1

end LocalFleet
