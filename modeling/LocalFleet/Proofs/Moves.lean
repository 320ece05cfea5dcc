/-! Systems that move: a move makes another state of a state, where it is possible. What no move destroys
holds after all of them. -/

namespace LocalFleet

variable {S M : Type} {move : S → M → Option S} {s t u : S}

/-- One state becomes another by some moves. -/
inductive Becomes (move : S → M → Option S) (s : S) : S → Prop where
  | refl : Becomes move s s
  | move {t u : S} (m : M) : Becomes move s t → move t m = some u → Becomes move s u

theorem Becomes.single (m : M) (h : move s m = some t) : Becomes move s t := .move m .refl h

theorem Becomes.trans (h : Becomes move s t) (h' : Becomes move t u) : Becomes move s u := by
  induction h' with
  | refl => exact h
  | move m _ hm ih => exact .move m ih hm

/-- What every move keeps is kept by all of them. -/
theorem Becomes.keeps {P : S → Prop} (h : Becomes move s t)
    (hmove : ∀ {s t : S} {m : M}, P s → move s m = some t → P t) (hs : P s) : P t := by
  induction h with
  | refl => exact hs
  | move m _ hm ih => exact hmove ih hm

def follow (move : S → M → Option S) (s : S) (moves : List M) : Option S := moves.foldlM move s

theorem becomes_of_follow {moves : List M} (h : follow move s moves = some t) : Becomes move s t := by
  induction moves generalizing s with
  | nil =>
    cases h
    exact .refl
  | cons m moves ih =>
    simp only [follow, List.foldlM_cons, Option.bind_eq_bind, Option.bind_eq_some_iff] at h
    obtain ⟨u, hu, h⟩ := h
    exact (Becomes.single m hu).trans (ih h)

end LocalFleet
