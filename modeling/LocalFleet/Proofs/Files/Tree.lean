import LocalFleet.Files.Tree
import Mathlib

/-! What a tree holds where a way leads, and after an entry was put somewhere, or directories were made. -/

namespace LocalFleet.Files

namespace Tree

variable {t : Tree} {p q : Place} {e e' : Entry} {o : Option Entry}

theorem get?_put_self (hp : p ≠ []) : (t.put p e).get? p = some e := by
  have hnone : (t.entries.filter (·.1 ≠ p)).find? (·.1 = p) = none := by simp
  rw [get?, if_neg hp, put, List.find?_append, hnone]
  simp

theorem get?_put_of_ne (h : q ≠ p) : (t.put p e).get? q = t.get? q := by
  have hfind : (t.entries.filter (·.1 ≠ p)).find? (·.1 = q) = t.entries.find? (·.1 = q) := by
    rw [List.find?_filter]
    refine congrArg (List.find? · t.entries) (funext fun entry => ?_)
    by_cases hq : entry.1 = q <;> simp [hq, h]
  rw [get?, get?, put, List.find?_append, hfind]
  simp [Ne.symm h]

theorem ne_nil_of_get?_eq_none (h : t.get? p = none) : p ≠ [] := by
  rintro rfl
  cases h

theorem put_put : (t.put p e).put p e' = t.put p e' := by
  simp [put, List.filter_append, List.filter_filter]

/-- An entry that is put where a way leads is found there. -/
theorem locateFrom_put {done : Place} {rest : List String} (h : t.locateFrom done rest = .ok o)
    (hp : done ++ rest ≠ []) : (t.put (done ++ rest) e).locateFrom done rest = .ok (some e) := by
  induction rest generalizing done with
  | nil =>
    rw [List.append_nil] at hp ⊢
    rw [locateFrom, get?_put_self hp]
  | cons name rest ih =>
    have hne : done ≠ done ++ name :: rest := by simp
    rw [locateFrom] at h ⊢
    rw [get?_put_of_ne hne]
    cases hget : t.get? done with
    | none => simp [hget] at h
    | some entry =>
      cases entry with
      | file content mode => simp [hget] at h
      | dir =>
        rw [hget] at h
        have hrest := ih h (by simp)
        rwa [List.append_assoc, List.singleton_append] at hrest

theorem locate_put (h : t.locate p = .ok o) (hp : p ≠ []) : (t.put p e).locate p = .ok (some e) :=
  locateFrom_put h hp

theorem locateFrom_dropLast {done : Place} {rest : List String} (h : t.locateFrom done rest = .ok o)
    (hrest : rest ≠ []) : t.locateFrom done rest.dropLast = .ok (some .dir) := by
  induction rest generalizing done with
  | nil => exact absurd rfl hrest
  | cons name rest ih =>
    rw [locateFrom] at h
    cases hget : t.get? done with
    | none => simp [hget] at h
    | some entry =>
      cases entry with
      | file content mode => simp [hget] at h
      | dir =>
        rw [hget] at h
        cases rest with
        | nil => exact congrArg Except.ok hget
        | cons name' rest =>
          rw [List.dropLast_cons_cons, locateFrom, hget]
          exact ih h (List.cons_ne_nil _ _)

theorem get?_of_locateFrom {done : Place} {rest : List String} (h : t.locateFrom done rest = .ok o) :
    t.get? (done ++ rest) = o := by
  induction rest generalizing done with
  | nil =>
    rw [List.append_nil]
    exact Except.ok.inj h
  | cons name rest ih =>
    rw [locateFrom] at h
    cases hget : t.get? done with
    | none => simp [hget] at h
    | some entry =>
      cases entry with
      | file content mode => simp [hget] at h
      | dir =>
        rw [hget] at h
        have hrest := ih h
        rwa [List.append_assoc, List.singleton_append] at hrest

theorem get?_of_locate (h : t.locate p = .ok o) : t.get? p = o := get?_of_locateFrom h

theorem locateFrom_concat {done : Place} {rest : List String} (h : t.locateFrom done rest = .ok (some .dir))
    (name : String) : t.locateFrom done (rest ++ [name]) = .ok (t.get? (done ++ (rest ++ [name]))) := by
  induction rest generalizing done with
  | nil =>
    have hget : t.get? done = some .dir := Except.ok.inj h
    rw [List.nil_append, locateFrom, hget]
    rfl
  | cons first rest ih =>
    rw [locateFrom] at h
    rw [List.cons_append, locateFrom]
    cases hget : t.get? done with
    | none => simp [hget] at h
    | some entry =>
      cases entry with
      | file content mode => simp [hget] at h
      | dir =>
        rw [hget] at h
        have hrest := ih h
        rwa [List.append_assoc, List.singleton_append] at hrest

theorem locate_enter (h : t.locate p = .ok (some .dir)) (name : String) :
    t.locate (enter p name) = .ok (t.get? (enter p name)) := by
  rw [enter]
  by_cases hname : name = ".."
  · rw [if_pos hname]
    by_cases hp : p = []
    · rw [hp]
      rfl
    · have hup : t.locate p.dropLast = .ok (some .dir) := locateFrom_dropLast h hp
      rw [hup, get?_of_locate hup]
  · rw [if_neg hname]
    exact locateFrom_concat h name

/-- Whether a file can be written at a place: its directory is there, and the place holds a file or
nothing. -/
def Writable (t : Tree) (p : Place) : Prop :=
  t.locate p = .ok none ∨ ∃ content mode, t.locate p = .ok (some (.file content mode))

theorem Writable.ne_nil (h : t.Writable p) : p ≠ [] := by
  rintro rfl
  rcases h with h | ⟨_, _, h⟩ <;> cases h

theorem Writable.locate_put (h : t.Writable p) : (t.put p e).locate p = .ok (some e) := by
  rcases h with hlocate | ⟨_, _, hlocate⟩
  · exact Tree.locate_put hlocate (Writable.ne_nil (.inl hlocate))
  · exact Tree.locate_put hlocate (Writable.ne_nil (.inr ⟨_, _, hlocate⟩))

theorem Writable.get?_ne_dir (h : t.Writable p) : t.get? p ≠ some .dir := by
  rcases h with hlocate | ⟨_, _, hlocate⟩ <;> simp [get?_of_locate hlocate]

theorem Writable.get?_dropLast (h : t.Writable p) : t.get? p.dropLast = some .dir := by
  rcases h with hlocate | ⟨_, _, hlocate⟩
  · exact get?_of_locate (locateFrom_dropLast hlocate (Writable.ne_nil (.inl hlocate)))
  · exact get?_of_locate (locateFrom_dropLast hlocate (Writable.ne_nil (.inr ⟨_, _, hlocate⟩)))

theorem read_of_locate {content : Bytes} {mode : Nat} (h : t.locate p = .ok (some (.file content mode))) :
    t.read p = .ok content := by
  rw [read, h]

/-- What was made beside what was there: directories, where nothing was, at some of these places. -/
def AddsDirs (t : Tree) (ps : List Place) (u : Tree) : Prop :=
  ∀ q, u.get? q = t.get? q ∨ q ∈ ps ∧ t.get? q = none ∧ u.get? q = some .dir

variable {u v : Tree} {ps : List Place}

theorem AddsDirs.refl (t : Tree) (ps : List Place) : t.AddsDirs ps t := fun _ => .inl rfl

theorem AddsDirs.trans (h : t.AddsDirs ps u) (h' : u.AddsDirs ps v) : t.AddsDirs ps v := by
  intro q
  rcases h q with hq | ⟨hmem, hnone, hdir⟩
  · rw [← hq]
    exact h' q
  · rcases h' q with hq' | ⟨_, hnone', _⟩
    · exact .inr ⟨hmem, hnone, hq'.trans hdir⟩
    · simp [hdir] at hnone'

theorem addsDirs_put (hmem : p ∈ ps) (hnone : t.get? p = none) : t.AddsDirs ps (t.put p .dir) := by
  intro q
  by_cases hq : q = p
  · rw [hq]
    exact .inr ⟨hmem, hnone, get?_put_self (ne_nil_of_get?_eq_none hnone)⟩
  · exact .inl (get?_put_of_ne hq)

theorem AddsDirs.get?_dir (h : t.AddsDirs ps u) (hdir : t.get? q = some .dir) : u.get? q = some .dir := by
  rcases h q with hq | ⟨_, hnone, _⟩
  · rw [hq, hdir]
  · simp [hdir] at hnone

theorem AddsDirs.get?_of_not_mem (h : t.AddsDirs ps u) (hq : q ∉ ps) : u.get? q = t.get? q := by
  rcases h q with h | ⟨hmem, _⟩
  · exact h
  · exact absurd hmem hq

theorem AddsDirs.same_or_dir (h : t.AddsDirs ps u) (q : Place) : u.get? q = t.get? q ∨ u.get? q = some .dir :=
  (h q).imp_right fun ⟨_, _, hdir⟩ => hdir

theorem AddsDirs.none_or_dir (h : t.AddsDirs ps u) (hdir : u.get? q = some .dir) :
    t.get? q = none ∨ t.get? q = some .dir := by
  rcases h q with h | ⟨_, hnone, _⟩
  · exact .inr (h.symm.trans hdir)
  · exact .inl hnone

end Tree

end LocalFleet.Files
