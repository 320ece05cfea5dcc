import LocalFleet.Proofs.Files.Steps

/-! Writing a file with permissions of its own. The directories on the way are made, the file is opened empty,
it gets its permissions, and only then does the content arrive. So whatever was there before, and however the
content is split, no state shows a part of the content under other permissions. -/

namespace LocalFleet.Files

open LocalFleet.Files.Tree

variable {t t' u : Tree} {p q : Place} {here : Place} {path : String} {cwd : Place} {ps dirs : List Place}
  {content : Bytes} {pieces : List Bytes} {mode : Nat}

/-! ### The directories of a file -/

theorem leads_concat : t.leads (ps ++ [q]) = true ↔ (∀ r ∈ ps, t.get? r = some .dir) ∧ t.get? q ≠ none := by
  induction ps with
  | nil => simp [leads, Option.isSome_iff_ne_none]
  | cons r ps ih =>
    have hleads : t.leads (r :: ps ++ [q]) = (decide (t.get? r = some .dir) && t.leads (ps ++ [q])) := by
      cases ps <;> rfl
    rw [hleads, Bool.and_eq_true, decide_eq_true_eq, ih, List.forall_mem_cons, and_assoc]

theorem of_missing (h : t.missing ps = .ok dirs) :
    dirs ⊆ ps ∧ ∀ q ∈ ps, q ∈ dirs ∨ t.get? q = some .dir := by
  induction ps with
  | nil =>
    obtain rfl := Except.ok.inj h
    exact ⟨List.Subset.refl _, fun _ hq => .inl hq⟩
  | cons p ps ih =>
    rw [missing] at h
    cases hget : t.get? p with
    | none =>
      rw [hget] at h
      obtain rfl := Except.ok.inj h
      exact ⟨List.Subset.refl _, fun _ hq => .inl hq⟩
    | some entry =>
      rw [hget] at h
      cases entry with
      | file content mode => cases h
      | dir =>
        obtain ⟨hsub, hall⟩ := ih h
        exact ⟨List.subset_cons_of_subset p hsub, List.forall_mem_cons.2 ⟨.inr hget, hall⟩⟩

theorem run_missing {names : List String} (hhere : t.locate here = .ok (some .dir))
    (hfree : ∀ q ∈ wayFrom here names, t.get? q = none ∨ t.get? q = some .dir) :
    ∃ dirs t₁, t.missing (wayFrom here names) = .ok dirs ∧ Step.run t (dirs.map .makeDir) = (t₁, .ok ()) ∧
      t₁.locate (names.foldl enter here) = .ok (some .dir) := by
  induction names generalizing here with
  | nil => exact ⟨[], t, rfl, rfl, hhere⟩
  | cons name names ih =>
    obtain ⟨hnext, hrest⟩ := List.forall_mem_cons.1 hfree
    rcases hnext with hnone | hdir
    · -- from the first missing place on, all of the way is made
      obtain ⟨t₁, hrun, hend⟩ := Step.run_makeDirs_of_free hhere hfree
      refine ⟨_, t₁, ?_, hrun, hend⟩
      rw [wayFrom, missing, hnone]
    · have hlocate : t.locate (enter here name) = .ok (some .dir) := by
        rw [locate_enter hhere, hdir]
      rw [wayFrom, missing, hdir]
      exact ih hlocate hrest

theorem missing_of_dirs (h : ∀ q ∈ ps, t.get? q = some .dir) : t.missing ps = .ok [] := by
  induction ps with
  | nil => rfl
  | cons p ps ih =>
    obtain ⟨hp, hps⟩ := List.forall_mem_cons.1 h
    rw [missing, hp]
    exact ih hps

theorem dirs_of_leads (hleads : t.leads ps = true)
    (hfree : ∀ q ∈ ps, t.get? q = none ∨ t.get? q = some .dir) : ∀ q ∈ ps, t.get? q = some .dir := by
  induction ps using List.reverseRecOn with
  | nil => simp
  | append_singleton ps q _ =>
    obtain ⟨hps, hq⟩ := leads_concat.1 hleads
    have hlast := (hfree q (by simp)).resolve_left hq
    exact List.forall_mem_append.2 ⟨hps, List.forall_mem_singleton.2 hlast⟩

theorem createParentSteps_of_free (hfree : ∀ q ∈ ps, t.get? q = none ∨ t.get? q = some .dir) :
    createParentSteps t (ps ++ [p]) = createDirSteps t ps := by
  rw [createParentSteps, List.dropLast_concat]
  by_cases hleads : t.leads ps = true
  · rw [if_pos hleads, createDirSteps, missing_of_dirs (dirs_of_leads hleads hfree)]
    rfl
  · rw [if_neg hleads]

theorem of_createParentSteps {places : List Place} {steps : List Step}
    (h : createParentSteps t places = .ok steps) :
    ∃ dirs, steps = dirs.map .makeDir ∧ dirs ⊆ places.dropLast ∧
      (t.leads places.dropLast = true ∨ ∀ q ∈ places.dropLast, q ∈ dirs ∨ t.get? q = some .dir) := by
  rw [createParentSteps] at h
  by_cases hleads : t.leads places.dropLast = true
  · rw [if_pos hleads] at h
    exact ⟨[], (Except.ok.inj h).symm, List.nil_subset _, .inl hleads⟩
  · rw [if_neg hleads, createDirSteps] at h
    cases hmissing : t.missing places.dropLast with
    | error fault => simp [hmissing, Except.map] at h
    | ok dirs =>
      rw [hmissing] at h
      obtain ⟨hsub, hall⟩ := of_missing hmissing
      exact ⟨dirs, (Except.ok.inj h).symm, hsub, .inr hall⟩

theorem writeSteps_of_parents {steps : List Step} (h : createParentSteps t (ps ++ [p]) = .ok steps)
    (pieces : List Bytes) (mode : Nat) : writeSteps t (ps ++ [p]) pieces mode =
      .ok (steps ++ .truncate p mode :: .setMode p mode :: pieces.map (.append p)) := by
  rw [writeSteps, h, List.getLast?_concat]
  rfl

/-- The states that planned steps lead through. -/
def statesOf (t : Tree) : Except Fault (List Step) → List Tree
  | .error _ => []
  | .ok steps => Step.states t steps

theorem carryOut_fst (t : Tree) (planned : Except Fault (List Step)) :
    (carryOut t planned).1 = ((statesOf t planned).getLast?).getD t := by
  cases planned with
  | error fault => rfl
  | ok steps => exact Step.run_fst steps

/-- Some directories are made on the way to a place, after which a file can be written there. -/
structure Prepares (t : Tree) (ps : List Place) (p : Place) (dirs : List Place) (t₁ : Tree) : Prop where
  steps : createParentSteps t (ps ++ [p]) = .ok (dirs.map .makeDir)
  run : Step.run t (dirs.map .makeDir) = (t₁, .ok ())
  writable : t₁.Writable p

namespace Prepares

variable {t₁ : Tree}

theorem made (h : Prepares t ps p dirs t₁) :
    dirs ⊆ ps ∧ (t.leads ps = true ∨ ∀ q ∈ ps, q ∈ dirs ∨ t.get? q = some .dir) := by
  obtain ⟨dirs', hdirs, hmade⟩ := of_createParentSteps h.steps
  rw [List.dropLast_concat] at hmade
  rwa [List.map_injective_iff.2 (fun _ _ => Step.makeDir.inj) hdirs]

theorem addsDirs (h : Prepares t ps p dirs t₁) : t.AddsDirs ps t₁ := Step.addsDirs_of_run h.made.1 h.run

theorem not_mem (h : Prepares t ps p dirs t₁) : p ∉ dirs :=
  fun hp => h.writable.get?_ne_dir (Step.get?_of_run_makeDirs h.run hp)

theorem get?_target (h : Prepares t ps p dirs t₁) : t₁.get? p = t.get? p :=
  (Step.addsDirs_of_run (List.Subset.refl dirs) h.run).get?_of_not_mem h.not_mem

theorem get?_parent (h : Prepares t ps p dirs t₁) (hp : p.dropLast = (ps.getLast?).getD here) (hq : q ∈ ps) :
    t₁.get? q = some .dir := by
  rcases h.made.2 with hleads | hall
  · induction ps using List.reverseRecOn with
    | nil => cases hq
    | append_singleton before last _ =>
      -- a way that exists may end in a file, but then no file could be written below it
      have hlast : p.dropLast = last := by simpa using hp
      obtain ⟨hbefore, -⟩ := leads_concat.1 hleads
      rcases List.mem_append.1 hq with hq | hq
      · exact h.addsDirs.get?_dir (hbefore q hq)
      · rw [List.mem_singleton.1 hq, ← hlast]
        exact h.writable.get?_dropLast
  · rcases hall q hq with hmem | hdir
    · exact Step.get?_of_run_makeDirs h.run hmem
    · exact h.addsDirs.get?_dir hdir

theorem fills (h : Prepares t ps p dirs t₁) (pieces : List Bytes) (mode : Nat) :
    carryOut t (writeSteps t (ps ++ [p]) pieces mode) =
        (t₁.put p (.file pieces.flatten (permissions mode)), .ok ()) ∧
      ∃ old filled, statesOf t (writeSteps t (ps ++ [p]) pieces mode) =
          Step.states t (dirs.map .makeDir) ++ t₁.put p (.file [] old) :: filled ∧
        ∀ u ∈ filled, ∃ written, written <+: pieces.flatten ∧
          u = t₁.put p (.file written (permissions mode)) := by
  obtain ⟨hrun, old, filled, hstates, hfilled⟩ := Step.run_fill h.writable pieces mode
  have hsteps := writeSteps_of_parents h.steps pieces mode
  refine ⟨?_, old, filled, ?_, hfilled⟩
  · rw [hsteps, carryOut, Step.run_append_ok h.run, hrun]
  · rw [hsteps, statesOf, Step.states_append h.run, hstates]

end Prepares

/-- Either all is prepared, or nothing but directories is made, whatever was to be written. -/
theorem writeSteps_cases (t : Tree) (ps : List Place) (p : Place) : (∃ dirs t₁, Prepares t ps p dirs t₁) ∨
    ∃ dirs t' fault, dirs ⊆ ps ∧ (∃ made, Step.run t (dirs.map .makeDir) = (t', made)) ∧ ∀ pieces mode,
      carryOut t (writeSteps t (ps ++ [p]) pieces mode) = (t', .error fault) ∧
      statesOf t (writeSteps t (ps ++ [p]) pieces mode) = Step.states t (dirs.map .makeDir) := by
  cases hparents : createParentSteps t (ps ++ [p]) with
  | error fault =>
    refine .inr ⟨[], t, fault, List.nil_subset ps, ⟨_, rfl⟩, fun pieces mode => ?_⟩
    rw [writeSteps, hparents]
    exact ⟨rfl, rfl⟩
  | ok steps =>
    obtain ⟨dirs, rfl, hsub, -⟩ := of_createParentSteps hparents
    rw [List.dropLast_concat] at hsub
    obtain ⟨t₁, fault | ⟨⟩, hrun⟩ : ∃ t₁ made, Step.run t (dirs.map .makeDir) = (t₁, made) := ⟨_, _, rfl⟩
    · refine .inr ⟨dirs, t₁, fault, hsub, ⟨_, hrun⟩, fun pieces mode => ?_⟩
      rw [writeSteps_of_parents hparents]
      exact ⟨Step.run_append_error hrun _, Step.states_append_error hrun _⟩
    · by_cases hwritable : t₁.Writable p
      · exact .inl ⟨dirs, t₁, hparents, hrun, hwritable⟩
      · obtain ⟨fault, hopened⟩ := Step.truncate_of_not_writable hwritable
        refine .inr ⟨dirs, t₁, fault, hsub, ⟨_, hrun⟩, fun pieces mode => ?_⟩
        rw [writeSteps_of_parents hparents, carryOut, statesOf, Step.run_append_ok hrun,
          Step.states_append hrun, Step.run, Step.states, hopened]
        exact ⟨rfl, List.append_nil _⟩

/-- Whether a file can be written at a path: the path names one, its directories are there or can be made,
and none of them is where the file is to be. -/
structure Tree.Takes (t : Tree) (cwd : Place) (path : String) : Prop where
  names : namesFile path = true
  free : ∀ q ∈ parents cwd path, t.get? q = none ∨ t.get? q = some .dir
  apart : place cwd path ∉ parents cwd path
  target : t.get? (place cwd path) ≠ some .dir

theorem exists_prepares_of_takes (horigin : t.locate (origin cwd path) = .ok (some .dir))
    (h : t.Takes cwd path) : ∃ dirs t₁, Prepares t (parents cwd path) (place cwd path) dirs t₁ := by
  obtain ⟨before, name, -, hparents, hplace, -⟩ := way_of_namesFile cwd h.names
  have hfree := h.free
  rw [hparents] at hfree
  obtain ⟨dirs, t₁, hmissing, hrun, hend⟩ := run_missing horigin hfree
  have hsteps : createParentSteps t (parents cwd path ++ [place cwd path]) = .ok (dirs.map .makeDir) := by
    rw [createParentSteps_of_free h.free, createDirSteps, hparents, hmissing]
    rfl
  have hsub : dirs ⊆ parents cwd path := by
    rw [hparents]
    exact (of_missing hmissing).1
  have hget : t₁.get? (place cwd path) = t.get? (place cwd path) :=
    (Step.addsDirs_of_run hsub hrun).get?_of_not_mem h.apart
  have hlocate : t₁.locate (place cwd path) = .ok (t₁.get? (place cwd path)) := by
    rw [hplace]
    exact locate_enter hend name
  refine ⟨dirs, t₁, hsteps, hrun, ?_⟩
  rw [Writable, hlocate, hget]
  cases htarget : t.get? (place cwd path) with
  | none => exact .inl rfl
  | some entry =>
    cases entry with
    | dir => exact absurd htarget h.target
    | file content mode => exact .inr ⟨content, mode, rfl⟩

theorem writeAt_of_namesFile (h : namesFile path = true) : writeAt t cwd path content mode =
    carryOut t (writeSteps t (parents cwd path ++ [place cwd path]) [content] mode) := by
  rw [writeAt, onFile, if_pos h, way_eq cwd h, writeAlong]

theorem writeAt_of_prepares {t₁ : Tree} (hpath : namesFile path = true)
    (h : Prepares t (parents cwd path) (place cwd path) dirs t₁) :
    writeAt t cwd path content mode = (t₁.put (place cwd path) (.file content (permissions mode)), .ok ()) := by
  rw [writeAt_of_namesFile hpath, (h.fills [content] mode).1, List.flatten_singleton]

/-- What is seen while a file is written at a path, the content arriving in pieces. -/
def seen (t : Tree) (cwd : Place) (path : String) (pieces : List Bytes) (mode : Nat) : List Tree :=
  statesOf t <|
    if namesFile path then writeSteps t (way cwd path) pieces mode
    else if (names path).dropLast.any hasEnd then .ok []
    else createParentSteps t (way cwd path)

theorem seen_of_namesFile (h : namesFile path = true) : seen t cwd path pieces mode =
    statesOf t (writeSteps t (parents cwd path ++ [place cwd path]) pieces mode) := by
  rw [seen, if_pos h, way_eq cwd h]

/-- Either all is prepared for a file, or it is refused and nothing but directories is made. -/
theorem writeAt_cases (t : Tree) (cwd : Place) (path : String) :
    (namesFile path = true ∧ ∃ dirs t₁, Prepares t (parents cwd path) (place cwd path) dirs t₁) ∨
    ∃ dirs t', dirs ⊆ parents cwd path ∧ (∃ made, Step.run t (dirs.map .makeDir) = (t', made)) ∧
      (∃ fault, ∀ content mode, writeAt t cwd path content mode = (t', .error fault)) ∧
      ∀ pieces mode, seen t cwd path pieces mode = Step.states t (dirs.map .makeDir) := by
  by_cases hpath : namesFile path = true
  · rcases writeSteps_cases t (parents cwd path) (place cwd path) with
      hprepares | ⟨dirs, t', fault, hsub, hmade, hfails⟩
    · exact .inl ⟨hpath, hprepares⟩
    · refine .inr ⟨dirs, t', hsub, hmade, ⟨fault, fun content mode => ?_⟩, fun pieces mode => ?_⟩
      · rw [writeAt_of_namesFile hpath, (hfails [content] mode).1]
      · rw [seen_of_namesFile hpath, (hfails pieces mode).2]
  · -- such a path is refused after its directories, whether these could be made or not
    refine .inr ?_
    simp only [writeAt, onFile, createParentAt, seen, if_neg hpath]
    by_cases hend : (names path).dropLast.any hasEnd = true
    · simp only [if_pos hend]
      exact ⟨[], t, List.nil_subset _, ⟨_, rfl⟩, ⟨_, fun _ _ => rfl⟩, fun _ _ => rfl⟩
    · simp only [if_neg hend]
      cases hparents : createParentSteps t (way cwd path) with
      | error fault => exact ⟨[], t, List.nil_subset _, ⟨_, rfl⟩, ⟨_, fun _ _ => rfl⟩, fun _ _ => rfl⟩
      | ok steps =>
        obtain ⟨dirs, rfl, hsub, -⟩ := of_createParentSteps hparents
        obtain ⟨t', made, hrun⟩ : ∃ t' made, Step.run t (dirs.map .makeDir) = (t', made) := ⟨_, _, rfl⟩
        refine ⟨dirs, t', hsub, ⟨made, hrun⟩, ?_, fun _ _ => rfl⟩
        rw [carryOut, hrun]
        cases made with
        | error fault => exact ⟨fault, fun _ _ => rfl⟩
        | ok _ => exact ⟨_, fun _ _ => rfl⟩

theorem exists_prepares_of_writeAt (h : writeAt t cwd path content mode = (t', .ok ())) :
    namesFile path = true ∧ ∃ dirs t₁, Prepares t (parents cwd path) (place cwd path) dirs t₁ ∧
      t' = t₁.put (place cwd path) (.file content (permissions mode)) := by
  rcases writeAt_cases t cwd path with ⟨hpath, dirs, t₁, hprepares⟩ | ⟨_, _, _, _, ⟨fault, hfails⟩, _⟩
  · rw [writeAt_of_prepares hpath hprepares] at h
    exact ⟨hpath, dirs, t₁, hprepares, (congrArg Prod.fst h).symm⟩
  · rw [hfails] at h
    cases congrArg Prod.snd h

theorem addsDirs_of_writeAt_error {fault : Fault} (h : writeAt t cwd path content mode = (t', .error fault)) :
    t.AddsDirs (parents cwd path) t' := by
  rcases writeAt_cases t cwd path with ⟨hpath, dirs, t₁, hprepares⟩ |
    ⟨dirs, t₁, hsub, ⟨made, hrun⟩, ⟨_, hfails⟩, _⟩
  · rw [writeAt_of_prepares hpath hprepares] at h
    cases congrArg Prod.snd h
  · rw [hfails] at h
    obtain rfl : t₁ = t' := congrArg Prod.fst h
    exact Step.addsDirs_of_run hsub hrun

theorem writeAt_of_writable (hpath : namesFile path = true) (hdirs : ∀ q ∈ parents cwd path, t.get? q = some .dir)
    (h : t.Writable (place cwd path)) : writeAt t cwd path content mode =
      (t.put (place cwd path) (.file content (permissions mode)), .ok ()) := by
  have hsteps : createParentSteps t (parents cwd path ++ [place cwd path]) = .ok ([].map .makeDir) := by
    rw [createParentSteps_of_free fun q hq => .inr (hdirs q hq), createDirSteps, missing_of_dirs hdirs]
    rfl
  exact writeAt_of_prepares hpath ⟨hsteps, rfl, h⟩

/-- A file that was written at a path is read back, and writing it again changes nothing. -/
theorem of_writeAt (h : writeAt t cwd path content mode = (t', .ok ())) :
    t'.read (place cwd path) = .ok content ∧ writeAt t' cwd path content mode = (t', .ok ()) := by
  obtain ⟨hpath, dirs, t₁, hprepares, rfl⟩ := exists_prepares_of_writeAt h
  have hlocate : (t₁.put (place cwd path) (.file content (permissions mode))).locate (place cwd path) =
      .ok (some (.file content (permissions mode))) := hprepares.writable.locate_put
  refine ⟨read_of_locate hlocate, ?_⟩
  have hdirs (q : Place) (hq : q ∈ parents cwd path) :
      (t₁.put (place cwd path) (.file content (permissions mode))).get? q = some .dir := by
    have hdir := hprepares.get?_parent (dropLast_place hpath) hq
    have hne : q ≠ place cwd path := by
      rintro rfl
      exact hprepares.writable.get?_ne_dir hdir
    rw [get?_put_of_ne hne, hdir]
  rw [writeAt_of_writable hpath hdirs (.inr ⟨_, _, hlocate⟩), put_put]

/-- What may be seen of a file while it is written. First it is what it was, or a directory was made in its
place. If it is then opened, it is empty, and from there on it holds a beginning of the content and has the
permissions. -/
def Guards (t : Tree) (p : Place) (content : Bytes) (mode : Nat) (seen : List Tree) : Prop :=
  ∃ before opened, seen = before ++ opened ∧ (∀ u ∈ before, u.get? p = t.get? p ∨ u.get? p = some .dir) ∧
    (∀ u ∈ opened.head?, ∃ old, u.get? p = some (.file [] old)) ∧
    ∀ u ∈ opened.tail, ∃ written, written <+: content ∧ u.get? p = some (.file written (permissions mode))

theorem guards_seen (t : Tree) (cwd : Place) (path : String) (pieces : List Bytes) (mode : Nat) :
    Guards t (place cwd path) pieces.flatten mode (seen t cwd path pieces mode) := by
  rcases writeAt_cases t cwd path with ⟨hpath, dirs, t₁, hprepares⟩ | ⟨dirs, t', hsub, -, -, hseen⟩
  · obtain ⟨-, old, filled, hstates, hfilled⟩ := hprepares.fills pieces mode
    have hp := hprepares.writable.ne_nil
    rw [seen_of_namesFile hpath]
    refine ⟨_, _, hstates, fun u hu => ?_, ?_, fun u hu => ?_⟩
    · exact (Step.addsDirs_of_mem_states (List.Subset.refl dirs) hu).same_or_dir _
    · rintro u ⟨⟩
      exact ⟨old, get?_put_self hp⟩
    · obtain ⟨written, hwritten, rfl⟩ := hfilled u hu
      exact ⟨written, hwritten, get?_put_self hp⟩
  · refine ⟨_, [], by rw [hseen, List.append_nil], fun u hu => ?_, by simp, by simp⟩
    exact (Step.addsDirs_of_mem_states (List.Subset.refl dirs) hu).same_or_dir _

/-- Nothing but the file is seen to change, but that directories of the path are added. -/
theorem seen_frame (hu : u ∈ seen t cwd path pieces mode) (hq : q ≠ place cwd path) : u.get? q = t.get? q ∨
    q ∈ parents cwd path ∧ t.get? q = none ∧ u.get? q = some .dir := by
  rcases writeAt_cases t cwd path with ⟨hpath, dirs, t₁, hprepares⟩ | ⟨dirs, t', hsub, -, -, hseen⟩
  · obtain ⟨-, old, filled, hstates, hfilled⟩ := hprepares.fills pieces mode
    have hput (e : Entry) : (t₁.put (place cwd path) e).get? q = t.get? q ∨
        q ∈ parents cwd path ∧ t.get? q = none ∧ (t₁.put (place cwd path) e).get? q = some .dir := by
      rw [get?_put_of_ne hq]
      exact hprepares.addsDirs q
    rw [seen_of_namesFile hpath, hstates] at hu
    rcases List.mem_append.1 hu with hu | hu
    · exact Step.addsDirs_of_mem_states hprepares.made.1 hu q
    · rcases List.mem_cons.1 hu with rfl | hu
      · exact hput _
      · obtain ⟨_, -, rfl⟩ := hfilled u hu
        exact hput _
  · rw [hseen] at hu
    exact Step.addsDirs_of_mem_states hsub hu q

/-- However the content is split, the last that is seen is what is left in the end. -/
theorem writeAt_fst (t : Tree) (cwd : Place) (path : String) (pieces : List Bytes) (mode : Nat) :
    (writeAt t cwd path pieces.flatten mode).1 = ((seen t cwd path pieces mode).getLast?).getD t := by
  rcases writeAt_cases t cwd path with ⟨hpath, dirs, t₁, hprepares⟩ |
    ⟨dirs, t', -, ⟨made, hrun⟩, ⟨fault, hfails⟩, hseen⟩
  · rw [writeAt_of_prepares hpath hprepares, seen_of_namesFile hpath, ← carryOut_fst,
      (hprepares.fills pieces mode).1]
  · rw [hfails, hseen, ← Step.run_fst, hrun]

theorem writeAt_succeeds_iff (horigin : t.locate (origin cwd path) = .ok (some .dir)) :
    (∃ t', writeAt t cwd path content mode = (t', .ok ())) ↔ t.Takes cwd path := by
  constructor
  · rintro ⟨t', h⟩
    obtain ⟨hpath, dirs, t₁, hprepares, -⟩ := exists_prepares_of_writeAt h
    have hdir {q : Place} (hq : q ∈ parents cwd path) := hprepares.get?_parent (dropLast_place hpath) hq
    refine ⟨hpath, fun q hq => hprepares.addsDirs.none_or_dir (hdir hq), fun hmem => ?_, ?_⟩
    · exact hprepares.writable.get?_ne_dir (hdir hmem)
    · rw [← hprepares.get?_target]
      exact hprepares.writable.get?_ne_dir
  · intro h
    obtain ⟨dirs, t₁, hprepares⟩ := exists_prepares_of_takes horigin h
    exact ⟨_, writeAt_of_prepares h.names hprepares⟩

theorem get?_of_writeAt (h : writeAt t cwd path content mode = (t', .ok ())) (q : Place) :
    t'.get? q = if q = place cwd path then some (.file content (permissions mode))
      else if q ∈ parents cwd path then some .dir else t.get? q := by
  obtain ⟨hpath, dirs, t₁, hprepares, rfl⟩ := exists_prepares_of_writeAt h
  by_cases hq : q = place cwd path
  · rw [if_pos hq, hq, get?_put_self hprepares.writable.ne_nil]
  · rw [if_neg hq, get?_put_of_ne hq]
    by_cases hmem : q ∈ parents cwd path
    · rw [if_pos hmem, hprepares.get?_parent (dropLast_place hpath) hmem]
    · rw [if_neg hmem, hprepares.addsDirs.get?_of_not_mem hmem]

theorem parents_of_writeAt (h : writeAt t cwd path content mode = (t', .ok ())) (hq : q ∈ parents cwd path) :
    t.get? q = none ∨ t.get? q = some .dir := by
  obtain ⟨hpath, dirs, t₁, hprepares, -⟩ := exists_prepares_of_writeAt h
  exact hprepares.addsDirs.none_or_dir (hprepares.get?_parent (dropLast_place hpath) hq)

/-- A file can be written at a path just if the path names one, its directories are there or can be made, and
no directory is in its place. Then the file has exactly the content and the permissions, whatever was there,
the directories are there, and nothing else has changed. Otherwise only directories of the path may have been
made. Either way, and however the content is split, what is seen is guarded, and nothing else is seen to
change. -/
theorem writeAt_guards (t : Tree) (cwd : Place) (path : String) (content : Bytes) (mode : Nat) :
    (t.locate (origin cwd path) = .ok (some .dir) →
      ((∃ t', writeAt t cwd path content mode = (t', .ok ())) ↔ t.Takes cwd path)) ∧
    (∀ t', writeAt t cwd path content mode = (t', .ok ()) →
      (∀ q, t'.get? q = if q = place cwd path then some (.file content (permissions mode))
        else if q ∈ parents cwd path then some .dir else t.get? q) ∧
      ∀ q ∈ parents cwd path, t.get? q = none ∨ t.get? q = some .dir) ∧
    (∀ t' fault, writeAt t cwd path content mode = (t', .error fault) → ∀ q, t'.get? q = t.get? q ∨
      q ∈ parents cwd path ∧ t.get? q = none ∧ t'.get? q = some .dir) ∧
    ∀ pieces, pieces.flatten = content →
      (writeAt t cwd path content mode).1 = ((seen t cwd path pieces mode).getLast?).getD t ∧
      Guards t (place cwd path) content mode (seen t cwd path pieces mode) ∧
      ∀ u ∈ seen t cwd path pieces mode, ∀ q, q ≠ place cwd path → u.get? q = t.get? q ∨
        q ∈ parents cwd path ∧ t.get? q = none ∧ u.get? q = some .dir := by
  refine ⟨writeAt_succeeds_iff, fun t' h => ⟨get?_of_writeAt h, fun q => parents_of_writeAt h⟩,
    fun t' fault h => addsDirs_of_writeAt_error h, ?_⟩
  rintro pieces rfl
  exact ⟨writeAt_fst t cwd path pieces mode, guards_seen t cwd path pieces mode, fun u hu q => seen_frame hu⟩

/-- A longer file that anyone may read is written over, below a directory that is missing: the content arrives
in two pieces, and never under the old permissions. -/
theorem writeAt_guards_specimen :
    let t : Tree := ⟨[(["home"], .dir), (["home", "key"], .file [1, 2, 3] 0o644)]⟩
    t.locate (origin ["home"] "new/../key") = .ok (some .dir) ∧ [[7], [8]].flatten = [7, 8] ∧
      (∃ t', writeAt t ["home"] "new/../key" [7, 8] 0o400 = (t', .ok ()) ∧
        t'.get? ["home", "key"] = some (.file [7, 8] 0o400) ∧ t'.get? ["home", "new"] = some .dir) ∧
      Guards t ["home", "key"] [7, 8] 0o400 (seen t ["home"] "new/../key" [[7], [8]] 0o400) ∧
      (seen t ["home"] "new/../key" [[7], [8]] 0o400).map (·.get? ["home", "key"]) =
        [some (.file [1, 2, 3] 0o644), some (.file [1, 2, 3] 0o644), some (.file [] 0o644),
          some (.file [] 0o400), some (.file [7] 0o400), some (.file [7, 8] 0o400)] := by
  intro t
  have horigin : t.locate (origin ["home"] "new/../key") = .ok (some .dir) := by decide
  have htakes : t.Takes ["home"] "new/../key" := ⟨by decide, by decide, by decide, by decide⟩
  obtain ⟨hsucceeds, hends, -, hseen⟩ := writeAt_guards t ["home"] "new/../key" [7, 8] 0o400
  obtain ⟨t', ht'⟩ := (hsucceeds horigin).2 htakes
  obtain ⟨hget, -⟩ := hends t' ht'
  obtain ⟨-, hguards, -⟩ := hseen [[7], [8]] rfl
  have hkey : t'.get? ["home", "key"] = some (.file [7, 8] 0o400) := (hget _).trans (by decide)
  have hnew : t'.get? ["home", "new"] = some .dir := (hget _).trans (by decide)
  exact ⟨horigin, rfl, ⟨t', ht', hkey, hnew⟩, hguards, by decide⟩

end LocalFleet.Files
