import LocalFleet.Proofs.Files.Tree

/-! The single steps of writing. Steps in a row make the directories of a way, and then open a file, set its
permissions and fill it; what is said of them is what they leave, and what is seen between them. -/

namespace LocalFleet.Files

open LocalFleet.Files.Tree

variable {t t' u : Tree} {p q : Place} {here : Place} {path : String} {cwd : Place} {ps dirs : List Place}
  {content : Bytes} {pieces : List Bytes} {mode : Nat}

/-! ### Ways -/

theorem wayFrom_concat (before : List String) (name : String) : wayFrom here (before ++ [name]) =
    wayFrom here before ++ [enter (before.foldl enter here) name] := by
  induction before generalizing here with
  | nil => rfl
  | cons first before ih => rw [List.cons_append, wayFrom, ih, wayFrom, List.cons_append, List.foldl_cons]

theorem wayFrom_getLast? (names : List String) :
    ((wayFrom here names).getLast?).getD here = names.foldl enter here := by
  induction names using List.reverseRecOn with
  | nil => rfl
  | append_singleton before name _ => simp [wayFrom_concat]

theorem exists_names_of_namesFile (h : namesFile path = true) :
    ∃ before name, names path = before ++ [name] ∧ name ≠ ".." := by
  have hdir : namesDirectory path = false := by
    rw [namesFile, Bool.and_eq_true, Bool.not_eq_true', Bool.not_eq_true'] at h
    exact h.2
  rw [namesDirectory] at hdir
  cases hlast : (Text.splitOn '/' path.toList).getLast? with
  | none => simp [hlast] at hdir
  | some last =>
    rw [hlast, Option.getD_some] at hdir
    obtain ⟨before, hsplit⟩ := List.getLast?_eq_some_iff.1 hlast
    have hne (dots : String) (hdots : dots.toList = [] ∨ dots.toList = ['.'] ∨ dots.toList = ['.', '.']) :
        String.ofList last ≠ dots := by
      rintro rfl
      rw [String.toList_ofList] at hdots
      rcases hdots with rfl | rfl | rfl <;> simp at hdir
    refine ⟨((before.map String.ofList).filter fun part => part ≠ "" ∧ part ≠ "."), String.ofList last, ?_,
      hne ".." (by decide)⟩
    have hkept : String.ofList last ≠ "" ∧ String.ofList last ≠ "." :=
      ⟨hne "" (by decide), hne "." (by decide)⟩
    rw [names, hsplit, List.map_append, List.filter_append, List.map_singleton,
      List.filter_cons_of_pos (by simpa using hkept), List.filter_nil]

def parents (cwd : Place) (path : String) : List Place := (way cwd path).dropLast

theorem way_of_namesFile (cwd : Place) (h : namesFile path = true) : ∃ before name, name ≠ ".." ∧
    parents cwd path = wayFrom (origin cwd path) before ∧
    place cwd path = enter (before.foldl enter (origin cwd path)) name ∧
    way cwd path = parents cwd path ++ [place cwd path] := by
  obtain ⟨before, name, hnames, hname⟩ := exists_names_of_namesFile h
  have hplace : place cwd path = enter (before.foldl enter (origin cwd path)) name := by
    rw [place, hnames, List.foldl_append, List.foldl_cons, List.foldl_nil]
  have hway : way cwd path = wayFrom (origin cwd path) before ++ [place cwd path] := by
    rw [way, hnames, wayFrom_concat, hplace]
  have hparents : parents cwd path = wayFrom (origin cwd path) before := by
    rw [parents, hway, List.dropLast_concat]
  exact ⟨before, name, hname, hparents, hplace, by rw [hway, hparents]⟩

theorem way_eq (cwd : Place) (h : namesFile path = true) :
    way cwd path = parents cwd path ++ [place cwd path] := by
  obtain ⟨_, _, -, -, -, hway⟩ := way_of_namesFile cwd h
  exact hway

theorem dropLast_place (h : namesFile path = true) :
    (place cwd path).dropLast = ((parents cwd path).getLast?).getD (origin cwd path) := by
  obtain ⟨before, name, hname, hparents, hplace, -⟩ := way_of_namesFile cwd h
  rw [hparents, wayFrom_getLast?, hplace, enter, if_neg hname, List.dropLast_concat]

/-! ### Steps in a row -/

namespace Step

variable {ss rest : List Step} {t₁ : Tree} {fault : Fault}

theorem run_append_ok (h : run t ss = (t₁, .ok ())) (rest : List Step) : run t (ss ++ rest) = run t₁ rest := by
  induction ss generalizing t with
  | nil =>
    obtain rfl : t = t₁ := congrArg Prod.fst h
    rfl
  | cons s ss ih =>
    rw [List.cons_append, run]
    rw [run] at h
    cases hs : s.apply t with
    | error fault => simp [hs] at h
    | ok t₂ =>
      rw [hs] at h
      exact ih h

theorem run_append_error (h : run t ss = (t₁, .error fault)) (rest : List Step) :
    run t (ss ++ rest) = (t₁, .error fault) := by
  induction ss generalizing t with
  | nil => cases congrArg Prod.snd h
  | cons s ss ih =>
    rw [List.cons_append, run]
    rw [run] at h
    cases hs : s.apply t with
    | error fault =>
      rw [hs] at h
      exact h
    | ok t₂ =>
      rw [hs] at h
      exact ih h

theorem states_append (h : run t ss = (t₁, .ok ())) (rest : List Step) :
    states t (ss ++ rest) = states t ss ++ states t₁ rest := by
  induction ss generalizing t with
  | nil =>
    obtain rfl : t = t₁ := congrArg Prod.fst h
    rfl
  | cons s ss ih =>
    rw [List.cons_append, states, states]
    rw [run] at h
    cases hs : s.apply t with
    | error fault => simp [hs] at h
    | ok t₂ =>
      rw [hs] at h
      exact congrArg (t₂ :: ·) (ih h)

theorem states_append_error (h : run t ss = (t₁, .error fault)) (rest : List Step) :
    states t (ss ++ rest) = states t ss := by
  induction ss generalizing t with
  | nil => cases congrArg Prod.snd h
  | cons s ss ih =>
    rw [List.cons_append, states, states]
    rw [run] at h
    cases hs : s.apply t with
    | error fault => rfl
    | ok t₂ =>
      rw [hs] at h
      exact congrArg (t₂ :: ·) (ih h)

theorem run_fst (ss : List Step) : (run t ss).1 = ((states t ss).getLast?).getD t := by
  induction ss generalizing t with
  | nil => rfl
  | cons s ss ih =>
    rw [run, states]
    cases s.apply t with
    | error fault => rfl
    | ok t₁ =>
      rw [List.getLast?_cons]
      exact ih

/-! ### Making directories -/

theorem addsDirs_of_makeDir (hmem : p ∈ ps) (h : apply t (.makeDir p) = .ok u) :
    t.AddsDirs ps u ∧ u.get? p = some .dir := by
  rw [apply] at h
  cases hlocate : t.locate p with
  | error fault => simp [hlocate] at h
  | ok found =>
    rw [hlocate] at h
    have hget := get?_of_locate hlocate
    match found with
    | none =>
      obtain rfl := Except.ok.inj h
      exact ⟨addsDirs_put hmem hget, get?_put_self (ne_nil_of_get?_eq_none hget)⟩
    | some .dir =>
      obtain rfl := Except.ok.inj h
      exact ⟨.refl t ps, hget⟩
    | some (.file ..) => cases h

theorem addsDirs_of_mem_states (hsub : dirs ⊆ ps) (h : u ∈ states t (dirs.map makeDir)) : t.AddsDirs ps u := by
  induction dirs generalizing t with
  | nil => cases h
  | cons p dirs ih =>
    obtain ⟨hmem, hrest⟩ := List.cons_subset.1 hsub
    rw [List.map_cons, states] at h
    cases hs : apply t (.makeDir p) with
    | error fault => simp [hs] at h
    | ok t₁ =>
      have hadds := (addsDirs_of_makeDir hmem hs).1
      rw [hs] at h
      rcases List.mem_cons.1 h with rfl | h
      · exact hadds
      · exact hadds.trans (ih hrest h)

theorem addsDirs_of_run {r : Except Fault Unit} (hsub : dirs ⊆ ps) (h : run t (dirs.map makeDir) = (t', r)) :
    t.AddsDirs ps t' := by
  have hend : t' = ((states t (dirs.map makeDir)).getLast?).getD t := by
    rw [← run_fst, h]
  rw [hend]
  cases hlast : (states t (dirs.map makeDir)).getLast? with
  | none => exact .refl t ps
  | some u => exact addsDirs_of_mem_states hsub (List.mem_of_getLast? hlast)

theorem get?_of_run_makeDirs (h : run t (dirs.map makeDir) = (t', .ok ())) (hq : q ∈ dirs) :
    t'.get? q = some .dir := by
  induction dirs generalizing t with
  | nil => cases hq
  | cons p dirs ih =>
    rw [List.map_cons, run] at h
    cases hs : apply t (.makeDir p) with
    | error fault => simp [hs] at h
    | ok t₁ =>
      rw [hs] at h
      rcases List.mem_cons.1 hq with rfl | hq
      · have hdir := (addsDirs_of_makeDir (List.mem_singleton_self q) hs).2
        exact (addsDirs_of_run (List.Subset.refl dirs) h).get?_dir hdir
      · exact ih h hq

/-- Directories are made one after another where nothing else is in the way. -/
theorem run_makeDirs_of_free {names : List String} (hhere : t.locate here = .ok (some .dir))
    (hfree : ∀ q ∈ wayFrom here names, t.get? q = none ∨ t.get? q = some .dir) :
    ∃ t₁, run t ((wayFrom here names).map makeDir) = (t₁, .ok ()) ∧
      t₁.locate (names.foldl enter here) = .ok (some .dir) := by
  induction names generalizing t here with
  | nil => exact ⟨t, rfl, hhere⟩
  | cons name names ih =>
    obtain ⟨hnext, hrest⟩ := List.forall_mem_cons.1 hfree
    have hlocate := locate_enter hhere name
    rw [wayFrom, List.map_cons, run, apply, hlocate, List.foldl_cons]
    rcases hnext with hnone | hdir
    · have hne := ne_nil_of_get?_eq_none hnone
      have hput : (t.put (enter here name) .dir).locate (enter here name) = .ok (some .dir) :=
        locate_put hlocate hne
      rw [hnone]
      -- the directory that was made is in nobody's way: `..` may lead back to it
      refine ih hput fun q hq => ?_
      by_cases hsame : q = enter here name
      · rw [hsame]
        exact .inr (get?_put_self hne)
      · rw [get?_put_of_ne hsame]
        exact hrest q hq
    · rw [hdir] at hlocate ⊢
      exact ih hlocate hrest

/-! ### Filling a file -/

theorem truncate_of_writable (h : t.Writable p) (mode : Nat) :
    ∃ old, apply t (.truncate p mode) = .ok (t.put p (.file [] old)) := by
  rcases h with hlocate | ⟨_, old, hlocate⟩
  · exact ⟨_, by rw [apply, openFile, hlocate]⟩
  · exact ⟨old, by rw [apply, openFile, hlocate]⟩

theorem truncate_of_not_writable (h : ¬ t.Writable p) :
    ∃ fault, ∀ mode, apply t (.truncate p mode) = .error fault := by
  cases hlocate : t.locate p with
  | error fault => exact ⟨fault, fun mode => by rw [apply, openFile, hlocate]⟩
  | ok found =>
    match found with
    | none => exact absurd (.inl hlocate) h
    | some (.file content old) => exact absurd (.inr ⟨content, old, hlocate⟩) h
    | some .dir => exact ⟨.isADirectory, fun mode => by rw [apply, openFile, hlocate]⟩

theorem setMode_of_writable (h : t.Writable p) (mode old : Nat) : apply (t.put p (.file [] old)) (.setMode p mode) =
    .ok (t.put p (.file [] (permissions mode))) := by
  rw [apply, read_of_locate h.locate_put]
  exact congrArg Except.ok put_put

theorem append_put (hp : p ≠ []) (done more : Bytes) : apply (t.put p (.file done mode)) (.append p more) =
    .ok (t.put p (.file (done ++ more) mode)) := by
  rw [apply, get?_put_self hp]
  exact congrArg Except.ok put_put

theorem run_appends (hp : p ≠ []) (done : Bytes) (pieces : List Bytes) :
    run (t.put p (.file done mode)) (pieces.map (append p)) =
      (t.put p (.file (done ++ pieces.flatten) mode), .ok ()) := by
  induction pieces generalizing done with
  | nil => rw [List.map_nil, run, List.flatten_nil, List.append_nil]
  | cons piece pieces ih =>
    rw [List.map_cons, run, append_put hp, List.flatten_cons, ← List.append_assoc]
    exact ih (done ++ piece)

theorem of_mem_states_appends (hp : p ≠ []) {done : Bytes}
    (h : u ∈ states (t.put p (.file done mode)) (pieces.map (append p))) :
    ∃ written, written <+: done ++ pieces.flatten ∧ u = t.put p (.file written mode) := by
  induction pieces generalizing done with
  | nil => cases h
  | cons piece pieces ih =>
    rw [List.map_cons, states, append_put hp] at h
    rw [List.flatten_cons, ← List.append_assoc]
    rcases List.mem_cons.1 h with rfl | h
    · exact ⟨done ++ piece, List.prefix_append _ _, rfl⟩
    · exact ih h

/-- The steps that fill a file: it is empty when it gets its permissions, and has them ever after. -/
theorem run_fill (h : t.Writable p) (pieces : List Bytes) (mode : Nat) :
    run t (.truncate p mode :: .setMode p mode :: pieces.map (append p)) =
        (t.put p (.file pieces.flatten (permissions mode)), .ok ()) ∧
      ∃ old filled, states t (.truncate p mode :: .setMode p mode :: pieces.map (append p)) =
          t.put p (.file [] old) :: filled ∧
        ∀ u ∈ filled, ∃ written, written <+: pieces.flatten ∧
          u = t.put p (.file written (permissions mode)) := by
  obtain ⟨old, hopened⟩ := truncate_of_writable h mode
  have hset := setMode_of_writable h mode old
  constructor
  · rw [run, hopened]
    show run (t.put p (.file [] old)) _ = _
    rw [run, hset]
    exact run_appends h.ne_nil [] pieces
  · refine ⟨old, _, by rw [states, hopened], fun u hu => ?_⟩
    rw [states, hset] at hu
    rcases List.mem_cons.1 hu with rfl | hu
    · exact ⟨[], List.nil_prefix, rfl⟩
    · exact of_mem_states_appends h.ne_nil hu

end Step

end LocalFleet.Files
