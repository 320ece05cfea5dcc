import LocalFleet.Settings.Record
import Mathlib

/-! What a layer says of a setting once others were laid over it. If these keep to the settings of the
sections, each of them is asked in turn, from the top down, whether it gives the setting a value. -/

namespace LocalFleet.Settings

namespace Members

theorem find?_cons (n : String) (w : Item) (ms : Members) (name : String) :
    find? ((n, w) :: ms) name = if name = n then some w else find? ms name := by
  by_cases h : name = n
  · simp [find?, h]
  · simp [find?, List.lookup_cons, beq_false_of_ne h, h]

theorem find?_put (ms : Members) (name other : String) (v : Item) :
    (ms.put name v).find? other = if other = name then some v else ms.find? other := by
  induction ms with
  | nil => exact find?_cons name v [] other
  | cons m ms ih =>
    obtain ⟨n, w⟩ := m
    rw [put]
    by_cases hn : n = name
    · rw [if_pos hn, find?_cons, find?_cons, hn]
      split <;> rfl
    · rw [if_neg hn, find?_cons, find?_cons, ih]
      by_cases hother : other = n
      · rw [if_pos hother, if_pos hother, if_neg fun h => hn (hother.symm.trans h)]
      · rw [if_neg hother, if_neg hother]

/-- The last value of members whose name in lower case is `name`. -/
def last? (name : String) : Members → Option Item
  | [] => none
  | (n, v) :: ms => (last? name ms).or (if lower n = name then some v else none)

end Members

namespace Item

variable {ms : Members} {sec name : String} {v : Item}

def IsLeaf (v : Item) : Prop := ∀ ms, v ≠ table ms

def valueOf? (layer : Item) (sec name : String) : Option Item :=
  (layer.members.find? sec).bind fun v => v.members.find? name

theorem valueOf?_table (ms : Members) (sec name : String) :
    (table ms).valueOf? sec name = (ms.find? sec).bind fun v => v.members.find? name := rfl

theorem IsLeaf.cover_eq (h : v.IsLeaf) (base : Option Item) : cover base v = v := by
  cases v with
  | table ms => exact absurd rfl (h ms)
  | _ => rfl

/-- A name of a table that is laid over another has the last value that is given to it on top. -/
theorem find?_coverMembers (base ms : Members) (h : ∀ n v, (n, v) ∈ ms → lower n = name → v.IsLeaf) :
    (coverMembers base ms).find? name = (Members.last? name ms).or (base.find? name) := by
  induction ms generalizing base with
  | nil => rfl
  | cons m ms ih =>
    obtain ⟨n, v⟩ := m
    have hrest := ih (base.put (lower n) (cover (base.find? (lower n)) v))
      fun n v hmem => h n v (List.mem_cons_of_mem _ hmem)
    rw [coverMembers, hrest, Members.find?_put, Members.last?, Option.or_assoc]
    by_cases hn : lower n = name
    · rw [if_pos hn, if_pos hn.symm, (h n v List.mem_cons_self hn).cover_eq]
      rfl
    · rw [if_neg hn, if_neg (Ne.symm hn)]
      rfl

def under (base : Option Item) : Members := (base.map members).getD []

theorem bind_find? (base : Option Item) (name : String) :
    (base.bind fun v => v.members.find? name) = Members.find? (under base) name := by
  cases base <;> rfl

theorem cover_table (base : Option Item) (hbase : ∀ v, base = some v → ∃ ms, v = table ms) (ms : Members) :
    cover base (table ms) = table (coverMembers (under base) ms) := by
  cases ms with
  | cons m ms => rfl
  | nil =>
    cases base with
    | none => rfl
    | some v =>
      obtain ⟨t, rfl⟩ := hbase v rfl
      rfl

theorem assign_table (ms : Members) (n : String) (path : List String) (v : Item) :
    assign (some (table ms)) (n :: path) v =
      table (ms.put (lower n) (assign (ms.find? (lower n)) path v)) := rfl

theorem assign_cons (base : Option Item) (n : String) (path : List String) (v : Item) :
    assign base (n :: path) v =
      table ((under base).put (lower n) (assign ((under base).find? (lower n)) path v)) := rfl

end Item

/-- The names of the settings of a section, if there is such a section. -/
def namesOf (sec : String) : Option (List String) :=
  (sections.zip [ClusterSettings.names, PollSettings.names, FixtureSettings.names,
    ProvisionSettings.names, SubnetSettings.names, OutputSettings.names]).lookup sec

/-- Whether a section has a setting of this name. -/
def IsSetting (sec name : String) : Prop := ∃ names, namesOf sec = some names ∧ name ∈ names

/-- Whether a value at the end of a path leaves sections tables and settings no tables: a section is given
a table in which no setting is one, and nothing is put below a setting. -/
def KeepsTo : (path : List String) → Item → Prop
  | [], _ => False
  | [n], v => (namesOf (lower n)).isSome → ∃ ms, v = .table ms ∧
      ∀ m w, (m, w) ∈ ms → IsSetting (lower n) (lower m) → w.IsLeaf
  | n :: m :: rest, v => IsSetting (lower n) (lower m) → rest = [] ∧ v.IsLeaf

theorem keepsTo_singleton {n : String} {ms : Members} (h : ∀ m ∈ ms, m.2.IsLeaf) :
    KeepsTo [n] (.table ms) :=
  fun _ => ⟨ms, rfl, fun m w hmem _ => h (m, w) hmem⟩

-- elaboration would unfold the path in whatever is assumed of it
attribute [local irreducible] pathOf

/-- Whether named values only set settings of the sections; what they say of other names does not
matter. -/
def Members.OnlySet (ms : Members) : Prop := ∀ name v, (name, v) ∈ ms → KeepsTo (pathOf (lower name)) v

theorem Members.onlySet_singleton {name : String} {v : Item} :
    OnlySet [(name, v)] ↔ KeepsTo (pathOf (lower name)) v := by
  simp [OnlySet]

/-- A layer of which every section is a table. -/
structure Item.Sectioned (layer : Item) : Prop where
  isTable : ∃ ms, layer = .table ms
  sections : ∀ sec, (namesOf sec).isSome → ∀ v, layer.members.find? sec = some v → ∃ ms, v = .table ms

/-- What a value at the end of a path says of a setting. -/
def said (sec name : String) : (path : List String) → Item → Option Item
  | [n], v => if lower n = sec then Members.last? name v.members else none
  | [n, m], v => if lower n = sec ∧ lower m = name then some v else none
  | _, _ => none

/-- The last that named values say of a setting. -/
def Members.said (sec name : String) : Members → Option Item
  | [] => none
  | (n, v) :: ms => (said sec name ms).or (Settings.said sec name (pathOf (lower n)) v)

variable {layer v : Item} {sec name : String} {path : List String}

theorem IsSetting.isSome (h : IsSetting sec name) : (namesOf sec).isSome := by
  obtain ⟨names, hnames, _⟩ := h
  rw [hnames]
  rfl

namespace Item

theorem sectioned_assign (h : layer.Sectioned) (hv : KeepsTo path v) :
    (assign (some layer) path v).Sectioned := by
  obtain ⟨⟨ms, rfl⟩, hsections⟩ := h
  cases path with
  | nil => exact hv.elim
  | cons n rest =>
    rw [assign_table]
    refine ⟨⟨_, rfl⟩, fun sec hsec w hw => ?_⟩
    rw [members, Members.find?_put] at hw
    by_cases hn : sec = lower n
    · rw [if_pos hn] at hw
      obtain rfl := Option.some.inj hw
      cases rest with
      | nil =>
        obtain ⟨ms', rfl, _⟩ := hv (hn ▸ hsec)
        exact ⟨_, cover_table _ (hsections _ (hn ▸ hsec)) ms'⟩
      | cons m rest => exact ⟨_, assign_cons _ m rest v⟩
    · rw [if_neg hn] at hw
      exact hsections sec hsec w hw

/-- A value that keeps to settings gives a setting what it says of it, if it says anything. -/
theorem valueOf?_assign (h : layer.Sectioned) (hv : KeepsTo path v) (hs : IsSetting sec name) :
    (assign (some layer) path v).valueOf? sec name =
      (said sec name path v).or (layer.valueOf? sec name) := by
  obtain ⟨⟨ms, rfl⟩, hsections⟩ := h
  cases path with
  | nil => exact hv.elim
  | cons n rest =>
    rw [assign_table, valueOf?_table, valueOf?_table, Members.find?_put]
    by_cases hn : sec = lower n
    · rw [if_pos hn, Option.bind_some]
      subst hn
      rw [bind_find?]
      cases rest with
      | nil =>
        obtain ⟨ms', rfl, hleaf⟩ := hv hs.isSome
        rw [assign, cover_table (Members.find? ms (lower n)) (hsections _ hs.isSome) ms']
        show Members.find? (coverMembers _ ms') name = _
        rw [find?_coverMembers _ _ fun m w hmem hm => hleaf m w hmem (hm ▸ hs), said, if_pos rfl]
        rfl
      | cons m rest =>
        rw [assign_cons]
        show Members.find? ((under _).put (lower m) _) name = _
        rw [Members.find?_put]
        by_cases hm : name = lower m
        · obtain ⟨rfl, hleaf⟩ := hv (hm ▸ hs)
          rw [if_pos hm, assign, hleaf.cover_eq, said, if_pos ⟨rfl, hm.symm⟩]
          rfl
        · rw [if_neg hm]
          have hnone : said (lower n) name (n :: m :: rest) v = none := by
            cases rest with
            | nil => rw [said, if_neg fun hh => hm hh.2.symm]
            | cons l rest => rfl
          rw [hnone]
          rfl
    · rw [if_neg hn]
      have hnone : said sec name (n :: rest) v = none := by
        match rest with
        | [] => rw [said, if_neg (Ne.symm hn)]
        | [m] => rw [said, if_neg fun hh => hn hh.1.symm]
        | _ :: _ :: _ => rfl
      rw [hnone]
      rfl

theorem sectioned_overlay (h : layer.Sectioned) {ms : Members} (hms : ms.OnlySet) :
    (layer.overlay ms).Sectioned ∧ ∀ sec name, IsSetting sec name →
      (layer.overlay ms).valueOf? sec name = (ms.said sec name).or (layer.valueOf? sec name) := by
  induction ms generalizing layer with
  | nil => exact ⟨h, fun _ _ _ => rfl⟩
  | cons m ms ih =>
    obtain ⟨n, v⟩ := m
    have hv : KeepsTo (pathOf (lower n)) v := hms n v List.mem_cons_self
    obtain ⟨hsectioned, hentry⟩ := ih (sectioned_assign h hv) fun n v hmem => hms n v (List.mem_cons_of_mem _ hmem)
    refine ⟨hsectioned, fun sec name hs => ?_⟩
    have hstep := hentry sec name hs
    rw [valueOf?_assign h hv hs] at hstep
    rw [Members.said, Option.or_assoc]
    exact hstep

end Item

/-- What named values say of a setting when they are alone. -/
def Members.valueOf? (ms : Members) (sec name : String) : Option Item :=
  (Item.overlay (.table []) ms).valueOf? sec name

theorem sectioned_empty : (Item.table []).Sectioned :=
  ⟨⟨[], rfl⟩, fun _ _ _ h => nomatch h⟩

theorem Members.OnlySet.valueOf?_eq_said {ms : Members} (hms : ms.OnlySet) (hs : IsSetting sec name) :
    ms.valueOf? sec name = ms.said sec name := by
  rw [Members.valueOf?, (Item.sectioned_overlay sectioned_empty hms).2 sec name hs]
  exact Option.or_none

end LocalFleet.Settings
