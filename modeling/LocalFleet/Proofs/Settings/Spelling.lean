import LocalFleet.Proofs.Json.Scalar
import LocalFleet.Proofs.Settings.Priority

/-! What a variable gives a setting that is a text. The value of a variable is read as a truth value or
as a number, if it can be, before it is known that a text is wanted, and is then written again: the
setting has another text than the variable if it is written in another way. -/

namespace LocalFleet

namespace Decimal

theorem toDigits_of_natFrom? {text : List Char} (hne : text ≠ []) (hhead : text.head? ≠ some '0')
    {n : Nat} (h : natFrom? 0 text = some n) : Nat.toDigits 10 n = text ∧ 0 < n := by
  induction text using List.reverseRecOn generalizing n with
  | nil => exact absurd rfl hne
  | append_singleton text c ih =>
    rw [natFrom?_append, Option.bind_eq_some_iff] at h
    obtain ⟨m, hm, h⟩ := h
    simp only [natFrom?, Option.bind_eq_some_iff, Option.some.injEq] at h
    obtain ⟨d, hd, rfl⟩ := h
    obtain ⟨hlt, hchar⟩ := digitChar_of_digit? hd
    cases text with
    | nil =>
      obtain rfl : 0 = m := Option.some.inj hm
      have hpos : d ≠ 0 := by
        rintro rfl
        exact hhead (by rw [← hchar]; rfl)
      rw [toDigits_eq, if_pos (by omega), Nat.mul_zero, Nat.zero_add, hchar]
      exact ⟨rfl, Nat.pos_of_ne_zero hpos⟩
    | cons b text =>
      obtain ⟨hdigits, hpos⟩ := ih (by simp) hhead hm
      have hdiv : (10 * m + d) / 10 = m := by omega
      have hmod : (10 * m + d) % 10 = d := by omega
      rw [toDigits_eq, if_neg (by omega), hdiv, hmod, hdigits, hchar]
      exact ⟨rfl, by omega⟩

theorem toDigits_eq_iff {text : List Char} {n : Nat} (h : nat? text = some n) :
    Nat.toDigits 10 n = text ↔ text = ['0'] ∨ text.head? ≠ some '0' := by
  rw [nat?] at h
  split at h
  · cases h
  · rename_i hne
    constructor
    · rintro rfl
      obtain ⟨c, rest, heq, hzero⟩ := (toDigits_spec n).2
      rw [heq]
      by_cases hc : c = '0'
      · obtain ⟨rfl, -⟩ := hzero (by rw [hc]; rfl)
        exact .inl (by rw [hc])
      · exact .inr (by simpa using hc)
    · rintro (rfl | hhead)
      · obtain rfl : 0 = n := Option.some.inj h
        rfl
      · exact (toDigits_of_natFrom? hne hhead h).1

/-- Whether a whole number is written as it is printed: without a plus sign, without a zero before
another digit, and without a minus sign before a zero. -/
def IsPrinted : List Char → Prop
  | '-' :: text => text.head? ≠ some '0'
  | '+' :: _ => False
  | text => text = ['0'] ∨ text.head? ≠ some '0'

theorem toList_toString_ofNat (n : Nat) : (toString (Int.ofNat n)).toList = Nat.toDigits 10 n :=
  String.toList_ofList

theorem toList_toString_neg (n : Nat) :
    (toString (-Int.ofNat n)).toList = if n = 0 then ['0'] else '-' :: Nat.toDigits 10 n := by
  cases n with
  | zero => decide
  | succ n =>
    show ("-" ++ String.ofList (Nat.toDigits 10 (n + 1))).toList = _
    simp

theorem toString_eq_iff {text : List Char} {v : Int} (h : signed? text = some v) :
    (toString v).toList = text ↔ IsPrinted text := by
  unfold signed? at h
  split at h <;> obtain ⟨n, hn, rfl⟩ := Option.map_eq_some_iff.mp h
  · rename_i text
    rw [toList_toString_ofNat]
    refine ⟨fun e => ?_, False.elim⟩
    have hdigit := (toDigits_spec n).1 '+' (e ▸ List.mem_cons_self)
    exact absurd hdigit (by decide)
  · rename_i text
    have hiff := toDigits_eq_iff hn
    rw [toList_toString_neg, IsPrinted]
    split
    · rename_i hzero
      subst hzero
      refine ⟨fun e => absurd (List.cons.inj e).1 (by decide), fun hhead => ?_⟩
      have e : ['0'] = text := hiff.mpr (.inr hhead)
      exact absurd (e ▸ rfl) hhead
    · rename_i hne
      rw [List.cons.injEq, hiff]
      refine ⟨fun e => e.2.resolve_left ?_, fun hhead => ⟨rfl, .inr hhead⟩⟩
      rintro rfl
      exact hne (Option.some.inj hn).symm
  · rename_i hplus hminus
    rw [toList_toString_ofNat, toDigits_eq_iff hn, IsPrinted]
    · exact hminus
    · exact hplus

end Decimal

theorem Text.splitOn_append {separator : Char} {piece : List Char} (h : separator ∉ piece)
    (rest : List Char) :
    splitOn separator (piece ++ separator :: rest) = piece :: splitOn separator rest := by
  induction piece with
  | nil => simp [splitOn]
  | cons c piece ih =>
    have hc : c ≠ separator := fun e => h (e ▸ List.mem_cons_self)
    have hp : separator ∉ piece := fun m => h (List.mem_cons_of_mem _ m)
    simp [splitOn, hc, ih hp]

theorem Text.splitOn_of_not_mem {separator : Char} {piece : List Char} (h : separator ∉ piece) :
    splitOn separator piece = [piece] := by
  induction piece with
  | nil => rfl
  | cons c piece ih =>
    have hc : c ≠ separator := fun e => h (e ▸ List.mem_cons_self)
    have hp : separator ∉ piece := fun m => h (List.mem_cons_of_mem _ m)
    simp [splitOn, hc, ih hp]

namespace Settings

/-- Whether a name is one that stands for itself in the name of a variable: there are no two underscores
in a row in it, and it is in lower case. -/
structure IsName (name : String) : Prop where
  pointed_eq : Environment.pointed name.toList = name.toList
  lower_eq : name.toList.map lowerChar = name.toList
  ne_nil : name.toList ≠ []
  all_isNameChar : name.toList.all isNameChar = true

instance (name : String) : Decidable (IsName name) :=
  decidable_of_iff (Environment.pointed name.toList = name.toList ∧
      name.toList.map lowerChar = name.toList ∧ name.toList ≠ [] ∧ name.toList.all isNameChar = true)
    ⟨fun ⟨h1, h2, h3, h4⟩ => ⟨h1, h2, h3, h4⟩, fun ⟨h1, h2, h3, h4⟩ => ⟨h1, h2, h3, h4⟩⟩

theorem IsName.point_not_mem {name : String} (h : IsName name) : '.' ∉ name.toList :=
  fun hm => absurd (List.all_eq_true.mp h.all_isNameChar _ hm) (by decide)

theorem IsName.lower_self {name : String} (h : IsName name) : lower name = name := by
  rw [lower, h.lower_eq, String.ofList_toList]

theorem pathOf_point {sec name : String} (hsec : IsName sec) (hname : IsName name) :
    pathOf (String.ofList (sec.toList ++ '.' :: name.toList)) = [sec, name] := by
  have hpieces : Text.splitOn '.' (sec.toList ++ '.' :: name.toList) = [sec.toList, name.toList] := by
    rw [Text.splitOn_append hsec.point_not_mem, Text.splitOn_of_not_mem hname.point_not_mem]
  have hvalid {piece : String} (h : IsName piece) :
      (!piece.toList.isEmpty && piece.toList.all isNameChar) = true := by
    simp [h.ne_nil, h.all_isNameChar]
  rw [pathOf, String.toList_ofList, hpieces]
  simp [List.all_cons, hvalid hsec, hvalid hname]

namespace Environment

theorem pointed_append {sec : List Char} (h : '_' ∉ sec) (rest : List Char) :
    pointed (sec ++ '_' :: '_' :: rest) = sec ++ '.' :: pointed rest := by
  induction sec with
  | nil => rfl
  | cons c sec ih =>
    have hc : c ≠ '_' := fun e => h (e ▸ List.mem_cons_self)
    have hs : '_' ∉ sec := fun m => h (List.mem_cons_of_mem _ m)
    rw [List.cons_append, pointed, ih hs, List.cons_append]
    exact fun _ e _ => hc e

theorem path?_eq {key sec name : String} (hsec : IsName sec) (hname : IsName name) (hline : '_' ∉ sec.toList)
    (h : lower key = head ++ sec ++ "__" ++ name) : path? key = some [sec, name] := by
  have e : (lower key).toList = head.toList ++ (sec.toList ++ '_' :: '_' :: name.toList) := by
    rw [h]
    simp [String.toList_append]
  have hlower : lower (String.ofList (sec.toList ++ '.' :: name.toList)) =
      String.ofList (sec.toList ++ '.' :: name.toList) := by
    rw [lower, String.toList_ofList, List.map_append, List.map_cons, hsec.lower_eq, hname.lower_eq]
    rfl
  rw [path?, Text.dropHead?_eq_some_iff.mpr e, Option.map_some, pointed_append hline, hname.pointed_eq,
    hlower, pathOf_point hsec hname]

theorem valueOf?_append (sec name : String) (a b : Environment) :
    valueOf? sec name (a ++ b) = (valueOf? sec name b).or (valueOf? sec name a) := by
  induction a with
  | nil => exact (Option.or_none).symm
  | cons v a ih =>
    obtain ⟨key, value⟩ := v
    rw [List.cons_append, valueOf?, ih, valueOf?, Option.or_assoc]

theorem members_append (a b : Environment) : members (a ++ b) = members a ++ members b :=
  List.filterMap_append

def spelled (t : String) : String := (item t).text?.getD t

theorem text?_item (t : String) : (item t).text? = some (spelled t) := by
  unfold spelled item
  split
  · rfl
  · split
    · rfl
    · split
      · rfl
      · split <;> rfl

theorem isLeaf_item (t : String) : (item t).IsLeaf := by
  intro ms h
  have htext := text?_item t
  rw [h] at htext
  cases htext

/-- Whether a text means a truth value. -/
def IsTruth (t : String) : Prop := lower t = "true" ∨ lower t = "false"

/-- Whether a text is written in the way in which what it means is printed. -/
structure Kept (t : String) : Prop where
  truth : IsTruth t → lower t = t
  whole : ¬IsTruth t → (Decimal.signedWord? 64 t.toList).isSome → Decimal.IsPrinted t.toList
  other : ¬IsTruth t → Decimal.signedWord? 64 t.toList = none →
    ∀ x, Binary64.ofText? t.toList = some x → x.text = t

theorem kept_iff_of_truth {t : String} (h : IsTruth t) : Kept t ↔ lower t = t :=
  ⟨fun hk => hk.truth h, fun e => ⟨fun _ => e, fun hn => absurd h hn, fun hn => absurd h hn⟩⟩

theorem kept_iff_of_whole {t : String} (ht : ¬IsTruth t) {v : Int}
    (h : Decimal.signedWord? 64 t.toList = some v) : Kept t ↔ Decimal.IsPrinted t.toList :=
  ⟨fun hk => hk.whole ht (by simp [h]), fun hp => ⟨fun hn => absurd hn ht, fun _ _ => hp, by simp [h]⟩⟩

theorem kept_iff_of_other {t : String} (ht : ¬IsTruth t) (h : Decimal.signedWord? 64 t.toList = none) :
    Kept t ↔ ∀ x, Binary64.ofText? t.toList = some x → x.text = t :=
  ⟨fun hk => hk.other ht h, fun hx => ⟨fun hn => absurd hn ht, by simp [h], fun _ _ => hx⟩⟩

/-- Just the texts that are written as they are printed come to a setting unchanged. -/
theorem spelled_eq_iff (t : String) : spelled t = t ↔ Kept t := by
  unfold spelled item
  split
  · rename_i htrue
    rw [kept_iff_of_truth (.inl htrue), htrue]
    rfl
  · rename_i htrue
    split
    · rename_i hfalse
      rw [kept_iff_of_truth (.inr hfalse), hfalse]
      rfl
    · rename_i hfalse
      have ht : ¬IsTruth t := not_or.mpr ⟨htrue, hfalse⟩
      split
      · rename_i v hv
        have hsigned : Decimal.signed? t.toList = some v := (Option.filter_eq_some_iff.mp hv).1
        rw [kept_iff_of_whole ht hv, ← Decimal.toString_eq_iff hsigned]
        exact String.toList_inj.symm
      · rename_i hv
        rw [kept_iff_of_other ht hv]
        split
        · rename_i x hx
          rw [hx]
          exact ⟨fun e y hy => Option.some.inj hy ▸ e, fun h => h x rfl⟩
        · rename_i hx
          rw [hx]
          simp [Item.text?]

end Environment

end Settings

namespace Setting

open Settings

/-- The name of the variable that sets a setting, in lower case. -/
def key (σ : Setting) : String := Environment.head ++ σ.sec ++ "__" ++ σ.name

theorem isName {σ : Setting} (h : σ ∈ all) : IsName σ.sec ∧ '_' ∉ σ.sec.toList ∧ IsName σ.name := by
  have hall : ∀ σ ∈ all, IsName σ.sec ∧ '_' ∉ σ.sec.toList ∧ IsName σ.name := by decide +kernel
  exact hall σ h

theorem path?_key {σ : Setting} (hσ : σ ∈ all) {name : String} (h : lower name = σ.key) :
    Environment.path? name = some [σ.sec, σ.name] :=
  Environment.path?_eq (isName hσ).1 (isName hσ).2.2 (isName hσ).2.1 h

theorem map_path?_key {σ : Setting} (hσ : σ ∈ all) {name : String} (h : lower name = σ.key) :
    (Environment.path? name).map (·.map lower) = some [σ.sec, σ.name] := by
  rw [path?_key hσ h, Option.map_some, List.map_cons, List.map_singleton, (isName hσ).1.lower_self,
    (isName hσ).2.2.lower_self]

theorem eq_of_names {σ τ : Setting} (hσ : σ ∈ all) (hτ : τ ∈ all) (hsec : τ.sec = σ.sec)
    (hname : τ.name = σ.name) : τ = σ := by
  have hnodup : (all.map fun σ => (σ.sec, σ.name)).Nodup := by decide
  exact List.inj_on_of_nodup_map hnodup hτ hσ (Prod.ext hsec hname)

def textOf? : (kind : Kind) → kind.Value → Option String
  | .text, v => some v
  | .optional, v => v
  | _, _ => none

theorem read_item {kind : Kind} (h : kind = .text ∨ kind = .optional) (t : String) :
    ∃ v, kind.read (Environment.item t) = some v ∧ textOf? kind v = some (Environment.spelled t) := by
  have htext := Environment.text?_item t
  rcases h with rfl | rfl
  · exact ⟨_, htext, rfl⟩
  · refine ⟨some (Environment.spelled t), ?_, rfl⟩
    cases hitem : Environment.item t <;> simp_all [Kind.read, Item.text?]

/-- What a variable makes of settings: one of them gets its text, as what it means is printed, and the
others are what they are without it. -/
structure Respelled (σ : Setting) (t : String) (before after : Settings) : Prop where
  text : textOf? σ.kind (σ.value after) = some (Environment.spelled t)
  text_iff : textOf? σ.kind (σ.value after) = some t ↔ Environment.Kept t
  others : ∀ τ ∈ all, τ ≠ σ → τ.value after = τ.value before

section

variable {pre post : Environment} {name t : String} {cwd : Files.Place} {files : Files.Tree}
  {base s : Settings} {path : Option String} {σ : Setting}

-- what `Members.OnlySet` says of a path would otherwise be unfolded wherever it is assumed
attribute [local irreducible] pathOf

theorem withSources_none_eq_ok_iff {env : Environment} :
    withSources base env none cwd files = .ok s ↔ overlaid base [env.members] = some s := by
  cases hover : overlaid base [env.members] <;> simp [withSources, hover]

theorem withSources_of_overlaid {env env' : Environment} {s' : Settings}
    (h : withSources base env path cwd files = .ok s)
    (hover : overlaid base [membersAt path cwd files, env'.members] = some s') :
    withSources base env' path cwd files = .ok s' := by
  cases path with
  | none => exact withSources_none_eq_ok_iff.mpr hover
  | some path =>
    obtain ⟨ms, hms, _⟩ := withSources_some_eq_ok_iff.mp h
    rw [membersAt, Option.bind_some, hms] at hover
    exact withSources_some_eq_ok_iff.mpr ⟨ms, hms, hover⟩

theorem valueOf?_self (hσ : σ ∈ all) (hname : lower name = σ.key) (ht : t ≠ "")
    (hpost : post.valueOf? σ.sec σ.name = none) :
    Environment.valueOf? σ.sec σ.name (pre ++ (name, t) :: post) = some t := by
  rw [Environment.valueOf?_append, Environment.valueOf?, hpost, map_path?_key hσ hname, if_pos ⟨rfl, ht⟩]
  rfl

theorem valueOf?_other (hσ : σ ∈ all) (hname : lower name = σ.key) {τ : Setting} (hτ : τ ∈ all)
    (hne : τ ≠ σ) : Environment.valueOf? τ.sec τ.name (pre ++ (name, t) :: post) =
      Environment.valueOf? τ.sec τ.name (pre ++ post) := by
  rw [Environment.valueOf?_append, Environment.valueOf?, map_path?_key hσ hname, if_neg, Option.or_none,
    Environment.valueOf?_append]
  rintro ⟨e, -⟩
  simp only [Option.some.injEq, List.cons.injEq, and_true] at e
  exact hne (eq_of_names hσ hτ e.1.symm e.2.symm)

theorem onlySet_variable (hσ : σ ∈ all) (hname : lower name = σ.key)
    (h : Members.OnlySet (Environment.members (pre ++ post))) :
    Members.OnlySet (Environment.members (pre ++ (name, t) :: post)) := by
  obtain ⟨rest, hrest, hpath⟩ := Option.map_eq_some_iff.mp (path?_key hσ hname)
  intro n v hmem
  rw [Environment.members_append] at hmem h
  rw [Environment.members_cons, hrest] at hmem
  rcases List.mem_append.mp hmem with hpre | hmem
  · exact h n v (List.mem_append_left _ hpre)
  · simp only at hmem
    split at hmem
    · exact h n v (List.mem_append_right _ hmem)
    · rcases List.mem_cons.mp hmem with e | hpost
      · obtain ⟨rfl, rfl⟩ := Prod.mk.inj e
        rw [hpath]
        exact fun _ => ⟨rfl, Environment.isLeaf_item t⟩
      · exact h n v (List.mem_append_right _ hpost)

/-- Settings as a layer, with a file and with variables laid over it. -/
def layered (base : Settings) (file : Members) (env : Environment) : Item :=
  (base.toItem.overlay file).overlay env.members

theorem valueOf?_layered (base : Settings) {file : Members} {env : Environment} (hfile : file.OnlySet)
    (henv : env.members.OnlySet) :
    (layered base file env).Sectioned ∧ ∀ τ ∈ all, (layered base file env).valueOf? τ.sec τ.name =
      ((env.valueOf? τ.sec τ.name).map Environment.item).or
        ((base.toItem.overlay file).valueOf? τ.sec τ.name) := by
  obtain ⟨hbelow, _⟩ := Item.sectioned_overlay (sectioned_toItem base) hfile
  obtain ⟨hsec, hentry⟩ := Item.sectioned_overlay hbelow henv
  refine ⟨hsec, fun τ hτ => ?_⟩
  rw [layered, hentry _ _ (isSetting hτ), Environment.said_members]

/-- A variable that is named after a setting that is a text sets it, and nothing else. -/
theorem withSources_variable (hσ : σ ∈ all) (hkind : σ.kind = .text ∨ σ.kind = .optional)
    (hname : lower name = σ.key) (ht : t ≠ "") (hpost : post.valueOf? σ.sec σ.name = none)
    (hfile : (membersAt path cwd files).OnlySet)
    (henv : Members.OnlySet (Environment.members (pre ++ post)))
    (h : withSources base (pre ++ post) path cwd files = .ok s) :
    ∃ s', withSources base (pre ++ (name, t) :: post) path cwd files = .ok s' ∧ σ.Respelled t s s' := by
  have hover := overlaid_of_withSources h
  set file := membersAt path cwd files
  obtain ⟨hsec, hentry⟩ := valueOf?_layered base hfile henv
  obtain ⟨hsec', hentry'⟩ := valueOf?_layered base hfile (onlySet_variable hσ hname henv (t := t))
  -- only what is said of this setting is new
  have hself : (layered base file (pre ++ (name, t) :: post)).valueOf? σ.sec σ.name =
      some (Environment.item t) := by
    rw [hentry' σ hσ, valueOf?_self hσ hname ht hpost]
    rfl
  have hother : ∀ τ ∈ all, τ ≠ σ → (layered base file (pre ++ (name, t) :: post)).valueOf? τ.sec τ.name =
      (layered base file (pre ++ post)).valueOf? τ.sec τ.name := fun τ hτ hne => by
    rw [hentry' τ hτ, hentry τ hτ, valueOf?_other hσ hname hτ hne]
  rw [overlaid] at hover
  split at hover
  · rename_i hfits
    have htaken {τ : Setting} (hτ : τ ∈ all) := taken_of_ofItem? hsec hover hτ
    obtain ⟨v, hread, htext⟩ := read_item hkind t
    obtain ⟨s', hs'⟩ : ∃ s', ofItem? (layered base file (pre ++ (name, t) :: post)) = some s' := by
      refine exists_ofItem? hsec' fun τ hτ => ?_
      by_cases hne : τ = σ
      · subst hne
        rw [hself]
        exact ⟨v, hread⟩
      · rw [hother τ hτ hne]
        exact ⟨_, htaken hτ⟩
    have hset : textOf? σ.kind (σ.value s') = some (Environment.spelled t) := by
      have hvalue := taken_of_ofItem? hsec' hs' hσ
      rw [hself] at hvalue
      rw [← Option.some.inj (hread.symm.trans hvalue)]
      exact htext
    refine ⟨s', withSources_of_overlaid h ?_, hset, ?_, fun τ hτ hne => ?_⟩
    · rw [overlaid, if_pos hfits]
      exact hs'
    · rw [hset, Option.some.injEq]
      exact Environment.spelled_eq_iff t
    · have hvalue := taken_of_ofItem? hsec' hs' hτ
      rw [hother τ hτ hne] at hvalue
      exact Option.some.inj (hvalue.symm.trans (htaken hτ))
  · cases hover

theorem get?_variable (hσ : σ ∈ all) (hname : lower name = σ.key) :
    Environment.get? (pre ++ (name, t) :: post) "CONFIG_PATH" =
      Environment.get? (pre ++ post) "CONFIG_PATH" := by
  have hne : ("CONFIG_PATH" == name) = false := by
    refine beq_false_of_ne ?_
    rintro rfl
    have hnone : Environment.path? "CONFIG_PATH" = none := by decide +kernel
    rw [path?_key hσ hname] at hnone
    cases hnone
  simp only [Environment.get?, List.lookup_append, List.lookup_cons, hne]

/-- Settings that can be loaded can be loaded with one more variable that is named after a text among
them, and nothing but this text changes. It becomes that of the variable exactly if the variable is
written as what it means is printed. The same holds where a further file is laid over settings. -/
theorem variable_respells (hσ : σ ∈ all) (hkind : σ.kind = .text ∨ σ.kind = .optional)
    (hname : lower name = σ.key) (ht : t ≠ "") (hpost : post.valueOf? σ.sec σ.name = none)
    (henv : Members.OnlySet (Environment.members (pre ++ post))) :
    (∀ s, (membersAt (Environment.get? (pre ++ post) "CONFIG_PATH") cwd files).OnlySet →
      load (pre ++ post) cwd files = .ok s →
        ∃ s', load (pre ++ (name, t) :: post) cwd files = .ok s' ∧ σ.Respelled t s s') ∧
    ∀ base path s, (membersAt (some path) cwd files).OnlySet →
      override base path (pre ++ post) cwd files = .ok s →
        ∃ s', override base path (pre ++ (name, t) :: post) cwd files = .ok s' ∧ σ.Respelled t s s' := by
  refine ⟨fun s hfile h => ?_, fun base path s hfile h => ?_⟩
  · rw [load, get?_variable hσ hname]
    exact withSources_variable hσ hkind hname ht hpost hfile henv h
  · exact withSources_variable hσ hkind hname ht hpost hfile henv h

def password : Setting :=
  { sec := "fixture", name := "password", kind := .text, value := (·.fixture.password) }

theorem variable_respells_specimen :
    (∃ s, load [("RUNNER__FIXTURE__PASSWORD", "007")] [] ⟨[]⟩ = .ok s ∧ s.fixture.password = "7") ∧
      ∃ s, load [("RUNNER__FIXTURE__PASSWORD", "secret")] [] ⟨[]⟩ = .ok s ∧
        s.fixture.password = "secret" := by
  have hmem : password ∈ all := by simp [password, all, fixture]
  have hname : lower "RUNNER__FIXTURE__PASSWORD" = password.key := by decide +kernel
  have hnone : Members.OnlySet (Environment.members ([] ++ [])) :=
    fun _ _ hmem => absurd hmem List.not_mem_nil
  have hload : load ([] ++ []) [] ⟨[]⟩ = .ok {} := withSources_none_eq_ok_iff.mpr (by cbv)
  have hset (t : String) (ht : t ≠ "") : ∃ s, load [("RUNNER__FIXTURE__PASSWORD", t)] [] ⟨[]⟩ = .ok s ∧
      some s.fixture.password = some (Environment.spelled t) := by
    obtain ⟨s, hs, hr⟩ := (variable_respells hmem (.inl rfl) hname ht rfl hnone).1 {} hnone hload
    exact ⟨s, hs, hr.text⟩
  have hnumber : Environment.spelled "007" = "7" := by decide +kernel
  have hword : Environment.spelled "secret" = "secret" := by decide +kernel
  obtain ⟨s, hs, hseven⟩ := hset "007" (by decide)
  obtain ⟨s', hs', hsecret⟩ := hset "secret" (by decide)
  exact ⟨⟨s, hs, Option.some.inj (hnumber ▸ hseven)⟩, s', hs', Option.some.inj (hword ▸ hsecret)⟩

end

end Setting

end LocalFleet
