import LocalFleet.Node.Rpc
import LocalFleet.Proofs.Result
import LocalFleet.Proofs.Text.Decimal

/-! The subnets that a node lists. A threshold is sent as a text, and read as a number of sixty-four bits
before it is made one of thirty-two: a number between the two widths comes back as another one, and no error
tells of it. -/

namespace LocalFleet

open Json (Value)

namespace Json.Value

theorem string?_eq_some_iff {v : Value} {s : String} : v.string? = some s ↔ v = .str s := by
  cases v <;> simp [string?, str]

theorem list?_eq_some_iff {v : Value} {items : List Value} : v.list? = some items ↔ v = .list items := by
  cases v <;> simp [list?]

theorem forall₂_string?_iff {items : List Value} {xs : List String} :
    List.Forall₂ (fun v s => v.string? = some s) items xs ↔ items = xs.map str := by
  simp only [string?_eq_some_iff]
  rw [← List.forall₂_map_right_iff (f := str), List.forall₂_eq_eq_eq]

end Json.Value

namespace Rpc

theorem stringsOf_eq_some_iff {v : Value} {xs : List String} : stringsOf v = some xs ↔ v = .strings xs := by
  simp only [stringsOf, Option.bind_eq_bind, Option.bind_eq_some_iff, Value.list?_eq_some_iff,
    mapM_eq_some_iff, Value.forall₂_string?_iff, Value.strings]
  exact ⟨fun ⟨_, hv, hitems⟩ => hitems ▸ hv, fun hv => ⟨_, hv, rfl⟩⟩

theorem fieldOr_eq_some_iff {α : Type} {default a : α} {read : Value → Option α} {write : α → Value}
    {field : Option Value} (hread : ∀ {v b}, read v = some b ↔ v = write b) :
    fieldOr default read field = some a ↔
      ∃ given : Option α, field = given.map write ∧ a = given.getD default := by
  cases field with
  | none =>
    constructor
    · intro h
      exact ⟨none, rfl, (Option.some.inj h).symm⟩
    · rintro ⟨given, hgiven, rfl⟩
      cases given with
      | none => rfl
      | some b => cases hgiven
  | some v =>
    constructor
    · intro h
      exact ⟨some a, congrArg some (hread.1 h), rfl⟩
    · rintro ⟨given, hgiven, rfl⟩
      cases given with
      | none => cases hgiven
      | some b => exact hread.2 (Option.some.inj hgiven)

/-- A subnet as a reply lists it, with the text of its threshold; an empty text if there is none. -/
structure ListedSubnet where
  id : String
  controlKeys : List String
  threshold : String

/-- The threshold that is listed is this number. -/
def ListedSubnet.Gives (d : ListedSubnet) (n : Nat) : Prop :=
  d.threshold = "" ∧ n = 0 ∨ Decimal.Writes d.threshold n

/-- A value that describes a subnet is an object, of whose members of one name the last counts, or a list of
the parts in their order. Control keys and threshold may be left out. -/
inductive Describes : Value → ListedSubnet → Prop
  | object {members : List (Json.Lexeme × Value)} {id : String} {keys : Option (List String)}
      {text : Option String} (hid : (Value.object members).member? "id" = some (.str id))
      (hkeys : (Value.object members).member? "controlKeys" = keys.map .strings)
      (htext : (Value.object members).member? "threshold" = text.map .str) :
      Describes (.object members) ⟨id, keys.getD [], text.getD ""⟩
  | one (id : String) : Describes (.list [.str id]) ⟨id, [], ""⟩
  | two (id : String) (keys : List String) : Describes (.list [.str id, .strings keys]) ⟨id, keys, ""⟩
  | three (id : String) (keys : List String) (text : String) :
      Describes (.list [.str id, .strings keys, .str text]) ⟨id, keys, text⟩

/-- A result lists subnets under the name `subnets`, or as the one value of a list. -/
inductive ListsSubnets : Value → List ListedSubnet → Prop
  | object {members : List (Json.Lexeme × Value)} {entries : List Value} {listed : List ListedSubnet}
      (hentries : (Value.object members).member? "subnets" = some (.list entries))
      (hlisted : List.Forall₂ Describes entries listed) : ListsSubnets (.object members) listed
  | list {entries : List Value} {listed : List ListedSubnet}
      (hlisted : List.Forall₂ Describes entries listed) : ListsSubnets (.list [.list entries]) listed

/-- The parts of a subnet as they are read, of an object by their names and of a list by their places. -/
theorem subnetOf_of_fields {v : Value} {id keys text : Option Value}
    (h : fields ["id", "controlKeys", "threshold"] 2 v = some [id, keys, text]) {d : ListedSubnet} :
    subnetOf v = some (d.id, d.controlKeys, d.threshold) ↔ id = some (.str d.id) ∧
      (∃ given : Option (List String), keys = given.map .strings ∧ d.controlKeys = given.getD []) ∧
      ∃ given : Option String, text = given.map .str ∧ d.threshold = given.getD "" := by
  simp only [subnetOf, h, Option.bind_eq_bind, Option.bind_some, Option.bind_eq_some_iff,
    Value.string?_eq_some_iff, fieldOr_eq_some_iff stringsOf_eq_some_iff,
    fieldOr_eq_some_iff Value.string?_eq_some_iff, Option.pure_def, Option.some.injEq, Prod.mk.injEq]
  constructor
  · rintro ⟨_, rfl, _, rfl, _, hkeys, _, htext, rfl, rfl, rfl⟩
    exact ⟨rfl, hkeys, htext⟩
  · rintro ⟨rfl, hkeys, htext⟩
    exact ⟨_, rfl, _, rfl, _, hkeys, _, htext, rfl, rfl, rfl⟩

theorem subnetOf_eq_some_iff {v : Value} {d : ListedSubnet} :
    subnetOf v = some (d.id, d.controlKeys, d.threshold) ↔ Describes v d := by
  obtain ⟨id, keys, text⟩ := d
  constructor
  · intro h
    -- Only objects and lists of one to three values have the fields of a subnet.
    match v with
    | .object members =>
      obtain ⟨hid, ⟨_, hkeys, rfl⟩, _, htext, rfl⟩ := (subnetOf_of_fields rfl).1 h
      exact .object hid hkeys htext
    | .list [a] =>
      obtain ⟨hid, ⟨_, hkeys, rfl⟩, _, htext, rfl⟩ := (subnetOf_of_fields rfl).1 h
      obtain rfl := Option.some.inj hid
      obtain rfl := Option.map_eq_none_iff.1 hkeys.symm
      obtain rfl := Option.map_eq_none_iff.1 htext.symm
      exact .one id
    | .list [a, b] =>
      obtain ⟨hid, ⟨given, hkeys, rfl⟩, _, htext, rfl⟩ := (subnetOf_of_fields rfl).1 h
      obtain rfl := Option.some.inj hid
      obtain ⟨keys, rfl, rfl⟩ := Option.map_eq_some_iff.1 hkeys.symm
      obtain rfl := Option.map_eq_none_iff.1 htext.symm
      exact .two id keys
    | .list [a, b, c] =>
      obtain ⟨hid, ⟨given, hkeys, rfl⟩, _, htext, rfl⟩ := (subnetOf_of_fields rfl).1 h
      obtain rfl := Option.some.inj hid
      obtain ⟨keys, rfl, rfl⟩ := Option.map_eq_some_iff.1 hkeys.symm
      obtain ⟨text, rfl, rfl⟩ := Option.map_eq_some_iff.1 htext.symm
      exact .three id keys text
    | .list [] => cases h
    | .list (a :: b :: c :: d :: rest) =>
      have hlong : fields ["id", "controlKeys", "threshold"] 2 (.list (a :: b :: c :: d :: rest)) = none := by
        simp only [fields, List.length_cons, List.length_nil]
        exact if_neg (by omega)
      rw [subnetOf, hlong] at h
      cases h
    | .null | .bool _ | .number _ | .text _ => cases h
  · intro h
    cases h with
    | object hid hkeys htext => exact (subnetOf_of_fields rfl).2 ⟨hid, ⟨_, hkeys, rfl⟩, _, htext, rfl⟩
    | one => exact (subnetOf_of_fields rfl).2 ⟨rfl, ⟨none, rfl, rfl⟩, none, rfl, rfl⟩
    | two => exact (subnetOf_of_fields rfl).2 ⟨rfl, ⟨some keys, rfl, rfl⟩, none, rfl, rfl⟩
    | three => exact (subnetOf_of_fields rfl).2 ⟨rfl, ⟨some keys, rfl, rfl⟩, some text, rfl, rfl⟩

theorem field_eq_some_iff {name : String} {v a : Value} : field name v = some a ↔
    (∃ members, v = .object members ∧ v.member? name = some a) ∨ v = .list [a] := by
  match v with
  | .object members => simp [field, fields]
  | .list [] => simp [field, fields]
  | .list [b] => simp [field, fields]
  | .list (b :: c :: rest) => simp [field, fields]
  | .null | .bool _ | .number _ | .text _ => simp [field, fields]

def subnetParts (v : Value) : Option (List (String × List String × String)) :=
  (field "subnets" v).bind fun s => do (← s.list?).mapM subnetOf

theorem subnetParts_eq_some_iff {v : Value} {listed : List ListedSubnet} :
    subnetParts v = some (listed.map fun d => (d.id, d.controlKeys, d.threshold)) ↔ ListsSubnets v listed := by
  simp only [subnetParts, Option.bind_eq_bind, Option.bind_eq_some_iff, Value.list?_eq_some_iff,
    mapM_eq_some_iff, List.forall₂_map_right_iff, subnetOf_eq_some_iff, field_eq_some_iff]
  constructor
  · rintro ⟨_, ⟨members, rfl, hentries⟩ | rfl, entries, rfl, hlisted⟩
    · exact .object hentries hlisted
    · exact .list hlisted
  · rintro (⟨hentries, hlisted⟩ | hlisted)
    · exact ⟨_, .inl ⟨_, rfl, hentries⟩, _, rfl, hlisted⟩
    · exact ⟨_, .inr rfl, _, rfl, hlisted⟩

section

variable {method text : String} {d : ListedSubnet} {e : RpcError}

theorem amount_eq_ok_iff {a : Amount} : amount method text = .ok a ↔ Decimal.Writes text a.toNat := by
  unfold amount
  split
  · rename_i n hn
    obtain ⟨hwrites, hlt⟩ := Decimal.word?_eq_some_iff.1 hn
    rw [Except.ok.injEq, ← UInt64.toNat_inj, UInt64.toNat_ofNat_of_lt' hlt]
    exact ⟨fun h => h ▸ hwrites, hwrites.unique⟩
  · rename_i hnone
    exact iff_of_false nofun fun h => Nat.not_le.2 a.toNat_lt (Decimal.word?_eq_none_iff.1 hnone _ h)

theorem amount_eq_error_iff : amount method text = .error e ↔
    (∀ n, Decimal.Writes text n → 2 ^ 64 ≤ n) ∧ e = .decode method (.notInteger text) := by
  rw [← Decimal.word?_eq_none_iff, amount]
  cases Decimal.word? 64 text.toList <;> simp [eq_comm]

theorem ListedSubnet.gives_of_empty (h : d.threshold = "") {n : Nat} : d.Gives n ↔ n = 0 := by
  refine ⟨?_, fun hn => .inl ⟨h, hn⟩⟩
  rintro (⟨-, hn⟩ | hwrites)
  · exact hn
  · exact absurd h hwrites.ne_empty

theorem ListedSubnet.gives_of_nonempty (h : d.threshold ≠ "") {n : Nat} :
    d.Gives n ↔ Decimal.Writes d.threshold n := by
  simp [Gives, h]

theorem threshold_eq_ok_iff {t : UInt32} :
    threshold method d.threshold = .ok t ↔ ∃ n < 2 ^ 64, d.Gives n ∧ t.toNat = n % 2 ^ 32 := by
  by_cases hempty : d.threshold = ""
  · rw [threshold, if_pos hempty, Except.ok.injEq, ← UInt32.toNat_inj]
    simp [ListedSubnet.gives_of_empty hempty, eq_comm]
  · rw [threshold, if_neg hempty, map_eq_ok]
    simp only [amount_eq_ok_iff, ListedSubnet.gives_of_nonempty hempty, ← UInt32.toNat_inj, UInt32.toNat_ofNat']
    constructor
    · rintro ⟨a, hwrites, ht⟩
      exact ⟨a.toNat, a.toNat_lt, hwrites, ht.symm⟩
    · rintro ⟨n, hlt, hwrites, ht⟩
      refine ⟨.ofNat n, ?_, ?_⟩ <;> rw [UInt64.toNat_ofNat_of_lt' hlt]
      · exact hwrites
      · exact ht.symm

theorem threshold_eq_error_iff : threshold method d.threshold = .error e ↔
    (∀ n, d.Gives n → 2 ^ 64 ≤ n) ∧ e = .decode method (.notInteger d.threshold) := by
  by_cases hempty : d.threshold = ""
  · rw [threshold, if_pos hempty]
    refine iff_of_false nofun fun h => ?_
    exact absurd (h.1 0 ((ListedSubnet.gives_of_empty hempty).2 rfl)) (by decide)
  · rw [threshold, if_neg hempty, map_eq_error, amount_eq_error_iff]
    simp only [ListedSubnet.gives_of_nonempty hempty]

theorem ListedSubnet.Gives.unique {m n : Nat} (hm : d.Gives m) (hn : d.Gives n) : m = n := by
  rcases hm with ⟨hempty, rfl⟩ | hm
  · exact ((gives_of_empty hempty).1 hn).symm
  · exact hm.unique ((gives_of_nonempty hm.ne_empty).1 hn)

end

def ListedSubnet.read (d : ListedSubnet) : Except RpcError Subnet :=
  (Rpc.threshold "platform.getSubnets" d.threshold).map fun t => ⟨d.id, d.controlKeys, t⟩

theorem ListedSubnet.read_eq_ok_iff {d : ListedSubnet} {s : Subnet} : d.read = .ok s ↔
    s.id = d.id ∧ s.controlKeys = d.controlKeys ∧
      ∃ n < 2 ^ 64, d.Gives n ∧ s.threshold.toNat = n % 2 ^ 32 := by
  simp only [read, map_eq_ok, threshold_eq_ok_iff]
  constructor
  · rintro ⟨t, hn, rfl⟩
    exact ⟨rfl, rfl, hn⟩
  · rintro ⟨hid, hkeys, hn⟩
    refine ⟨s.threshold, hn, ?_⟩
    rw [← hid, ← hkeys]

theorem ListedSubnet.read_eq_error_iff {d : ListedSubnet} {e : RpcError} : d.read = .error e ↔
    (∀ n, d.Gives n → 2 ^ 64 ≤ n) ∧ e = .decode "platform.getSubnets" (.notInteger d.threshold) := by
  rw [read, map_eq_error, threshold_eq_error_iff]

theorem ListedSubnet.exists_read_iff {d : ListedSubnet} :
    (∃ s, d.read = .ok s) ↔ ∃ n < 2 ^ 64, d.Gives n := by
  simp only [read_eq_ok_iff]
  constructor
  · rintro ⟨s, -, -, n, hlt, hgives, -⟩
    exact ⟨n, hlt, hgives⟩
  · rintro ⟨n, hlt, hgives⟩
    exact ⟨⟨d.id, d.controlKeys, .ofNat n⟩, rfl, rfl, n, hlt, hgives, UInt32.toNat_ofNat'⟩

theorem ListedSubnet.gives_threshold_iff {d : ListedSubnet} {s : Subnet} (h : d.read = .ok s) :
    d.Gives s.threshold.toNat ↔ ∃ n < 2 ^ 32, d.Gives n := by
  obtain ⟨-, -, m, -, hm, hthreshold⟩ := read_eq_ok_iff.1 h
  constructor
  · intro hgives
    exact ⟨s.threshold.toNat, s.threshold.toNat_lt, hgives⟩
  · rintro ⟨n, hlt, hn⟩
    rw [hthreshold, hm.unique hn, Nat.mod_eq_of_lt hlt]
    exact hn

theorem forall₂_gives_iff {listed : List ListedSubnet} {subnets : List Subnet}
    (h : List.Forall₂ (fun d s => ListedSubnet.read d = .ok s) listed subnets) :
    List.Forall₂ (fun (d : ListedSubnet) (s : Subnet) => d.Gives s.threshold.toNat) listed subnets ↔
      ∀ d ∈ listed, ∃ n < 2 ^ 32, d.Gives n := by
  induction h with
  | nil => simp
  | cons hread _ ih =>
    rw [List.forall₂_cons, List.forall_mem_cons, ih, ListedSubnet.gives_threshold_iff hread]

theorem answer_getSubnets {v : Value} : answer .getSubnets v =
    (shaped "platform.getSubnets" (subnetParts v) >>= List.mapM fun (id, keys, text) => do
      return ⟨id, keys, ← threshold "platform.getSubnets" text⟩) := rfl

theorem answer_of_listsSubnets {v : Value} {listed : List ListedSubnet} (h : ListsSubnets v listed) :
    answer .getSubnets v = listed.mapM ListedSubnet.read := by
  rw [answer_getSubnets, subnetParts_eq_some_iff.2 h]
  show List.mapM _ _ = _
  rw [List.mapM_map]
  rfl

theorem answer_of_not_listsSubnets {v : Value} (h : ∀ listed, ¬ ListsSubnets v listed) :
    answer .getSubnets v = .error (.decode "platform.getSubnets" (.shape "unexpected shape")) := by
  have hnone : subnetParts v = none := by
    refine Option.eq_none_iff_forall_ne_some.2 fun parts hparts => ?_
    refine h (parts.map fun d => ⟨d.1, d.2.1, d.2.2⟩) (subnetParts_eq_some_iff.1 ?_)
    rw [hparts, List.map_map]
    exact congrArg some (List.map_id parts).symm
  rw [answer_getSubnets, hnone]
  rfl

/-- A result that lists subnets is answered just if every threshold writes a number of sixty-four bits or is
empty, and then in order, with the ids and the keys that are listed and of each threshold the low thirty-two
bits; otherwise the first threshold that is not so is the error. The thresholds are those that are listed
just if all of them are below `2 ^ 32`. Any other result has not the wanted shape. -/
theorem getSubnets_answers (v : Value) :
    (∀ listed, ListsSubnets v listed →
      (∀ subnets, answer .getSubnets v = .ok subnets ↔
        List.Forall₂ (fun (d : ListedSubnet) (s : Subnet) => s.id = d.id ∧ s.controlKeys = d.controlKeys ∧
          ∃ n < 2 ^ 64, d.Gives n ∧ s.threshold.toNat = n % 2 ^ 32) listed subnets) ∧
      (∀ e, answer .getSubnets v = .error e ↔ ∃ before d after, listed = before ++ d :: after ∧
        (∀ b ∈ before, ∃ n < 2 ^ 64, b.Gives n) ∧ (∀ n, d.Gives n → 2 ^ 64 ≤ n) ∧
        e = .decode "platform.getSubnets" (.notInteger d.threshold)) ∧
      ∀ subnets, answer .getSubnets v = .ok subnets →
        (List.Forall₂ (fun (d : ListedSubnet) (s : Subnet) => d.Gives s.threshold.toNat) listed subnets ↔
          ∀ d ∈ listed, ∃ n < 2 ^ 32, d.Gives n)) ∧
    ((∀ listed, ¬ ListsSubnets v listed) →
      answer .getSubnets v = .error (.decode "platform.getSubnets" (.shape "unexpected shape"))) := by
  refine ⟨fun listed hlists => ?_, answer_of_not_listsSubnets⟩
  rw [answer_of_listsSubnets hlists]
  refine ⟨fun subnets => ?_, fun e => ?_, fun subnets hsubnets => forall₂_gives_iff (mapM_eq_ok_iff.1 hsubnets)⟩
  · simp only [← ListedSubnet.read_eq_ok_iff]
    exact mapM_eq_ok_iff
  · simp only [← ListedSubnet.exists_read_iff, ← ListedSubnet.read_eq_error_iff]
    exact mapM_eq_error_iff

/-- A threshold of `2 ^ 32 + 1` comes back as one. -/
theorem getSubnets_answers_specimen :
    let entry : Value := .record
      [("id", .str "s"), ("controlKeys", .strings ["P-a"]), ("threshold", .str "4294967297")]
    let v : Value := .record [("subnets", .list [entry])]
    let listed : List ListedSubnet := [⟨"s", ["P-a"], "4294967297"⟩]
    ListsSubnets v listed ∧ answer .getSubnets v = .ok [⟨"s", ["P-a"], 1⟩] ∧
      ¬ List.Forall₂ (fun (d : ListedSubnet) (s : Subnet) => d.Gives s.threshold.toNat) listed
        [⟨"s", ["P-a"], 1⟩] := by
  intro entry v listed
  have hentry : Describes entry ⟨"s", ["P-a"], "4294967297"⟩ :=
    @Describes.object _ "s" (some ["P-a"]) (some "4294967297") rfl rfl rfl
  have hlists : ListsSubnets v listed := .object rfl (.cons hentry .nil)
  have hgives : (⟨"s", ["P-a"], "4294967297"⟩ : ListedSubnet).Gives 4294967297 :=
    .inr (Decimal.unsigned?_eq_some_iff.1 (by decide))
  obtain ⟨hok, -, hexact⟩ := (getSubnets_answers v).1 listed hlists
  have hanswer : answer .getSubnets v = .ok [⟨"s", ["P-a"], 1⟩] :=
    (hok _).2 (.cons ⟨rfl, rfl, 4294967297, by decide, hgives, rfl⟩ .nil)
  refine ⟨hlists, hanswer, fun hall => ?_⟩
  obtain ⟨n, hlt, hn⟩ := (hexact _ hanswer).1 hall _ List.mem_cons_self
  rw [hn.unique hgives] at hlt
  exact absurd hlt (by decide)

end Rpc

end LocalFleet
