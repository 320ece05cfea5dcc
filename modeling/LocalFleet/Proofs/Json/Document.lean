import LocalFleet.Proofs.Json.Scalar

/-! Documents as they are written with indentation, read back. -/

namespace LocalFleet.Json

/-- Values whose texts name strings and whose numbers are natural numbers in decimals. -/
inductive Value.Plain : Value → Prop where
  | null : Plain .null
  | bool (b : Bool) : Plain (.bool b)
  | nat (n : Nat) : Plain (.nat n)
  | str (s : String) : Plain (.str s)
  | list {items : List Value} (h : ∀ v ∈ items, Plain v) : Plain (.list items)
  | record {members : List (String × Value)} (h : ∀ m ∈ members, Plain m.2) : Plain (.record members)

/-- Whether a value is read back wherever it is written. Two steps a byte are enough. -/
def ReadsBack (v : Value) : Prop :=
  ∀ level fuel rest, 2 * (Text.utf8 (pretty level v)).length ≤ fuel → Ends rest →
    value fuel (Text.utf8 (pretty level v) ++ rest) = some (v, rest)

theorem utf8_cons_of_ascii {c : Char} (h : c.toNat < 128) (text : List Char) :
    Text.utf8 (c :: text) = ascii c :: Text.utf8 text := by
  have hc : Text.utf8 [c] = [ascii c] := utf8_of_ascii fun d hd => by rwa [List.mem_singleton.mp hd]
  rw [← List.singleton_append, Text.utf8_append, hc]
  rfl

theorem skipBlank_newline (level : Nat) (bs : Bytes) :
    skipBlank (Text.utf8 (newline level) ++ bs) = skipBlank bs := by
  have hblank : ∀ b ∈ Text.utf8 (newline level), isBlank b = true := by
    intro b hb
    obtain ⟨c, hc, hb⟩ := List.mem_flatMap.mp hb
    rcases List.mem_cons.mp hc with rfl | hc
    · obtain rfl := List.mem_singleton.mp hb
      rfl
    · obtain ⟨_, rfl⟩ := List.mem_replicate.mp hc
      obtain rfl := List.mem_singleton.mp hb
      rfl
  exact List.dropWhile_append_of_pos hblank

theorem value_newline (fuel level : Nat) (bs : Bytes) :
    value fuel (Text.utf8 (newline level) ++ bs) = value fuel bs := by
  cases fuel with
  | zero => rfl
  | succ fuel => rw [value, value, skipBlank_newline]

theorem value_blank (fuel : Nat) (bs : Bytes) : value fuel (ascii ' ' :: bs) = value fuel bs := by
  cases fuel <;> rfl

theorem member_newline (fuel level : Nat) (bs : Bytes) :
    member fuel (Text.utf8 (newline level) ++ bs) = member fuel bs := by
  cases fuel with
  | zero => rfl
  | succ fuel => rw [member, member, skipBlank_newline]

theorem ends_items (level : Nat) (vs : List Value) (rest : Bytes) :
    Ends (Text.utf8 (prettyItems level vs) ++ rest) := by
  cases vs with
  | nil => rintro b ⟨⟩; exact .inr rfl
  | cons v vs => rintro b ⟨⟩; exact .inl rfl

theorem ends_members (level : Nat) (ms : List (Lexeme × Value)) (rest : Bytes) :
    Ends (Text.utf8 (prettyMembers level ms) ++ rest) := by
  cases ms with
  | nil => rintro b ⟨⟩; exact .inr rfl
  | cons m ms => rintro b ⟨⟩; exact .inl rfl

section

variable {fuel : Nat} {bs rest rest' : Bytes} {v : Value} {vs : List Value} {m : Lexeme × Value}
  {ms : List (Lexeme × Value)} {name : Lexeme}

theorem items_comma (hv : value fuel bs = some (v, rest)) (hvs : items fuel rest = some (vs, rest')) :
    items (fuel + 1) (ascii ',' :: bs) = some (v :: vs, rest') := by
  show (value fuel bs).bind _ = _
  rw [hv]
  show (items fuel rest).bind _ = _
  rw [hvs]
  rfl

theorem members_comma (hm : member fuel bs = some (m, rest)) (hms : members fuel rest = some (ms, rest')) :
    members (fuel + 1) (ascii ',' :: bs) = some (m :: ms, rest') := by
  show (member fuel bs).bind _ = _
  rw [hm]
  show (members fuel rest).bind _ = _
  rw [hms]
  rfl

theorem member_quote (hname : lexeme bs = some (name, ascii ':' :: rest)) (hv : value fuel rest = some (v, rest')) :
    member (fuel + 1) (ascii '"' :: bs) = some ((name, v), rest') := by
  show (lexeme bs).bind _ = _
  rw [hname]
  show (value fuel rest).bind _ = _
  rw [hv]
  rfl

theorem value_list {b : UInt8} (hbs : (skipBlank bs).head? = some b) (hb : b ≠ ascii ']')
    (hv : value fuel bs = some (v, rest)) (hvs : items fuel rest = some (vs, rest')) :
    value (fuel + 1) (ascii '[' :: bs) = some (.list (v :: vs), rest') := by
  obtain ⟨after, hbs⟩ := List.head?_eq_some_iff.mp hbs
  have hskip : skipBlank (ascii '[' :: bs) = ascii '[' :: bs := rfl
  have hquote : ascii '[' ≠ ascii '"' := by decide
  simp only [value, hskip, if_neg hquote, if_true, hbs, if_neg hb, hv, hvs, Option.bind_eq_bind,
    Option.bind_some, Option.pure_def]

theorem value_object {b : UInt8} (hbs : (skipBlank bs).head? = some b) (hb : b ≠ ascii '\x7d')
    (hm : member fuel bs = some (m, rest)) (hms : members fuel rest = some (ms, rest')) :
    value (fuel + 1) (ascii '\x7b' :: bs) = some (.object (m :: ms), rest') := by
  obtain ⟨after, hbs⟩ := List.head?_eq_some_iff.mp hbs
  have hskip : skipBlank (ascii '\x7b' :: bs) = ascii '\x7b' :: bs := rfl
  have hquote : ascii '\x7b' ≠ ascii '"' := by decide
  have hlist : ascii '\x7b' ≠ ascii '[' := by decide
  simp only [value, hskip, if_neg hquote, if_neg hlist, if_true, hbs, if_neg hb, hm, hms,
    Option.bind_eq_bind, Option.bind_some, Option.pure_def]

end

theorem items_pretty {vs : List Value} (h : ∀ v ∈ vs, ReadsBack v) (level fuel : Nat) (rest : Bytes)
    (hfuel : 2 * (Text.utf8 (prettyItems level vs)).length ≤ fuel) :
    items fuel (Text.utf8 (prettyItems level vs) ++ rest) = some (vs, rest) := by
  induction vs generalizing fuel with
  | nil =>
    simp only [prettyItems, Text.utf8_append, List.length_append, utf8_cons_of_ascii (by decide : ']'.toNat < 128),
      List.length_cons, List.append_assoc] at hfuel ⊢
    obtain ⟨fuel, rfl⟩ : ∃ f, fuel = f + 1 := ⟨fuel - 1, by omega⟩
    rw [items, skipBlank_newline]
    rfl
  | cons v vs ih =>
    simp only [prettyItems, List.cons_append, Text.utf8_append, List.length_append,
      utf8_cons_of_ascii (by decide : ','.toNat < 128), List.length_cons, List.append_assoc] at hfuel ⊢
    obtain ⟨fuel, rfl⟩ : ∃ f, fuel = f + 1 := ⟨fuel - 1, by omega⟩
    refine items_comma ?_ (ih (fun v hmem => h v (List.mem_cons_of_mem _ hmem)) fuel (by omega))
    rw [value_newline]
    exact h v List.mem_cons_self (level + 1) fuel _ (by omega) (ends_items level vs rest)

theorem utf8_quote (name : String) (bs : Bytes) : Text.utf8 (quote name) ++ bs =
    ascii '"' :: (Text.utf8 (name.toList.flatMap escape) ++ ascii '"' :: bs) := by
  rw [quote, List.cons_append, utf8_cons_of_ascii (by decide), Text.utf8_append, List.cons_append,
    List.append_assoc]
  rfl

theorem member_pretty {name : String} {v : Value} (h : ReadsBack v) (level fuel : Nat) {rest : Bytes}
    (hfuel : 2 * (Text.utf8 (pretty level v)).length < fuel) (hrest : Ends rest) :
    member fuel (Text.utf8 (quote name) ++ ascii ':' :: ascii ' ' :: (Text.utf8 (pretty level v) ++ rest)) =
      some ((some name, v), rest) := by
  obtain ⟨fuel, rfl⟩ : ∃ f, fuel = f + 1 := ⟨fuel - 1, by omega⟩
  rw [utf8_quote]
  refine member_quote (lexeme_quoted name _) ?_
  rw [value_blank]
  exact h level fuel rest (by omega) hrest

/-- A name with its value as a member of a document. -/
def named (m : String × Value) : Lexeme × Value := (some m.1, m.2)

theorem members_pretty {ms : List (String × Value)} (h : ∀ m ∈ ms, ReadsBack m.2) (level fuel : Nat)
    (rest : Bytes) (hfuel : 2 * (Text.utf8 (prettyMembers level (ms.map named))).length ≤ fuel) :
    members fuel (Text.utf8 (prettyMembers level (ms.map named)) ++ rest) = some (ms.map named, rest) := by
  induction ms generalizing fuel with
  | nil =>
    simp only [List.map_nil, prettyMembers, Text.utf8_append, List.length_append,
      utf8_cons_of_ascii (by decide : '\x7d'.toNat < 128), List.length_cons, List.append_assoc] at hfuel ⊢
    obtain ⟨fuel, rfl⟩ : ∃ f, fuel = f + 1 := ⟨fuel - 1, by omega⟩
    rw [members, skipBlank_newline]
    rfl
  | cons m ms ih =>
    obtain ⟨name, v⟩ := m
    simp only [List.map_cons, named, prettyMembers, quoteLexeme, Option.getD_some, List.cons_append,
      List.nil_append, Text.utf8_append, List.length_append,
      utf8_cons_of_ascii (by decide : ','.toNat < 128), utf8_cons_of_ascii (by decide : ':'.toNat < 128),
      utf8_cons_of_ascii (by decide : ' '.toNat < 128), List.length_cons, List.append_assoc] at hfuel ⊢
    obtain ⟨fuel, rfl⟩ : ∃ f, fuel = f + 1 := ⟨fuel - 1, by omega⟩
    refine members_comma ?_ (ih (fun m hmem => h m (List.mem_cons_of_mem _ hmem)) fuel (by omega))
    rw [member_newline]
    have hv : ReadsBack v := h (name, v) List.mem_cons_self
    exact member_pretty hv (level + 1) fuel (by omega) (ends_members level _ rest)

theorem bytes_toString_nat (n : Nat) : ∃ b bs, Text.bytes (toString n) = b :: bs ∧ isDigit b = true := by
  have hlist : (toString n).toList = Nat.toDigits 10 n := String.toList_ofList
  obtain ⟨hdigits, c, more, heq, _⟩ := Decimal.toDigits_spec n
  have hc := hdigits c (by simp [heq])
  refine ⟨ascii c, Text.utf8 more, ?_, ?_⟩
  · rw [Text.bytes, hlist, heq, utf8_cons_of_ascii (by omega)]
  · have hascii : (ascii c).toNat = c.toNat := toNat_ascii (by omega)
    simp only [isDigit, UInt8.le_iff_toNat_le, hascii, Bool.and_eq_true, decide_eq_true_eq]
    exact hc

theorem ne_of_isDigit {b b' : UInt8} (hb : isDigit b = true) (hb' : isDigit b' = false) : b ≠ b' := by
  rintro rfl
  exact Bool.false_ne_true (hb'.symm.trans hb)

theorem isBlank_of_isDigit {b : UInt8} (hb : isDigit b = true) : isBlank b = false := by
  simp only [isBlank, Bool.or_eq_false_iff, decide_eq_false_iff_not]
  exact ⟨⟨⟨ne_of_isDigit hb rfl, ne_of_isDigit hb rfl⟩, ne_of_isDigit hb rfl⟩, ne_of_isDigit hb rfl⟩

theorem value_digit {b : UInt8} (hb : isDigit b = true) (fuel : Nat) (bs : Bytes) :
    value (fuel + 1) (b :: bs) = number (b :: bs) := by
  have hskip : skipBlank (b :: bs) = b :: bs := by rw [skipBlank, List.dropWhile_cons, isBlank_of_isDigit hb]; rfl
  rw [value, hskip]
  show (if b = _ then _ else if b = _ then _ else if b = _ then _ else if b = _ then _ else if b = _ then _ else
    if b = _ then _ else _) = _
  rw [if_neg (ne_of_isDigit hb rfl), if_neg (ne_of_isDigit hb rfl), if_neg (ne_of_isDigit hb rfl),
    if_neg (ne_of_isDigit hb rfl), if_neg (ne_of_isDigit hb rfl), if_neg (ne_of_isDigit hb rfl)]

theorem Value.Plain.head {v : Value} (h : v.Plain) (level : Nat) :
    ∃ b bs, Text.utf8 (pretty level v) = b :: bs ∧ isBlank b = false ∧ b ≠ ascii ']' := by
  cases h with
  | null => exact ⟨_, _, rfl, rfl, by decide⟩
  | bool b => cases b <;> exact ⟨_, _, rfl, rfl, by decide⟩
  | str s => exact ⟨_, _, rfl, rfl, by decide⟩
  | @list items h => cases items <;> exact ⟨_, _, rfl, rfl, by decide⟩
  | @record members h => cases members <;> exact ⟨_, _, rfl, rfl, by decide⟩
  | nat n =>
    obtain ⟨b, bs, heq, hb⟩ := bytes_toString_nat n
    exact ⟨b, bs, heq, isBlank_of_isDigit hb, ne_of_isDigit hb rfl⟩

theorem readsBack_of_succ {v : Value} (hplain : v.Plain)
    (h : ∀ level fuel rest, 2 * (Text.utf8 (pretty level v)).length ≤ fuel + 1 → Ends rest →
      value (fuel + 1) (Text.utf8 (pretty level v) ++ rest) = some (v, rest)) : ReadsBack v := by
  intro level fuel rest hfuel hrest
  obtain ⟨b, bs, hhead, _⟩ := hplain.head level
  have hlength : (Text.utf8 (pretty level v)).length = bs.length + 1 := by rw [hhead, List.length_cons]
  obtain ⟨fuel, rfl⟩ : ∃ f, fuel = f + 1 := ⟨fuel - 1, by omega⟩
  exact h level fuel rest hfuel hrest

theorem Value.Plain.readsBack {v : Value} (h : v.Plain) : ReadsBack v := by
  induction h with
  | null => exact readsBack_of_succ .null fun _ _ _ _ _ => rfl
  | bool b => exact readsBack_of_succ (.bool b) fun _ _ _ _ _ => by cases b <;> rfl
  | str s =>
    refine readsBack_of_succ (.str s) fun level fuel rest _ _ => ?_
    rw [Value.str, pretty, quoteLexeme, Option.getD_some, utf8_quote]
    show (lexeme _).map _ = _
    rw [lexeme_quoted]
    rfl
  | nat n =>
    refine readsBack_of_succ (.nat n) fun level fuel rest _ hrest => ?_
    have hnumber : Json.number (Text.bytes (toString n) ++ rest) = _ := number_nat n hrest
    obtain ⟨b, bs, heq, hb⟩ := bytes_toString_nat n
    rw [heq, List.cons_append, ← value_digit hb fuel, ← List.cons_append, ← heq] at hnumber
    exact hnumber
  | @list items h ih =>
    refine readsBack_of_succ (.list h) fun level fuel rest hfuel _ => ?_
    cases items with
    | nil => rfl
    | cons v vs =>
      obtain ⟨b, bs, hhead, hb, hclose⟩ := (h v List.mem_cons_self).head (level + 1)
      simp only [pretty, List.cons_append, Text.utf8_append, List.length_append,
        utf8_cons_of_ascii (by decide : '['.toNat < 128), List.length_cons, List.append_assoc] at hfuel ⊢
      refine value_list (b := b) ?_ hclose ?_
        (items_pretty (fun v hmem => ih v (List.mem_cons_of_mem _ hmem)) level fuel rest (by omega))
      · rw [skipBlank_newline, hhead, List.cons_append, skipBlank, List.dropWhile_cons, hb]
        rfl
      · rw [value_newline]
        exact ih v List.mem_cons_self (level + 1) fuel _ (by omega) (ends_items level vs rest)
  | @record members h ih =>
    refine readsBack_of_succ (.record h) fun level fuel rest hfuel _ => ?_
    cases members with
    | nil => rfl
    | cons m ms =>
      obtain ⟨name, v⟩ := m
      have hv : ReadsBack v := ih (name, v) List.mem_cons_self
      have hrecord : Value.record ((name, v) :: ms) = .object ((some name, v) :: ms.map named) := rfl
      simp only [hrecord, pretty, quoteLexeme, Option.getD_some, List.cons_append, List.nil_append,
        Text.utf8_append, List.length_append, utf8_cons_of_ascii (by decide : '\x7b'.toNat < 128),
        utf8_cons_of_ascii (by decide : ':'.toNat < 128), utf8_cons_of_ascii (by decide : ' '.toNat < 128),
        List.length_cons, List.append_assoc] at hfuel ⊢
      refine value_object (b := ascii '"') ?_ (by decide) ?_
        (members_pretty (fun m hmem => ih m (List.mem_cons_of_mem _ hmem)) level fuel rest (by omega))
      · rw [skipBlank_newline, utf8_quote]
        rfl
      · rw [member_newline]
        exact member_pretty hv (level + 1) fuel (by omega) (ends_members level _ rest)

/-- A plain value that is written with indentation is read back. -/
theorem parse_pretty {v : Value} (h : v.Plain) : parse (Text.bytes v.toPretty) = some v := by
  have hbytes : Text.bytes v.toPretty = Text.utf8 (pretty 0 v) := by
    rw [Text.bytes, Value.toPretty, String.toList_ofList]
  have hends : Ends [] := by simp [Ends]
  have hvalue := h.readsBack 0 (2 * (Text.utf8 (pretty 0 v)).length + 2) [] (by omega) hends
  rw [List.append_nil] at hvalue
  rw [parse, hbytes, hvalue]
  rfl

end LocalFleet.Json
