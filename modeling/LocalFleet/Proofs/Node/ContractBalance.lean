import LocalFleet.Node.Rpc
import LocalFleet.Proofs.Encoding.Hex
import LocalFleet.Proofs.Text.Decimal

/-! Balances of the contract chain. A node sends one as a text of hexadecimal digits, in a unit a thousand
million times smaller than that of all other amounts. Every text that writes a number below `2 ^ 128` is
answered with whole units, at most the largest amount, and every other text is refused. -/

namespace LocalFleet

namespace Hex

def Spells (digits : List Char) (values : List Nat) : Prop :=
  (∀ v ∈ values, v < 16) ∧ digits.map Char.toLower = values.map digit

instance (digits : List Char) (values : List Nat) : Decidable (Spells digits values) :=
  inferInstanceAs (Decidable (_ ∧ _))

variable {c : Char} {v : Nat} {digits : List Char} {values : List Nat}

@[simp] theorem spells_nil_left : Spells [] values ↔ values = [] := by
  cases values <;> simp [Spells]

@[simp] theorem spells_nil_right : Spells digits [] ↔ digits = [] := by
  simp [Spells]

theorem spells_cons : Spells (c :: digits) (v :: values) ↔ value? c = some v ∧ Spells digits values := by
  simp only [Spells, value?_eq_some_iff, List.forall_mem_cons, List.map_cons, List.cons.injEq]
  tauto

theorem Spells.eq_nil_iff (h : Spells digits values) : digits = [] ↔ values = [] := by
  have hlength := congrArg List.length h.2
  simp only [List.length_map] at hlength
  rw [← List.length_eq_zero_iff, ← List.length_eq_zero_iff, hlength]

theorem Spells.zeros (h : Spells digits values) (n : Nat) :
    Spells (List.replicate n '0' ++ digits) (List.replicate n 0 ++ values) := by
  induction n with
  | zero => simpa using h
  | succ n ih => simpa [List.replicate_succ] using spells_cons.2 ⟨by decide, ih⟩

end Hex

namespace Rpc

open Hex (Spells)
open Json (Value)

/-- What may stand before the digits of a number. -/
def openings : List (List Char) := [[], ['+'], ['0', 'x'], ['0', 'x', '+']]

/-- A text writes a number by one or more hexadecimal digits, the most significant first, after an optional
`0x` and an optional plus sign. -/
def WritesHex (text : String) (w : Nat) : Prop :=
  ∃ opening ∈ openings, ∃ digits values, text.toList = opening ++ digits ∧ values ≠ [] ∧
    Spells digits values ∧ w = Nat.ofDigits 16 values.reverse

/-- What a text holds after its opening. -/
def digitsOf (text : List Char) : List Char :=
  match (Text.dropHead? ['0', 'x'] text).getD text with
  | '+' :: digits => digits
  | digits => digits

theorem quantity?_eq (text : List Char) : quantity? text =
    if digitsOf text = [] then none else (hexNatFrom? 0 (digitsOf text)).filter (· < Nat.pow 2 128) := rfl

theorem exists_opening (text : List Char) : ∃ opening ∈ openings, text = opening ++ digitsOf text := by
  unfold digitsOf
  cases hmark : Text.dropHead? ['0', 'x'] text with
  | none =>
    rw [Option.getD_none]
    split
    · exact ⟨['+'], by simp [openings], rfl⟩
    · exact ⟨[], by simp [openings], rfl⟩
  | some body =>
    have htext := Text.dropHead?_eq_some_iff.1 hmark
    rw [Option.getD_some]
    split
    · exact ⟨['0', 'x', '+'], by simp [openings], htext⟩
    · exact ⟨['0', 'x'], by simp [openings], htext⟩

/-- Neither a plus sign nor the second character of the mark is a digit, so that a text opens in one way
only. -/
theorem digitsOf_append {opening digits : List Char} {values : List Nat} (hopening : opening ∈ openings)
    (h : Spells digits values) : digitsOf (opening ++ digits) = digits := by
  have hplus : ∀ rest, digits ≠ '+' :: rest := by
    rintro rest rfl
    cases values with
    | nil => simp at h
    | cons v values => exact absurd (Hex.spells_cons.1 h).1 (by simp [show Hex.value? '+' = none by decide])
  have hmark : Text.dropHead? ['0', 'x'] digits = none := by
    refine Option.eq_none_iff_forall_ne_some.2 fun rest hrest => ?_
    obtain rfl := Text.dropHead?_eq_some_iff.1 hrest
    match values with
    | [] => simp at h
    | [v] => simp [Spells] at h
    | v :: v' :: values =>
      have hx := (Hex.spells_cons.1 (Hex.spells_cons.1 h).2).1
      exact absurd hx (by simp [show Hex.value? 'x' = none by decide])
  have hbare : ∀ cs, (∀ rest, cs ≠ '+' :: rest) →
      (match cs with | '+' :: digits => digits | digits => digits) = cs := by
    intro cs hcs
    split
    · exact absurd rfl (hcs _)
    · rfl
  simp only [openings, List.mem_cons, List.not_mem_nil, or_false] at hopening
  rcases hopening with rfl | rfl | rfl | rfl
  · rw [List.nil_append, digitsOf, hmark, Option.getD_none, hbare _ hplus]
  · rfl
  · exact hbare _ hplus
  · rfl

theorem hexNatFrom?_eq_some_iff {v w : Nat} {digits : List Char} : hexNatFrom? v digits = some w ↔
    ∃ values, Spells digits values ∧ w = values.foldl (fun v d => 16 * v + d) v := by
  induction digits generalizing v with
  | nil => simp [hexNatFrom?, eq_comm]
  | cons c digits ih =>
    simp only [hexNatFrom?, Option.bind_eq_some_iff, ih]
    constructor
    · rintro ⟨d, hd, values, hvalues, rfl⟩
      exact ⟨d :: values, Hex.spells_cons.2 ⟨hd, hvalues⟩, rfl⟩
    · rintro ⟨values, hvalues, rfl⟩
      cases values with
      | nil => simp at hvalues
      | cons d values =>
        have hcons := Hex.spells_cons.1 hvalues
        exact ⟨d, hcons.1, values, hcons.2, rfl⟩

variable {text : String} {w : Nat}

theorem writesHex_iff : WritesHex text w ↔
    digitsOf text.toList ≠ [] ∧ hexNatFrom? 0 (digitsOf text.toList) = some w := by
  simp only [hexNatFrom?_eq_some_iff, ← Decimal.ofDigits_reverse]
  constructor
  · rintro ⟨opening, hopening, digits, values, htext, hne, hspells, rfl⟩
    rw [htext, digitsOf_append hopening hspells]
    exact ⟨fun hnil => hne (hspells.eq_nil_iff.1 hnil), values, hspells, rfl⟩
  · rintro ⟨hne, values, hspells, rfl⟩
    obtain ⟨opening, hopening, htext⟩ := exists_opening text.toList
    exact ⟨opening, hopening, _, values, htext, fun hnil => hne (hspells.eq_nil_iff.2 hnil), hspells, rfl⟩

theorem WritesHex.unique {w' : Nat} (h : WritesHex text w) (h' : WritesHex text w') : w = w' := by
  have heq := (writesHex_iff.1 h).2.symm.trans (writesHex_iff.1 h').2
  exact Option.some.inj heq

theorem quantity?_eq_some_iff : quantity? text.toList = some w ↔ WritesHex text w ∧ w < 2 ^ 128 := by
  rw [quantity?_eq, writesHex_iff]
  by_cases hnil : digitsOf text.toList = []
  · simp [hnil]
  · simp [hnil, Option.filter_eq_some_iff]

theorem quantity?_eq_none_iff : quantity? text.toList = none ↔ ∀ w, WritesHex text w → 2 ^ 128 ≤ w := by
  simp only [Option.eq_none_iff_forall_ne_some, ne_eq, quantity?_eq_some_iff, not_and, not_lt]

variable {address : String} {balance : Amount}

theorem answer_getBalance_text (address text : String) : answer (.getBalance .c address) (.str text) =
    match quantity? text.toList with
    | some w => .ok (Amount.ofWei w)
    | none => .error (.decode "eth_getBalance" (.notHexQuantity text)) := by
  show (quantity _ text >>= fun w => .ok (Amount.ofWei w)) = _
  unfold quantity
  cases quantity? text.toList <;> rfl

theorem toNat_ofWei (w : Nat) : (Amount.ofWei w).toNat = min (w / 10 ^ 9) (2 ^ 64 - 1) :=
  Amount.toNat_capped _

theorem answer_getBalance_eq_ok_iff : answer (.getBalance .c address) (.str text) = .ok balance ↔
    ∃ w < 2 ^ 128, WritesHex text w ∧ balance.toNat = min (w / 10 ^ 9) (2 ^ 64 - 1) := by
  rw [answer_getBalance_text]
  constructor
  · intro h
    cases hw : quantity? text.toList with
    | none => simp [hw] at h
    | some w =>
      have hwrites := quantity?_eq_some_iff.1 hw
      rw [hw] at h
      obtain rfl := Except.ok.inj h
      exact ⟨w, hwrites.2, hwrites.1, toNat_ofWei w⟩
  · rintro ⟨w, hlt, hwrites, hbalance⟩
    have hamount : Amount.ofWei w = balance := UInt64.toNat_inj.1 ((toNat_ofWei w).trans hbalance.symm)
    rw [quantity?_eq_some_iff.2 ⟨hwrites, hlt⟩, ← hamount]

theorem answer_getBalance_eq_error_iff {e : RpcError} :
    answer (.getBalance .c address) (.str text) = .error e ↔
      (∀ w, WritesHex text w → 2 ^ 128 ≤ w) ∧ e = .decode "eth_getBalance" (.notHexQuantity text) := by
  rw [answer_getBalance_text, ← quantity?_eq_none_iff]
  cases quantity? text.toList <;> simp [eq_comm]

theorem writesHex_zeros_iff {opening digits : List Char} {values : List Nat} (hopening : opening ∈ openings)
    (hspells : Spells digits values) (hne : values ≠ []) (n : Nat) :
    WritesHex (.ofList (opening ++ (List.replicate n '0' ++ digits))) w ↔
      WritesHex (.ofList (opening ++ digits)) w := by
  have hplain : WritesHex (.ofList (opening ++ digits)) (Nat.ofDigits 16 values.reverse) :=
    ⟨opening, hopening, digits, values, String.toList_ofList, hne, hspells, rfl⟩
  have hzeros : WritesHex (.ofList (opening ++ (List.replicate n '0' ++ digits)))
      (Nat.ofDigits 16 values.reverse) := by
    refine ⟨opening, hopening, _, _, String.toList_ofList, by simp [hne], hspells.zeros n, ?_⟩
    rw [List.reverse_append, List.reverse_replicate, Nat.ofDigits_append_replicate_zero]
  constructor
  · intro h
    rwa [h.unique hzeros]
  · intro h
    rwa [h.unique hplain]

/-- A text is answered with a balance just if it writes a number below `2 ^ 128`, and then with that number
over a thousand million, rounded down and at most the largest amount; every other text is refused as no
number. Zeros that lead the digits do not matter, and a larger number never gives a smaller balance. -/
theorem contractBalance_answers (address : String) :
    (∀ text balance, answer (.getBalance .c address) (.str text) = .ok balance ↔
      ∃ w < 2 ^ 128, WritesHex text w ∧ balance.toNat = min (w / 10 ^ 9) (2 ^ 64 - 1)) ∧
    (∀ text e, answer (.getBalance .c address) (.str text) = .error e ↔
      (∀ w, WritesHex text w → 2 ^ 128 ≤ w) ∧ e = .decode "eth_getBalance" (.notHexQuantity text)) ∧
    (∀ opening ∈ openings, ∀ digits values n, Spells digits values → values ≠ [] → ∀ balance,
      answer (.getBalance .c address) (.str (.ofList (opening ++ (List.replicate n '0' ++ digits)))) =
          .ok balance ↔
        answer (.getBalance .c address) (.str (.ofList (opening ++ digits))) = .ok balance) ∧
    ∀ text text' w w', WritesHex text w → WritesHex text' w' → w ≤ w' → ∀ balance balance',
      answer (.getBalance .c address) (.str text) = .ok balance →
      answer (.getBalance .c address) (.str text') = .ok balance' → balance ≤ balance' := by
  refine ⟨fun text balance => answer_getBalance_eq_ok_iff, fun text e => answer_getBalance_eq_error_iff,
    fun opening hopening digits values n hspells hne balance => ?_,
    fun text text' w w' hw hw' hle balance balance' h h' => ?_⟩
  · rw [answer_getBalance_eq_ok_iff, answer_getBalance_eq_ok_iff]
    simp only [writesHex_zeros_iff hopening hspells hne n]
  · obtain ⟨u, -, hu, hbalance⟩ := answer_getBalance_eq_ok_iff.1 h
    obtain ⟨u', -, hu', hbalance'⟩ := answer_getBalance_eq_ok_iff.1 h'
    obtain rfl := hu.unique hw
    obtain rfl := hu'.unique hw'
    rw [UInt64.le_iff_toNat_le, hbalance, hbalance']
    exact min_le_min_right _ (Nat.div_le_div_right hle)

/-- The largest number that is answered, and the next. -/
theorem contractBalance_answers_specimen :
    let largest := "0xffffffffffffffffffffffffffffffff"
    let next := "+100000000000000000000000000000000"
    WritesHex largest (2 ^ 128 - 1) ∧ WritesHex next (2 ^ 128) ∧
      answer (.getBalance .c "") (.str largest) = .ok Amount.top ∧
      answer (.getBalance .c "") (.str next) = .error (.decode "eth_getBalance" (.notHexQuantity next)) := by
  intro largest next
  obtain ⟨hanswers, hrefuses, -, -⟩ := contractBalance_answers ""
  have hlargest : WritesHex largest (2 ^ 128 - 1) :=
    ⟨['0', 'x'], by decide, List.replicate 32 'f', List.replicate 32 15, by decide, by decide, by decide,
      by decide⟩
  have hnext : WritesHex next (2 ^ 128) :=
    ⟨['+'], by decide, '1' :: List.replicate 32 '0', 1 :: List.replicate 32 0, by decide, by decide, by decide,
      by decide⟩
  refine ⟨hlargest, hnext, (hanswers _ _).2 ⟨_, by decide, hlargest, by decide⟩,
    (hrefuses _ _).2 ⟨fun w hw => ?_, rfl⟩⟩
  rw [hw.unique hnext]

end Rpc

end LocalFleet
