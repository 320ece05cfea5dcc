import LocalFleet.Bytes

/-! Text as UTF-8 bytes. -/

namespace LocalFleet.Text

def utf8 (text : List Char) : Bytes := text.flatMap String.utf8EncodeChar

theorem utf8_cons (c : Char) (text : List Char) : utf8 (c :: text) = String.utf8EncodeChar c ++ utf8 text := by
  rw [utf8, List.flatMap_cons]
  rfl

theorem utf8_singleton (c : Char) : utf8 [c] = String.utf8EncodeChar c := List.append_nil _

@[simp] theorem utf8_append (text more : List Char) : utf8 (text ++ more) = utf8 text ++ utf8 more :=
  List.flatMap_append

/-- A character is one byte below 128 or several from 128 on. -/
theorem utf8EncodeChar_cases (c : Char) :
    c.toNat < 128 ∧ String.utf8EncodeChar c = [UInt8.ofNat c.toNat] ∨
      128 ≤ c.toNat ∧ ∀ b ∈ String.utf8EncodeChar c, 128 ≤ b.toNat := by
  have hval : c.val.toNat = c.toNat := rfl
  unfold String.utf8EncodeChar
  simp only [hval]
  split
  · exact .inl ⟨by omega, rfl⟩
  · refine .inr ⟨by omega, ?_⟩
    split
    · simp; omega
    · split <;> simp <;> omega

def bytes (text : String) : Bytes := utf8 text.toList

def le (a b : String) : Bool := decide (bytes a ≤ bytes b)

/-- Texts in the order of their UTF-8 bytes; equal texts keep their places. -/
def sorted (texts : List String) : List String := texts.mergeSort le

/-- What follows a leading `head`, if the text starts with it. -/
def dropHead? : (head text : List Char) → Option (List Char)
  | [], text => some text
  | _ :: _, [] => none
  | c :: head, d :: text => if c = d then dropHead? head text else none

theorem dropHead?_eq_some_iff {head text rest : List Char} :
    dropHead? head text = some rest ↔ text = head ++ rest := by
  induction head generalizing text with
  | nil => simp [dropHead?]
  | cons c head ih =>
    cases text with
    | nil => simp [dropHead?]
    | cons d text =>
      by_cases h : c = d
      · simp [dropHead?, h, ih]
      · simp [dropHead?, h, Ne.symm h]

def startsWith (head text : List Char) : Bool := (dropHead? head text).isSome

def splitOn (separator : Char) : List Char → List (List Char)
  | [] => [[]]
  | c :: text =>
    if c = separator then [] :: splitOn separator text
    else match splitOn separator text with
      | [] => [[c]]
      | piece :: pieces => (c :: piece) :: pieces

end LocalFleet.Text
