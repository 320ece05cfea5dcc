import LocalFleet.Json.Parser
import LocalFleet.Json.Printer
import LocalFleet.Proofs.Encoding.Hex
import LocalFleet.Proofs.Text.Decimal

/-! Texts and numbers as they are written in a document, read back: quoted texts character by character,
numbers as decimal digits. -/

namespace LocalFleet

namespace Json

theorem ofUtf8?_bytes (s : String) : ofUtf8? (Text.bytes s) = some s := by
  have hbytes : (⟨(Text.bytes s).toArray⟩ : ByteArray) = s.toByteArray := by
    rw [← String.utf8Encode_toList]
    exact ByteArray.ext List.data_toByteArray.symm
  rw [ofUtf8?, hbytes, String.fromUTF8?, dif_pos s.isValidUTF8]
  rfl

/-- The pieces as which a character is read back. -/
def piecesOf (c : Char) : List Piece :=
  if c.toNat < 32 ∧ c ≠ '\n' ∧ c ≠ '\r' ∧ c ≠ '\t' ∧ c ≠ '\x08' ∧ c ≠ '\x0c' then [.unit c.toNat]
  else (String.utf8EncodeChar c).map Piece.byte

theorem assemble_bytes (bs : Bytes) (ps : List Piece) :
    assemble (bs.map Piece.byte ++ ps) = (assemble ps).map (bs ++ ·) := by
  induction bs with
  | nil => simp
  | cons b bs ih => simp [assemble, ih, Function.comp_def]

theorem assemble_piecesOf (c : Char) (ps : List Piece) :
    assemble (piecesOf c ++ ps) = (assemble ps).map (String.utf8EncodeChar c ++ ·) := by
  rw [piecesOf]
  split
  · rename_i h
    have hunit : c.toNat < 0xD800 ∨ 0xDFFF < c.toNat := by omega
    rw [List.singleton_append, assemble.eq_def]
    simp [hunit, codePoint]
  · exact assemble_bytes _ ps

theorem pieces_quote (rest : Bytes) : pieces (ascii '"' :: rest) = some ([], rest) := by
  rw [pieces.eq_def]
  exact if_pos rfl

theorem pieces_byte {b : UInt8} (hlow : 32 ≤ b.toNat) (hquote : b ≠ ascii '"') (hback : b ≠ ascii '\\')
    (rest : Bytes) :
    pieces (b :: rest) = (pieces rest).map fun (ps, rest) => (.byte b :: ps, rest) := by
  have hb : ¬ b < 0x20 := by
    rw [UInt8.lt_iff_toNat_lt]
    simpa using hlow
  rw [pieces.eq_def]
  simp only [if_neg hquote, if_neg hback, if_neg hb]
  cases pieces rest <;> rfl

theorem pieces_short {e c : UInt8} (he : e ≠ ascii 'u') (hc : shortEscape? e = some c) (rest : Bytes) :
    pieces (ascii '\\' :: e :: rest) = (pieces rest).map fun (ps, rest) => (.byte c :: ps, rest) := by
  rw [pieces.eq_def]
  simp only [if_neg (by decide : ascii '\\' ≠ ascii '"'), if_true, if_neg he, hc]
  cases pieces rest <;> rfl

theorem pieces_unit {h i j k : UInt8} {u : Nat} (hu : hexUnit? h i j k = some u) (rest : Bytes) :
    pieces (ascii '\\' :: ascii 'u' :: h :: i :: j :: k :: rest) =
      (pieces rest).map fun (ps, rest) => (.unit u :: ps, rest) := by
  rw [pieces.eq_def]
  simp only [if_neg (by decide : ascii '\\' ≠ ascii '"'), if_true, hu]
  cases pieces rest <;> rfl

theorem pieces_bytes (bs rest : Bytes) (h : ∀ b ∈ bs, 32 ≤ b.toNat ∧ b ≠ ascii '"' ∧ b ≠ ascii '\\') :
    pieces (bs ++ rest) = (pieces rest).map fun (ps, rest) => (bs.map Piece.byte ++ ps, rest) := by
  induction bs with
  | nil => simp
  | cons b bs ih =>
    obtain ⟨hlow, hquote, hback⟩ := h b List.mem_cons_self
    rw [List.cons_append, pieces_byte hlow hquote hback, ih fun b hmem => h b (List.mem_cons_of_mem _ hmem)]
    cases pieces rest <;> rfl

theorem control_spec : ∀ n < 32,
    Text.utf8 ('0' :: '0' :: Hex.pair (UInt8.ofNat n)) =
      [ascii '0', ascii '0', ascii (Hex.digit (n / 16)), ascii (Hex.digit (n % 16))] ∧
    hexUnit? (ascii '0') (ascii '0') (ascii (Hex.digit (n / 16))) (ascii (Hex.digit (n % 16))) = some n := by
  decide

/-- A character is read back as its pieces, whatever follows it. -/
theorem pieces_escape (c : Char) (rest : Bytes) :
    pieces (Text.utf8 (escape c) ++ rest) =
      (pieces rest).map fun (ps, rest) => (piecesOf c ++ ps, rest) := by
  unfold escape
  split_ifs with hquote hback hn hr ht hb hf hcontrol
  · subst hquote
    exact pieces_short (by decide) (by decide) rest
  · subst hback
    exact pieces_short (by decide) (by decide) rest
  · subst hn
    exact pieces_short (by decide) (by decide) rest
  · subst hr
    exact pieces_short (by decide) (by decide) rest
  · subst ht
    exact pieces_short (by decide) (by decide) rest
  · subst hb
    exact pieces_short (by decide) (by decide) rest
  · subst hf
    exact pieces_short (by decide) (by decide) rest
  · obtain ⟨hdigits, hunit⟩ := control_spec c.toNat hcontrol
    have hpieces : piecesOf c = [.unit c.toNat] := if_pos ⟨hcontrol, hn, hr, ht, hb, hf⟩
    have hbytes : Text.utf8 (['\\', 'u', '0', '0'] ++ Hex.pair (UInt8.ofNat c.toNat)) =
        ascii '\\' :: ascii 'u' :: Text.utf8 ('0' :: '0' :: Hex.pair (UInt8.ofNat c.toNat)) := rfl
    rw [hbytes, hdigits, hpieces]
    exact pieces_unit hunit rest
  · have hpieces : piecesOf c = (String.utf8EncodeChar c).map Piece.byte := if_neg fun h => hcontrol h.1
    rw [hpieces, Text.utf8_singleton]
    refine pieces_bytes _ rest fun b hb => ?_
    rcases Text.utf8EncodeChar_cases c with ⟨hlt, henc⟩ | ⟨_, hhigh⟩
    · rw [henc, List.mem_singleton] at hb
      have htoNat : b.toNat = c.toNat := by
        rw [hb, UInt8.toNat_ofNat']
        omega
      refine ⟨by omega, ?_, ?_⟩
      · rintro rfl
        exact hquote (Char.toNat_inj.mp htoNat.symm)
      · rintro rfl
        exact hback (Char.toNat_inj.mp htoNat.symm)
    · have hge := hhigh b hb
      refine ⟨by omega, ?_, ?_⟩
      · rintro rfl
        exact absurd hge (by decide)
      · rintro rfl
        exact absurd hge (by decide)

theorem lexeme_quoted (s : String) (rest : Bytes) :
    lexeme (Text.utf8 (s.toList.flatMap escape) ++ ascii '"' :: rest) = some (some s, rest) := by
  have hpieces (text : List Char) :
      pieces (Text.utf8 (text.flatMap escape) ++ ascii '"' :: rest) = some (text.flatMap piecesOf, rest) := by
    induction text with
    | nil => exact pieces_quote rest
    | cons c text ih =>
      rw [List.flatMap_cons, Text.utf8_append, List.append_assoc, pieces_escape, ih]
      rfl
  have hassemble (text : List Char) : assemble (text.flatMap piecesOf) = some (Text.utf8 text) := by
    induction text with
    | nil => rfl
    | cons c text ih =>
      rw [List.flatMap_cons, assemble_piecesOf, ih, Text.utf8_cons]
      rfl
  rw [lexeme, hpieces]
  simp only [Option.bind_eq_bind, Option.bind_some, hassemble]
  exact congrArg (fun l => some (l, rest)) (ofUtf8?_bytes s)

/-- Whether a number ends where these bytes begin: at a comma, at a line break, or at the end. -/
def Ends (rest : Bytes) : Prop := ∀ b ∈ rest.head?, b = ascii ',' ∨ b = ascii '\n'

theorem toNat_ascii {c : Char} (h : c.toNat < 128) : (ascii c).toNat = c.toNat := by
  rw [ascii, UInt8.toNat_ofNat']
  omega

theorem utf8_of_ascii {text : List Char} (h : ∀ c ∈ text, c.toNat < 128) :
    Text.utf8 text = text.map ascii := by
  induction text with
  | nil => rfl
  | cons c text ih =>
    have hc := h c List.mem_cons_self
    rcases Text.utf8EncodeChar_cases c with ⟨_, henc⟩ | ⟨hge, _⟩
    · rw [Text.utf8_cons, henc, ih fun c hmem => h c (List.mem_cons_of_mem _ hmem)]
      rfl
    · omega

theorem digits_append {ds rest : Bytes} (hne : ds ≠ []) (hds : ∀ b ∈ ds, isDigit b = true)
    (hrest : ∀ b ∈ rest.head?, isDigit b = false) : digits (ds ++ rest) = some (ds, rest) := by
  have hstop : rest.takeWhile isDigit = [] ∧ rest.dropWhile isDigit = rest := by
    cases rest with
    | nil => exact ⟨rfl, rfl⟩
    | cons b rest => simp [hrest b rfl]
  have htake : (ds ++ rest).takeWhile isDigit = ds := by
    rw [List.takeWhile_append_of_pos hds, hstop.1, List.append_nil]
  have hdrop : (ds ++ rest).dropWhile isDigit = rest := by
    rw [List.dropWhile_append_of_pos hds, hstop.2]
  rw [digits, htake, hdrop, if_neg (by simpa using hne)]

theorem number_digits {ds rest : Bytes} (hne : ds ≠ []) (hds : ∀ b ∈ ds, isDigit b = true)
    (hzero : ds.length > 1 → ds.head? ≠ some (ascii '0')) (hrest : Ends rest) :
    number (ds ++ rest) = some (.number (String.ofList (ds.map fun b => Char.ofNat b.toNat)), rest) := by
  have hdigits : digits (ds ++ rest) = some (ds, rest) :=
    digits_append hne hds fun b hb => by rcases hrest b hb with rfl | rfl <;> rfl
  have hwhole : whole (ds ++ rest) = some (ds, rest) := by
    rw [whole, hdigits]
    exact if_neg fun h => hzero h.1 h.2
  have hfractional : fractional rest = some ([], rest) := by
    cases rest with
    | nil => rfl
    | cons b rest => rcases hrest b rfl with rfl | rfl <;> rfl
  have hexponent : exponent rest = some ([], rest) := by
    cases rest with
    | nil => rfl
    | cons b rest => rcases hrest b rfl with rfl | rfl <;> rfl
  cases ds with
  | nil => exact absurd rfl hne
  | cons d ds =>
    have hsign : d ≠ ascii '-' := by
      rintro rfl
      exact absurd (hds _ List.mem_cons_self) (by decide)
    rw [number.eq_def]
    simp only [List.cons_append, if_neg hsign] at hwhole ⊢
    simp only [hwhole, hfractional, hexponent, Option.bind_eq_bind, Option.bind_some, List.nil_append,
      List.append_nil, Option.pure_def]

theorem number_nat (n : Nat) {rest : Bytes} (hrest : Ends rest) :
    number (Text.bytes (toString n) ++ rest) = some (.nat n, rest) := by
  have hlist : (toString n).toList = Nat.toDigits 10 n := String.toList_ofList
  obtain ⟨hdigits, c, more, heq, hzero⟩ := Decimal.toDigits_spec n
  have hascii : ∀ c ∈ Nat.toDigits 10 n, c.toNat < 128 := fun c hc => by
    have := (hdigits c hc).2
    omega
  have hback : ((Nat.toDigits 10 n).map ascii).map (fun b => Char.ofNat b.toNat) = Nat.toDigits 10 n := by
    rw [List.map_map]
    refine (List.map_congr_left fun c hc => ?_).trans (List.map_id _)
    rw [Function.comp_apply, toNat_ascii (hascii c hc), Char.ofNat_toNat]
    rfl
  rw [Text.bytes, hlist, utf8_of_ascii hascii, number_digits ?_ ?_ ?_ hrest, hback]
  · rfl
  · simp [heq]
  · intro b hb
    obtain ⟨c, hc, rfl⟩ := List.mem_map.mp hb
    have hrange := hdigits c hc
    simp only [isDigit, UInt8.le_iff_toNat_le, toNat_ascii (hascii c hc), Bool.and_eq_true,
      decide_eq_true_eq]
    exact hrange
  · rw [heq]
    intro hlength hhead
    have hc : c.toNat = 48 := by
      have htoNat := congrArg UInt8.toNat (Option.some.inj hhead)
      rwa [toNat_ascii (hascii c (by simp [heq]))] at htoNat
    rw [(hzero hc).1] at hlength
    exact absurd hlength (Nat.lt_irrefl 1)

end Json

end LocalFleet
