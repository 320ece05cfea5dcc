import Mathlib.Data.List.Basic
import LocalFleet.Node.Command

/-!
# The two renderings of a command

A supervisor is given an argument vector, a shell a block of a script. The block quotes nothing, so
that splitting it into words gives the vector back exactly if no text of the command holds a blank, a
quote or a backslash.

Word splitting is all that is read of a shell's grammar here: comments, continued lines, blanks, quotes
and backslashes. What a shell does besides (expansions, operators such as `;` and `|`) is left out.
-/

namespace LocalFleet
namespace Shell

/-- Whether word splitting takes a character for quoting. -/
def isMark (c : Char) : Bool := c = '\\' || c = '\'' || c = '"'

def marks (text : List Char) : Nat := text.countP isMark

@[simp] theorem marks_nil : marks [] = 0 := rfl

@[simp] theorem marks_cons (c : Char) (text : List Char) :
    marks (c :: text) = marks text + if isMark c then 1 else 0 :=
  List.countP_cons

@[simp] theorem marks_append (a b : List Char) : marks (a ++ b) = marks a + marks b :=
  List.countP_append

@[simp] theorem marks_reverse (text : List Char) : marks text.reverse = marks text :=
  List.countP_reverse

theorem marks_eq_zero_iff {text : List Char} : marks text = 0 ↔ ∀ c ∈ text, ¬isMark c := by
  simp [marks, List.countP_eq_zero]

/-- A text that stays one word as it is written: nothing in it separates words or is a mark. -/
def Plain (text : List Char) : Prop := ∀ c ∈ text, isBlank c = false ∧ isMark c = false

instance (text : List Char) : Decidable (Plain text) := List.decidableBAll _ text

theorem plain_cons {c : Char} {text : List Char} :
    Plain (c :: text) ↔ (isBlank c = false ∧ isMark c = false) ∧ Plain text :=
  List.forall_mem_cons

theorem plain_append {a b : List Char} : Plain (a ++ b) ↔ Plain a ∧ Plain b :=
  List.forall_mem_append

theorem Plain.newline_not_mem {text : List Char} (h : Plain text) : '\n' ∉ text :=
  fun hm => absurd (h _ hm).1 (by decide)

theorem Plain.backslash_not_mem {text : List Char} (h : Plain text) : '\\' ∉ text :=
  fun hm => absurd (h _ hm).2 (by decide)

/-! ## Lines -/

def lines : List Char → List (List Char)
  | [] => []
  | '\n' :: text => ['\n'] :: lines text
  | c :: text =>
    match lines text with
    | [] => [[c]]
    | line :: rest => (c :: line) :: rest

theorem lines_append_newline {line : List Char} (h : '\n' ∉ line) (rest : List Char) :
    lines (line ++ '\n' :: rest) = (line ++ ['\n']) :: lines rest := by
  induction line with
  | nil => simp [lines]
  | cons c line ih =>
    have hc : c ≠ '\n' := fun e => h (e ▸ List.mem_cons_self)
    have hl : '\n' ∉ line := fun m => h (List.mem_cons_of_mem _ m)
    simp [lines, ih hl]

theorem lines_of_not_mem {line : List Char} (h : '\n' ∉ line) :
    lines line = if line = [] then [] else [line] := by
  induction line with
  | nil => rfl
  | cons c line ih =>
    have hc : c ≠ '\n' := fun e => h (e ▸ List.mem_cons_self)
    have hl : '\n' ∉ line := fun m => h (List.mem_cons_of_mem _ m)
    rw [lines, ih hl]
    · cases line <;> simp
    · exact hc

/-- A text is read line by line. -/
theorem line_induction {motive : List Char → Prop}
    (last : ∀ line, '\n' ∉ line → motive line)
    (step : ∀ line rest, '\n' ∉ line → motive rest → motive (line ++ '\n' :: rest))
    (text : List Char) : motive text := by
  by_cases h : '\n' ∈ text
  · obtain ⟨line, rest, rfl, hl⟩ := List.eq_append_cons_of_mem h
    exact step line rest hl (line_induction last step rest)
  · exact last text h
termination_by text.length
decreasing_by subst_vars; simp; omega

/-- How a line begins that stops what listens on a port. -/
def killing : List Char := "kill -9 $(lsof -t -i:".toList

theorem newline_not_mem_killing : '\n' ∉ killing := by decide

def isAside (line : List Char) : Bool :=
  line.head? == some '#' || killing.isPrefixOf line

/-- A text without its comments and without the lines that stop what listens on a port. -/
def spoken (text : List Char) : List Char := ((lines text).filter (!isAside ·)).flatten

theorem spoken_append_newline {line : List Char} (h : '\n' ∉ line) (rest : List Char) :
    spoken (line ++ '\n' :: rest) =
      (if isAside (line ++ ['\n']) then [] else line ++ ['\n']) ++ spoken rest := by
  rw [spoken, lines_append_newline h, List.filter_cons]
  cases isAside (line ++ ['\n']) <;> simp [spoken]

theorem spoken_comment {line : List Char} (h : '\n' ∉ line) (rest : List Char) :
    spoken ('#' :: (line ++ '\n' :: rest)) = spoken rest := by
  have hline : '\n' ∉ '#' :: line := by simp [h]
  rw [← List.cons_append, spoken_append_newline hline]
  simp [isAside]

theorem spoken_kill {line : List Char} (h : '\n' ∉ line) (rest : List Char) :
    spoken (killing ++ line ++ '\n' :: rest) = spoken rest := by
  have hline : '\n' ∉ killing ++ line := by simp [newline_not_mem_killing, h]
  have haside : isAside (killing ++ line ++ ['\n']) := by
    rw [isAside, List.append_assoc, List.isPrefixOf_iff_prefix.2 (List.prefix_append ..), Bool.or_true]
  rw [spoken_append_newline hline, if_pos haside, List.nil_append]

theorem spoken_append (a b : List Char) :
    spoken (a ++ '\n' :: b) = spoken (a ++ ['\n']) ++ spoken b := by
  induction a using line_induction with
  | last line h =>
    rw [spoken_append_newline h, spoken_append_newline h]
    simp [spoken, lines]
  | step line rest h ih =>
    have e (more : List Char) :
        line ++ '\n' :: rest ++ '\n' :: more = line ++ '\n' :: (rest ++ '\n' :: more) := by simp
    rw [e, e, spoken_append_newline h, spoken_append_newline h, ih, List.append_assoc]

theorem spoken_of_not_mem {line : List Char} (h : '\n' ∉ line) :
    spoken line = [] ∨ spoken line = line := by
  rw [spoken, lines_of_not_mem h]
  cases line with
  | nil => simp
  | cons c line => cases hc : isAside (c :: line) <;> simp [hc]

/-! ## Continued lines -/

theorem unfoldLines_append {a b : List Char} (h : a.getLast? ≠ some '\\') :
    unfoldLines (a ++ b) = unfoldLines a ++ unfoldLines b := by
  fun_induction unfoldLines a with
  | case1 text ih =>
    have ht : text.getLast? ≠ some '\\' := by
      cases text with
      | nil => simp
      | cons c text => simpa using h
    simp [unfoldLines, ih ht]
  | case2 c text hc ih =>
    cases text with
    | nil =>
      have : c ≠ '\\' := by simpa using h
      simp [unfoldLines, this]
    | cons d text =>
      have ht : (d :: text).getLast? ≠ some '\\' := by simpa using h
      rw [List.cons_append, unfoldLines, ih ht, List.cons_append]
      rintro t rfl e
      obtain ⟨rfl, -⟩ := List.cons.inj e
      exact hc text rfl rfl
  | case3 => rfl

theorem unfoldLines_sublist (text : List Char) : (unfoldLines text).Sublist text := by
  fun_induction unfoldLines text with
  | case1 text ih => exact (ih.cons _).cons _
  | case2 c text _ ih => exact ih.cons_cons c
  | case3 => exact .slnil

theorem unfoldLines_of_not_mem {text : List Char} (h : '\\' ∉ text) : unfoldLines text = text := by
  induction text with
  | nil => rfl
  | cons c text ih =>
    obtain ⟨hc, ht⟩ := not_or.1 (mt List.mem_cons.2 h)
    rw [unfoldLines, ih ht]
    exact fun _ e _ => hc e.symm

theorem unfoldLines_plain {w : List Char} (hw : Plain w) {b : Char} (hb : isBlank b)
    (rest : List Char) : unfoldLines (w ++ b :: rest) = w ++ b :: unfoldLines rest := by
  have hback : '\\' ∉ w ++ [b] := by
    have hbackb : '\\' ≠ b := by rintro rfl; exact absurd hb (by decide)
    simpa [hw.backslash_not_mem] using hbackb
  have hlast : (w ++ [b]).getLast? ≠ some '\\' := fun e => hback (List.mem_of_getLast? e)
  rw [← List.singleton_append, ← List.append_assoc, unfoldLines_append hlast,
    unfoldLines_of_not_mem hback, List.append_assoc, List.singleton_append]

theorem marks_unfoldLines_spoken_le (text : List Char) :
    marks (unfoldLines (spoken text)) ≤ marks (unfoldLines text) := by
  induction text using line_induction with
  | last line h =>
    rcases spoken_of_not_mem h with e | e <;> simp [e, unfoldLines]
  | step line rest h ih =>
    have hl : (line ++ ['\n']).getLast? ≠ some '\\' := by simp
    have hs : line ++ '\n' :: rest = (line ++ ['\n']) ++ rest := by simp
    rw [spoken_append_newline h]
    split
    · rw [hs, unfoldLines_append hl, marks_append]
      simp only [List.nil_append]
      omega
    · rw [hs, unfoldLines_append hl, unfoldLines_append hl, marks_append, marks_append]
      omega

/-! ## Words -/

theorem wordsFrom_cons {c : Char} (hc : isMark c = false) (word : Option (List Char))
    (text : List Char) :
    wordsFrom word .none (c :: text) =
      if isBlank c then word.toList.map List.reverse ++ wordsFrom none .none text
      else wordsFrom (some (c :: word.getD [])) .none text := by
  simp only [isMark, Bool.or_eq_false_iff, decide_eq_false_iff_not] at hc
  rw [wordsFrom]
  · exact fun _ _ e _ => hc.1.1 e
  · exact hc.1.2
  · exact hc.2

theorem marks_begun (word : Option (List Char)) :
    marks (word.toList.map List.reverse).flatten = marks (word.getD []) := by
  cases word <;> simp

theorem forall_begun {word : Option (List Char)} (h : ∀ begun ∈ word, begun ≠ [] ∧ Plain begun) :
    ∀ w ∈ word.toList.map List.reverse, w ≠ [] ∧ Plain w := by
  intro w hw
  obtain ⟨begun, hb, rfl⟩ := List.mem_map.1 hw
  obtain ⟨hne, hp⟩ := h begun (Option.mem_toList.1 hb)
  exact ⟨by simpa using hne, fun c hc => hp c (List.mem_reverse.1 hc)⟩

theorem marks_wordsFrom_le (word : Option (List Char)) (q : Quoting) (text : List Char) :
    marks (wordsFrom word q text).flatten ≤ marks (word.getD []) + marks text := by
  -- in every case the character is dropped or becomes part of one word
  fun_induction wordsFrom word q text <;> simp_all [marks_begun] <;> omega

theorem wordsFrom_mark {c : Char} {text : List Char} (hc : isMark c)
    (hlast : (c :: text).getLast? ≠ some '\\') (word : Option (List Char)) :
    ∃ begun q rest, wordsFrom word .none (c :: text) = wordsFrom begun q rest ∧
      marks (begun.getD []) + marks rest < marks (word.getD []) + marks (c :: text) := by
  simp only [isMark, Bool.or_eq_true, decide_eq_true_eq] at hc
  rcases hc with (rfl | rfl) | rfl
  · cases text with
    | nil => simp at hlast
    | cons d text =>
      have hmark : isMark '\\' := rfl
      refine ⟨some (d :: word.getD []), .none, text, rfl, ?_⟩
      simp only [Option.getD_some, marks_cons, hmark, if_true]
      omega
  · exact ⟨some (word.getD []), .single, text, rfl, by simp [isMark]⟩
  · exact ⟨some (word.getD []), .double, text, rfl, by simp [isMark]⟩

/-- A mark that is written outside quotes is not read. -/
theorem marks_wordsFrom_lt {text : List Char} (hlast : text.getLast? ≠ some '\\')
    (h : 0 < marks text) (word : Option (List Char)) :
    marks (wordsFrom word .none text).flatten < marks (word.getD []) + marks text := by
  induction text generalizing word with
  | nil => simp at h
  | cons c text ih =>
    by_cases hc : isMark c
    · obtain ⟨begun, q, rest, e, hlt⟩ := wordsFrom_mark hc hlast word
      rw [e]
      exact Nat.lt_of_le_of_lt (marks_wordsFrom_le begun q rest) hlt
    · have hc : isMark c = false := by simpa using hc
      have ht : 0 < marks text := by simpa [hc] using h
      have hl : text.getLast? ≠ some '\\' := by
        cases text with
        | nil => simp at ht
        | cons d text => simpa using hlast
      rw [wordsFrom_cons hc]
      split
      · have := ih hl ht none
        simp only [List.flatten_append, marks_append, marks_begun, marks_cons, hc] at this ⊢
        simp at this ⊢
        omega
      · have := ih hl ht (some (c :: word.getD []))
        simpa [hc] using this

/-- Where no mark is written, what is read is a list of plain words. -/
theorem wordsFrom_unmarked {text : List Char} (h : marks text = 0) {word : Option (List Char)}
    (hword : ∀ begun ∈ word, begun ≠ [] ∧ Plain begun) :
    ∀ w ∈ wordsFrom word .none text, w ≠ [] ∧ Plain w := by
  induction text generalizing word with
  | nil => exact forall_begun hword
  | cons c text ih =>
    have hm := marks_eq_zero_iff.1 h
    have hc : isMark c = false := by simpa using hm c List.mem_cons_self
    have ht : marks text = 0 := marks_eq_zero_iff.2 fun d hd => hm d (List.mem_cons_of_mem _ hd)
    rw [wordsFrom_cons hc]
    split
    · intro w hw
      rcases List.mem_append.1 hw with hw | hw
      · exact forall_begun hword w hw
      · exact ih ht (by simp) w hw
    · rename_i hblank
      refine ih ht fun begun hb => ?_
      obtain rfl : c :: word.getD [] = begun := by simpa using hb
      refine ⟨by simp, List.forall_mem_cons.2 ⟨⟨by simpa using hblank, hc⟩, ?_⟩⟩
      cases word with
      | none => simp
      | some begun => exact (hword begun rfl).2

theorem wordsFrom_plain {w : List Char} (hw : Plain w) {b : Char} (hb : isBlank b)
    (begun rest : List Char) :
    wordsFrom (some begun) .none (w ++ b :: rest) =
      (begun.reverse ++ w) :: wordsFrom none .none rest := by
  induction w generalizing begun with
  | nil =>
    have hm : isMark b = false := by
      simp only [isBlank, Bool.or_eq_true, decide_eq_true_eq] at hb
      rcases hb with (rfl | rfl) | rfl <;> rfl
    simp [wordsFrom_cons hm, hb]
  | cons c w ih =>
    obtain ⟨hblank, hmark⟩ := hw c List.mem_cons_self
    rw [List.cons_append, wordsFrom_cons hmark, if_neg (by simp [hblank]), Option.getD_some,
      ih fun d hd => hw d (List.mem_cons_of_mem _ hd)]
    simp

/-! ## Words in lines of their own -/

/-- Words in lines of their own, each line but the last continued by the next. -/
def stacked : List Char → List (List Char) → List Char
  | w, [] => w ++ ['\n']
  | w, v :: vs => w ++ ' ' :: '\\' :: '\n' :: stacked v vs

theorem stacked_eq (w : List Char) (vs : List (List Char)) :
    stacked w vs = w ++ vs.flatMap (" \\\n".toList ++ ·) ++ ['\n'] := by
  induction vs generalizing w with
  | nil => simp [stacked]
  | cons v vs ih => simp [stacked, ih]

theorem stacked_cons_append (w v : List Char) (vs : List (List Char)) (rest : List Char) :
    stacked w (v :: vs) ++ rest = w ++ ' ' :: '\\' :: '\n' :: (stacked v vs ++ rest) := by
  simp [stacked]

theorem marks_unfoldLines_stacked_le (w : List Char) (vs : List (List Char)) (rest : List Char) :
    marks (unfoldLines (stacked w vs ++ rest)) ≤
      marks (w :: vs).flatten + marks (unfoldLines rest) := by
  have hle (text : List Char) : marks (unfoldLines text) ≤ marks text :=
    (unfoldLines_sublist text).countP_le
  induction vs generalizing w with
  | nil =>
    have := hle (w ++ ['\n'])
    rw [stacked, unfoldLines_append (by simp), marks_append]
    simp [isMark] at this ⊢
    omega
  | cons v vs ih =>
    have hw := hle (w ++ [' '])
    have hv := ih v
    have e : stacked w (v :: vs) ++ rest =
        (w ++ [' ']) ++ '\\' :: '\n' :: (stacked v vs ++ rest) := by simp [stacked_cons_append]
    rw [e, unfoldLines_append (by simp), marks_append, unfoldLines]
    simp [isMark] at hw hv ⊢
    omega

/-- A word that is read as it is written, at the beginning of a line too. -/
structure Bare (w : List Char) : Prop where
  ne_nil : w ≠ []
  head_ne : w.head? ≠ some '#'
  plain : Plain w

theorem dropWhile_plain {w : List Char} (hw : Plain w) {b : Char} (hb : isBlank b)
    (rest : List Char) : (w ++ b :: rest).dropWhile (!isBlank ·) = b :: rest := by
  rw [List.dropWhile_append_of_pos fun c hc => by simp [(hw c hc).1], List.dropWhile_cons]
  simp [hb]

theorem isAside_plain {w : List Char} (hw : Plain w) {b : Char} (hb : isBlank b) {rest : List Char}
    (hrest : rest.head? ≠ some '-') : isAside (w ++ b :: rest) = (w.head? == some '#') := by
  have hkill : killing.isPrefixOf (w ++ b :: rest) = false := by
    by_contra h
    obtain ⟨more, e⟩ := List.isPrefixOf_iff_prefix.1 (Bool.of_not_eq_false h)
    have hd := dropWhile_plain hw hb rest
    rw [← e] at hd
    -- the first blank of such a line stands before a minus sign
    obtain ⟨-, rfl⟩ := List.cons.inj hd
    exact hrest rfl
  rw [isAside, hkill, Bool.or_false]
  cases w with
  | nil =>
    have : b ≠ '#' := by rintro rfl; exact absurd hb (by decide)
    simpa using this
  | cons c w => rfl

theorem read_bare {w : List Char} (hw : Bare w) {b : Char} (hb : isBlank b) (rest : List Char) :
    wordsFrom none .none (w ++ b :: rest) = w :: wordsFrom none .none rest := by
  obtain ⟨c, w, rfl⟩ := List.exists_cons_of_ne_nil hw.ne_nil
  obtain ⟨hc, hw⟩ := List.forall_mem_cons.1 hw.plain
  rw [List.cons_append, wordsFrom_cons hc.2, if_neg (by simp [hc.1]), wordsFrom_plain hw hb]
  rfl

theorem spoken_plain {w : List Char} (hw : Plain w) (rest : List Char) :
    spoken (w ++ '\n' :: rest) =
      (if w.head? = some '#' then [] else w ++ ['\n']) ++ spoken rest := by
  rw [spoken_append_newline hw.newline_not_mem, isAside_plain hw rfl (by simp)]
  simp

theorem spoken_plain_continued {w : List Char} (hw : Plain w) (rest : List Char) :
    spoken (w ++ ' ' :: '\\' :: '\n' :: rest) =
      (if w.head? = some '#' then [] else w ++ [' ', '\\', '\n']) ++ spoken rest := by
  have hline : '\n' ∉ w ++ [' ', '\\'] := by simp [hw.newline_not_mem]
  have e : w ++ ' ' :: '\\' :: '\n' :: rest = (w ++ [' ', '\\']) ++ '\n' :: rest := by simp
  have haside : isAside (w ++ [' ', '\\', '\n']) = (w.head? == some '#') :=
    isAside_plain hw rfl (by simp)
  rw [e, spoken_append_newline hline, List.append_assoc]
  simp [haside]

/-- The words of a text without its comments. -/
def heard (text : List Char) : List (List Char) := wordsFrom none .none (unfoldLines (spoken text))

theorem heard_stacked {w : List Char} {vs : List (List Char)} (hw : Bare w) (hvs : ∀ v ∈ vs, Bare v)
    (rest : List Char) : heard (stacked w vs ++ rest) = w :: vs ++ heard rest := by
  induction vs generalizing w with
  | nil =>
    rw [heard, stacked, List.append_assoc, List.singleton_append, spoken_plain hw.plain,
      if_neg hw.head_ne, List.append_assoc, List.singleton_append, unfoldLines_plain hw.plain rfl,
      read_bare hw rfl]
    rfl
  | cons v vs ih =>
    have hrest := ih (hvs v List.mem_cons_self) fun u hu => hvs u (List.mem_cons_of_mem _ hu)
    have ew (more : List Char) :
        w ++ [' ', '\\', '\n'] ++ more = w ++ ' ' :: '\\' :: '\n' :: more := by simp
    rw [heard, stacked_cons_append, spoken_plain_continued hw.plain, if_neg hw.head_ne, ew,
      unfoldLines_plain hw.plain rfl, unfoldLines, read_bare hw rfl]
    exact congrArg (w :: ·) hrest

theorem heard_stacked_comment {w : List Char} {vs : List (List Char)} (hw : Plain w)
    (hhash : w.head? = some '#') (hvs : ∀ v ∈ vs, Bare v) (rest : List Char) :
    heard (stacked w vs ++ rest) = vs ++ heard rest := by
  cases vs with
  | nil => simp [heard, stacked, spoken_plain hw, hhash]
  | cons v vs =>
    rw [heard, stacked_cons_append, spoken_plain_continued hw, if_pos hhash]
    exact heard_stacked (hvs v List.mem_cons_self) (fun u hu => hvs u (List.mem_cons_of_mem _ hu)) rest

theorem getLast?_unfoldLines_spoken (w : List Char) (vs : List (List Char)) :
    (unfoldLines (spoken (stacked w vs ++ ['\n', '\n']))).getLast? = some '\n' := by
  have hspoken : spoken (stacked w vs ++ ['\n', '\n']) =
      (spoken (stacked w vs) ++ ['\n']) ++ ['\n'] := by
    rw [stacked_eq, List.append_assoc, List.append_assoc (spoken _)]
    exact spoken_append _ ['\n', '\n']
  have htail : unfoldLines (spoken (stacked w vs ++ ['\n', '\n'])) =
      unfoldLines (spoken (stacked w vs) ++ ['\n']) ++ ['\n'] := by
    rw [hspoken]
    exact unfoldLines_append (by simp)
  simp [htail]

/-- An argument vector that is read as it is has no marks: with one of them in the text, fewer would be
read than the words have. -/
theorem marks_eq_zero_of_heard {w : List Char} {vs : List (List Char)}
    (h : heard (stacked w vs ++ ['\n', '\n']) = w :: vs) :
    marks (unfoldLines (spoken (stacked w vs ++ ['\n', '\n']))) = 0 := by
  have hwritten : marks (unfoldLines (spoken (stacked w vs ++ ['\n', '\n']))) ≤
      marks (w :: vs).flatten :=
    Nat.le_trans (marks_unfoldLines_spoken_le _) (marks_unfoldLines_stacked_le w vs _)
  have hlast : (unfoldLines (spoken (stacked w vs ++ ['\n', '\n']))).getLast? ≠ some '\\' := by
    simp [getLast?_unfoldLines_spoken]
  by_contra hne
  have hread := marks_wordsFrom_lt hlast (Nat.pos_of_ne_zero hne) none
  rw [heard] at h
  rw [h, Option.getD_none, marks_nil] at hread
  omega

/-- An argument vector of which each word has a line is read back exactly if the words are bare.
The newlines are the end of a block. -/
theorem heard_stacked_iff {w : List Char} {vs : List (List Char)}
    (hvs : ∀ v ∈ vs, v.head? ≠ some '#') :
    heard (stacked w vs ++ ['\n', '\n']) = w :: vs ↔ Bare w ∧ ∀ v ∈ vs, Bare v := by
  have hend : heard ['\n', '\n'] = [] := by decide
  constructor
  · intro h
    have hplain : ∀ v ∈ w :: vs, v ≠ [] ∧ Plain v := by
      rw [← h]
      exact wordsFrom_unmarked (marks_eq_zero_of_heard h) (by simp)
    obtain ⟨⟨hne, hw⟩, htail⟩ := List.forall_mem_cons.1 hplain
    have hbare : ∀ v ∈ vs, Bare v := fun v hv => ⟨(htail v hv).1, hvs v hv, (htail v hv).2⟩
    refine ⟨⟨hne, fun hhash => ?_, hw⟩, hbare⟩
    rw [heard_stacked_comment hw hhash hbare, hend, List.append_nil] at h
    simpa using congrArg List.length h
  · rintro ⟨hw, hall⟩
    rw [heard_stacked hw hall, hend, List.append_nil]

/-- The words that a block of a script is split into, but for its comments and the lines that stop what
listens on a port. -/
def launched (block : String) : List String := words (String.ofList (spoken block.toList))

theorem launched_eq_iff {block : String} {ws : List String} :
    launched block = ws ↔ heard block.toList = ws.map String.toList := by
  have hback : String.toList ∘ String.ofList = id := funext fun _ => String.toList_ofList
  have e : launched block = (heard block.toList).map String.ofList := by simp [launched, words, heard]
  rw [e]
  constructor
  · rintro rfl
    rw [List.map_map, hback, List.map_id]
  · intro h
    simp [h, Function.comp_def]

end Shell

namespace Script

open Shell

theorem newline_not_mem_repr (n : Nat) : '\n' ∉ (toString n).toList := fun hm => by
  rw [Nat.toString_eq_ofList_toDigits, String.toList_ofList] at hm
  exact absurd (Nat.isDigit_of_mem_toDigits (by decide) (by decide) hm) (by decide)

theorem newline_not_mem_ordinal (n : Nat) : '\n' ∉ (ordinal n).toList := by
  unfold ordinal
  split
  · simp only [String.toList_append, List.mem_append, not_or]
    exact ⟨by decide, newline_not_mem_repr n⟩
  · exact newline_not_mem_repr n

theorem toString_text (s : String) : toString s = s := rfl

theorem killLine_toList (port : UInt16) (rest : List Char) :
    (NodeCommand.killLine port).toList ++ rest =
      killing ++ ((toString port).toList ++ [')']) ++ '\n' :: rest := by
  unfold NodeCommand.killLine
  simp only [String.toList_append, toString_text, List.append_assoc]
  rfl

theorem text_toList (c : NodeCommand) :
    c.text.toList =
      '#' :: (" commands for ".toList ++ c.name.toList ++ ", ".toList ++ c.nodeId.toList ++ '\n' ::
        ((NodeCommand.killLine c.httpPort).toList ++ ((NodeCommand.killLine c.stakingPort).toList ++
          stacked c.binary.toList (c.toArgs.map String.toList)))) := by
  unfold NodeCommand.text
  simp [stacked_eq, toString_text, List.flatMap_map]

theorem block_toList (i : Nat) (c : NodeCommand) :
    (block i c).toList =
      '#' :: (" [".toList ++ (ordinal (i + 1)).toList ++ "]".toList ++ '\n' ::
        (c.text.toList ++ ['\n', '\n'])) := by
  unfold block
  simp [toString_text]

theorem heard_block {c : NodeCommand} (hname : '\n' ∉ c.name.toList)
    (hid : '\n' ∉ c.nodeId.toList) (i : Nat) :
    heard (block i c).toList =
      heard (stacked c.binary.toList (c.toArgs.map String.toList) ++ ['\n', '\n']) := by
  have hordinal : '\n' ∉ " [".toList ++ (ordinal (i + 1)).toList ++ "]".toList := by
    simp [newline_not_mem_ordinal]
  have hcomment : '\n' ∉ " commands for ".toList ++ c.name.toList ++ ", ".toList ++ c.nodeId.toList := by
    simp [hname, hid]
  have hport (port : UInt16) : '\n' ∉ (toString port).toList ++ [')'] := by
    have hn : '\n' ∉ (toString port).toList := newline_not_mem_repr port.toNat
    simpa using hn
  rw [heard, block_toList, spoken_comment hordinal, text_toList, List.cons_append, List.append_assoc,
    List.cons_append, spoken_comment hcomment, List.append_assoc, List.append_assoc, killLine_toList,
    spoken_kill (hport _), killLine_toList, spoken_kill (hport _), heard]

theorem render_eq {commands : List NodeCommand} {i : Nat} {c : NodeCommand}
    (h : commands[i]? = some c) :
    ∃ rest, render commands =
      opening ++ String.join ((commands.take i).mapIdx block) ++ block i c ++ rest := by
  obtain ⟨hi, rfl⟩ := List.getElem?_eq_some_iff.1 h
  refine ⟨String.join ((commands.drop (i + 1)).mapIdx fun j => block (i + 1 + j)) ++ closing, ?_⟩
  have hsplit : commands.mapIdx block =
      (commands.take i).mapIdx block ++
        block i commands[i] :: (commands.drop (i + 1)).mapIdx fun j => block (i + 1 + j) := by
    conv_lhs => rw [← List.take_append_drop i commands, List.drop_eq_getElem_cons hi]
    rw [List.mapIdx_append, List.mapIdx_cons, List.length_take, Nat.min_eq_left (Nat.le_of_lt hi)]
    simp [Nat.add_comm, Nat.add_left_comm]
  rw [render, hsplit, String.join_append, String.join_cons]
  simp [String.append_assoc]

theorem arg_toList (flag value : String) :
    s!"--{flag}={value}".toList = '-' :: '-' :: (flag.toList ++ '=' :: value.toList) := by
  simp [toString_text]

theorem bare_arg_iff (flag value : String) :
    Bare s!"--{flag}={value}".toList ↔ Plain flag.toList ∧ Plain value.toList := by
  have hplain : Plain ('-' :: '-' :: (flag.toList ++ '=' :: value.toList)) ↔
      Plain flag.toList ∧ Plain value.toList := by
    simp [plain_cons, plain_append, isBlank, isMark]
  rw [arg_toList]
  exact ⟨fun h => hplain.1 h.plain, fun h => ⟨by simp, by simp, hplain.2 h⟩⟩

/-- The block of a command stands in the script, and splits into the words of the argument vector, the
program first, exactly if the program is bare and no flag or value holds a blank, a quote or a
backslash. -/
theorem launched_block_iff {commands : List NodeCommand} {i : Nat} {c : NodeCommand}
    (h : commands[i]? = some c) (hname : '\n' ∉ c.name.toList) (hid : '\n' ∉ c.nodeId.toList) :
    (∃ rest, render commands =
      opening ++ String.join ((commands.take i).mapIdx block) ++ block i c ++ rest) ∧
    (launched (block i c) = c.binary :: c.toArgs ↔
      Bare c.binary.toList ∧ ∀ arg ∈ c.args, Plain arg.1.toList ∧ Plain arg.2.toList) := by
  have hhead : ∀ v ∈ c.toArgs.map String.toList, v.head? ≠ some '#' := by
    rw [NodeCommand.toArgs, List.map_map, List.forall_mem_map]
    intro arg _
    rw [Function.comp_apply, arg_toList]
    simp
  refine ⟨render_eq h, ?_⟩
  rw [launched_eq_iff, heard_block hname hid, List.map_cons, heard_stacked_iff hhead,
    NodeCommand.toArgs, List.map_map, List.forall_mem_map]
  exact and_congr_right' (forall₂_congr fun arg _ => bare_arg_iff arg.1 arg.2)

def specimen (binary : String) : NodeCommand :=
  .new "s1" binary "local" "info" 9650 9651 5 "/db/s1"
    ⟨"/certs/s1.key", "/certs/s1.crt", "NodeID-1"⟩ none

theorem launched_block_specimen :
    launched (block 0 (specimen "/opt/node")) = "/opt/node" :: (specimen "/opt/node").toArgs ∧
      launched (block 0 (specimen "/opt/my node")) ≠
        "/opt/my node" :: (specimen "/opt/my node").toArgs := by
  have hfirst (binary : String) : [specimen binary][0]? = some (specimen binary) := rfl
  have hplain := launched_block_iff (hfirst "/opt/node") (by decide) (by decide)
  have hblank := launched_block_iff (hfirst "/opt/my node") (by decide) (by decide)
  refine ⟨hplain.2.2 ⟨⟨by decide, by decide, by decide⟩, by decide⟩, fun e => ?_⟩
  exact absurd (hblank.2.1 e).1.plain (by decide)

end Script
end LocalFleet
