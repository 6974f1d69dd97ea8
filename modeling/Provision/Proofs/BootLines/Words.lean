import Mathlib.Data.List.Induction
import Provision.Gather.BootLine

/-!
# The words of a boot line

A word can be written in many ways: its parts may stand between quotes of either kind or as they
are, and white space of any length sets it off from the next word. Reading the words of a line
undoes all of them (`words_spelled`):

* **spellings** — a `Spelling` writes a word as `Piece`s that touch each other, and `Spells` lays
  out spelled words in a line. Each piece, whatever was read before it, adds its text to the word
  (`wordsFrom_piece`), so a line is read as the words that it spells (`wordsFrom_spells`);
* **cuts** — what is read of a line up to a place depends on the rest of the line only through the
  quote and the word that are open there (`exists_wordsFrom_append`). A line can be cut at white
  space outside of quotes, and an open quote takes everything that is left.
-/

namespace Provision.BootLine

/-! ## Spellings -/

/-- A part of a word as it is written in a line: characters as they are, or between two quotes. -/
inductive Piece where
  | bare (text : List Char) (nonempty : text ≠ [])
      (clear : ∀ c ∈ text, isQuote c = false ∧ Text.isSpace c = false)
  | quoted (quote : Char) (text : List Char) (isQuote : isQuote quote = true)
      (unbroken : quote ∉ text)

namespace Piece

/-- What a piece adds to a word. -/
def text : Piece → List Char
  | bare text .. => text
  | quoted _ text .. => text

/-- What stands in the line for a piece. -/
def written : Piece → List Char
  | bare text .. => text
  | quoted quote text .. => quote :: text ++ [quote]

end Piece

/-- A way to write a word. Even the empty word takes a piece: two quotes with nothing in between. -/
structure Spelling where
  pieces : List Piece
  nonempty : pieces ≠ []

namespace Spelling

/-- The word that is spelled. -/
def text (s : Spelling) : List Char := s.pieces.flatMap Piece.text

/-- What stands in the line for the word. -/
def written (s : Spelling) : List Char := s.pieces.flatMap Piece.written

end Spelling

/-- Whether a text is a run of white space, which may be empty. -/
def IsGap (gap : List Char) : Prop := ∀ c ∈ gap, Text.isSpace c = true

/-- Whether a text is empty or starts with white space, so that a word ends in front of it. -/
def SetsOff (text : List Char) : Prop := ∀ c ∈ text.head?, Text.isSpace c = true

/-- Whether a line spells words: each in a spelling of its own, white space between any two of them,
and perhaps around them. -/
inductive Spells : List (List Char) → List Char → Prop
  | blank {gap : List Char} : IsGap gap → Spells [] gap
  | word {gap rest : List Char} {words : List (List Char)} (s : Spelling) : IsGap gap →
      Spells words rest → SetsOff rest → Spells (s.text :: words) (gap ++ s.written ++ rest)

/-! ## Reading what is spelled -/

variable {q c : Char} {word text gap rest : List Char}

/-- White space is no quote. -/
theorem isQuote_of_isSpace (space : Text.isSpace c = true) : isQuote c = false := by
  rw [isQuote, Bool.or_eq_false_iff, beq_eq_false_iff_ne, beq_eq_false_iff_ne]
  constructor
  · rintro rfl
    cases space
  · rintro rfl
    cases space

theorem wordsFrom_gap (h : IsGap gap) (rest : List Char) :
    wordsFrom none none (gap ++ rest) = wordsFrom none none rest := by
  induction gap with
  | nil => rfl
  | cons c gap ih =>
    obtain ⟨hc, hgap⟩ := List.forall_mem_cons.1 h
    rw [List.cons_append, wordsFrom, isQuote_of_isSpace hc, hc, if_neg Bool.false_ne_true,
      if_pos rfl, ih hgap]
    rfl

/-- Within a quote every other character belongs to the word. -/
theorem wordsFrom_within (h : q ∉ text) (rest : List Char) :
    wordsFrom (some word) (some q) (text ++ rest) =
      wordsFrom (some (text.reverse ++ word)) (some q) rest := by
  induction text generalizing word with
  | nil => rfl
  | cons c text ih =>
    rw [List.mem_cons, not_or] at h
    rw [List.cons_append, wordsFrom, if_neg (Ne.symm h.1), Option.getD_some, ih h.2,
      List.reverse_cons, List.append_assoc, List.singleton_append]

/-- Outside of quotes a character that is neither quote nor white space belongs to the word. -/
theorem wordsFrom_clear (h : ∀ c ∈ text, isQuote c = false ∧ Text.isSpace c = false)
    (rest : List Char) :
    wordsFrom (some word) none (text ++ rest) =
      wordsFrom (some (text.reverse ++ word)) none rest := by
  induction text generalizing word with
  | nil => rfl
  | cons c text ih =>
    obtain ⟨⟨hquote, hspace⟩, htext⟩ := List.forall_mem_cons.1 h
    rw [List.cons_append, wordsFrom, hquote, hspace, if_neg Bool.false_ne_true,
      if_neg Bool.false_ne_true, Option.getD_some, ih htext, List.reverse_cons, List.append_assoc,
      List.singleton_append]

/-- A piece adds its text to the word, and starts one where there is none yet. -/
theorem wordsFrom_piece (p : Piece) (word : Option (List Char)) (rest : List Char) :
    wordsFrom word none (p.written ++ rest) =
      wordsFrom (some (p.text.reverse ++ word.getD [])) none rest := by
  cases p with
  | bare text nonempty clear =>
    obtain ⟨c, text, rfl⟩ := List.exists_cons_of_ne_nil nonempty
    obtain ⟨⟨hquote, hspace⟩, htext⟩ := List.forall_mem_cons.1 clear
    show wordsFrom word none (c :: (text ++ rest)) = _
    rw [wordsFrom, hquote, hspace, if_neg Bool.false_ne_true, if_neg Bool.false_ne_true,
      wordsFrom_clear htext, Piece.text, List.reverse_cons, List.append_assoc,
      List.singleton_append]
  | quoted quote text isQuote unbroken =>
    show wordsFrom word none (quote :: (text ++ [quote] ++ rest)) = _
    rw [wordsFrom, if_pos isQuote, List.append_assoc, wordsFrom_within unbroken,
      List.singleton_append, wordsFrom, if_pos rfl]
    rfl

/-- Pieces that touch add their texts, one after the other. -/
theorem wordsFrom_pieces (pieces : List Piece) (word rest : List Char) :
    wordsFrom (some word) none (pieces.flatMap Piece.written ++ rest) =
      wordsFrom (some ((pieces.flatMap Piece.text).reverse ++ word)) none rest := by
  induction pieces generalizing word with
  | nil => rfl
  | cons p pieces ih =>
    rw [List.flatMap_cons, List.append_assoc, wordsFrom_piece, Option.getD_some, ih,
      List.flatMap_cons, List.reverse_append, List.append_assoc]

theorem wordsFrom_spelling (s : Spelling) (rest : List Char) :
    wordsFrom none none (s.written ++ rest) = wordsFrom (some s.text.reverse) none rest := by
  obtain ⟨pieces, nonempty⟩ := s
  obtain ⟨p, pieces, rfl⟩ := List.exists_cons_of_ne_nil nonempty
  show wordsFrom none none (p.written ++ pieces.flatMap Piece.written ++ rest) = _
  rw [List.append_assoc, wordsFrom_piece, wordsFrom_pieces, Option.getD_none, List.append_nil,
    ← List.reverse_append]
  rfl

/-- A word ends where white space follows, or nothing. -/
theorem wordsFrom_setsOff (h : SetsOff rest) (word : List Char) :
    wordsFrom (some word) none rest = word.reverse :: wordsFrom none none rest := by
  cases rest with
  | nil => rfl
  | cons c rest =>
    have hc : Text.isSpace c = true := h c rfl
    rw [wordsFrom, wordsFrom, isQuote_of_isSpace hc, hc]
    rfl

/-- A line is read as the words that it spells. -/
theorem wordsFrom_spells {ws : List (List Char)} {line : List Char} (h : Spells ws line) :
    wordsFrom none none line = ws := by
  induction h with
  | @blank gap hgap =>
    have hread := wordsFrom_gap hgap []
    rwa [List.append_nil] at hread
  | word s hgap spelled off ih =>
    rw [List.append_assoc, wordsFrom_gap hgap, wordsFrom_spelling, wordsFrom_setsOff off,
      List.reverse_reverse, ih]

/-! ## Cutting a line -/

/-- The quote that is open after a character, if one is. -/
def quoteAfter (quote : Option Char) (c : Char) : Option Char :=
  match quote with
  | some q => if c = q then none else some q
  | none => if isQuote c then some c else none

/-- The quote that is open at the end of a text, if one is. -/
def openQuote (text : List Char) : Option Char := text.foldl quoteAfter none

/-- Whether a text is empty or ends with white space, so that no word goes on behind it. -/
def EndsApart (text : List Char) : Prop := ∀ c ∈ text.getLast?, Text.isSpace c = true

@[simp] theorem openQuote_concat (text : List Char) (c : Char) :
    openQuote (text ++ [c]) = quoteAfter (openQuote text) c := by
  simp [openQuote]

@[simp] theorem endsApart_concat : EndsApart (text ++ [c]) ↔ Text.isSpace c = true := by
  simp [EndsApart]

/-- Only a quote is ever open. -/
theorem isQuote_of_openQuote {text : List Char} (h : openQuote text = some q) :
    isQuote q = true := by
  induction text using List.reverseRecOn with
  | nil => cases h
  | append_singleton text c ih =>
    rw [openQuote_concat] at h
    cases hopen : openQuote text with
    | some open_ =>
      rw [hopen, quoteAfter] at h
      split at h
      · cases h
      · exact ih (hopen.trans h)
    | none =>
      rw [hopen, quoteAfter] at h
      split at h
      · next hc =>
        cases h
        exact hc
      · cases h

/-- A text splits what is read of a line that starts with it: the words that end in the text, and
what is read from there on. There is a word to go on with unless the text ends apart from words. -/
theorem exists_wordsFrom_append (text : List Char) :
    ∃ ended word, (∀ rest, wordsFrom none none (text ++ rest) =
        ended ++ wordsFrom word (openQuote text) rest) ∧
      (word = none ↔ openQuote text = none ∧ EndsApart text) := by
  induction text using List.reverseRecOn with
  | nil => exact ⟨[], none, fun rest => rfl, by simp [openQuote, EndsApart]⟩
  | append_singleton text c ih =>
    obtain ⟨ended, word, hread, hword⟩ := ih
    have hnext : ∀ rest, wordsFrom none none (text ++ [c] ++ rest) =
        ended ++ wordsFrom word (openQuote text) (c :: rest) := by
      intro rest
      rw [List.append_assoc, hread, List.singleton_append]
    rw [openQuote_concat, endsApart_concat]
    cases hopen : openQuote text with
    | some q =>
      rw [hopen] at hnext hword
      -- A quote is open only where a word is, and white space does not close it.
      have hnone : word ≠ none := fun h => nomatch (hword.1 h).1
      obtain ⟨w, rfl⟩ := Option.ne_none_iff_exists'.1 hnone
      by_cases hc : c = q
      · refine ⟨ended, some w, fun rest => ?_, ?_⟩
        · rw [hnext, wordsFrom, if_pos hc, quoteAfter, if_pos hc]
        · have hspace : Text.isSpace c = false :=
            Bool.eq_false_iff.2 fun h =>
              absurd (isQuote_of_openQuote hopen) (by rw [← hc, isQuote_of_isSpace h]; simp)
          simp [hspace]
      · refine ⟨ended, some (c :: w), fun rest => ?_, ?_⟩
        · rw [hnext, wordsFrom, if_neg hc, quoteAfter, if_neg hc, Option.getD_some]
        · simp [quoteAfter, hc]
    | none =>
      rw [hopen] at hnext
      by_cases hquote : isQuote c = true
      · refine ⟨ended, some (word.getD []), fun rest => ?_, ?_⟩
        · rw [hnext, wordsFrom, if_pos hquote, quoteAfter, if_pos hquote]
        · simp [quoteAfter, hquote]
      · by_cases hspace : Text.isSpace c = true
        · refine ⟨ended ++ word.toList.map List.reverse, none, fun rest => ?_, ?_⟩
          · rw [hnext, wordsFrom, if_neg hquote, if_pos hspace, quoteAfter, if_neg hquote,
              List.append_assoc]
          · simp [quoteAfter, hquote, hspace]
        · refine ⟨ended, some (c :: word.getD []), fun rest => ?_, ?_⟩
          · rw [hnext, wordsFrom, if_neg hquote, if_neg hspace, quoteAfter, if_neg hquote]
          · simp [hspace]

/-- Outside of quotes, a line can be cut at white space. -/
theorem wordsFrom_cut (closed : openQuote text = none) (space : Text.isSpace c = true)
    (rest : List Char) :
    wordsFrom none none (text ++ c :: rest) =
      wordsFrom none none text ++ wordsFrom none none rest := by
  obtain ⟨ended, word, hread, -⟩ := exists_wordsFrom_append text
  rw [closed] at hread
  have htext : wordsFrom none none text = ended ++ word.toList.map List.reverse := by
    have hnil := hread []
    rwa [List.append_nil] at hnil
  rw [hread, htext, wordsFrom, isQuote_of_isSpace space, if_neg Bool.false_ne_true, if_pos space,
    List.append_assoc]

/-- A quote that is open at the end of a text was opened outside of quotes, and does not come again
after that. -/
theorem exists_opening (h : openQuote text = some q) :
    ∃ front back, text = front ++ q :: back ∧ openQuote front = none ∧ q ∉ back := by
  induction text using List.reverseRecOn with
  | nil => cases h
  | append_singleton text c ih =>
    rw [openQuote_concat] at h
    cases hopen : openQuote text with
    | some before =>
      rw [hopen, quoteAfter] at h
      split at h
      · cases h
      · next hc =>
        cases h
        obtain ⟨front, back, rfl, closed, unbroken⟩ := ih hopen
        refine ⟨front, back ++ [c], by simp, closed, ?_⟩
        rw [List.mem_append, List.mem_singleton, not_or]
        exact ⟨unbroken, Ne.symm hc⟩
    | none =>
      rw [hopen, quoteAfter] at h
      split at h
      · cases h
        exact ⟨text, [], rfl, hopen, List.not_mem_nil⟩
      · cases h

/-- What follows an open quote belongs to the word in which the quote was opened. -/
theorem wordsFrom_opening {front back : List Char} (closed : openQuote front = none)
    (quote : isQuote q = true) (unbroken : q ∉ back) :
    (EndsApart front ∧
        wordsFrom none none (front ++ q :: back) = wordsFrom none none front ++ [back]) ∨
      ∃ first last, ¬ EndsApart front ∧ wordsFrom none none front = first ++ [last] ∧
        wordsFrom none none (front ++ q :: back) = first ++ [last ++ back] := by
  obtain ⟨ended, word, hread, hword⟩ := exists_wordsFrom_append front
  rw [closed] at hread hword
  have hfront : wordsFrom none none front = ended ++ word.toList.map List.reverse := by
    have hnil := hread []
    rwa [List.append_nil] at hnil
  have hback : wordsFrom none none (front ++ q :: back) =
      ended ++ [(word.getD []).reverse ++ back] := by
    have hwithin : wordsFrom (some (word.getD [])) (some q) (back ++ []) = _ :=
      wordsFrom_within unbroken []
    rw [List.append_nil] at hwithin
    rw [hread, wordsFrom, if_pos quote, hwithin]
    simp [wordsFrom]
  cases word with
  | none =>
    left
    refine ⟨(hword.1 rfl).2, ?_⟩
    rw [hback, hfront]
    simp
  | some word =>
    right
    refine ⟨ended, word.reverse, (fun h => nomatch hword.2 ⟨rfl, h⟩), hfront, hback⟩

/-! ## Lines -/

/-- **The words of a line.** A line is read as the words that it spells, in whatever spellings. It
can be cut at white space outside of quotes. And where a quote is open at its end, the rest of the
line from that quote on, white space and all, is the end of the last word. -/
theorem words_spelled :
    (∀ (ws : List String) (line : String),
      Spells (ws.map String.toList) line.toList → words line = ws) ∧
    (∀ (a b : String) (c : Char), openQuote a.toList = none → Text.isSpace c = true →
      words (a ++ String.singleton c ++ b) = words a ++ words b) ∧
    ∀ (line : String) (q : Char), openQuote line.toList = some q →
      ∃ a b : String, line = a ++ String.singleton q ++ b ∧ openQuote a.toList = none ∧
        q ∉ b.toList ∧
        ((EndsApart a.toList ∧ words line = words a ++ [b]) ∨
          ∃ first last, ¬ EndsApart a.toList ∧ words a = first ++ [last] ∧
            words line = first ++ [last ++ b]) := by
  refine ⟨?_, ?_, ?_⟩
  · intro ws line spells
    rw [words, wordsFrom_spells spells, List.map_map]
    simp
  · intro a b c closed space
    simp only [words, String.toList_append, String.toList_singleton, List.append_assoc,
      List.singleton_append, wordsFrom_cut closed space, List.map_append]
  · intro line q hopen
    obtain ⟨front, back, hline, closed, unbroken⟩ := exists_opening hopen
    refine ⟨String.ofList front, String.ofList back, ?_, ?_, ?_, ?_⟩
    · rw [← String.toList_inj]
      simp [hline]
    · rwa [String.toList_ofList]
    · rwa [String.toList_ofList]
    · simp only [words, String.toList_ofList, hline]
      rcases wordsFrom_opening closed (isQuote_of_openQuote hopen) unbroken with
        ⟨apart, hwords⟩ | ⟨first, last, within, hfront, hwords⟩
      · left
        refine ⟨apart, ?_⟩
        rw [hwords, List.map_append, List.map_singleton]
      · right
        refine ⟨first.map String.ofList, String.ofList last, within, ?_, ?_⟩
        · rw [hfront, List.map_append, List.map_singleton]
        · rw [hwords, List.map_append, List.map_singleton, String.ofList_append]

/-- A word in four pieces, one of them a quote of one kind between two of the other, and one empty;
then the empty word. -/
theorem words_spelled_pieces_and_empty : words "\ta='\" b'c\"\" \"\"\n" = ["a=\" bc", ""] := by
  have hplain : ∀ c ∈ ['a', '='], isQuote c = false ∧ Text.isSpace c = false :=
    List.forall_mem_cons.2 ⟨⟨rfl, rfl⟩, List.forall_mem_singleton.2 ⟨rfl, rfl⟩⟩
  let empty : Piece := .quoted '"' [] rfl List.not_mem_nil
  let first : Spelling := ⟨[.bare ['a', '='] nofun hplain,
    .quoted '\'' ['"', ' ', 'b'] rfl (by decide),
    .bare ['c'] nofun (List.forall_mem_singleton.2 ⟨rfl, rfl⟩), empty], nofun⟩
  have hgap : ∀ c, Text.isSpace c = true → IsGap [c] := by
    intro c hc x hx
    rwa [List.mem_singleton.1 hx]
  have setsOff (c : Char) (rest : List Char) (hc : Text.isSpace c = true) :
      SetsOff (c :: rest) := by
    rintro x ⟨⟩
    exact hc
  have hlast : Spells [[]] [' ', '"', '"', '\n'] :=
    .word ⟨[empty], nofun⟩ (hgap ' ' rfl) (.blank (hgap '\n' rfl)) (setsOff '\n' [] rfl)
  have hline : Spells [first.text, []] _ :=
    .word first (hgap '\t' rfl) hlast (setsOff ' ' _ rfl)
  exact words_spelled.1 ["a=\" bc", ""] _ hline

end Provision.BootLine
