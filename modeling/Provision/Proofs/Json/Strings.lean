import Provision.Proofs.Json.Texts
import Provision.Proofs.Yaml.QuotedTexts

/-!
# Strings of JSON texts

The reader takes a JSON string for a scalar between double quotes, and reads it as what it denotes
(`Yaml.Quoted.read?_piecesText`), with one exception: it knows no pairs of surrogates. A code point
that is a half of such a pair is no character for it, and the whole string cannot be read.
-/

namespace Provision.Json

open Numeral (isDigitIn hexValue?)

/-! ## Parts of strings -/

/-- Whether the reader knows a part of a string: it does not if that is a half of a pair. -/
def Piece.isReadable : Piece → Bool
  | code u => !u.isSurrogate
  | _ => true

/-- What a part of a string stands for by itself. -/
def Piece.char : Piece → Char
  | unescaped c _ => c
  | escape e => e.char
  | code u => u.char

/-- Without halves of pairs, every part of a string is one character. -/
theorem decode_eq_map {pieces : List Piece} (readable : ∀ p ∈ pieces, p.isReadable = true) :
    decode pieces = pieces.map Piece.char := by
  fun_induction decode pieces with
  | case1 => rfl
  | case2 c _ pieces ih =>
    rw [ih (List.forall_mem_cons.1 readable).2]
    rfl
  | case3 e pieces ih =>
    rw [ih (List.forall_mem_cons.1 readable).2]
    rfl
  | case4 u v pieces pair ih =>
    have hu : u.isSurrogate = false := by
      simpa [Piece.isReadable] using (List.forall_mem_cons.1 readable).1
    rw [CodeUnit.isSurrogate, Bool.or_eq_false_iff] at hu
    simp [hu.1] at pair
  | case5 u v pieces pair ih =>
    rw [ih (List.forall_mem_cons.1 readable).2]
    rfl
  | case6 u pieces alone ih =>
    rw [ih (List.forall_mem_cons.1 readable).2]
    rfl

theorem isUnescaped_ne {c x : Char} (h : isUnescaped c = true) (hx : isUnescaped x = false) :
    c ≠ x := by
  rintro rfl
  rw [h] at hx
  cases hx

/-- The digits of a code point, one by one. -/
theorem CodeUnit.exists_digits (u : CodeUnit) :
    ∃ a b c d w x y z, u.digits = [a, b, c, d] ∧ hexValue? a = some w ∧ hexValue? b = some x ∧
      hexValue? c = some y ∧ hexValue? d = some z ∧
      u.value = ((w * 16 + x) * 16 + y) * 16 + z ∧ u.value < 0x10000 := by
  have hvalue {c : Char} (h : isDigitIn 16 c = true) : ∃ n < 16, hexValue? c = some n := by
    rw [isDigitIn, Option.any_eq_true] at h
    obtain ⟨n, hn, hlt⟩ := h
    exact ⟨n, by simpa using hlt, hn⟩
  obtain ⟨digits, hlength, hhex⟩ := u
  match digits, hlength, hhex with
  | [a, b, c, d], _, hhex =>
    simp only [List.all_cons, List.all_nil, Bool.and_true, Bool.and_eq_true] at hhex
    obtain ⟨w, hw, ha⟩ := hvalue hhex.1
    obtain ⟨x, hx, hb⟩ := hvalue hhex.2.1
    obtain ⟨y, hy, hc⟩ := hvalue hhex.2.2.1
    obtain ⟨z, hz, hd⟩ := hvalue hhex.2.2.2
    have htotal : (⟨[a, b, c, d], rfl, by simp [hhex]⟩ : CodeUnit).value =
        ((w * 16 + x) * 16 + y) * 16 + z := by
      simp [CodeUnit.value, Numeral.ofDigits, ha, hb, hc, hd]
    refine ⟨a, b, c, d, w, x, y, z, rfl, ha, hb, hc, hd, htotal, ?_⟩
    rw [htotal]
    omega

/-- Halves of pairs are the only code points of four digits without a character. -/
theorem CodeUnit.ofCode?_value (u : CodeUnit) :
    Yaml.Quoted.ofCode? u.value = if u.isSurrogate then none else some u.char := by
  obtain ⟨-, -, -, -, -, -, -, -, -, -, -, -, -, -, hlt⟩ := u.exists_digits
  unfold Yaml.Quoted.ofCode? CodeUnit.char
  have hvalid : u.value.isValidChar ↔ ¬ u.isSurrogate = true := by
    simp only [Nat.isValidChar, CodeUnit.isSurrogate, CodeUnit.isHigh, CodeUnit.isLow,
      Bool.or_eq_true, Bool.and_eq_true, decide_eq_true_eq]
    omega
  by_cases h : u.isSurrogate = true
  · rw [if_neg (mt hvalid.1 (not_not_intro h)), if_pos h]
  · rw [if_pos (hvalid.2 h), if_neg h, if_neg h]

end Provision.Json

namespace Provision.Yaml.Quoted

open Json (Piece piecesText decode CodeUnit isUnescaped_ne)

/-! ## Reading -/

theorem hexValue?_break : Numeral.hexValue? '\n' = none := by decide

/-- A code point is read as its character, and that of a half of a pair not at all. -/
theorem read?_code (indent : Int) (u : CodeUnit) {state : State} {gap : List Char}
    (waiting : Waiting state gap) (column : Nat) (rest : List Char) :
    read? .double indent state column ((Piece.code u).text ++ rest) =
      if u.isSurrogate then none
      else (read? .double indent .text (column + (Piece.code u).text.length) rest).map fun p =>
        (gap ++ u.char :: p.1, p.2 + (Piece.code u).text.length) := by
  obtain ⟨a, b, c, d, w, x, y, z, hdigits, ha, hb, hc, hd, hvalue, -⟩ := u.exists_digits
  have hcode := u.ofCode?_value
  have hbreak {e : Char} {n : Nat} (h : Numeral.hexValue? e = some n) : e ≠ '\n' := by
    rintro rfl
    rw [hexValue?_break] at h
    cases h
  rw [hvalue] at hcode
  cases hsurrogate : u.isSurrogate with
  | true =>
    rw [hsurrogate, if_pos rfl] at hcode
    cases waiting <;>
      simp [Piece.text, hdigits, read?, step?, content, isBlank, Outcome.after, escaped?,
        codeLength?, ha, hb, hc, hd, hcode]
  | false =>
    rw [hsurrogate, if_neg (by decide)] at hcode
    cases waiting <;>
      simp [Piece.text, hdigits, read?, step?, content, isBlank, Outcome.after, escaped?,
        codeLength?, ha, hb, hc, hd, hcode, hbreak ha, hbreak hb, hbreak hc, hbreak hd,
        Option.map_map, Function.comp_def, Nat.add_assoc]

/-- Every readable part of a string is a space or read back. -/
theorem readsBack_piece (indent : Int) {p : Piece} (readable : p.isReadable = true) :
    (p.char = ' ' ∧ p.text = [' ']) ∨ ReadsBack .double indent p.text p.char := by
  cases p with
  | unescaped c valid =>
    by_cases hspace : c = ' '
    · exact .inl ⟨hspace, by rw [Piece.text, hspace]⟩
    · have hlf : c ≠ '\n' := isUnescaped_ne valid (by decide)
      have htab : c ≠ '\t' := isUnescaped_ne valid (by decide)
      have hquote : c ≠ '"' := isUnescaped_ne valid (by decide)
      have hback : c ≠ '\\' := isUnescaped_ne valid (by decide)
      refine .inr fun waiting column rest => ?_
      cases waiting <;>
        simp [Piece.text, Piece.char, read?, step?, content, isBlank, Outcome.after, hback, hquote,
          hlf, htab, hspace]
  | escape e =>
    have hescape : escaped? e.letter = some e.char := by cases e <;> rfl
    exact .inr (readsBack_escape indent hescape (by cases e <;> decide))
  | code u =>
    have hu : u.isSurrogate = false := by simpa [Piece.isReadable] using readable
    refine .inr fun waiting column rest => ?_
    rw [read?_code indent u waiting, hu]
    rfl

/-- A string is read as what it denotes if every part of it is readable, and not at all if one is
not. -/
theorem read?_piecesText (indent : Int) (pieces : List Piece) (column : Nat) (after : List Char) :
    read? .double indent .text column (piecesText pieces ++ '"' :: after) =
      if pieces.all Piece.isReadable then some (decode pieces, (piecesText pieces).length + 1)
      else none := by
  cases hall : pieces.all Piece.isReadable with
  | true =>
    have hreadable : ∀ p ∈ pieces, p.isReadable = true := fun _ => List.all_eq_true.1 hall _
    rw [if_pos rfl, Json.decode_eq_map hreadable]
    refine read?_flatMap Piece.char (fun p hp => readsBack_piece indent (hreadable p hp)) 1
      (fun waiting column => ?_) column
    cases waiting <;> simp [read?, step?, content, isBlank, Outcome.after]
  | false =>
    -- The text is read up to the first part that is not readable.
    obtain ⟨p, hp⟩ : ∃ p, pieces.find? (fun p => !p.isReadable) = some p := by
      rw [← Option.isSome_iff_exists, List.find?_isSome]
      simpa using List.all_eq_false.1 hall
    obtain ⟨hunread, first, more, rfl, hfirst⟩ := List.find?_eq_some_iff_append.1 hp
    obtain ⟨u, rfl, hu⟩ : ∃ u, p = .code u ∧ u.isSurrogate = true := by
      cases p with
      | code u => exact ⟨u, rfl, by simpa [Piece.isReadable] using hunread⟩
      | unescaped c valid => cases hunread
      | escape e => cases hunread
    have heach : ∀ p ∈ first,
        (p.char = ' ' ∧ p.text = [' ']) ∨ ReadsBack .double indent p.text p.char := fun p hp =>
      readsBack_piece indent (by simpa using hfirst p hp)
    have htext : piecesText (first ++ .code u :: more) ++ '"' :: after =
        first.flatMap Piece.text ++ ((Piece.code u).text ++ (piecesText more ++ '"' :: after)) := by
      simp [piecesText]
    obtain ⟨state, gap, taken, column', hwaiting, -, hrest⟩ :=
      read?_append Piece.char heach .text column
        ((Piece.code u).text ++ (piecesText more ++ '"' :: after))
    rw [htext, hrest, read?_code indent u hwaiting, hu]
    rfl

end Provision.Yaml.Quoted
