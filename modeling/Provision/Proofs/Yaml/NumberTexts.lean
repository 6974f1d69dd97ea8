import Provision.Proofs.Numerals.Decimals
import Provision.Proofs.Yaml.PlainTexts

/-!
# The texts of numbers

The text of a number is a plain text (`plainText_number`), and the core schema reads it as that
number (`resolve_text`): an integer as an integer, a float as a float, since only the text of a
float has a point or an exponent.
-/

namespace Provision.Yaml

open Numeral (Digits)
open Number (withSign pointText exponentText intText intText_eq magnitudeText layout)
open Writing (occurs breaksPlain startsWithIndicator)

/-- A text of the characters of numbers that starts with a digit. -/
structure NumeralText (cs : List Char) : Prop where
  head : ∃ c rest, cs = c :: rest ∧ c.isDigit = true
  chars : ∀ x ∈ cs, x.isDigit = true ∨ x = '.' ∨ x = 'e' ∨ x = '-'

/-- A text with a character that no number has is none. -/
theorem NumeralText.notMem {cs : List Char} (h : NumeralText cs) {x : Char}
    (digit : x.isDigit = false) (other : x ≠ '.' ∧ x ≠ 'e' ∧ x ≠ '-') : x ∉ cs := by
  intro hx
  rcases h.chars x hx with h | h | h | h
  · rw [digit] at h
    cases h
  · exact other.1 h
  · exact other.2.1 h
  · exact other.2.2 h

/-- Nor has it with a sign. -/
theorem NumeralText.notMem_withSign {cs : List Char} (h : NumeralText cs) (negative : Bool)
    {x : Char} (digit : x.isDigit = false) (other : x ≠ '.' ∧ x ≠ 'e' ∧ x ≠ '-') :
    x ∉ withSign negative cs := by
  have hnot := h.notMem digit other
  cases negative
  · exact hnot
  · intro hx
    rcases List.mem_cons.1 hx with hx | hx
    · exact other.2.2 hx
    · exact hnot hx

/-! ## Plain texts -/

theorem occurs_eq_false {x : Char} {part cs : List Char} (h : x ∉ cs) :
    occurs (x :: part) cs = false := by
  induction cs with
  | nil => rfl
  | cons c cs ih =>
    have hx : x ≠ c := fun e => h (e ▸ List.mem_cons_self)
    simp [occurs, List.isPrefixOf, hx, ih fun hm => h (List.mem_cons_of_mem _ hm)]

theorem isControl_of_isDigit {x : Char} (h : x.isDigit = true) : Text.isControl x = false := by
  have hbounds := Char.isDigit_iff_toNat.1 h
  have hzero : '0'.toNat = 48 := rfl
  have hnine : '9'.toNat = 57 := rfl
  simp only [Text.isControl, Bool.or_eq_false_iff, Bool.and_eq_false_iff, decide_eq_false_iff_not]
  omega

theorem NumeralText.visible {cs : List Char} (h : NumeralText cs) (negative : Bool) :
    ∀ x ∈ withSign negative cs, Text.isControl x = false := by
  have hcs : ∀ x ∈ cs, Text.isControl x = false := by
    intro x hx
    rcases h.chars x hx with h | rfl | rfl | rfl
    · exact isControl_of_isDigit h
    all_goals rfl
  cases negative
  · exact hcs
  · exact List.forall_mem_cons.2 ⟨rfl, hcs⟩

theorem ne_of_isDigit {c x : Char} (hc : c.isDigit = true) (hx : x.isDigit = false) : c ≠ x := by
  rintro rfl
  rw [hc] at hx
  cases hx

/-- Neither a digit nor a sign with a digit is an indicator. -/
theorem startsWithIndicator_withSign {c : Char} (hc : c.isDigit = true) (rest : List Char)
    (negative : Bool) : startsWithIndicator (withSign negative (c :: rest)) = false := by
  cases negative
  · have hindicators : Writing.indicators.all (fun y => !y.isDigit) = true := by decide
    have hdash : ¬ (c = '-' ∨ c = '?' ∨ c = ':') := by
      rintro (h | h | h) <;> exact ne_of_isDigit hc rfl h
    show startsWithIndicator (c :: rest) = false
    rw [startsWithIndicator, if_neg hdash, Bool.eq_false_iff]
    intro hcontains
    have hdigit := List.all_eq_true.1 hindicators c (List.contains_iff_mem.1 hcontains)
    exact ne_of_isDigit hc (Bool.not_eq_true' _ ▸ hdigit) rfl
  · have hspace : c ≠ ' ' := ne_of_isDigit hc rfl
    simp [withSign, startsWithIndicator, hspace]

/-- A digit keeps two signs from standing together. -/
theorem isPrefixOf_withSign {c x : Char} (hc : c.isDigit = true) (hx : x.isDigit = false)
    (rest : List Char) (negative : Bool) :
    [x, x, x].isPrefixOf (withSign negative (c :: rest)) = false := by
  have hne : x ≠ c := (ne_of_isDigit hc hx).symm
  cases negative <;> simp [withSign, List.isPrefixOf, hne]

/-- The text of a number may stand without quotes. -/
theorem NumeralText.plainText {cs : List Char} (h : NumeralText cs) (negative : Bool) :
    PlainText (withSign negative cs) := by
  have hcolon : ':' ∉ withSign negative cs := h.notMem_withSign negative rfl (by decide)
  have hspace : ' ' ∉ withSign negative cs := h.notMem_withSign negative rfl (by decide)
  have hvisible := h.visible negative
  obtain ⟨c, rest, rfl, hc⟩ := h.head
  have hlast {x : Char} (hx : x ∉ withSign negative (c :: rest)) :
      (withSign negative (c :: rest)).getLast? ≠ some x := fun h =>
    hx (List.mem_of_getLast? h)
  have hfirst : (withSign negative (c :: rest)).head? ≠ some ' ' := fun h =>
    hspace (List.mem_of_mem_head? h)
  refine ⟨by cases negative <;> simp [withSign], hvisible, (PlainText.unbroken_iff _).2 ?_⟩
  exact ⟨startsWithIndicator_withSign hc rest negative, isPrefixOf_withSign hc rfl rest negative,
    isPrefixOf_withSign hc rfl rest negative, occurs_eq_false hcolon, occurs_eq_false hspace,
    hlast hcolon, hfirst, hlast hspace⟩

/-! ## The core schema -/

/-- Whether a text starts like the text of a number that is no word. -/
def startsLikeNumber : List Char → Bool
  | '-' :: c :: _ => c.isDigit
  | c :: _ => c.isDigit
  | [] => false

theorem startsLikeNumber_withSign {c : Char} (hc : c.isDigit = true) (rest : List Char)
    (negative : Bool) : startsLikeNumber (withSign negative (c :: rest)) = true := by
  cases negative
  · show startsLikeNumber (c :: rest) = true
    unfold startsLikeNumber
    split
    · next h' => cases h'; cases hc
    · next h' => cases h'; exact hc
    · next h' => cases h'
  · exact hc

theorem NumeralText.startsLikeNumber {cs : List Char} (h : NumeralText cs) (negative : Bool) :
    startsLikeNumber (withSign negative cs) = true := by
  obtain ⟨c, rest, rfl, hc⟩ := h.head
  exact startsLikeNumber_withSign hc rest negative

/-- A text that passes a test which no word of the core schema passes is no word. -/
theorem word?_eq_none_of_test (test : List Char → Bool)
    (words : ∀ w ∈ CoreSchema.nullWords ++ CoreSchema.trueWords ++ CoreSchema.falseWords ++
      CoreSchema.infinityWords ++ CoreSchema.negativeInfinityWords ++ CoreSchema.nanWords,
      test w.toList = false)
    {cs : List Char} (passes : test cs = true) : CoreSchema.word? (String.ofList cs) = none := by
  have hnot : String.ofList cs ∉ CoreSchema.nullWords ++ CoreSchema.trueWords ++
      CoreSchema.falseWords ++ CoreSchema.infinityWords ++ CoreSchema.negativeInfinityWords ++
      CoreSchema.nanWords := by
    intro hmem
    have hfails := words _ hmem
    rw [String.toList_ofList, passes] at hfails
    cases hfails
  simp only [List.mem_append, not_or] at hnot
  simp [CoreSchema.word?, hnot]

/-- No word of the core schema starts like a number. -/
theorem word?_eq_none {cs : List Char} (h : startsLikeNumber cs = true) :
    CoreSchema.word? (String.ofList cs) = none :=
  word?_eq_none_of_test startsLikeNumber (by decide) h

theorem NumeralText.splitSign {cs : List Char} (h : NumeralText cs) (negative : Bool) :
    Numeral.splitSign (withSign negative cs) = (negative, cs) := by
  obtain ⟨c, rest, rfl, hc⟩ := h.head
  exact Number.splitSign_withSign hc rest negative

/-- A text that starts with a digit is a decimal numeral or none, unless it is hexadecimal or octal.
-/
theorem numeral?_withSign {c : Char} (hc : c.isDigit = true) {rest : List Char}
    (hex : 'x' ∉ rest) (octal : 'o' ∉ rest) (negative : Bool) :
    CoreSchema.numeral? (withSign negative (c :: rest)) =
      (Numeral.digits? 10 (c :: rest)).map (Numeral.signed negative) := by
  have hsign := Number.splitSign_withSign hc rest negative
  have hhex : 'x' ∉ withSign negative (c :: rest) := by
    cases negative <;> simp [withSign, hex, (ne_of_isDigit hc (x := 'x') rfl).symm]
  have hoctal : 'o' ∉ withSign negative (c :: rest) := by
    cases negative <;> simp [withSign, octal, (ne_of_isDigit hc (x := 'o') rfl).symm]
  generalize withSign negative (c :: rest) = text at *
  unfold CoreSchema.numeral?
  split
  · exact absurd (by simp) hhex
  · exact absurd (by simp) hoctal
  · rw [hsign]

/-- A text of the characters of numbers is no hexadecimal or octal numeral. -/
theorem NumeralText.numeral? {cs : List Char} (h : NumeralText cs) (negative : Bool) :
    CoreSchema.numeral? (withSign negative cs) =
      (Numeral.digits? 10 cs).map (Numeral.signed negative) := by
  have hhex : 'x' ∉ cs := h.notMem rfl (by decide)
  have hoctal : 'o' ∉ cs := h.notMem rfl (by decide)
  obtain ⟨c, rest, rfl, hc⟩ := h.head
  exact numeral?_withSign hc (fun hx => hhex (List.mem_cons_of_mem _ hx))
    (fun hx => hoctal (List.mem_cons_of_mem _ hx)) negative

theorem numeralText_toDigits (n : Nat) : NumeralText (Nat.toDigits 10 n) := by
  have hdigits := Numeral.digits_toDigits n
  obtain ⟨c, rest, hcs⟩ := List.exists_cons_of_ne_nil (Nat.toDigits_ne_nil (n := n) (b := 10))
  exact ⟨⟨c, rest, hcs, hdigits c (by simp [hcs])⟩, fun x hx => .inl (hdigits x hx)⟩

/-- Digits, whatever stands after them. -/
theorem numeralText_append {ds after : List Char} (hd : Digits ds) (nonempty : ds ≠ [])
    (hafter : ∀ x ∈ after, x.isDigit = true ∨ x = '.' ∨ x = 'e' ∨ x = '-') :
    NumeralText (ds ++ after) := by
  obtain ⟨c, rest, rfl⟩ := List.exists_cons_of_ne_nil nonempty
  refine ⟨⟨c, rest ++ after, rfl, hd c List.mem_cons_self⟩, fun x hx => ?_⟩
  rcases List.mem_append.1 hx with hx | hx
  · exact .inl (hd x hx)
  · exact hafter x hx

/-- Digits around a point have a point. -/
theorem numeralText_pointText {ds : List Char} (hd : Digits ds) (nonempty : ds ≠ []) (point : Int) :
    NumeralText (pointText ds point) ∧ '.' ∈ pointText ds point := by
  have hpoint {fraction : List Char} (h : Digits fraction) :
      ∀ x ∈ '.' :: fraction, x.isDigit = true ∨ x = '.' ∨ x = 'e' ∨ x = '-' := by
    intro x hx
    rcases List.mem_cons.1 hx with hx | hx
    · exact .inr (.inl hx)
    · exact .inl (h x hx)
  unfold pointText
  split
  · have hfraction := (Numeral.digits_zeros (-point).toNat).append hd
    exact ⟨numeralText_append (Numeral.digits_zeros 1) (List.cons_ne_nil _ _) (hpoint hfraction),
      by simp⟩
  · split
    · next hpos _ =>
      have hwhole : Digits (ds.take point.toNat) := fun c hc => hd c (List.mem_of_mem_take hc)
      have hfraction : Digits (ds.drop point.toNat) := fun c hc => hd c (List.mem_of_mem_drop hc)
      have hne : ds.take point.toNat ≠ [] := by
        simp only [ne_eq, List.take_eq_nil_iff, nonempty, or_false]
        omega
      exact ⟨numeralText_append hwhole hne (hpoint hfraction), by simp⟩
    · have hwhole := hd.append (Numeral.digits_zeros (point.toNat - ds.length))
      exact ⟨numeralText_append hwhole (by simp [nonempty]) (hpoint (Numeral.digits_zeros 1)),
        by simp⟩

/-- Digits with an exponent have its mark. -/
theorem numeralText_exponentText {ds : List Char} (hd : Digits ds) (nonempty : ds ≠ [])
    (point : Int) :
    NumeralText (exponentText ds point) ∧ 'e' ∈ exponentText ds point := by
  have hexponent : ∀ x ∈ intText (point - 1), x.isDigit = true ∨ x = '.' ∨ x = 'e' ∨ x = '-' := by
    intro x hx
    have hdigits := Numeral.digits_toDigits (point - 1).natAbs
    rw [intText_eq, withSign] at hx
    split at hx
    · rcases List.mem_cons.1 hx with hx | hx
      · exact .inr (.inr (.inr hx))
      · exact .inl (hdigits x hx)
    · exact .inl (hdigits x hx)
  have hwhole : Digits (ds.take 1) := fun c hc => hd c (List.mem_of_mem_take hc)
  have hne : ds.take 1 ≠ [] := by simp [nonempty]
  have hmark : layout.exponentMark = 'e' := rfl
  simp only [exponentText, List.append_assoc, hmark]
  refine ⟨numeralText_append hwhole hne fun x hx => ?_, by simp⟩
  rcases List.mem_append.1 hx with hx | hx
  · split at hx
    · cases hx
    · rcases List.mem_cons.1 hx with hx | hx
      · exact .inr (.inl hx)
      · exact .inl (hd x (List.mem_of_mem_drop hx))
  · rcases List.mem_cons.1 hx with hx | hx
    · exact .inr (.inr (.inl hx))
    · exact hexponent x hx

/-- The text of a magnitude has a point or an exponent. -/
theorem numeralText_magnitudeText (k : Nat) :
    NumeralText (magnitudeText k) ∧ ∃ x ∈ magnitudeText k, Numeral.isDigitIn 10 x = false := by
  rcases Number.magnitudeText_cases k with ⟨-, htext⟩ | ⟨ds, point, hd, nonempty, -, -, htext⟩
  · have hpoint : ∀ x ∈ ['.', '0'], x.isDigit = true ∨ x = '.' ∨ x = 'e' ∨ x = '-' := by simp
    rw [htext]
    exact ⟨numeralText_append (Numeral.digits_zeros 1) (List.cons_ne_nil _ _) hpoint, '.', by simp,
      rfl⟩
  · rcases htext with htext | htext <;> rw [htext]
    · obtain ⟨h, hmem⟩ := numeralText_pointText hd nonempty point
      exact ⟨h, '.', hmem, rfl⟩
    · obtain ⟨h, hmem⟩ := numeralText_exponentText hd nonempty point
      exact ⟨h, 'e', hmem, rfl⟩

theorem text_finite (negative : Bool) (k : Fin Binary64.ranks) :
    Number.text (.float (.finite negative k)) = withSign negative (magnitudeText k) := by
  cases negative
  · simp only [Number.text, Number.floatText, withSign, Bool.false_eq_true, if_false]
  · simp only [Number.text, Number.floatText, withSign, if_true]

/-- The core schema reads the text of a number as the number. -/
theorem resolve_text (n : Number) : CoreSchema.resolve n.text = .number n := by
  cases n with
  | integer i =>
    have htext := numeralText_toDigits i.toInt.natAbs
    have hnumeral : CoreSchema.numeral? (intText i.toInt) = some i.toInt := by
      rw [intText_eq, htext.numeral?, Number.digits?_toDigits, Option.map_some,
        Number.signed_natAbs]
    have hword : CoreSchema.word? (String.ofList (intText i.toInt)) = none := by
      rw [intText_eq]
      exact word?_eq_none (htext.startsLikeNumber _)
    simp [Number.text, CoreSchema.resolve, hword, CoreSchema.number?, hnumeral,
      Number.ofInt?_toInt]
  | float x =>
    match x with
    | .nan => rfl
    | .infinite false => rfl
    | .infinite true => rfl
    | .finite negative k =>
      obtain ⟨htext, x, hx, hdigit⟩ := numeralText_magnitudeText k
      obtain ⟨m, e, hreads, hrank, hzero⟩ := Number.readsAs_magnitudeText k
      -- The point or the exponent keeps the text from being read as an integer.
      have hnumeral : CoreSchema.numeral? (withSign negative (magnitudeText k)) = none := by
        have hdigits : Numeral.digits? 10 (magnitudeText k) = none := by
          have hall : (magnitudeText k).all (Numeral.isDigitIn 10) = false :=
            List.all_eq_false.2 ⟨x, hx, by simp [hdigit]⟩
          simp [Numeral.digits?, hall]
        rw [htext.numeral?, hdigits]
        rfl
      have hfloat : Number.ofFloatNumeral? (withSign negative (magnitudeText k)) =
          some (.finite negative k) := by
        rw [hreads negative _ (htext.splitSign negative),
          Number.ofDecimal_eq_finite hrank hzero negative]
      have hword := word?_eq_none (htext.startsLikeNumber negative)
      rw [text_finite]
      simp [CoreSchema.resolve, hword, CoreSchema.number?, hnumeral, hfloat]

theorem plainText_number (n : Number) : PlainText n.text := by
  cases n with
  | integer i =>
    show PlainText (intText i.toInt)
    rw [intText_eq]
    exact (numeralText_toDigits _).plainText _
  | float x =>
    match x with
    | .nan => decide
    | .infinite false => decide
    | .infinite true => decide
    | .finite negative k =>
      rw [text_finite]
      exact (numeralText_magnitudeText k).1.plainText negative

end Provision.Yaml
