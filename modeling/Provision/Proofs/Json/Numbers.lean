import Provision.Proofs.Json.Texts
import Provision.Proofs.Yaml.NumberTexts

/-!
# Numbers of JSON texts

The core schema reads every number of a JSON text as the number that it denotes
(`resolve_numberText`): one without a fraction and an exponent as an integer, if it is one of 64
bits, and any other as the float nearest to it.
-/

namespace Provision.Json

open Numeral (Digits)
open Number (withSign)

theorem DigitRow.isDigits (row : DigitRow) : Digits row.chars :=
  fun _ => List.all_eq_true.1 row.digits _

theorem DigitRow.exists_cons (row : DigitRow) :
    ∃ c rest, row.chars = c :: rest ∧ c.isDigit = true := by
  obtain ⟨c, rest, hrow⟩ := List.exists_cons_of_ne_nil row.nonempty
  exact ⟨c, rest, hrow, row.isDigits c (by rw [hrow]; exact List.mem_cons_self)⟩

/-! ## Exponents -/

/-- The sign of an exponent is told from its digits. -/
theorem Exponent.splitSign (e : Exponent) :
    Numeral.splitSign (e.signText ++ e.row.chars) = (e.sign == some true, e.row.chars) := by
  obtain ⟨c, rest, hrow, hc⟩ := e.row.exists_cons
  unfold Exponent.signText
  cases e.sign with
  | none =>
    rw [List.nil_append, hrow]
    exact Number.splitSign_withSign hc rest false
  | some minus => cases minus <;> rfl

theorem Exponent.exponent?_text (e : Exponent) : Number.exponent? e.text = some e.value := by
  have hmark : ((if e.capital then 'E' else 'e') = 'e' ||
      (if e.capital then 'E' else 'e') = 'E') = true := by cases e.capital <;> rfl
  rw [Exponent.text, Number.exponent?, if_pos hmark, e.splitSign]
  simp only [Numeral.digits?_eq e.row.nonempty e.row.isDigits]
  rfl

namespace NumberText

/-- The number without its sign. -/
def body (n : NumberText) : List Char := n.whole.chars ++ (n.fractionText ++ n.exponentText)

theorem text_eq (n : NumberText) : n.text = withSign n.negative n.body := by
  unfold text body withSign
  cases n.negative <;> rfl

theorem exists_body (n : NumberText) : ∃ c rest, n.body = c :: rest ∧ c.isDigit = true := by
  obtain ⟨c, rest, hrow, hc⟩ := n.whole.exists_cons
  exact ⟨c, rest ++ (n.fractionText ++ n.exponentText), by rw [body, hrow]; rfl, hc⟩

/-- Nothing but the exponent follows the digits before the point and behind it. -/
theorem exponentText_stops (n : NumberText) :
    ∀ c ∈ n.exponentText.head?, c.isDigit = false ∧ c ≠ '.' := by
  intro c hc
  unfold exponentText at hc
  cases hexponent : n.exponent with
  | none =>
    rw [hexponent] at hc
    cases hc
  | some e =>
    rw [hexponent] at hc
    cases hc
    cases e.capital <;> decide

theorem exponent?_exponentText (n : NumberText) :
    Number.exponent? n.exponentText = some n.exponentValue := by
  unfold exponentText exponentValue
  cases n.exponent with
  | none => rfl
  | some e => exact e.exponent?_text

/-- As a float numeral, a number stands for the float nearest to it. -/
theorem ofFloatNumeral?_text (n : NumberText) :
    Number.ofFloatNumeral? n.text = some n.nearest := by
  have hsign : Numeral.splitSign n.text = (n.negative, n.body) := by
    obtain ⟨c, rest, hbody, hc⟩ := n.exists_body
    rw [text_eq, hbody]
    exact Number.splitSign_withSign hc rest n.negative
  have hexponent := n.exponent?_exponentText
  have hstops := n.exponentText_stops
  unfold nearest scale fractionDigits
  cases hfraction : n.fraction with
  | none =>
    have hbody : n.body = n.whole.chars ++ n.exponentText := by
      unfold body fractionText
      rw [hfraction]
      rfl
    rw [hbody] at hsign
    rw [Number.readsAs_whole n.whole.nonempty n.whole.isDigits hstops hexponent _ _ hsign,
      List.append_nil]
    simp
  | some row =>
    have hbody : n.body = n.whole.chars ++ '.' :: (row.chars ++ n.exponentText) := by
      unfold body fractionText
      rw [hfraction]
      rfl
    rw [hbody] at hsign
    exact Number.readsAs_point n.whole.nonempty n.whole.isDigits row.isDigits
      (fun c hc => (hstops c hc).1) hexponent _ _ hsign

/-- The characters of a number, of which none is a letter but that of the exponent. -/
theorem chars_body (n : NumberText) :
    ∀ x ∈ n.body, x.isDigit = true ∨ x ∈ ['.', 'e', 'E', '+', '-'] := by
  have hrow (row : DigitRow) : ∀ x ∈ row.chars, x.isDigit = true ∨ x ∈ ['.', 'e', 'E', '+', '-'] :=
    fun x hx => .inl (row.isDigits x hx)
  refine List.forall_mem_append.2 ⟨hrow _, List.forall_mem_append.2 ⟨?_, ?_⟩⟩
  · unfold fractionText
    cases n.fraction with
    | none => nofun
    | some row => exact List.forall_mem_cons.2 ⟨.inr (by decide), hrow row⟩
  · unfold exponentText
    cases n.exponent with
    | none => nofun
    | some e =>
      refine List.forall_mem_cons.2 ⟨.inr (by cases e.capital <;> decide),
        List.forall_mem_append.2 ⟨?_, hrow _⟩⟩
      unfold Exponent.signText
      rcases e.sign with _ | minus
      · nofun
      · cases minus <;> exact List.forall_mem_singleton.2 (.inr (by decide))

/-- A number is no hexadecimal or octal numeral. -/
theorem numeral?_text (n : NumberText) :
    Yaml.CoreSchema.numeral? n.text =
      (Numeral.digits? 10 n.body).map (Numeral.signed n.negative) := by
  have hchars := n.chars_body
  obtain ⟨c, rest, hbody, hc⟩ := n.exists_body
  rw [hbody] at hchars
  have hrest := (List.forall_mem_cons.1 hchars).2
  rw [text_eq, hbody]
  refine Yaml.numeral?_withSign hc (fun hx => ?_) (fun hx => ?_) n.negative
  · exact absurd (hrest _ hx) (by decide)
  · exact absurd (hrest _ hx) (by decide)

/-- A point or an exponent is no digit. -/
theorem digits?_body (n : NumberText) (float : n.fraction ≠ none ∨ n.exponent ≠ none) :
    Numeral.digits? 10 n.body = none := by
  obtain ⟨x, hx, hdigit⟩ : ∃ x ∈ n.body, Numeral.isDigitIn 10 x = false := by
    unfold body fractionText exponentText
    cases hfraction : n.fraction with
    | some row => exact ⟨'.', by simp, by decide⟩
    | none =>
      cases hexponent : n.exponent with
      | none => exact absurd float (by simp [hfraction, hexponent])
      | some e =>
        refine ⟨if e.capital then 'E' else 'e', ?_, by cases e.capital <;> decide⟩
        simp [Exponent.text]
  have hall : n.body.all (Numeral.isDigitIn 10) = false :=
    List.all_eq_false.2 ⟨x, hx, by simp [hdigit]⟩
  simp [Numeral.digits?, hall]

theorem number?_text (n : NumberText) : Yaml.CoreSchema.number? n.text = some n.value := by
  unfold Yaml.CoreSchema.number? value
  rw [n.numeral?_text, n.ofFloatNumeral?_text]
  cases hfraction : n.fraction with
  | some row =>
    rw [n.digits?_body (.inl (by simp [hfraction]))]
    rfl
  | none =>
    cases hexponent : n.exponent with
    | some e =>
      rw [n.digits?_body (.inr (by simp [hexponent]))]
      rfl
    | none =>
      have hbody : n.body = n.whole.chars := by
        simp [body, fractionText, exponentText, hfraction, hexponent]
      rw [hbody, Numeral.digits?_eq n.whole.nonempty n.whole.isDigits, Option.map_some,
        Option.bind_some]
      cases Number.ofInt? _ <;> rfl

end NumberText

/-- The core schema reads a number as what it denotes. -/
theorem resolve_numberText (n : NumberText) : Yaml.CoreSchema.resolve n.text = .number n.value := by
  have hword : Yaml.CoreSchema.word? (String.ofList n.text) = none := by
    refine Yaml.word?_eq_none ?_
    obtain ⟨c, rest, hbody, hc⟩ := n.exists_body
    rw [n.text_eq, hbody]
    exact Yaml.startsLikeNumber_withSign hc rest n.negative
  unfold Yaml.CoreSchema.resolve
  rw [hword, n.number?_text]

end Provision.Json
