import Provision.Proofs.Yaml.Gaps

/-!
# Plain texts

A plain text is one that the writer leaves without quotes (`PlainText`). It is read as it stands,
whether the colon of a key or the end of its line follows (`Plain.read?_key`, `Plain.read?_line`).
-/

namespace Provision.Yaml

open Writing (spaces occurs breaksPlain startsWithIndicator indicators)

/-- A text that may stand without quotes. -/
structure PlainText (cs : List Char) : Prop where
  nonempty : cs ≠ []
  visible : ∀ x ∈ cs, Text.isControl x = false
  unbroken : breaksPlain cs = false

namespace PlainText

instance (cs : List Char) : Decidable (PlainText cs) :=
  decidable_of_iff (cs ≠ [] ∧ cs.all (fun x => !Text.isControl x) = true ∧ breaksPlain cs = false)
    ⟨fun h => ⟨h.1, fun x hx => by simpa using List.all_eq_true.1 h.2.1 x hx, h.2.2⟩,
      fun h => ⟨h.nonempty, List.all_eq_true.2 fun x hx => by simp [h.visible x hx], h.unbroken⟩⟩

/-- What `breaksPlain` looks for, one by one. -/
theorem unbroken_iff (cs : List Char) :
    breaksPlain cs = false ↔
      startsWithIndicator cs = false ∧ "---".toList.isPrefixOf cs = false ∧
        "...".toList.isPrefixOf cs = false ∧ occurs ": ".toList cs = false ∧
        occurs " #".toList cs = false ∧ cs.getLast? ≠ some ':' ∧ cs.head? ≠ some ' ' ∧
        cs.getLast? ≠ some ' ' := by
  simp only [breaksPlain, Bool.or_eq_false_iff, beq_eq_false_iff_ne, and_assoc]

end PlainText

namespace Plain

/-! ## Inside the text -/

/-- What may follow text in a plain text: its end, or more of it. -/
structure Continues (cs : List Char) : Prop where
  visible : ∀ x ∈ cs, Text.isControl x = false
  colon : occurs ": ".toList cs = false
  comment : occurs " #".toList cs = false
  last : cs.getLast? ≠ some ':' ∧ cs.getLast? ≠ some ' '

theorem Continues.tail {c : Char} {cs : List Char} (h : Continues (c :: cs)) : Continues cs := by
  obtain ⟨visible, colon, comment, last⟩ := h
  simp only [occurs, Bool.or_eq_false_iff] at colon comment
  refine ⟨fun x hx => visible x (List.mem_cons_of_mem _ hx), colon.2, comment.2, ?_⟩
  cases cs with
  | nil => simp
  | cons d cs => simpa only [List.getLast?_cons_cons] using last

theorem isGap_eq_of_visible {c : Char} (h : Text.isControl c = false) : isGap c = (c == ' ') := by
  have tab : c ≠ '\t' := Text.ne_of_visible h rfl
  have lf : c ≠ '\n' := Text.ne_of_visible h rfl
  rw [isGap, isBlank, beq_eq_false_iff_ne.2 tab, beq_eq_false_iff_ne.2 lf, Bool.or_false,
    Bool.or_false]

/-- A colon inside a plain text has more text after it. -/
theorem Continues.allowed {c : Char} {cs : List Char} (h : Continues (c :: cs))
    (after : List Char) : allowed false c (cs ++ after) = true := by
  by_cases hc : c = ':'
  · subst hc
    obtain ⟨visible, colon, -, last⟩ := h
    cases cs with
    | nil => simp at last
    | cons d cs =>
      have hd : d ≠ ' ' := by
        rintro rfl
        simp [occurs] at colon
      have : isGap d = false := by
        rw [isGap_eq_of_visible (visible d (by simp))]
        simpa using hd
      simp [Plain.allowed, atGap, this]
  · simp [Plain.allowed, hc]

/-- What is between the text so far and the next character: nothing, or blanks before a character
that does not start a comment. -/
inductive Between : State → List Char → List Char → Prop
  | text (cs : List Char) : Between .text [] cs
  | blanks (seen : List Char) {cs : List Char} (more : cs ≠ []) (comment : cs.head? ≠ some '#') :
      Between (.blanks seen) seen.reverse cs

/-- A blank inside a plain text: the text has not ended with it, and no comment follows. -/
theorem Between.step?_blank {cs : List Char} (h : Continues (' ' :: cs)) (floor column : Nat)
    {state : State} {gap : List Char} (between : Between state gap (' ' :: cs))
    (after : List Char) :
    ∃ state', step? false floor state column ' ' (cs ++ after) = some (.next [] state') ∧
      Between state' (gap ++ [' ']) cs := by
  have hmore : cs ≠ [] := by
    rintro rfl
    exact h.last.2 rfl
  have hcomment : cs.head? ≠ some '#' := by
    intro e
    obtain ⟨cs', rfl⟩ := List.head?_eq_some_iff.1 e
    have := h.comment
    simp [occurs] at this
  cases between with
  | text =>
    exact ⟨.blanks [' '], by simp [step?, isBlank], .blanks [' '] hmore hcomment⟩
  | blanks seen =>
    have hnext := Between.blanks (' ' :: seen) hmore hcomment
    rw [List.reverse_cons] at hnext
    exact ⟨.blanks (' ' :: seen), by simp [step?, isBlank], hnext⟩

/-- Any other character inside a plain text is taken, together with the blanks before it. -/
theorem Between.step?_word {c : Char} {cs : List Char} (h : Continues (c :: cs)) (space : c ≠ ' ')
    (floor : Nat) {column : Nat} (hcolumn : column ≠ 0) {state : State} {gap : List Char}
    (between : Between state gap (c :: cs)) (after : List Char) :
    step? false floor state column c (cs ++ after) = some (.next (gap ++ [c]) .text) := by
  have hvisible : Text.isControl c = false := h.visible c List.mem_cons_self
  have hlf : c ≠ '\n' := Text.ne_of_visible hvisible rfl
  have htab : c ≠ '\t' := Text.ne_of_visible hvisible rfl
  have hblank : isBlank c = false := by simp [isBlank, space, htab]
  have hallowed := h.allowed after
  cases between with
  | text => simp [step?, hlf, hblank, hallowed]
  | blanks seen more comment =>
    have hash : c ≠ '#' := fun e => comment (by rw [e]; rfl)
    simp [step?, hlf, hblank, word?, hcolumn, hash, hallowed]

/-- The rest of a plain text is read as it stands, and then what follows it. -/
theorem read?_continues {cs : List Char} (h : Continues cs) (floor : Nat) {state : State}
    {gap : List Char} (between : Between state gap cs) {column : Nat} (hcolumn : column ≠ 0)
    (after : List Char) :
    read? false floor state column (cs ++ after) =
      (read? false floor .text (column + cs.length) after).map fun p =>
        (gap ++ cs ++ p.1, p.2 + cs.length) := by
  induction cs generalizing state gap column with
  | nil =>
    cases between with
    | text => simp
    | blanks seen more => exact absurd rfl more
  | cons c cs ih =>
    have hlf : c ≠ '\n' := Text.ne_of_visible (h.visible c List.mem_cons_self) rfl
    have hlen : column + 1 + cs.length = column + (c :: cs).length := by
      rw [List.length_cons]
      omega
    by_cases hspace : c = ' '
    · subst hspace
      obtain ⟨state', hstep, hbetween⟩ := between.step?_blank h floor column after
      rw [List.cons_append, read?, hstep]
      simp only [if_neg hlf]
      rw [ih h.tail hbetween (Nat.succ_ne_zero _), hlen]
      simp [Option.map_map, Function.comp_def, Nat.add_assoc]
    · have hstep := between.step?_word h hspace floor hcolumn after
      rw [List.cons_append, read?, hstep]
      simp only [if_neg hlf]
      rw [ih h.tail (.text cs) (Nat.succ_ne_zero _), hlen]
      simp [Option.map_map, Function.comp_def, Nat.add_assoc]

/-! ## The whole text -/

/-- A plain text is not taken for a document marker. -/
theorem atDocumentMarker_eq_false {cs : List Char} (h : PlainText cs) {after : List Char}
    (follows : ∀ x ∈ after.head?, x ≠ '-' ∧ x ≠ '.') : atDocumentMarker (cs ++ after) = false := by
  obtain ⟨-, hdashes, hdots, -⟩ := (PlainText.unbroken_iff cs).1 h.unbroken
  have hstart (x : Char) (hx : x = '-' ∨ x = '.') (hstart : [x, x, x].isPrefixOf cs = false)
      (rest : List Char) : cs ++ after ≠ x :: x :: x :: rest := by
    have hafter : ∀ y ys, after = y :: ys → y ≠ x := by
      rintro y ys rfl rfl
      have := follows y rfl
      rcases hx with rfl | rfl
      · exact this.1 rfl
      · exact this.2 rfl
    intro e
    -- A text of one or two characters would need the rest of the marker from what follows it.
    match cs, h.nonempty with
    | [a], _ =>
      obtain ⟨-, e⟩ := List.cons.inj e
      exact hafter _ _ e rfl
    | [a, b], _ =>
      obtain ⟨-, e⟩ := List.cons.inj e
      obtain ⟨-, e⟩ := List.cons.inj e
      exact hafter _ _ e rfl
    | a :: b :: c :: cs, _ =>
      simp only [List.cons_append, List.cons.injEq] at e
      obtain ⟨rfl, rfl, rfl, -⟩ := e
      simp at hstart
  rw [atDocumentMarker, Bool.or_eq_false_iff]
  constructor
  · unfold atDocumentStart
    split
    · next rest e => exact absurd e (hstart '-' (.inl rfl) hdashes _)
    · rfl
  · unfold atDocumentEnd
    split
    · next rest e => exact absurd e (hstart '.' (.inr rfl) hdots _)
    · rfl

/-- The characters with which a plain text may start. -/
theorem notMem_indicators {c : Char} {cs : List Char} (h : PlainText (c :: cs)) :
    c ∉ indicators := by
  intro hc
  have hstart := ((PlainText.unbroken_iff _).1 h.unbroken).1
  have hdash : ¬ (c = '-' ∨ c = '?' ∨ c = ':') := by
    rintro (rfl | rfl | rfl) <;> revert hc <;> decide
  rw [startsWithIndicator, if_neg hdash] at hstart
  exact Bool.eq_false_iff.1 hstart (List.contains_iff_mem.2 hc)

/-- A dash, a question mark or a colon at the start of a plain text has more text after it. -/
theorem atGap_eq_false {c : Char} {cs : List Char} (h : PlainText (c :: cs))
    (hc : c = '-' ∨ c = '?' ∨ c = ':') (after : List Char) : atGap (cs ++ after) = false := by
  have hstart := ((PlainText.unbroken_iff _).1 h.unbroken).1
  rw [startsWithIndicator, if_pos hc, Bool.or_eq_false_iff] at hstart
  cases cs with
  | nil => simp at hstart
  | cons d cs =>
    have hd : Text.isControl d = false := h.visible d (by simp)
    show isGap d = false
    rw [isGap_eq_of_visible hd]
    simpa using hstart.2

theorem startsToken {cs : List Char} (h : PlainText cs) (after : List Char) :
    StartsToken (cs ++ after) := by
  match cs, h.nonempty with
  | c :: cs, _ =>
    have hvisible : Text.isControl c = false := h.visible c (by simp)
    have hspace := ((PlainText.unbroken_iff _).1 h.unbroken).2.2.2.2.2.2.1
    refine .cons ?_ ?_ _
    · rw [isGap_eq_of_visible hvisible]
      simpa using hspace
    · rintro rfl
      exact notMem_indicators h (by decide)

/-- A plain text is read as it stands, and then what follows it. -/
theorem read?_plainText {cs : List Char} (h : PlainText cs) (floor column : Nat)
    {after : List Char} (follows : ∀ x ∈ after.head?, x ≠ '-' ∧ x ≠ '.') :
    read? false floor .start column (cs ++ after) =
      (read? false floor .text (column + cs.length) after).map fun p =>
        (cs ++ p.1, p.2 + cs.length) := by
  have hmarker := atDocumentMarker_eq_false h follows
  obtain ⟨hstart, -, -, hcolon, hcomment, hlast, -, hspace⟩ :=
    (PlainText.unbroken_iff cs).1 h.unbroken
  have hcontinues : Continues cs :=
    ⟨h.visible, hcolon, hcomment, hlast, hspace⟩
  match cs, h.nonempty with
  | c :: cs, _ =>
    have hlf : c ≠ '\n' := Text.ne_of_visible (hcontinues.visible c List.mem_cons_self) rfl
    have hash : c ≠ '#' := by
      rintro rfl
      exact notMem_indicators h (by decide)
    have hstep : step? false floor .start column c (cs ++ after) = some (.next [c] .text) := by
      rw [List.cons_append] at hmarker
      simp [step?, word?, hmarker, hash, hcontinues.allowed after]
    have hlen : column + 1 + cs.length = column + (c :: cs).length := by
      rw [List.length_cons]
      omega
    rw [List.cons_append, read?, hstep]
    simp only [if_neg hlf]
    rw [read?_continues hcontinues.tail floor (.text cs) (Nat.succ_ne_zero _), hlen]
    simp [Option.map_map, Function.comp_def, Nat.add_assoc]

/-- A plain text before the colon of a key. -/
theorem read?_key {cs : List Char} (h : PlainText cs) (floor column : Nat) {after : List Char}
    (gap : atGap after = true) :
    read? false floor .start column (cs ++ ':' :: after) = some (cs, cs.length) := by
  rw [read?_plainText h floor column (by simp)]
  simp [read?, step?, isBlank, allowed, gap]

/-! ## The end of the line -/

/-- Where a plain scalar in a block collection with entries at `floor - 1` ends for good: at a line
that is indented too little, at a document marker, or at the end of the stream. -/
def EndsBefore (floor column : Nat) (tail : List Char) : Prop :=
  column < floor ∨ (column = 0 ∧ atDocumentMarker tail = true) ∨ tail = []

theorem read?_lines {floor column d : Nat} {tail : List Char} (token : StartsToken tail)
    (ends : EndsBefore floor (column + d) tail) :
    read? false floor (.lines 0) column (spaces d ++ tail) = some ([], d) := by
  induction d generalizing column with
  | zero =>
    cases tail with
    | nil => rfl
    | cons x tail =>
      obtain ⟨hgap, hash⟩ := token x rfl
      have hblank : isBlank x = false := isBlank_of_isGap hgap
      have hlf : x ≠ '\n' := ne_of_isGap hgap rfl
      have htab : x ≠ '\t' := ne_of_isGap hgap rfl
      have hstep : step? false floor (.lines 0) column x tail = some .stop := by
        rcases ends with h | ⟨h, hmarker⟩ | h
        · simp [step?, hlf, htab, hblank, show column < floor from h]
        · simp [step?, hlf, htab, hblank, word?, show column = 0 from h, hmarker]
        · cases h
      simp [spaces, read?, hstep]
  | succ d ih =>
    have hends : EndsBefore floor (column + 1 + d) tail := by
      rwa [Nat.add_assoc, Nat.add_comm 1 d]
    have hstep : step? false floor (.lines 0) column ' ' (spaces d ++ tail) =
        some (.next [] (.lines 0)) := by simp [step?, isBlank]
    show read? false floor (.lines 0) column (' ' :: (spaces d ++ tail)) = _
    rw [read?, hstep]
    simp only [Char.reduceEq, if_false]
    rw [ih hends]
    rfl

/-- A plain text at the end of its line takes the gap after it as well. -/
theorem read?_line {cs : List Char} (h : PlainText cs) {floor d : Nat} (column : Nat)
    {tail : List Char} (token : StartsToken tail) (ends : EndsBefore floor d tail) :
    read? false floor .start column (cs ++ '\n' :: (spaces d ++ tail)) =
      some (cs, d + 1 + cs.length) := by
  have hends : EndsBefore floor (0 + d) tail := by rwa [Nat.zero_add]
  rw [read?_plainText h floor column (by simp)]
  simp [read?, step?, read?_lines token hends]

end Plain

end Provision.Yaml
