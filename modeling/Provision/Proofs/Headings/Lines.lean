import Provision.Heading

/-!
# Headings of texts

A heading is looked for among lines of bytes. In the encoding of a text the lines of bytes are the
lines of the text (`Text.pieces_ofText`), so that the tests of a line can be made on its characters
(`Heading.ofLine?_ofText`, `Heading.isFiller_ofText`), and so can that of the byte order mark
(`Heading.dropByteOrderMark_ofText`).
-/

namespace Provision

namespace Text

variable {α : Type} [DecidableEq α]

/-- What stands before the first separator belongs to the first piece. -/
theorem pieces_append {separator : α} {xs ys piece : List α} {more : List (List α)}
    (clean : separator ∉ xs) (h : pieces separator ys = piece :: more) :
    pieces separator (xs ++ ys) = (xs ++ piece) :: more := by
  induction xs with
  | nil => exact h
  | cons x xs ih =>
    rw [List.mem_cons, not_or] at clean
    rw [List.cons_append, pieces, if_neg (fun hx => clean.1 hx.symm), ih clean.2]
    rfl

theorem pieces_separator (separator : α) (xs : List α) :
    pieces separator (separator :: xs) = [] :: pieces separator xs := by
  rw [pieces, if_pos rfl]

/-- A separator between two texts adds no piece to theirs. -/
theorem pieces_append_separator (separator : α) (xs ys : List α) :
    pieces separator (xs ++ separator :: ys) = pieces separator xs ++ pieces separator ys := by
  induction xs with
  | nil => exact pieces_separator separator ys
  | cons x xs ih =>
    obtain ⟨piece, more, hpieces⟩ := List.exists_cons_of_ne_nil (pieces_ne_nil separator xs)
    rw [List.cons_append, pieces, pieces, ih, hpieces]
    split <;> rfl

omit [DecidableEq α] in
/-- A joined text is made of its pieces and separators. -/
theorem mem_join {separator x : α} {ps : List (List α)} (h : x ∈ join separator ps) :
    x = separator ∨ ∃ p ∈ ps, x ∈ p := by
  induction ps with
  | nil => cases h
  | cons p ps ih =>
    cases ps with
    | nil => exact .inr ⟨p, List.mem_cons_self, h⟩
    | cons q ps =>
      rcases List.mem_append.1 h with h | h
      · exact .inr ⟨p, List.mem_cons_self, h⟩
      · rcases List.mem_cons.1 h with h | h
        · exact .inl h
        · exact (ih h).imp id fun ⟨r, hr, hx⟩ => ⟨r, List.mem_cons_of_mem _ hr, hx⟩

omit [DecidableEq α] in
/-- What is in a piece is in the joined text. -/
theorem mem_join_of_mem {separator x : α} {p : List α} {ps : List (List α)} (hp : p ∈ ps)
    (hx : x ∈ p) : x ∈ join separator ps := by
  induction ps with
  | nil => cases hp
  | cons q ps ih =>
    cases ps with
    | nil =>
      rw [List.mem_singleton] at hp
      exact hp ▸ hx
    | cons r ps =>
      show x ∈ q ++ separator :: join separator (r :: ps)
      rw [List.mem_append, List.mem_cons]
      rcases List.mem_cons.1 hp with rfl | hp
      · exact .inl hx
      · exact .inr (.inr (ih hp))

/-- Pieces that do not hold the separator come back when they are joined and cut again. -/
theorem pieces_join {separator : α} {ps : List (List α)} (nonempty : ps ≠ [])
    (clean : ∀ p ∈ ps, separator ∉ p) : pieces separator (join separator ps) = ps := by
  induction ps with
  | nil => exact absurd rfl nonempty
  | cons p ps ih =>
    obtain ⟨hp, hps⟩ := List.forall_mem_cons.1 clean
    cases ps with
    | nil =>
      have hpieces : pieces separator (p ++ []) = [p ++ []] := pieces_append hp rfl
      rwa [List.append_nil] at hpieces
    | cons q ps =>
      rw [join, pieces_append hp (pieces_separator _ _), List.append_nil,
        ih (List.cons_ne_nil q ps) hps]
      exact List.cons_ne_nil q ps

/-- Pieces that are ended by a separator are the first ones. -/
theorem pieces_lines {separator : α} {ls : List (List α)} (unbroken : ∀ l ∈ ls, separator ∉ l)
    (xs : List α) :
    pieces separator (ls.flatMap (· ++ [separator]) ++ xs) = ls ++ pieces separator xs := by
  induction ls with
  | nil => rfl
  | cons l ls ih =>
    obtain ⟨hl, hls⟩ := List.forall_mem_cons.1 unbroken
    have hcut : (l :: ls).flatMap (· ++ [separator]) ++ xs =
        l ++ separator :: (ls.flatMap (· ++ [separator]) ++ xs) := by simp
    rw [hcut, pieces_append hl (pieces_separator _ _), ih hls, List.append_nil, List.cons_append]

omit [DecidableEq α] in
/-- Pieces that others follow are ended. -/
theorem join_append_cons (separator : α) (ls : List (List α)) (line : List α)
    (more : List (List α)) :
    join separator (ls ++ line :: more) =
      ls.flatMap (· ++ [separator]) ++ join separator (line :: more) := by
  induction ls with
  | nil => rfl
  | cons l ls ih =>
    have hnonempty : ls ++ line :: more ≠ [] :=
      List.append_ne_nil_of_right_ne_nil ls (List.cons_ne_nil line more)
    obtain ⟨next, rest, hnext⟩ := List.exists_cons_of_ne_nil hnonempty
    have hjoin : join separator (l :: (ls ++ line :: more)) =
        l ++ separator :: join separator (ls ++ line :: more) := by rw [hnext]; rfl
    rw [List.cons_append, hjoin, ih]
    simp

omit [DecidableEq α] in
/-- What follows a piece starts with a separator. -/
theorem exists_join_cons (separator : α) (line : List α) (more : List (List α)) :
    ∃ rest, join separator (line :: more) = line ++ rest ∧ ∀ x ∈ rest.head?, x = separator := by
  cases more with
  | nil => exact ⟨[], (List.append_nil _).symm, nofun⟩
  | cons next more => exact ⟨separator :: join separator (next :: more), rfl, by rintro x ⟨⟩; rfl⟩

/-- A piece with others before it is a part of the text between separators. -/
theorem exists_pieces_eq_append_cons_iff {separator : α} {xs line : List α}
    {above : List (List α)} :
    (∃ below, pieces separator xs = above ++ line :: below) ↔
      (∀ l ∈ above, separator ∉ l) ∧ separator ∉ line ∧
        ∃ rest, xs = above.flatMap (· ++ [separator]) ++ (line ++ rest) ∧
          ∀ x ∈ rest.head?, x = separator := by
  constructor
  · rintro ⟨below, hpieces⟩
    have hclean : ∀ l ∈ above ++ line :: below, separator ∉ l := fun l hl =>
      separator_notMem_of_mem_pieces (by rw [hpieces]; exact hl)
    obtain ⟨rest, hrest, hended⟩ := exists_join_cons separator line below
    refine ⟨fun l hl => hclean l (List.mem_append_left _ hl), hclean line (by simp), rest, ?_,
      hended⟩
    rw [← join_pieces separator xs, hpieces, join_append_cons, hrest]
  · rintro ⟨habove, hline, rest, rfl, hended⟩
    obtain ⟨more, hmore⟩ : ∃ more, pieces separator rest = [] :: more := by
      cases rest with
      | nil => exact ⟨[], rfl⟩
      | cons x rest =>
        obtain rfl : x = separator := hended x rfl
        exact ⟨_, pieces_separator _ _⟩
    exact ⟨more, by rw [pieces_lines habove, pieces_append hline hmore, List.append_nil]⟩

end Text

namespace Bytes

theorem ofText_eq_flatMap (s : String) :
    ofText s = s.toList.flatMap String.utf8EncodeChar := by
  conv => lhs; rw [← String.ofList_toList (s := s)]
  exact List.toList_data_toByteArray

theorem ofText_append (s : String) (cs : List Char) :
    ofText s ++ ofText (String.ofList cs) = ofText (String.ofList (s.toList ++ cs)) := by
  simp only [ofText_eq_flatMap, String.toList_ofList, List.flatMap_append]

/-- Bytes that start like the encoding of some characters encode a text that starts with them. -/
theorem isPrefix_of_ofText {cs : List Char} {s : String} (rest : Bytes)
    (h : ofText s = cs.flatMap String.utf8EncodeChar ++ rest) : cs <+: s.toList := by
  apply List.isPrefix_of_utf8Encode_append_eq_utf8Encode rest.toByteArray
  show (cs.flatMap String.utf8EncodeChar).toByteArray ++ rest.toByteArray =
    (s.toList.flatMap String.utf8EncodeChar).toByteArray
  rw [← List.toByteArray_append, ← h, ofText_eq_flatMap]

/-- The byte of a line feed encodes a line feed, and is in the encoding of no other character. -/
theorem eq_of_lineFeed_mem {c : Char} (h : Heading.lineFeed ∈ String.utf8EncodeChar c) :
    c = '\n' := by
  obtain ⟨i, hi, hbyte⟩ := List.getElem_of_mem h
  have hfirst : UInt8.IsUTF8FirstByte (String.utf8EncodeChar c)[i] := by
    rw [hbyte]
    decide
  -- A byte of ASCII is the first byte of an encoding, and then the character is that byte.
  obtain rfl : i = 0 := UInt8.isUTF8FirstByte_getElem_utf8EncodeChar.1 hfirst
  have hbytes : ofText (String.singleton c) =
      ['\n'].flatMap String.utf8EncodeChar ++ (String.utf8EncodeChar c).tail := by
    rw [ofText_eq_flatMap]
    cases hc : String.utf8EncodeChar c with
    | nil => simp [hc] at hi
    | cons b bs =>
      simp only [hc, List.getElem_cons_zero] at hbyte
      simp [hc, hbyte]
      rfl
  have hstart := isPrefix_of_ofText _ hbytes
  rw [String.toList_singleton] at hstart
  exact (List.cons_prefix_cons.1 hstart).1.symm

end Bytes

/-- The lines of an encoded text are the encoded lines of the text. -/
theorem Text.pieces_ofText (s : String) :
    Text.pieces Heading.lineFeed (Bytes.ofText s) =
      (Text.pieces '\n' s.toList).map fun line => Bytes.ofText (String.ofList line) := by
  rw [Bytes.ofText_eq_flatMap]
  induction s.toList with
  | nil => rfl
  | cons c cs ih =>
    rw [List.flatMap_cons]
    by_cases hc : c = '\n'
    · subst hc
      rw [Text.pieces_separator, List.map_cons, ← ih]
      exact Text.pieces_separator _ _
    · obtain ⟨piece, more, hpieces⟩ := List.exists_cons_of_ne_nil (Text.pieces_ne_nil '\n' cs)
      -- No byte of another character separates lines, so all its bytes belong to the first one.
      have hclean : Heading.lineFeed ∉ String.utf8EncodeChar c :=
        fun h => hc (Bytes.eq_of_lineFeed_mem h)
      rw [hpieces, List.map_cons] at ih
      rw [Text.pieces_append hclean ih, Text.pieces, if_neg hc, hpieces, List.map_cons]
      simp only [Bytes.ofText_eq_flatMap, String.toList_ofList, List.flatMap_cons]

namespace Heading

/-- The heading among lines is the first line that is one, and all lines above it are filler. -/
theorem ofLines?_iff_run (ls : List Bytes) (h : Heading) :
    ofLines? ls = some h ↔
      ∃ above line below, ls = above ++ line :: below ∧
        (∀ l ∈ above, ofLine? l = none ∧ isFiller l = true) ∧ ofLine? line = some h := by
  induction ls with
  | nil => simp [ofLines?]
  | cons l ls ih =>
    rw [ofLines?]
    constructor
    · intro hfound
      split at hfound
      · next hk =>
        cases hfound
        exact ⟨[], l, ls, rfl, List.forall_mem_nil _, hk⟩
      · next hnone =>
        obtain ⟨hfiller, hfound⟩ := Option.ite_none_right_eq_some.1 hfound
        obtain ⟨above, line, below, rfl, habove, hline⟩ := ih.1 hfound
        exact ⟨l :: above, line, below, rfl, List.forall_mem_cons.2 ⟨⟨hnone, hfiller⟩, habove⟩,
          hline⟩
    · rintro ⟨above, line, below, hls, habove, hline⟩
      cases above with
      | nil =>
        cases hls
        rw [hline]
      | cons first above =>
        cases hls
        obtain ⟨hfirst, habove⟩ := List.forall_mem_cons.1 habove
        rw [hfirst.1]
        dsimp only
        rw [if_pos hfirst.2]
        exact ih.2 ⟨above, line, below, rfl, habove, hline⟩

theorem dropByteOrderMark_mark_append (content : Bytes) :
    dropByteOrderMark (byteOrderMark ++ content) = content := by
  rw [dropByteOrderMark, if_pos (List.isPrefixOf_iff_prefix.2 (List.prefix_append _ _)),
    List.drop_left]

theorem dropByteOrderMark_of_unmarked {content : Bytes} (unmarked : ¬ byteOrderMark <+: content) :
    dropByteOrderMark content = content :=
  if_neg fun hmark => unmarked (List.isPrefixOf_iff_prefix.1 hmark)

theorem dropByteOrderMark_ofText {s : String} (unmarked : s.toList.head? ≠ some '\uFEFF') :
    dropByteOrderMark (Bytes.ofText s) = Bytes.ofText s := by
  refine dropByteOrderMark_of_unmarked fun ⟨rest, hrest⟩ => unmarked ?_
  have hstart : ['\uFEFF'] <+: s.toList := Bytes.isPrefix_of_ofText rest hrest.symm
  obtain ⟨cs, hcs⟩ := hstart
  rw [← hcs]
  rfl

theorem dropByteOrderMark_ofText_mark (cs : List Char) :
    dropByteOrderMark (Bytes.ofText (String.ofList ('\uFEFF' :: cs))) =
      Bytes.ofText (String.ofList cs) := by
  have hbytes : Bytes.ofText (String.ofList ('\uFEFF' :: cs)) =
      byteOrderMark ++ Bytes.ofText (String.ofList cs) := by
    rw [Bytes.ofText_eq_flatMap, Bytes.ofText_eq_flatMap, String.toList_ofList,
      String.toList_ofList, List.flatMap_cons]
    rfl
  rw [hbytes, dropByteOrderMark_mark_append]

/-- The heading that a line of text is. -/
theorem ofLine?_ofText (s : String) :
    ofLine? (Bytes.ofText s) = all.find? fun h => h.text.toList == Text.trimEnd s.toList := by
  unfold ofLine?
  rw [Bytes.text?_ofText]
  rfl

/-- Whether a line of text may stand above a heading. -/
theorem isFiller_ofText (s : String) :
    isFiller (Bytes.ofText s) =
      (s.toList.head? == some '#' || s.toList.all Text.isSpace) := by
  have hhash : ((Bytes.ofText s).head? == some hashByte) = (s.toList.head? == some '#') := by
    rw [Bool.eq_iff_iff, beq_iff_eq, beq_iff_eq]
    constructor
    · intro h
      obtain ⟨bs, hbs⟩ := List.head?_eq_some_iff.1 h
      obtain ⟨cs, hcs⟩ : ['#'] <+: s.toList := Bytes.isPrefix_of_ofText bs hbs
      rw [← hcs]
      rfl
    · intro h
      obtain ⟨cs, hcs⟩ := List.head?_eq_some_iff.1 h
      rw [Bytes.ofText_eq_flatMap, hcs]
      rfl
  unfold isFiller
  rw [hhash, Bytes.text?_ofText]
  rfl

end Heading

end Provision
