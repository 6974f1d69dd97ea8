import Provision.Proofs.Values.Everywhere
import Provision.Proofs.Yaml.EmptyCollections
import Provision.Proofs.Yaml.WrittenForm

/-!
# Reading written values

The reader finds the tokens of a value in its text. A value is written on one line or as a block,
and a block is read item by item or entry by entry; the tokens of an item come from its own block,
which is the induction (`readsBlock`). The indentation of a block is known from its column alone, so
the items of all depths are read in the same way.
-/

namespace Provision.Yaml.Writing

open TokenReader (brackets flowStart flowEnd)

theorem valueTokens_of_scalar? {v : Value} {plain : Bool} {content : List Char}
    (h : scalar? v = some (plain, content)) : valueTokens v = [.scalar plain content] := by
  cases v with
  | null => cases h; rfl
  | bool b => cases b <;> cases h <;> rfl
  | number n => cases h; rfl
  | string t => cases h; rfl
  | sequence items => cases h
  | mapping entries => cases h

/-- The sequence or the mapping with nothing in it. -/
def emptyCollection (sequence : Bool) : Value := if sequence then .sequence [] else .mapping []

theorem valueTokens_emptyCollection (sequence : Bool) :
    valueTokens (emptyCollection sequence) = [flowStart sequence, flowEnd sequence] := by
  cases sequence <;> rfl

/-- A value on one line is a scalar or an empty collection. -/
theorem inlineText?_cases {v : Value} {text : List Char} (h : inlineText? v = some text) :
    (∃ plain content, scalar? v = some (plain, content) ∧ ScalarText text plain content) ∨
      ∃ sequence, v = emptyCollection sequence ∧ text = brackets sequence := by
  have hscalar {plain : Bool} {content : List Char} (hv : scalar? v = some (plain, content)) :
      scalar? v = some (plain, content) ∧ ScalarText text plain content := by
    obtain ⟨text', htext, hform⟩ := scalarText_of_scalar? hv
    obtain rfl : text = text' := Option.some.inj (h.symm.trans htext)
    exact ⟨hv, hform⟩
  cases v with
  | null => exact .inl ⟨_, _, hscalar rfl⟩
  | bool b => cases b <;> exact .inl ⟨_, _, hscalar rfl⟩
  | number n => exact .inl ⟨_, _, hscalar rfl⟩
  | string t => exact .inl ⟨_, _, hscalar rfl⟩
  | sequence items =>
    cases items with
    | nil =>
      cases h
      exact .inr ⟨true, rfl, rfl⟩
    | cons v items => cases h
  | mapping entries =>
    cases entries with
    | nil =>
      cases h
      exact .inr ⟨false, rfl, rfl⟩
    | cons e entries => cases h

/-- A value that takes lines of its own is a collection with something in it. -/
theorem inlineText?_eq_none_cases {v : Value} (h : inlineText? v = none) :
    (∃ w ws, v = .sequence (w :: ws)) ∨ ∃ e es, v = .mapping (e :: es) := by
  match v, h with
  | .bool true, h => cases h
  | .bool false, h => cases h
  | .sequence (w :: ws), _ => exact .inl ⟨w, ws, rfl⟩
  | .mapping (e :: es), _ => exact .inr ⟨e, es, rfl⟩

theorem startsToken_inlineText {v : Value} {text : List Char} (h : inlineText? v = some text)
    (after : List Char) : StartsToken (text ++ after) := by
  rcases inlineText?_cases h with ⟨plain, content, -, hform⟩ | ⟨sequence, -, rfl⟩
  · exact hform.startsToken after
  · cases sequence
    · exact .cons rfl (by decide) _
    · exact .cons rfl (by decide) _

theorem startsToken_itemLines {items : List Value} (nonempty : items ≠ []) (column : Nat)
    (after : List Char) : StartsToken (itemLines column items ++ after) := by
  obtain ⟨v, items, rfl⟩ := List.exists_cons_of_ne_nil nonempty
  exact .cons rfl (by decide) _

theorem startsToken_entryLines {entries : List (String × Value)} (nonempty : entries ≠ [])
    (column step : Nat) (after : List Char) :
    StartsToken (entryLines column step entries ++ after) := by
  obtain ⟨⟨key, v⟩, entries, rfl⟩ := List.exists_cons_of_ne_nil nonempty
  rw [entryLines, List.append_assoc, List.append_assoc]
  exact (scalarText_stringText key.toList).startsToken _

theorem startsToken_block {v : Value} (collection : inlineText? v = none) (column step : Nat)
    (after : List Char) : StartsToken (block column step v ++ after) := by
  rcases inlineText?_eq_none_cases collection with ⟨w, ws, rfl⟩ | ⟨e, es, rfl⟩
  · exact startsToken_itemLines (List.cons_ne_nil w ws) column after
  · exact startsToken_entryLines (List.cons_ne_nil e es) column step after

end Provision.Yaml.Writing

namespace Provision.Yaml.TokenReader

open Margin (Opening Covers ValueEnds leave)
open Relation (ReflTransGen)
open Writing

variable {s : TokenReader} {tail : List Char} {column d : Nat} {ms ground : List Margin}
  {ts : List Token}

/-- A value on the line of its key or dash, or on a line of its own. -/
theorem Stands.inline {v : Value} {text : List Char} {keyAllowed : Bool}
    (stands : Stands s (text ++ '\n' :: (spaces d ++ tail)) column (ms, ts) keyAllowed)
    (h : inlineText? v = some text) (covers : Covers ms ground)
    (free : keyAllowed = true → ms.head? ≠ some ⟨column, true⟩) (token : StartsToken tail)
    (ends : ValueEnds ground d tail) :
    ∃ s', ReflTransGen Follows s s' ∧
      Stands s' tail d (leave d (ground, (valueTokens v).reverse ++ ts)) true := by
  rcases inlineText?_cases h with ⟨plain, content, hv, hform⟩ | ⟨sequence, rfl, rfl⟩
  · obtain ⟨s', hfollows, hstands⟩ := stands.scalar hform covers free token ends
    rw [valueTokens_of_scalar? hv]
    exact ⟨s', .single hfollows, hstands⟩
  · rw [valueTokens_emptyCollection]
    exact Stands.emptyFlow sequence stands covers free token ends

/-- Whether the reader finds the tokens of a collection in its block, up to a line that is indented
less than the block. -/
def ReadsBlock (v : Value) : Prop :=
  inlineText? v = none →
    ∀ {s : TokenReader} {tail : List Char} {column step d : Nat} {ms ground : List Margin}
      {ts : List Token}, 0 < step →
      Stands s (block column step v ++ (spaces d ++ tail)) column (ms, ts) true →
      Covers ms ground → Margin.indent ground < column → StartsToken tail →
      d ≤ Margin.indent ground →
      ∃ s', ReflTransGen Follows s s' ∧
        Stands s' tail d (leave d (ground, (valueTokens v).reverse ++ ts)) true

/-- An item of a sequence, which ends before a line that is not indented more than its dash. -/
theorem Stands.item {v : Value} (reads : ReadsBlock v) {opened : Bool}
    (stands : Stands s (itemText column v ++ (spaces d ++ tail)) column (ms, ts) true)
    (opening : Opening column ms ground opened) (token : StartsToken tail) (left : d ≤ column) :
    ∃ s', ReflTransGen Follows s s' ∧
      Stands s' tail d
        (leave d (⟨column, true⟩ :: ground,
          (valueTokens v).reverse ++
            .blockEntry :: if opened then .blockSequenceStart :: ts else ts)) true := by
  have hleft : d ≤ Margin.indent (⟨column, true⟩ :: ground) := Int.ofNat_le.2 left
  unfold itemText at stands
  cases hv : inlineText? v with
  | some text =>
    rw [hv] at stands
    simp only [List.cons_append, List.append_assoc, List.nil_append] at stands
    obtain ⟨s₁, ms₁, hfollows, hcovers, hstands⟩ :=
      stands.dash opening (startsToken_inlineText hv _)
    have hfree : ms₁.head? ≠ some ⟨column + 2, true⟩ := by
      cases hcovers <;> simp
    obtain ⟨s', hsteps, hstands'⟩ :=
      hstands.inline hv hcovers (fun _ => hfree) token (.inside hleft)
    exact ⟨s', .head hfollows hsteps, hstands'⟩
  | none =>
    rw [hv] at stands
    obtain ⟨s₁, ms₁, hfollows, hcovers, hstands⟩ := stands.dash opening (startsToken_block hv _ _ _)
    obtain ⟨s', hsteps, hstands'⟩ := reads hv (by decide) hstands hcovers
      (by simp only [Margin.indent, dashIndentation]; omega) token hleft
    exact ⟨s', .head hfollows hsteps, hstands'⟩

/-- An entry of a mapping, which ends before a line that is not indented more than its key. -/
theorem Stands.entry {key : String} {v : Value} (reads : ReadsBlock v)
    (short : (stringText key.toList).length ≤ Value.keyLimit) {step : Nat} (hstep : 0 < step)
    {opened : Bool}
    (stands : Stands s (entryText column step (key, v) ++ (spaces d ++ tail)) column (ms, ts) true)
    (opening : Opening column ms ground opened) (token : StartsToken tail) (left : d ≤ column) :
    ∃ s', ReflTransGen Follows s s' ∧
      Stands s' tail d
        (leave d (⟨column, true⟩ :: ground,
          (valueTokens v).reverse ++
            keyTokens opened (.scalar (isPlain key.toList) key.toList) ts)) true := by
  have hleft : d ≤ Margin.indent (⟨column, true⟩ :: ground) := Int.ofNat_le.2 left
  have hform := scalarText_stringText key.toList
  unfold entryText at stands
  cases hv : inlineText? v with
  | some text =>
    simp only [hv, List.cons_append, List.append_assoc, List.nil_append] at stands
    obtain ⟨s₁, hkey, hcolon⟩ := stands.key hform rfl opening short
    obtain ⟨s₂, column', hvalue, hstands⟩ := hcolon.colon_space (startsToken_inlineText hv _)
    obtain ⟨s', hsteps, hstands'⟩ := hstands.inline hv (.loose column ground) nofun token
      (.inside hleft)
    exact ⟨s', .head hkey (.head hvalue hsteps), hstands'⟩
  | none =>
    simp only [hv, List.cons_append, List.append_assoc] at stands
    obtain ⟨s₁, hkey, hcolon⟩ := stands.key hform rfl opening short
    obtain ⟨s₂, hvalue, hstands⟩ := hcolon.colon_break (startsToken_block hv _ _ _) (by omega)
    obtain ⟨s', hsteps, hstands'⟩ := reads hv (by decide) hstands (.loose column ground)
      (by simp only [Margin.indent]; omega) token hleft
    exact ⟨s', .head hkey (.head hvalue hsteps), hstands'⟩

/-- The items of a sequence. -/
theorem Stands.items {vs : List Value} (nonempty : vs ≠ []) (reads : ∀ v ∈ vs, ReadsBlock v)
    {opened : Bool}
    (stands : Stands s (itemLines column vs ++ (spaces d ++ tail)) column (ms, ts) true)
    (opening : Opening column ms ground opened) (token : StartsToken tail) (left : d ≤ column) :
    ∃ s', ReflTransGen Follows s s' ∧
      Stands s' tail d
        (leave d (⟨column, true⟩ :: ground,
          (itemTokens vs).reverse ++ if opened then .blockSequenceStart :: ts else ts)) true := by
  induction vs generalizing s ms ts opened with
  | nil => exact absurd rfl nonempty
  | cons v vs ih =>
    have hreads := reads v List.mem_cons_self
    rw [itemLines_cons] at stands
    cases vs with
    | nil =>
      simp only [List.isEmpty_nil, if_true, List.append_nil] at stands
      obtain ⟨s', hsteps, hstands⟩ := stands.item hreads opening token left
      refine ⟨s', hsteps, ?_⟩
      simpa [itemTokens] using hstands
    | cons w vs =>
      simp only [List.isEmpty_cons, Bool.false_eq_true, if_false, List.append_assoc] at stands
      have htoken := startsToken_itemLines (List.cons_ne_nil w vs) column (spaces d ++ tail)
      obtain ⟨s₁, hsteps₁, hstands₁⟩ := stands.item hreads opening htoken (Nat.le_refl _)
      -- The next dash is at the column of the sequence, which goes on there.
      rw [Margin.leave_self] at hstands₁
      obtain ⟨s', hsteps, hstands⟩ := ih (List.cons_ne_nil w vs)
        (fun v hv => reads v (List.mem_cons_of_mem _ hv)) hstands₁ (.again ground)
      refine ⟨s', hsteps₁.trans hsteps, ?_⟩
      simpa [itemTokens] using hstands

/-- The entries of a mapping. -/
theorem Stands.entries {es : List (String × Value)} (nonempty : es ≠ [])
    (short : ∀ e ∈ es, (stringText e.1.toList).length ≤ Value.keyLimit)
    (reads : ∀ e ∈ es, ReadsBlock e.2) {step : Nat} (hstep : 0 < step) {opened : Bool}
    (stands : Stands s (entryLines column step es ++ (spaces d ++ tail)) column (ms, ts) true)
    (opening : Opening column ms ground opened) (token : StartsToken tail) (left : d ≤ column) :
    ∃ s', ReflTransGen Follows s s' ∧
      Stands s' tail d
        (leave d (⟨column, true⟩ :: ground,
          (entryTokens es).reverse ++ if opened then .blockMappingStart :: ts else ts)) true := by
  induction es generalizing s ms ts opened with
  | nil => exact absurd rfl nonempty
  | cons e es ih =>
    obtain ⟨key, v⟩ := e
    have hreads := reads _ List.mem_cons_self
    have hshort := short _ List.mem_cons_self
    rw [entryLines_cons] at stands
    cases es with
    | nil =>
      simp only [List.isEmpty_nil, if_true, List.append_nil] at stands
      obtain ⟨s', hsteps, hstands⟩ := stands.entry hreads hshort hstep opening token left
      refine ⟨s', hsteps, ?_⟩
      simpa [entryTokens, keyTokens] using hstands
    | cons f es =>
      simp only [List.isEmpty_cons, Bool.false_eq_true, if_false, List.append_assoc] at stands
      have htoken := startsToken_entryLines (List.cons_ne_nil f es) column step (spaces d ++ tail)
      obtain ⟨s₁, hsteps₁, hstands₁⟩ :=
        stands.entry hreads hshort hstep opening htoken (Nat.le_refl _)
      -- The next key is at the column of the mapping, which goes on there.
      rw [Margin.leave_self] at hstands₁
      obtain ⟨s', hsteps, hstands⟩ := ih (List.cons_ne_nil f es)
        (fun e he => short e (List.mem_cons_of_mem _ he))
        (fun e he => reads e (List.mem_cons_of_mem _ he)) hstands₁ (.again ground)
      refine ⟨s', hsteps₁.trans hsteps, ?_⟩
      simpa [entryTokens, keyTokens] using hstands

/-- The reader finds the tokens of every collection, by induction on what is in it. -/
theorem readsBlock {v : Value} (short : v.Everywhere Value.HasShortKeys) : ReadsBlock v := by
  induction v with
  | sequence items ih =>
    intro collection s tail column step d ms ground ts hstep stands covers right token left
    have hitems := (Value.everywhere_sequence.1 short).2
    have nonempty : items ≠ [] := by
      rintro rfl
      cases collection
    obtain ⟨s', hsteps, hstands⟩ := Stands.items nonempty (fun w hw => ih w hw (hitems w hw))
      stands (.first covers right) token (by omega)
    refine ⟨s', hsteps, ?_⟩
    rw [Margin.leave_block (by omega)] at hstands
    simpa [valueTokens, nonempty] using hstands
  | mapping entries ih =>
    intro collection s tail column step d ms ground ts hstep stands covers right token left
    obtain ⟨hkeys, hentries⟩ := Value.everywhere_mapping.1 short
    have nonempty : entries ≠ [] := by
      rintro rfl
      cases collection
    obtain ⟨s', hsteps, hstands⟩ := Stands.entries nonempty
      (fun e he => hkeys e.1 (List.mem_map_of_mem he)) (fun e he => ih e he (hentries e he))
      hstep stands (.first covers right) token (by omega)
    refine ⟨s', hsteps, ?_⟩
    rw [Margin.leave_block (by omega)] at hstands
    simpa [valueTokens, nonempty] using hstands
  | null => nofun
  | bool b => cases b <;> nofun
  | number n => nofun
  | string t => nofun

/-- A whole document. What is still open after it is left at the end of the stream. -/
theorem Stands.document {v : Value} (short : v.Everywhere Value.HasShortKeys)
    (stands : Stands s (Writing.document v ++ tail) 0 ([], []) true) (token : StartsToken tail)
    (ends : ValueEnds [] 0 tail) :
    ∃ s' known, ReflTransGen Follows s s' ∧ Stands s' tail 0 known true ∧
      (leave (-1) known).2 = (valueTokens v).reverse := by
  -- The outermost collection is at column 0, so it does not end before the stream does.
  have hleft : (-1 : Int) < (0 : Nat) := by decide
  have houtside (ts : List Token) : leave (-1) ([], ts) = ([], ts) := rfl
  cases hv : inlineText? v with
  | some text =>
    simp only [Writing.document, hv, List.append_assoc] at stands
    obtain ⟨s', hsteps, hstands⟩ :=
      Stands.inline (d := 0) stands hv .root (fun _ => nofun) token ends
    refine ⟨s', _, hsteps, hstands, ?_⟩
    rw [Margin.leave_leave (Int.le_of_lt hleft), houtside, List.append_nil]
  | none =>
    simp only [Writing.document, hv] at stands
    have opening : Opening 0 [] [] true := .first .root hleft
    rcases inlineText?_eq_none_cases hv with ⟨w, ws, rfl⟩ | ⟨e, es, rfl⟩
    · have reads : ∀ x ∈ w :: ws, ReadsBlock x :=
        fun x hx => readsBlock ((Value.everywhere_sequence.1 short).2 x hx)
      obtain ⟨s', hsteps, hstands⟩ := Stands.items (d := 0) (List.cons_ne_nil w ws) reads stands
        opening token (Nat.le_refl 0)
      refine ⟨s', _, hsteps, hstands, ?_⟩
      rw [Margin.leave_leave (Int.le_of_lt hleft), Margin.leave_block hleft, houtside]
      simp [valueTokens]
    · obtain ⟨hkeys, hentries⟩ := Value.everywhere_mapping.1 short
      obtain ⟨s', hsteps, hstands⟩ := Stands.entries (d := 0) (List.cons_ne_nil e es)
        (fun f hf => hkeys f.1 (List.mem_map_of_mem hf)) (fun f hf => readsBlock (hentries f hf))
        (by decide) stands opening token (Nat.le_refl 0)
      refine ⟨s', _, hsteps, hstands, ?_⟩
      rw [Margin.leave_leave (Int.le_of_lt hleft), Margin.leave_block hleft, houtside]
      simp [valueTokens]

end Provision.Yaml.TokenReader
