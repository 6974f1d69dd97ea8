import Provision.Document
import Provision.Proofs.BootLines.KeyPaths
import Provision.Proofs.Numerals.DigitRows
import Provision.Proofs.Values.Distinct

/-!
# Dotted paths

A dotted path is looked up by the names in it, and where nothing stands between two dots there is no
name, so that no dot more or less matters:

* **names** — `Spells` says which names are in a path; they are the segments
  (`spells_iff_segments`), and more dots add none (`segments_append`);
* **descent** — `Reaches` says what names lead to, one after the other: keys of mappings and
  positions in sequences (`descend?_eq_some_iff`);
* **steps** — `LiesAt` says where a part of a value is, and a plain path to it is spelled by the
  names of its steps (`LiesAt.reaches`).
-/

namespace Provision.Document

open BootLine (dotted)

/-! ## Names -/

/-- The names in a path: what stands between its dots, where anything does. -/
def Spells (path : String) (names : List String) : Prop :=
  ∃ parts : List String, parts ≠ [] ∧ (∀ part ∈ parts, '.' ∉ part.toList) ∧
    path = dotted parts ∧ names = parts.filter (· ≠ "")

theorem Spells.segments_eq {path : String} {names : List String} (spells : Spells path names) :
    segments path = names.map String.toList := by
  obtain ⟨parts, nonempty, undotted, rfl, rfl⟩ := spells
  have hpieces : Text.pieces '.' (dotted parts).toList = parts.map String.toList := by
    rw [BootLine.toList_dotted]
    apply Text.pieces_join (by simpa using nonempty)
    exact List.forall_mem_map.2 undotted
  have hempty : (fun part : List Char => !part.isEmpty) ∘ String.toList =
      fun part => decide (part ≠ "") := by
    funext part
    rw [Bool.eq_iff_iff]
    simp
  rw [segments, hpieces, List.filter_map, hempty]

theorem exists_spells (path : String) : ∃ names, Spells path names := by
  refine ⟨_, (Text.pieces '.' path.toList).map String.ofList, ?_, ?_, ?_, rfl⟩
  · simpa using Text.pieces_ne_nil '.' path.toList
  · rw [List.forall_mem_map]
    intro part hpart
    rw [String.toList_ofList]
    exact Text.separator_notMem_of_mem_pieces hpart
  · rw [BootLine.dotted_pieces, String.ofList_toList]

/-- The names in a path are its segments. -/
theorem spells_iff_segments {path : String} {names : List String} :
    Spells path names ↔ names = (segments path).map String.ofList := by
  have hnames {names : List String} (spells : Spells path names) :
      names = (segments path).map String.ofList := by
    rw [spells.segments_eq]
    simp
  refine ⟨hnames, fun h => ?_⟩
  obtain ⟨_, spells⟩ := exists_spells path
  rwa [hnames spells, ← h] at spells

/-- Names with a dot between each two are spelled so. -/
theorem spells_dotted {names : List String} (nonempty : names ≠ [])
    (plain : ∀ name ∈ names, name ≠ "" ∧ '.' ∉ name.toList) : Spells (dotted names) names := by
  refine ⟨names, nonempty, fun name hname => (plain name hname).2, rfl, ?_⟩
  exact (List.filter_eq_self.2 fun name hname => decide_eq_true (plain name hname).1).symm

/-! ## Dots -/

/-- A dot between two paths adds no name to theirs. -/
theorem segments_append (path more : String) :
    segments (path ++ "." ++ more) = segments path ++ segments more := by
  have hlist : (path ++ "." ++ more).toList = path.toList ++ '.' :: more.toList := by simp
  rw [segments, hlist, Text.pieces_append_separator, List.filter_append, segments, segments]

/-- A path without names is made of dots. -/
theorem segments_eq_nil_iff (path : String) :
    segments path = [] ↔ ∀ c ∈ path.toList, c = '.' := by
  have hempty : segments path = [] ↔ ∀ part ∈ Text.pieces '.' path.toList, part = [] := by
    rw [segments, List.filter_eq_nil_iff]
    simp
  rw [hempty]
  constructor
  · intro h c hc
    rw [← Text.join_pieces '.' path.toList] at hc
    refine (Text.mem_join hc).resolve_right ?_
    rintro ⟨part, hpart, hc⟩
    rw [h part hpart] at hc
    cases hc
  · intro h part hpart
    rw [List.eq_nil_iff_forall_not_mem]
    intro c hc
    have hdot : c = '.' := by
      refine h c ?_
      rw [← Text.join_pieces '.' path.toList]
      exact Text.mem_join_of_mem hpart hc
    exact Text.separator_notMem_of_mem_pieces hpart (hdot ▸ hc)

/-! ## Descent -/

/-- A name that gives a position: decimal digits, with an optional plus. Zeros at the start do not
matter, and a number that no machine word holds is beyond the end of every sequence. -/
def IsPosition (name : String) (i : Nat) : Prop :=
  ∃ digits, Numeral.Denotes 10 digits i ∧ (name.toList = digits ∨ name.toList = '+' :: digits)

/-- What a name leads to: the value under a key, or the item at a position. -/
inductive Enters (name : String) : Value → Value → Prop
  | key {entries : Entries Value} {w : Value} : (name, w) ∈ entries →
      Enters name (.mapping entries) w
  | item {items : List Value} {i : Nat} {w : Value} : IsPosition name i → items[i]? = some w →
      Enters name (.sequence items) w

/-- What names lead to, one after the other. -/
inductive Reaches : List String → Value → Value → Prop
  | here {v : Value} : Reaches [] v v
  | step {name : String} {names : List String} {v w x : Value} : Enters name v w →
      Reaches names w x → Reaches (name :: names) v x

theorem position?_eq_some_iff (name : String) (i : Nat) :
    position? name.toList = some i ↔ IsPosition name i := by
  unfold position?
  split
  · next digits hname =>
    rw [Numeral.digits?_eq_some_iff (by decide)]
    refine ⟨fun h => ⟨digits, h, .inr hname⟩, ?_⟩
    rintro ⟨digits', h, hdigits | hdigits⟩
    · -- A row of digits does not start with a plus.
      have hplus := (h.ofDigits_eq (by decide)).2.1 '+' (by rw [← hdigits, hname]; simp)
      cases hplus
    · rw [hname] at hdigits
      cases hdigits
      exact h
  · next hplus =>
    rw [Numeral.digits?_eq_some_iff (by decide)]
    refine ⟨fun h => ⟨_, h, .inl rfl⟩, ?_⟩
    rintro ⟨digits, h, hdigits | hdigits⟩
    · exact hdigits ▸ h
    · exact absurd hdigits (hplus digits)

theorem child?_eq_some_iff {v : Value} (distinct : v.Distinct) (name : String) (w : Value) :
    child? name.toList v = some w ↔ Enters name v w := by
  constructor
  · intro h
    cases v with
    | mapping entries =>
      rw [child?, String.ofList_toList] at h
      exact .key (Entries.mem_of_get? h)
    | sequence items =>
      obtain ⟨i, hi, hw⟩ := Option.bind_eq_some_iff.1 h
      exact .item ((position?_eq_some_iff name i).1 hi) hw
    | _ => cases h
  · intro h
    cases h with
    | key hmem =>
      rw [child?, String.ofList_toList]
      exact Entries.get?_of_mem (Value.distinct_mapping.1 distinct).1 hmem
    | item hi hw => exact Option.bind_eq_some_iff.2 ⟨_, (position?_eq_some_iff name _).2 hi, hw⟩

theorem Enters.distinct {name : String} {v w : Value} (enters : Enters name v w)
    (distinct : v.Distinct) : w.Distinct := by
  cases enters with
  | key hmem => exact (Value.distinct_mapping.1 distinct).2 _ hmem
  | item _ hw => exact Value.distinct_sequence.1 distinct w (List.mem_of_getElem? hw)

theorem descend?_eq_some_iff {v : Value} (distinct : v.Distinct) (names : List String) (x : Value) :
    descend? (names.map String.toList) v = some x ↔ Reaches names v x := by
  induction names generalizing v with
  | nil =>
    constructor
    · rintro ⟨⟩
      exact .here
    · rintro ⟨⟩
      rfl
  | cons name names ih =>
    rw [List.map_cons, descend?, Option.bind_eq_some_iff]
    constructor
    · rintro ⟨w, hw, hx⟩
      have henters := (child?_eq_some_iff distinct name w).1 hw
      exact .step henters ((ih (henters.distinct distinct)).1 hx)
    · rintro (_ | ⟨henters, hreaches⟩)
      exact ⟨_, (child?_eq_some_iff distinct name _).2 henters,
        (ih (henters.distinct distinct)).2 hreaches⟩

/-- A path with names in it is looked up by its names. -/
theorem lookup?_eq_some_iff {d : Document} (distinct : d.toValue.Distinct) {path : String}
    {names : List String} (spells : Spells path names) (nonempty : names ≠ []) (v : Value) :
    d.lookup? path = some v ↔ Reaches names d.toValue v := by
  rw [← descend?_eq_some_iff distinct, lookup?, spells.segments_eq]
  obtain ⟨name, names, rfl⟩ := List.exists_cons_of_ne_nil nonempty
  rfl

/-! ## Steps -/

/-- A step into a value. -/
inductive Step where
  | key (name : String)
  | item (i : Nat)

/-- How a step is written: a key as it is, a position in decimal digits. -/
def Step.name : Step → String
  | .key name => name
  | .item i => toString i

/-- Whether a step can be written in a dotted path. -/
def Step.IsPlain : Step → Prop
  | .key name => name ≠ "" ∧ '.' ∉ name.toList
  | .item _ => True

/-- Where a part of a value lies in it. -/
inductive LiesAt : List Step → Value → Value → Prop
  | here {v : Value} : LiesAt [] v v
  | key {name : String} {entries : Entries Value} {steps : List Step} {w x : Value} :
      (name, w) ∈ entries → LiesAt steps w x → LiesAt (.key name :: steps) (.mapping entries) x
  | item {i : Nat} {items : List Value} {steps : List Step} {w x : Value} :
      items[i]? = some w → LiesAt steps w x → LiesAt (.item i :: steps) (.sequence items) x

theorem isPosition_toString (i : Nat) : IsPosition (toString i) i := by
  refine ⟨Nat.toDigits 10 i, ?_, .inl ?_⟩
  · exact (Numeral.digits?_eq_some_iff (by decide)).1 (Number.digits?_toDigits i)
  · rw [Nat.toString_eq_ofList_toDigits, String.toList_ofList]

theorem LiesAt.reaches {steps : List Step} {v x : Value} (lies : LiesAt steps v x) :
    Reaches (steps.map Step.name) v x := by
  induction lies with
  | here => exact .here
  | key hmem _ ih => exact .step (.key hmem) ih
  | item hitem _ ih => exact .step (.item (isPosition_toString _) hitem) ih

/-- A plain step has a name that can stand between dots. -/
theorem Step.IsPlain.name {step : Step} (plain : step.IsPlain) :
    step.name ≠ "" ∧ '.' ∉ step.name.toList := by
  cases step with
  | key name => exact plain
  | item i =>
    have hlist : (Step.item i).name.toList = Nat.toDigits 10 i := by
      rw [Step.name, Nat.toString_eq_ofList_toDigits, String.toList_ofList]
    constructor
    · intro hempty
      rw [hempty] at hlist
      exact Nat.toDigits_ne_nil hlist.symm
    · rw [hlist]
      intro hdot
      cases Numeral.digits_toDigits i '.' hdot

/-! ## Look-ups and queries -/

/-- A query with a name in it answers with the text of what its path leads to. -/
theorem query_eq {d : Document} {path : String} {names : List String}
    (spells : Spells path names) (nonempty : names ≠ []) :
    d.query path = match d.lookup? path with
      | some v => .ok v.toYaml
      | none => .error (.pathNotFound path) := by
  have hdots : ¬ path.toList.all (· == '.') = true := by
    intro hall
    have hnil := (segments_eq_nil_iff path).2 fun c hc => by
      simpa using List.all_eq_true.1 hall c hc
    rw [spells.segments_eq, List.map_eq_nil_iff] at hnil
    exact nonempty hnil
  exact if_neg hdots

theorem lookup?_eq_of_segments {d : Document} {path other : String}
    (same : segments path = segments other) : d.lookup? path = d.lookup? other := by
  rw [lookup?, lookup?, same]

/-- A dotted path leads to what its names lead to one after the other (1), as a query says (2),
whatever dots are doubled in it or stand at its ends (3); a path of dots only leads to the whole
document (4); and each part below the root is found at the plain path to it (5). -/
theorem dotted_path_leads (d : Document) (distinct : d.toValue.Distinct) :
    (∀ path, ∃! names, Spells path names) ∧
    (∀ path names, Spells path names → names ≠ [] →
      (∀ v, d.lookup? path = some v ↔ Reaches names d.toValue v) ∧
      (∀ v, d.lookup? path = some v → d.query path = .ok v.toYaml) ∧
      (d.lookup? path = none → d.query path = .error (.pathNotFound path))) ∧
    (∀ path more, d.lookup? ("." ++ path) = d.lookup? path ∧
      d.lookup? (path ++ ".") = d.lookup? path ∧
      d.lookup? (path ++ ".." ++ more) = d.lookup? (path ++ "." ++ more)) ∧
    (∀ path, (∀ c ∈ path.toList, c = '.') → d.query path = .ok d.toValue.toYaml) ∧
    (∀ steps v, steps ≠ [] → (∀ step ∈ steps, step.IsPlain) → LiesAt steps d.toValue v →
      d.lookup? (dotted (steps.map Step.name)) = some v) := by
  refine ⟨?_, ?_, ?_, ?_, ?_⟩
  · intro path
    exact ⟨_, spells_iff_segments.2 rfl, fun names spells => spells_iff_segments.1 spells⟩
  · intro path names spells nonempty
    refine ⟨lookup?_eq_some_iff distinct spells nonempty, fun v hv => ?_, fun hnone => ?_⟩
    · rw [query_eq spells nonempty, hv]
    · rw [query_eq spells nonempty, hnone]
  · intro path more
    have hnone : segments "" = [] := rfl
    refine ⟨lookup?_eq_of_segments ?_, lookup?_eq_of_segments ?_, lookup?_eq_of_segments ?_⟩
    · have h := segments_append "" path
      rwa [String.empty_append, hnone, List.nil_append] at h
    · have h := segments_append path ""
      rwa [String.append_empty, hnone, List.append_nil] at h
    · have h := segments_append (path ++ "." ++ "") more
      rw [segments_append path "", hnone, List.append_nil, ← segments_append,
        String.append_empty] at h
      rw [← h, String.append_assoc, String.append_assoc, String.append_assoc]
      rfl
  · intro path dots
    rw [query, if_pos (List.all_eq_true.2 fun c hc => beq_iff_eq.2 (dots c hc))]
  · intro steps v nonempty plain lies
    have hnames : steps.map Step.name ≠ [] := by simpa using nonempty
    refine (lookup?_eq_some_iff distinct (spells_dotted hnames ?_) hnames v).2 lies.reaches
    exact List.forall_mem_map.2 fun step hstep => (plain step hstep).name

/-- A key that looks like a position, a position with a plus and a zero before it, and one that no
sequence has. -/
theorem dotted_path_leads_key_and_positions :
    let d : Document := ⟨[("boot", .mapping [("0", .sequence [.null, .string "x"])])]⟩
    d.lookup? ".boot..0.+01." = some (.string "x") ∧
      d.query "boot.0.18446744073709551616" =
        .error (.pathNotFound "boot.0.18446744073709551616") ∧
      d.query ".." = .ok d.toValue.toYaml ∧ d.lookup? "boot.0.1" = some (.string "x") := by
  intro d
  have hdistinct : d.toValue.Distinct := by
    simp [d, toValue, Value.Distinct, Value.DistinctItems, Value.DistinctEntries, Entries.keys]
  have hone : Numeral.Denotes 10 ['0', '1'] 1 :=
    (Numeral.digits?_eq_some_iff (by decide)).1 (by decide)
  obtain ⟨-, hnamed, -, hdots, hplain⟩ := dotted_path_leads d hdistinct
  refine ⟨?_, ?_, hdots ".." (by simp), ?_⟩
  · refine ((hnamed ".boot..0.+01." ["boot", "0", "+01"]
      (spells_iff_segments.2 (by decide)) (by decide)).1 _).2 ?_
    exact .step (.key List.mem_cons_self) (.step (.key List.mem_cons_self)
      (.step (.item ⟨_, hone, .inr rfl⟩ rfl) .here))
  · refine (hnamed "boot.0.18446744073709551616" ["boot", "0", "18446744073709551616"]
      (spells_iff_segments.2 (by decide)) (by decide)).2.2 ?_
    rfl
  · refine hplain [.key "boot", .key "0", .item 1] _ (by decide) ?_ ?_
    · simp [Step.IsPlain]
    · exact .key List.mem_cons_self (.key List.mem_cons_self (.item rfl .here))

end Provision.Document
