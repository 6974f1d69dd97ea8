import Provision.Gather.Run
import Provision.Proofs.Headings.Written
import Provision.Proofs.Merging.Restriction
import Provision.Proofs.Yaml.DecodedValues
import Provision.Proofs.Yaml.RoundTrip

/-!
# Keeping some keys of each source

A run through the sieve that keeps some keys of each source does what a run through no sieve does
whose result is restricted to those keys:

* **sources** — the two runs pass over the same sources, and what they read of the others is related
  (`Run.load_allowKeys`);
* **runs** — so is what they merge it to (`Run.fold_allowKeys`), and the links of the restricted
  result are those of the result (`Run.scan_allowKeys`).

The sieve writes a mapping anew and the run reads it again, which takes keys that are not too long
and a text that does not start with a byte order mark.
-/

namespace Provision

open Document (Restricts)

/-- The keys of the source, if it is a mapping, are not too long in writing, at any depth. -/
def Source.HasShortKeys (s : Source) : Prop :=
  ∀ entries, Value.ofBytes s.content = .ok (.mapping entries) →
    (Value.mapping entries).Everywhere Value.HasShortKeys

namespace Sieve

/-- What the sieve writes is read as the entries that it kept, sorted. -/
theorem ofBytes_written (heading : Option Heading) {entries : Entries Value}
    (distinct : (Value.mapping entries).Distinct)
    (short : (Value.mapping entries).Everywhere Value.HasShortKeys)
    (unmarked : ∀ key ∈ entries.keys, key.toList.head? ≠ some '\uFEFF') :
    Value.ofBytes (written heading entries) = .ok (Value.mapping entries).sorted := by
  cases heading with
  | some h =>
    rw [written, Value.ofBytes, Bytes.text?_ofText]
    exact Value.ofYaml_heading h distinct short
  | none =>
    rw [written, Value.ofBytes, Bytes.text?_ofText]
    exact Value.ofYaml_toYaml distinct short (Value.head?_toYaml_mapping unmarked)

theorem allowKeys_of_mapping {keys : List String} {content : Bytes} {entries : Entries Value}
    (read : Value.ofBytes content = .ok (.mapping entries)) :
    allowKeys keys content =
      .ok (written (Heading.ofBytes? content) (entries.restrict keys.contains)) := by
  unfold allowKeys
  rw [read]

/-- What the sieve makes of a mapping has the same heading, and is the kept entries, sorted. -/
theorem allowKeys_mapping {keys : List String}
    (unmarked : ∀ key ∈ keys, key.toList.head? ≠ some '\uFEFF') {content : Bytes}
    {entries : Entries Value} (read : Value.ofBytes content = .ok (.mapping entries))
    (short : (Value.mapping entries).Everywhere Value.HasShortKeys) :
    ∃ kept, allowKeys keys content = .ok kept ∧
      Heading.ofBytes? kept = Heading.ofBytes? content ∧
      Value.ofBytes kept = .ok (Value.mapping (entries.restrict keys.contains)).sorted := by
  have hunmarked : ∀ key ∈ (Entries.restrict keys.contains entries).keys,
      key.toList.head? ≠ some '\uFEFF' := by
    intro key hkey
    rw [Entries.keys_restrict] at hkey
    exact unmarked key (List.contains_iff_mem.1 (List.mem_filter.1 hkey).2)
  have hkept := (Value.distinct_ofBytes read).restrict keys.contains
  have hshort := Value.everywhere_hasShortKeys_restrict short keys.contains
  exact ⟨_, allowKeys_of_mapping read, Heading.ofBytes?_written _ _,
    ofBytes_written _ hkept hshort hunmarked⟩

/-- What is no mapping stays as it is. -/
theorem allowKeys_other (keys : List String) {content : Bytes}
    (other : ∀ entries, Value.ofBytes content ≠ .ok (.mapping entries)) :
    allowKeys keys content = .ok content := by
  unfold allowKeys
  split
  · next entries read => exact absurd read (other entries)
  · rfl

end Sieve

namespace Run

/-- Whether a source is passed over. -/
def passesOver (sieve : Sieve) (quiet : Bool) (s : Source) : Bool :=
  match (load sieve quiet s).1 with
  | .ok none => true
  | _ => false

/-- The notices of what is passed over. -/
def passed (notices : List Notice) : List Notice := notices.filter (·.silenceable)

theorem passed_append (first second : List Notice) :
    passed (first ++ second) = passed first ++ passed second := List.filter_append _ _

theorem load_congr {sieve sieve' : Sieve} {s : Source}
    (h : sieve' s.content = sieve s.content) (quiet : Bool) :
    load sieve' quiet s = load sieve quiet s := by
  unfold load
  rw [h]

/-- A source that is loaded is the document that its bytes say. -/
theorem ofBytes_of_load {quiet : Bool} {s : Source} {d : Document} {notices : List Notice}
    (h : load .keepAll quiet s = (.ok (some d), notices)) : Document.ofBytes s.content = .ok d := by
  unfold load at h
  simp only [Sieve.keepAll] at h
  split at h
  · simp at h
  · cases hread : Document.ofBytes s.content with
    | ok d' =>
      rw [hread] at h
      cases h
      rfl
    | error e =>
      rw [hread] at h
      cases e <;> simp at h

/-- The document of a source that is no mapping is empty, and its own restriction. -/
theorem restricts_of_not_mapping (keep : String → Bool) {content : Bytes} {d : Document}
    (read : Document.ofBytes content = .ok d)
    (other : ∀ entries, Value.ofBytes content ≠ .ok (.mapping entries)) : Restricts keep d d := by
  unfold Document.ofBytes Document.ofRead at read
  cases hv : Value.ofBytes content with
  | error e =>
    rw [hv] at read
    cases read
  | ok v =>
    rw [hv] at read
    cases v with
    | mapping entries => exact absurd hv (other entries)
    | null =>
      cases read
      exact Document.restricts_empty keep
    | _ => cases read

/-- A source that the sieve makes a document of is merged, unless it lacks a heading. -/
theorem load_eq_of_document {sieve : Sieve} {s : Source} {content : Bytes} {d : Document}
    (sieved : sieve s.content = .ok content) (read : Document.ofBytes content = .ok d)
    (quiet : Bool) :
    load sieve quiet s =
      if s.origin.needsHeading && (Heading.ofBytes? content).isNone then
        (.ok none, Notice.reported quiet [.headingMissing s.origin])
      else (.ok (some d), [.merging s.origin d.entries.length]) := by
  unfold load
  simp only [sieved, read]

/-- The sieve passes over what is passed over without it, and what is left of the rest is a
restriction. -/
theorem load_allowKeys {keys : List String}
    (unmarked : ∀ key ∈ keys, key.toList.head? ≠ some '\uFEFF') {s : Source}
    (short : s.HasShortKeys) {quiet : Bool} {next : Option Document} {notices : List Notice}
    (h : load .keepAll quiet s = (.ok next, notices)) :
    ∃ next' notices', load (.allowKeys keys) quiet s = (.ok next', notices') ∧
      Option.Rel (Restricts keys.contains) next next' ∧ passed notices' = passed notices := by
  by_cases hmapping : ∃ entries, Value.ofBytes s.content = .ok (.mapping entries)
  · obtain ⟨entries, hread⟩ := hmapping
    -- What the sieve writes has the heading of the source and the entries that are kept.
    have distinct := Value.distinct_ofBytes hread
    have hkept := distinct.restrict keys.contains
    obtain ⟨kept, hsieve, hheading, hkeptRead⟩ :=
      Sieve.allowKeys_mapping unmarked hread (short entries hread)
    have hdocument : Document.ofBytes s.content = .ok ⟨entries⟩ := by
      rw [Document.ofBytes, hread]
      rfl
    have hdocument' : Document.ofBytes kept = .ok ⟨Entries.sorted
        (Value.sortedEntries (Entries.restrict keys.contains entries))⟩ := by
      rw [Document.ofBytes, hkeptRead]
      rfl
    have hall : Sieve.keepAll s.content = .ok s.content := rfl
    have hload := load_eq_of_document hall hdocument quiet
    have hload' := load_eq_of_document hsieve hdocument' quiet
    rw [hheading] at hload'
    rw [hload] at h
    rw [hload']
    split at h
    · next hmissing =>
      cases h
      exact ⟨none, _, if_pos hmissing, .none, rfl⟩
    · next hheaded =>
      cases h
      exact ⟨_, _, if_neg hheaded, .some ⟨distinct, hkept.sorted, Value.sorted_sorted hkept⟩, rfl⟩
  · have hother : ∀ entries, Value.ofBytes s.content ≠ .ok (.mapping entries) :=
      fun entries hread => hmapping ⟨entries, hread⟩
    have hsame : Sieve.allowKeys keys s.content = Sieve.keepAll s.content :=
      Sieve.allowKeys_other keys hother
    refine ⟨next, notices, (load_congr hsame quiet).trans h, ?_, rfl⟩
    cases next with
    | none => exact .none
    | some d => exact .some (restricts_of_not_mapping _ (ofBytes_of_load h) hother)

/-- A source is passed over exactly when loading it gives nothing. -/
theorem passesOver_eq {sieve : Sieve} {quiet : Bool} {s : Source} {next : Option Document}
    {notices : List Notice} (h : load sieve quiet s = (.ok next, notices)) :
    passesOver sieve quiet s = next.isNone := by
  unfold passesOver
  rw [h]
  cases next <;> rfl

/-- One turn of the loop. -/
theorem fold_cons {sieve : Sieve} {quiet : Bool} {d result : Document} {s : Source}
    {sources : List Source} {notices : List Notice} :
    fold sieve quiet d (s :: sources) = (.ok result, notices) ↔
      ∃ next read d' more, load sieve quiet s = (.ok next, read) ∧
        (next.elim (Except.ok d) d.merge) = .ok d' ∧
        fold sieve quiet d' sources = (.ok result, more) ∧ notices = read ++ more := by
  rw [fold]
  rcases load sieve quiet s with ⟨e | next, read⟩
  · simp
  · cases next with
    | none =>
      rcases hfold : fold sieve quiet d sources with ⟨outcome, more⟩
      constructor
      · rintro ⟨⟩
        exact ⟨none, read, d, more, rfl, rfl, hfold, rfl⟩
      · rintro ⟨_, _, d', more', ⟨⟩, ⟨⟩, hfold', rfl⟩
        rw [hfold] at hfold'
        cases hfold'
        rfl
    | some next =>
      cases hmerge : d.merge next with
      | error cause => simp [hmerge]
      | ok merged =>
        rcases hfold : fold sieve quiet merged sources with ⟨outcome, more⟩
        simp only [hmerge, hfold]
        constructor
        · rintro ⟨⟩
          exact ⟨some next, read, merged, more, rfl, hmerge, hfold, rfl⟩
        · rintro ⟨_, _, d', more', ⟨⟩, hmerge', hfold', rfl⟩
          cases hmerge.symm.trans hmerge'
          rw [hfold] at hfold'
          cases hfold'
          rfl

/-- The run through the sieve comes to a restriction of what the run without it comes to, and passes
over the same sources. -/
theorem fold_allowKeys {keys : List String}
    (unmarked : ∀ key ∈ keys, key.toList.head? ≠ some '\uFEFF') {sources : List Source}
    (short : ∀ s ∈ sources, s.HasShortKeys) {quiet : Bool} {d d' result : Document}
    {notices : List Notice} (hd : Restricts keys.contains d d')
    (h : fold .keepAll quiet d sources = (.ok result, notices)) :
    ∃ result' notices', fold (.allowKeys keys) quiet d' sources = (.ok result', notices') ∧
      Restricts keys.contains result result' ∧ passed notices' = passed notices ∧
      ∀ s ∈ sources, passesOver (.allowKeys keys) quiet s = passesOver .keepAll quiet s := by
  induction sources generalizing d d' notices with
  | nil =>
    rw [fold] at h
    cases h
    exact ⟨d', [], rfl, hd, rfl, nofun⟩
  | cons s sources ih =>
    rw [List.forall_mem_cons] at short
    -- One turn without the sieve gives one with it, and the merged documents are related again.
    obtain ⟨next, read, merged, more, hload, hmerge, hfold, rfl⟩ := fold_cons.1 h
    obtain ⟨next', read', hload', hnext, hread⟩ := load_allowKeys unmarked short.1 hload
    obtain ⟨merged', hmerge', hmerged⟩ : ∃ merged',
        next'.elim (Except.ok d') d'.merge = .ok merged' ∧
          Restricts keys.contains merged merged' := by
      cases hnext with
      | none =>
        cases hmerge
        exact ⟨d', rfl, hd⟩
      | some hnext => exact hd.merge hnext hmerge
    obtain ⟨result', more', hfold', hresult, hmore, hpasses⟩ := ih short.2 hmerged hfold
    refine ⟨result', read' ++ more',
      fold_cons.2 ⟨next', read', merged', more', hload', hmerge', hfold', rfl⟩, hresult, ?_,
      List.forall_mem_cons.2 ⟨?_, hpasses⟩⟩
    · rw [passed_append, passed_append, hread, hmore]
    · rw [passesOver_eq hload', passesOver_eq hload]
      cases hnext <;> rfl

/-! ## Runs -/

/-- A run that merges its sources to a document comes to where the chain of that document leads. -/
theorem scan_eq {system : FileSystem} (web : Web) {o : Options} {sieve : Sieve}
    {sources : List Source} {d : Document} {notices : List Notice}
    (collected : (Source.collect system o).outcome = .ok sources)
    (folded : fold sieve o.quiet {} sources = (.ok d, notices)) :
    scan system web o sieve =
      let chain := Chain.resolve (o.fetcher.getD web.fetch) o.quiet o.linkLimit d
      { outcome := chain.outcome, fetched := chain.fetched,
        notices := (Source.collect system o).notices ++ notices ++ chain.notices } := by
  unfold scan
  simp only [collected, folded]

/-- A run that comes to a document has merged its sources. -/
theorem exists_fold_of_scan {system : FileSystem} {web : Web} {o : Options} {sieve : Sieve}
    {c : Document} (h : (scan system web o sieve).outcome = .ok c) :
    ∃ sources d notices, (Source.collect system o).outcome = .ok sources ∧
      fold sieve o.quiet {} sources = (.ok d, notices) := by
  unfold scan at h
  cases hcollected : (Source.collect system o).outcome with
  | error e =>
    simp only [hcollected] at h
    cases h
  | ok sources =>
    simp only [hcollected] at h
    rcases hfold : fold sieve o.quiet {} sources with ⟨e | d, notices⟩
    · simp only [hfold] at h
      cases h
    · exact ⟨sources, d, notices, rfl, hfold⟩

theorem resolve_of_unlinked {d : Document} (unlinked : d.link? = none) (fetcher : Fetcher)
    (quiet : Bool) (limit : Nat) : Chain.resolve fetcher quiet limit d = { outcome := .ok d } := by
  rw [Chain.resolve, unlinked]
  cases limit <;> rfl

/-- A chain that comes to a document without asking for a link ends where it starts. -/
theorem unlinked_of_resolve {fetcher : Fetcher} {quiet : Bool} {limit : Nat} {d result : Document}
    (ok : (Chain.resolve fetcher quiet limit d).outcome = .ok result)
    (fetched : (Chain.resolve fetcher quiet limit d).fetched = []) :
    d.link? = none := by
  cases hlink : d.link? with
  | none => rfl
  | some url =>
    rw [Chain.resolve, hlink] at ok fetched
    cases limit with
    | zero => cases ok
    | succ limit =>
      -- Whatever becomes of the link, it has been asked for.
      unfold Chain.follow at fetched
      simp only [List.contains_nil, Bool.false_eq_true, if_false] at fetched
      repeat' split at fetched
      all_goals cases fetched

/-- **Keeping keys before the merge is restricting after it.** If a run through no sieve comes to a
document without following a link, then so does the run that keeps some keys of each source: it
passes over the same sources, and comes to the restriction of that document. -/
theorem scan_allowKeys (system : FileSystem) (web : Web) (o : Options) (keys : List String)
    (c : Document)
    (unmarked : ∀ key ∈ keys, key.toList.head? ≠ some '\uFEFF')
    (short : ∀ sources, (Source.collect system o).outcome = .ok sources →
      ∀ s ∈ sources, s.HasShortKeys)
    (ok : (scan system web o .keepAll).outcome = .ok c)
    (unlinked : (scan system web o .keepAll).fetched = []) :
    ∃ c', (scan system web o (.allowKeys keys)).outcome = .ok c' ∧
      (scan system web o (.allowKeys keys)).fetched = [] ∧
      passed (scan system web o (.allowKeys keys)).notices =
        passed (scan system web o .keepAll).notices ∧
      (∀ sources, (Source.collect system o).outcome = .ok sources → ∀ s ∈ sources,
        passesOver (.allowKeys keys) o.quiet s = passesOver .keepAll o.quiet s) ∧
      c'.toValue.sorted = (c.restrict keys.contains).toValue.sorted ∧
      c'.toText = (c.restrict keys.contains).toText := by
  obtain ⟨sources, d, notices, hcollected, hfold⟩ := exists_fold_of_scan ok
  have hshort := short sources hcollected
  obtain ⟨d', notices', hfold', hd, hnotices, hpasses⟩ :=
    fold_allowKeys unmarked hshort (Document.restricts_empty _) hfold
  have hscan := scan_eq web hcollected hfold
  have hscan' := scan_eq web hcollected hfold'
  -- No link was followed, so the chain ends where it starts, and a restriction names no new link.
  have hlink : d.link? = none := by
    rw [hscan] at ok unlinked
    exact unlinked_of_resolve ok unlinked
  rw [resolve_of_unlinked hlink] at hscan
  rw [resolve_of_unlinked (hd.link?_eq_none hlink)] at hscan'
  obtain rfl : d = c := by
    rw [hscan] at ok
    cases ok
    rfl
  refine ⟨d', by rw [hscan'], by rw [hscan'], ?_, ?_, hd.sorted_eq, hd.toText_eq⟩
  · rw [hscan, hscan']
    simp only [passed_append, hnotices]
  · intro sources' hcollected'
    cases hcollected.symm.trans hcollected'
    exact hpasses

/-- A file with a heading, one without that is no text, and a document that is laid over them: of
their keys the sieve leaves the one that it allows. -/
theorem scan_allowKeys_headed_and_headless :
    let first : Document := ⟨[("a", .string "old"), ("b", .null)]⟩
    let second : Document := ⟨[("a", .string "new"), ("c", .string "more")]⟩
    let conf : FileNode := .directory
      [("a", .file (Bytes.ofText first.toText)), ("b", .file [0xFF])]
    let system : FileSystem := { root := .directory [("conf", conf)] }
    let o : Options := { directories := ["conf"], overwrites := some second.toText }
    ∃ c', (scan system (.error "Http") o (.allowKeys ["a"])).outcome = .ok c' ∧
      c'.toText = "#cloud-config\n\na: new\n" := by
  intro first second conf system o
  have hfirst : first.IsFlat := ⟨by decide, by decide, by decide⟩
  have hsecond : second.IsFlat := ⟨by decide, by decide, by decide⟩
  have hcollected : (Source.collect system o).outcome =
      .ok [⟨.file "conf/a", Bytes.ofText first.toText⟩, ⟨.file "conf/b", [0xFF]⟩,
        ⟨.overwrites, Bytes.ofText second.toText⟩] := by
    have hlisting : system.listing "conf" =
        .ok [⟨"conf/a", Bytes.ofText first.toText⟩, ⟨"conf/b", [0xFF]⟩] := by
      show Except.ok (FileNode.filesBelow "conf" conf) = _
      unfold conf FileNode.filesBelow FileNode.filesOfEntries
      rw [List.mergeSort_of_pairwise (by decide)]
      rfl
    have hfiles : Source.ofDirectories system ["conf"] =
        .ok [⟨.file "conf/a", Bytes.ofText first.toText⟩, ⟨.file "conf/b", [0xFF]⟩] := by
      rw [Source.ofDirectories, List.mapM_cons, Source.ofDirectory, hlisting]
      rfl
    unfold Source.collect
    rw [hfiles]
    rfl
  obtain ⟨notices, hfold⟩ : ∃ notices, fold .keepAll false {}
      [⟨.file "conf/a", Bytes.ofText first.toText⟩, ⟨.file "conf/b", [0xFF]⟩,
        ⟨.overwrites, Bytes.ofText second.toText⟩] =
      (.ok ⟨[("a", .string "new"), ("b", .null), ("c", .string "more")]⟩, notices) := by
    have headed : Heading.ofBytes? (Bytes.ofText first.toText) = some .cloudConfig :=
      Heading.ofBytes?_heading .cloudConfig _
    have hload := @load_eq_of_document .keepAll ⟨.file "conf/a", Bytes.ofText first.toText⟩ _ _
      rfl hfirst.ofBytes_toText false
    have hload' := @load_eq_of_document .keepAll ⟨.overwrites, Bytes.ofText second.toText⟩ _ _
      rfl hsecond.ofBytes_toText false
    rw [headed] at hload
    exact ⟨_, fold_cons.2 ⟨_, _, _, _, hload, rfl,
      fold_cons.2 ⟨none, _, _, _, rfl, rfl,
        fold_cons.2 ⟨_, _, _, _, hload', rfl, rfl, rfl⟩, rfl⟩, rfl⟩⟩
  have hscan := scan_eq (.error "Http") hcollected hfold
  rw [resolve_of_unlinked rfl] at hscan
  have hshort : ∀ sources, (Source.collect system o).outcome = .ok sources →
      ∀ s ∈ sources, s.HasShortKeys := by
    intro sources hsources s hs entries hread
    cases hcollected.symm.trans hsources
    simp only [List.mem_cons, List.not_mem_nil, or_false] at hs
    rcases hs with rfl | rfl | rfl
    · cases hfirst.value_ofBytes_toText.symm.trans hread
      exact hfirst.everywhere_short
    · cases hread
    · cases hsecond.value_ofBytes_toText.symm.trans hread
      exact hsecond.everywhere_short
  obtain ⟨c', houtcome, -, -, -, -, htext⟩ := scan_allowKeys system (.error "Http") o ["a"] _
    (by decide) hshort (congrArg Run.outcome hscan) (congrArg Run.fetched hscan)
  refine ⟨c', houtcome, htext.trans ?_⟩
  have hsorted : (Value.mapping [("a", .string "new")]).sorted = .mapping [("a", .string "new")] :=
    Value.sorted_mapping_of_ordered (by decide) (by simp [Value.sorted])
  show Heading.cloudConfig.text ++ "\n\n" ++ (Value.mapping [("a", .string "new")]).toYaml = _
  rw [Value.toYaml, hsorted]
  decide

end Run

end Provision
