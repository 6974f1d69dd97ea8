import Provision.Gather.Run
import Provision.Proofs.FileTrees.Agreement
import Provision.Proofs.Headings.Written
import Provision.Proofs.Runs.Collecting

/-!
# Files without a heading do not interfere

A run over two systems that differ in files without a heading comes to the same, whatever these
files hold: to one document or one error, asking for the same links (`Run.scan_agree`).

* **sieves** — a sieve that writes a source anew gives no heading to one that has none
  (`Sieve.keepsHeadless_allowKeys`);
* **sources** — the sources that need no heading or have one are the same and come in the same order
  (`Source.collect_agree`);
* **runs** — the others are passed over, turn by turn, and nothing but a notice tells of them
  (`Run.fold_filter`).

The files that make the difference have to be readable, as one that the system refuses to read ends
a run. Besides, there are two traces that such a file can leave. Where the path of a configured
directory goes on after the name of the file, the directory cannot be listed with the file there or
without it, but the reason is another; and where the path of the boot file does so, the notice that
it cannot be read gives another reason (`Run.scan_agree_obstructed`).
-/

namespace Provision

open FileSystem (Agree SameFile LeadsThrough Loses)

namespace Sieve

/-- Whether a sieve refuses nothing that has no heading, and gives it none. -/
def KeepsHeadless (sieve : Sieve) : Prop :=
  ∀ content, Heading.ofBytes? content = none →
    ∃ kept, sieve content = .ok kept ∧ Heading.ofBytes? kept = none

theorem keepsHeadless_keepAll : KeepsHeadless .keepAll := fun content h => ⟨content, rfl, h⟩

theorem keepsHeadless_allowKeys (keys : List String) : KeepsHeadless (.allowKeys keys) := by
  intro content heading
  unfold allowKeys
  split
  · exact ⟨_, rfl, by rw [heading, Heading.ofBytes?_written]⟩
  · exact ⟨content, rfl, heading⟩

end Sieve

/-! ## Sources -/

/-- Whether a directory of two systems cannot be listed in either because its path goes on after a
file without a heading, which is in the first system only. -/
def Obstructed {α : Type} (paths : List String) (system system' : FileSystem)
    (outcome outcome' : Except GatherError α) : Prop :=
  ∃ path ∈ paths, LeadsThrough path system system' ∧
    outcome = .error (.directory path .notADirectory) ∧
    outcome' = .error (.directory path .notFound)

theorem Obstructed.bind {α β : Type} {paths : List String} {system system' : FileSystem}
    {outcome outcome' : Except GatherError α}
    (obstructed : Obstructed paths system system' outcome outcome')
    (next next' : α → Except GatherError β) :
    Obstructed paths system system' (outcome.bind next) (outcome'.bind next') := by
  obtain ⟨path, hpath, through, rfl, rfl⟩ := obstructed
  exact ⟨path, hpath, through, rfl, rfl⟩

/-- Whether the boot file of two systems is reported unreadable in both, first of all, because its
path goes on after a file without a heading, which is in the first system only. -/
def BootObstructed (path : String) (system system' : FileSystem)
    (notices notices' : List Notice) : Prop :=
  LeadsThrough path system system' ∧ ∃ rest,
    notices = .bootLineUnreadable path (.unreached .notADirectory) :: rest ∧
    notices' = .bootLineUnreadable path (.unreached .notFound) :: rest

namespace Source

/-- Whether a source takes part in a run: it needs no heading, or it has one. -/
def takesPart (s : Source) : Bool :=
  !s.origin.needsHeading || (Heading.ofBytes? s.content).isSome

/-- How the sources are related that are collected from systems that agree. -/
inductive Collects (paths : List String) (system system' : FileSystem) :
    Except GatherError (List Source) → Except GatherError (List Source) → Prop
  | sources {sources sources' : List Source}
      (taking : sources.filter (·.takesPart) = sources'.filter (·.takesPart)) :
      Collects paths system system' (.ok sources) (.ok sources')
  | error (e : GatherError) : Collects paths system system' (.error e) (.error e)
  | removed {outcome outcome' : Except GatherError (List Source)}
      (obstructed : Obstructed paths system system' outcome outcome') :
      Collects paths system system' outcome outcome'
  | added {outcome outcome' : Except GatherError (List Source)}
      (obstructed : Obstructed paths system' system outcome' outcome) :
      Collects paths system system' outcome outcome'

variable {system system' : FileSystem} {path : String} {paths : List String} {o : Options}

/-- Whether a file makes a difference to a run: it cannot be read, or what is read takes part. -/
def matters (read : Reading) (file : FoundFile) : Bool :=
  match ofFile read file with
  | .error _ => true
  | .ok s => s.takesPart

theorem matters_eq_false {read : Reading} {file : FoundFile}
    (readable : read file = .ok file.content) (heading : Heading.ofBytes? file.content = none) :
    matters read file = false := by
  simp [matters, ofFile, readable, takesPart, heading, Origin.needsHeading]

/-- Files that make no difference can be left out. -/
theorem mapM_filter_matters (read : Reading) (files : List FoundFile) :
    ((files.filter (matters read)).mapM (ofFile read)).map (·.filter (·.takesPart)) =
      (files.mapM (ofFile read)).map (·.filter (·.takesPart)) := by
  induction files with
  | nil => rfl
  | cons file files ih =>
    cases hfile : ofFile read file with
    | error e =>
      have hmatters : matters read file = true := by rw [matters, hfile]
      rw [List.filter_cons_of_pos hmatters, mapM_cons, mapM_cons, hfile]
      rfl
    | ok s =>
      have hmatters : matters read file = s.takesPart := by rw [matters, hfile]
      have hmore (l : Except GatherError (List Source)) :
          (l.map (s :: ·)).map (·.filter (·.takesPart)) =
            if s.takesPart then (l.map (·.filter (·.takesPart))).map (s :: ·)
            else l.map (·.filter (·.takesPart)) := by
        cases l <;> cases h : s.takesPart <;> simp [Except.map, h]
      cases htakes : s.takesPart with
      | false =>
        rw [List.filter_cons_of_neg (by simp [hmatters, htakes]), ih, mapM_cons, hfile]
        simp only [Except.bind, hmore, htakes, Bool.false_eq_true, if_false]
      | true =>
        rw [List.filter_cons_of_pos (by rw [hmatters, htakes]), mapM_cons, mapM_cons, hfile]
        simp only [Except.bind, hmore, htakes, if_true, ih]

namespace Collects

/-- Outcomes that are the same but for sources that do not take part. -/
theorem of_map_eq {outcome outcome' : Except GatherError (List Source)}
    (h : outcome.map (·.filter (·.takesPart)) = outcome'.map (·.filter (·.takesPart))) :
    Collects paths system system' outcome outcome' := by
  cases outcome with
  | error e =>
    cases outcome' <;> cases h
    exact .error e
  | ok sources =>
    cases outcome' with
    | error e => cases h
    | ok sources' => exact .sources (Except.ok.inj h)

theorem mono {outcome outcome' : Except GatherError (List Source)} {more : List String}
    (collects : Collects paths system system' outcome outcome') (h : paths ⊆ more) :
    Collects more system system' outcome outcome' := by
  cases collects with
  | sources taking => exact .sources taking
  | error e => exact .error e
  | removed obstructed => exact .removed (obstructed.imp fun path hpath => hpath.imp_left (@h path))
  | added obstructed => exact .added (obstructed.imp fun path hpath => hpath.imp_left (@h path))

/-- What is collected after sources that are the same but for those that do not take part. -/
theorem bind {outcome outcome' : Except GatherError (List Source)}
    (collects : Collects paths system system' outcome outcome')
    {next next' : List Source → Except GatherError (List Source)}
    (each : ∀ sources sources' : List Source,
      sources.filter (·.takesPart) = sources'.filter (·.takesPart) →
        Collects paths system system' (next sources) (next' sources')) :
    Collects paths system system' (outcome.bind next) (outcome'.bind next') := by
  cases collects with
  | sources taking => exact each _ _ taking
  | error e => exact .error e
  | removed obstructed => exact .removed (obstructed.bind next next')
  | added obstructed => exact .added (obstructed.bind next' next)

end Collects

/-- A file that is found in one of two systems only makes no difference, if it can be read. -/
theorem matters_of_loses {n n' : FileNode} (agree : n.Agree n') (hat : system.at? path = .ok n)
    (hat' : system'.at? path = .ok n') {read : Reading}
    (readable : ∀ file, Loses path system system' file → read file = .ok file.content)
    {f : List String × Bytes} (loses : n.Loses n' f) :
    matters read (FileNode.found path f) = false := by
  have gone : ∀ node', system'.at? path = .ok node' → ¬ node'.HasFile f.1 f.2 := by
    intro node' hnode'
    cases hat'.symm.trans hnode'
    exact loses.2
  exact matters_eq_false (readable _ ⟨n, f, hat, loses.1, rfl, gone⟩) (agree.heading_of_loses loses)

/-- The sources of one directory. -/
theorem ofDirectory_agree (agree : system.Agree system') (same : SameFile path system system')
    (readable : ∀ file, Loses path system system' file ∨ Loses path system' system file →
      system.read file = .ok file.content) :
    Collects [path] system system' (ofDirectory system path) (ofDirectory system' path) := by
  unfold ofDirectory FileSystem.listing
  rcases FileSystem.at?_agree agree same with ⟨n, n', hat, hat', hagree⟩ | ⟨fault, hat, hat'⟩ |
    ⟨through, hat, hat'⟩ | ⟨through, hat', hat⟩
  · have lost (f : List String × Bytes) (loses : n.Loses n' f) :
        matters system.read (FileNode.found path f) = false :=
      matters_of_loses hagree hat hat' (fun file h => readable file (.inl h)) loses
    have lost' (f : List String × Bytes) (loses : n'.Loses n f) :
        matters system.read (FileNode.found path f) = false :=
      matters_of_loses hagree.symm hat' hat (fun file h => readable file (.inr h)) loses
    rw [hat, hat', ← agree.read]
    refine .of_map_eq ?_
    show Except.map _ ((n.filesBelow path).mapM _) = Except.map _ ((n'.filesBelow path).mapM _)
    rw [← mapM_filter_matters, FileNode.filter_filesBelow hagree path lost lost',
      mapM_filter_matters]
  · rw [hat, hat']
    exact .error _
  · rw [hat, hat']
    exact .removed ⟨path, List.mem_singleton_self path, through, rfl, rfl⟩
  · rw [hat, hat']
    exact .added ⟨path, List.mem_singleton_self path, through, rfl, rfl⟩

theorem ofDirectories_cons (system : FileSystem) (path : String) (paths : List String) :
    ofDirectories system (path :: paths) =
      (ofDirectory system path).bind fun files =>
        (ofDirectories system paths).bind fun more => .ok (files ++ more) := by
  unfold ofDirectories
  rw [mapM_cons]
  cases ofDirectory system path with
  | error e => rfl
  | ok files => cases paths.mapM (ofDirectory system) <;> rfl

/-- The sources of directories, by induction on these. -/
theorem ofDirectories_agree (agree : system.Agree system')
    (same : ∀ path ∈ paths, SameFile path system system')
    (readable : ∀ path ∈ paths, ∀ file,
      Loses path system system' file ∨ Loses path system' system file →
      system.read file = .ok file.content) :
    Collects paths system system' (ofDirectories system paths) (ofDirectories system' paths) := by
  induction paths with
  | nil => exact .sources rfl
  | cons path paths ih =>
    rw [List.forall_mem_cons] at same readable
    have hfirst := ofDirectory_agree agree same.1 readable.1
    have hmore := ih same.2 readable.2
    rw [ofDirectories_cons, ofDirectories_cons]
    refine (hfirst.mono (by simp)).bind ?_
    intro files files' taking
    refine (hmore.mono (List.subset_cons_self path paths)).bind ?_
    intro more more' taking'
    exact .sources (by rw [List.filter_append, List.filter_append, taking, taking'])

/-- The source of the boot line, and what is reported of it. -/
theorem ofBootLine_agree (agree : system.Agree system')
    (boot : o.mergeBootLine = true → SameFile o.bootFile system system') :
    ofBoot system o = ofBoot system' o ∧
      ((ofBootLine system o).2 = (ofBootLine system' o).2 ∨
        BootObstructed o.bootFile system system' (ofBootLine system o).2 (ofBootLine system' o).2 ∨
        BootObstructed o.bootFile system' system (ofBootLine system' o).2
          (ofBootLine system o).2) := by
  unfold ofBootLine ofBoot
  split
  · next hasked =>
    rcases FileSystem.text?_agree agree (boot hasked) with h | ⟨through, h, h'⟩ | ⟨through, h', h⟩
    · rw [h]
      exact ⟨rfl, .inl rfl⟩
    · rw [h, h']
      cases o.quiet with
      | true => exact ⟨rfl, .inl rfl⟩
      | false => exact ⟨rfl, .inr (.inl ⟨through, [], rfl, rfl⟩)⟩
    · rw [h, h']
      cases o.quiet with
      | true => exact ⟨rfl, .inl rfl⟩
      | false => exact ⟨rfl, .inr (.inr ⟨through, [], rfl, rfl⟩)⟩
  · exact ⟨rfl, .inl rfl⟩

theorem notices_collect (system : FileSystem) (o : Options) :
    (collect system o).notices = (ofBootLine system o).2 := by
  unfold collect
  cases ofDirectories system o.directories <;> rfl

/-- The sources of a run over systems that agree. -/
theorem collect_agree (agree : system.Agree system')
    (boot : o.mergeBootLine = true → SameFile o.bootFile system system')
    (named : ∀ path ∈ o.directories, SameFile path system system')
    (readable : ∀ path ∈ o.directories, ∀ file,
      Loses path system system' file ∨ Loses path system' system file →
      system.read file = .ok file.content) :
    Collects o.directories system system' (collect system o).outcome
      (collect system' o).outcome := by
  have outcome_eq (system : FileSystem) : (collect system o).outcome =
      (ofDirectories system o.directories).bind fun files => (ofReaders o.readers).map
        fun contents => ofBoot system o ++ files ++ contents ++ ofOverwrites o := by
    cases h : ofDirectories system o.directories with
    | error e => exact (collect_of_fault h).1
    | ok files => exact (collect_of_files h).1
  rw [outcome_eq, outcome_eq, (ofBootLine_agree agree boot).1]
  refine (ofDirectories_agree agree named readable).bind ?_
  intro files files' taking
  cases ofReaders o.readers with
  | error e => exact .error e
  | ok contents => exact .sources (by simp only [List.filter_append, taking])

end Source

/-! ## Runs -/

/-- Whether a notice tells that a source has no heading. -/
def Notice.isHeadingMissing : Notice → Bool
  | .headingMissing _ => true
  | _ => false

namespace Run

/-- The notices of a run but for those of sources without a heading. -/
def besides (notices : List Notice) : List Notice := notices.filter (!·.isHeadingMissing)

theorem besides_append (first second : List Notice) :
    besides (first ++ second) = besides first ++ besides second := List.filter_append _ _

/-- A source that needs a heading and has none is passed over. -/
theorem load_of_not_takesPart {sieve : Sieve} (keeps : sieve.KeepsHeadless) {s : Source}
    (h : s.takesPart = false) (quiet : Bool) :
    load sieve quiet s = (.ok none, Notice.reported quiet [.headingMissing s.origin]) := by
  simp only [Source.takesPart, Bool.or_eq_false_iff, Bool.not_eq_false', Option.isSome_eq_false_iff,
    Option.isNone_iff_eq_none] at h
  obtain ⟨kept, hkept, hheading⟩ := keeps s.content h.2
  simp only [load, hkept, h.1, hheading, Option.isNone_none, Bool.and_self, if_true]

/-- A run over sources comes to the same as one over those that take part, one turn after the
other. -/
theorem fold_filter {sieve : Sieve} (keeps : sieve.KeepsHeadless) (quiet : Bool) (d : Document)
    (sources : List Source) :
    (fold sieve quiet d (sources.filter (·.takesPart))).1 = (fold sieve quiet d sources).1 ∧
      besides (fold sieve quiet d (sources.filter (·.takesPart))).2 =
        besides (fold sieve quiet d sources).2 := by
  induction sources generalizing d with
  | nil => exact ⟨rfl, rfl⟩
  | cons s sources ih =>
    cases htakes : s.takesPart with
    | false =>
      have hpassed : besides (Notice.reported quiet [.headingMissing s.origin]) = [] := by
        cases quiet <;> rfl
      rw [List.filter_cons_of_neg (by simp [htakes]), fold, load_of_not_takesPart keeps htakes]
      simp only [besides_append, hpassed, List.nil_append]
      exact ih d
    | true =>
      rw [List.filter_cons_of_pos htakes, fold, fold]
      rcases load sieve quiet s with ⟨e | next, notices⟩
      · exact ⟨rfl, rfl⟩
      · cases next with
        | none =>
          refine ⟨(ih d).1, ?_⟩
          simp only [besides_append, (ih d).2]
        | some next =>
          cases hmerge : d.merge next with
          | error cause => simp [hmerge]
          | ok merged =>
            simp only [hmerge, besides_append]
            exact ⟨(ih merged).1, congrArg _ (ih merged).2⟩

/-- Runs that are told of alike but for the boot file and what has no heading. -/
theorem besides_agree {path : String} {system system' : FileSystem}
    {notices notices' more more' : List Notice}
    (h : notices = notices' ∨ BootObstructed path system system' notices notices' ∨
      BootObstructed path system' system notices' notices)
    (hmore : besides more = besides more') :
    besides (notices ++ more) = besides (notices' ++ more') ∨
      BootObstructed path system system' (besides (notices ++ more))
        (besides (notices' ++ more')) ∨
      BootObstructed path system' system (besides (notices' ++ more'))
        (besides (notices ++ more)) := by
  rw [besides_append, besides_append, hmore]
  rcases h with rfl | ⟨through, rest, rfl, rfl⟩ | ⟨through, rest, rfl, rfl⟩
  · exact .inl rfl
  · exact .inr (.inl ⟨through, besides rest ++ besides more', rfl, rfl⟩)
  · exact .inr (.inr ⟨through, besides rest ++ besides more', rfl, rfl⟩)

/-- **Files without a heading do not interfere.** Two systems differ in such files only, and neither
the boot file nor what is named as a configured directory is one of them; those that are found in a
configured directory of one system only can be read. Then the runs over them, through no sieve or
through one that keeps some keys, ask for the same links, report the same but for the files without
a heading, and come to the same document or error; unless the path of the boot file goes on after
such a file, or after its name, so that it is reported unreadable for another reason, or that of a
configured directory does so, so that it cannot be listed for another reason. -/
theorem scan_agree {system system' : FileSystem} (agree : system.Agree system') (web : Web)
    (o : Options) (boot : o.mergeBootLine = true → SameFile o.bootFile system system')
    (named : ∀ path ∈ o.directories, SameFile path system system')
    (readable : ∀ path ∈ o.directories, ∀ file,
      Loses path system system' file ∨ Loses path system' system file →
      system.read file = .ok file.content)
    (sieve : Sieve) (sieves : sieve = .keepAll ∨ ∃ keys, sieve = .allowKeys keys) :
    let run := scan system web o sieve
    let run' := scan system' web o sieve
    run.fetched = run'.fetched ∧
      (besides run.notices = besides run'.notices ∨
        BootObstructed o.bootFile system system' (besides run.notices) (besides run'.notices) ∨
        BootObstructed o.bootFile system' system (besides run'.notices) (besides run.notices)) ∧
      (run.outcome = run'.outcome ∨
        Obstructed o.directories system system' run.outcome run'.outcome ∨
        Obstructed o.directories system' system run'.outcome run.outcome) := by
  have keeps : sieve.KeepsHeadless := by
    rcases sieves with rfl | ⟨keys, rfl⟩
    · exact Sieve.keepsHeadless_keepAll
    · exact Sieve.keepsHeadless_allowKeys keys
  have hnotices := (Source.ofBootLine_agree agree boot).2
  rw [← Source.notices_collect, ← Source.notices_collect] at hnotices
  have hsources := Source.collect_agree agree boot named readable
  unfold scan
  generalize Source.collect system o = collected at hsources hnotices
  generalize Source.collect system' o = collected' at hsources hnotices
  obtain ⟨outcome, options, notices⟩ := collected
  obtain ⟨outcome', options', notices'⟩ := collected'
  dsimp only at hsources hnotices
  have hcollected := besides_agree hnotices (rfl : besides [] = besides [])
  rw [List.append_nil, List.append_nil] at hcollected
  cases hsources with
  | @sources sources sources' taking =>
    -- Both runs come to what the run over the sources that take part comes to.
    have hfold := fold_filter keeps o.quiet {} sources
    have hfold' := fold_filter keeps o.quiet {} sources'
    rw [taking] at hfold
    have houtcome := hfold.1.symm.trans hfold'.1
    have hbesides := hfold.2.symm.trans hfold'.2
    rcases hrun : fold sieve o.quiet {} sources with ⟨outcome, more⟩
    rcases hrun' : fold sieve o.quiet {} sources' with ⟨outcome', more'⟩
    rw [hrun, hrun'] at houtcome hbesides
    dsimp only at houtcome hbesides
    subst houtcome
    cases outcome with
    | error e =>
      simp only [hrun, hrun', true_and, true_or, and_true]
      exact besides_agree hnotices hbesides
    | ok d =>
      simp only [hrun, hrun', List.append_assoc, true_and, true_or, and_true]
      exact besides_agree hnotices (by rw [besides_append, besides_append, hbesides])
  | error e => exact ⟨rfl, hcollected, .inl rfl⟩
  | removed obstructed =>
    obtain ⟨path, hpath, through, rfl, rfl⟩ := obstructed
    exact ⟨rfl, hcollected, .inr (.inl ⟨path, hpath, through, rfl, rfl⟩)⟩
  | added obstructed =>
    obtain ⟨path, hpath, through, rfl, rfl⟩ := obstructed
    exact ⟨rfl, hcollected, .inr (.inr ⟨path, hpath, through, rfl, rfl⟩)⟩

/-- A file without a heading is added beside one with a heading, and another one, which is no text,
is written anew, in a run that keeps one key. -/
theorem scan_agree_beside_headed :
    let headed : FileNode := .file (Bytes.ofText "#cloud-config\nk: 1\n")
    let conf : FileNode := .directory [("a", headed), ("c", .file [0xFF])]
    let conf' : FileNode := .directory
      [("b", .file (Bytes.ofText "k: 2\n")), ("a", headed), ("c", .file (Bytes.ofText "k: [\n"))]
    let system : FileSystem := { root := .directory [("conf", conf)] }
    let system' : FileSystem := { root := .directory [("conf", conf')] }
    let o : Options := { directories := ["conf"] }
    let run := scan system (.error "Http") o (.allowKeys ["k"])
    let run' := scan system' (.error "Http") o (.allowKeys ["k"])
    run.fetched = run'.fetched ∧ run.outcome = run'.outcome := by
  intro headed conf conf' system system' o run run'
  have hconf : conf.Agree conf' := by
    have rewritten : (FileNode.file [0xFF]).Agree (.file (Bytes.ofText "k: [\n")) :=
      .rewritten (by decide) (by decide)
    have last : (FileNode.directory [("c", .file [0xFF])]).Agree
        (.directory [("c", .file (Bytes.ofText "k: [\n"))]) :=
      .cons rewritten .empty (by decide) (by decide)
    exact .add (by decide) (.cons (.same _) last (by decide) (by decide)) (by decide) (by decide)
  have agree : system.Agree system' := ⟨.cons hconf .empty (by decide) (by decide), rfl, rfl⟩
  obtain ⟨hfetched, -, houtcome⟩ := scan_agree agree (.error "Http") o nofun
    (fun path hpath => List.mem_singleton.1 hpath ▸ .of_directory rfl rfl)
    (fun path hpath file hfile => rfl) (.allowKeys ["k"]) (.inr ⟨_, rfl⟩)
  -- A path of one segment leads through nothing.
  have hthrough (system system' : FileSystem) (relative : system.names "conf" = ["conf"]) :
      ¬ LeadsThrough "conf" system system' := by
    rintro ⟨front, name, back, content, hnames, hfile, -, hgone⟩
    have hfront : front = [] := by
      have hlength := congrArg List.length (relative.symm.trans hnames)
      simp only [List.length_append, List.length_cons, List.length_nil] at hlength
      exact List.length_eq_zero_iff.1 (by omega)
    subst hfront
    cases hgone
  refine ⟨hfetched, ?_⟩
  rcases houtcome with h | ⟨path, hpath, through, -⟩ | ⟨path, hpath, through, -⟩
  · exact h
  · exact absurd through (List.mem_singleton.1 hpath ▸ hthrough _ _ (by decide))
  · exact absurd through (List.mem_singleton.1 hpath ▸ hthrough _ _ (by decide))

/-- What a configured directory cannot be listed for, and what a boot file cannot be read for, may
depend on a file without a heading; and one that is refused ends the run. -/
theorem scan_agree_obstructed :
    let conf : FileNode := .directory []
    let conf' : FileNode := .directory [("a", .file (Bytes.ofText "x: 1\n"))]
    let system (conf : FileNode) (read : Reading) : FileSystem :=
      { root := .directory [("conf", conf)], read }
    let web : Web := .error "Http"
    let refusing : Reading := fun _ => .error "PermissionDenied"
    let listed : Options := { directories := ["conf", "conf/a/b"] }
    let booted : Options := { bootFile := "conf/a/b", mergeBootLine := true }
    let plain : Options := { directories := ["conf"] }
    (∀ read, (system conf read).Agree (system conf' read) ∧
      ∀ path ∈ ["conf", "conf/a/b"], SameFile path (system conf read) (system conf' read)) ∧
    ((scan (system conf .granted) web listed .keepAll).outcome =
        .error (.directory "conf/a/b" .notFound) ∧
      (scan (system conf' .granted) web listed .keepAll).outcome =
        .error (.directory "conf/a/b" .notADirectory)) ∧
    ((scan (system conf .granted) web booted .keepAll).notices =
        [.bootLineUnreadable "conf/a/b" (.unreached .notFound)] ∧
      (scan (system conf' .granted) web booted .keepAll).notices =
        [.bootLineUnreadable "conf/a/b" (.unreached .notADirectory)]) ∧
    (scan (system conf refusing) web plain .keepAll).outcome = .ok {} ∧
      (scan (system conf' refusing) web plain .keepAll).outcome =
        .error (.file "conf/a" "PermissionDenied") := by
  intro conf conf' system web refusing listed booted plain
  have hconf : conf.Agree conf' := .add (by decide) .empty (by decide) (by decide)
  have agree (read : Reading) : (system conf read).Agree (system conf' read) :=
    ⟨.cons hconf .empty (by decide) (by decide), rfl, rfl⟩
  have hempty (read : Reading) : (system conf read).listing "conf" = .ok [] := by
    show Except.ok (FileNode.filesBelow "conf" (.directory [])) = _
    rw [FileNode.filesBelow_directory, Entries.sorted, List.mergeSort_nil]
    rfl
  have hone (read : Reading) : (system conf' read).listing "conf" =
      .ok [⟨"conf/a", Bytes.ofText "x: 1\n"⟩] :=
    congrArg Except.ok (FileNode.filesBelow_singleton "conf" "a" _)
  refine ⟨fun read => ⟨agree read, ?_⟩, ⟨?_, ?_⟩, ⟨by decide, by decide⟩, ?_, ?_⟩
  · intro path hpath
    rcases List.mem_pair.1 hpath with rfl | rfl
    · exact .of_directory rfl rfl
    · intro content
      constructor <;> intro h <;> cases h
  -- The first directory can be listed in all four runs, so each ends where it must.
  · unfold scan Source.collect
    rw [Source.ofDirectories_cons, Source.ofDirectory, hempty]
    rfl
  · unfold scan Source.collect
    rw [Source.ofDirectories_cons, Source.ofDirectory, hone]
    rfl
  · unfold scan Source.collect
    rw [Source.ofDirectories_cons, Source.ofDirectory, hempty]
    rfl
  · unfold scan Source.collect
    rw [Source.ofDirectories_cons, Source.ofDirectory, hone]
    rfl

end Run

end Provision
