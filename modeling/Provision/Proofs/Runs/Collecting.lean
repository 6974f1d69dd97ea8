import Mathlib.Data.List.Forall2
import Provision.Gather.Source
import Provision.Proofs.FileTrees.Places

/-!
# Collecting

Sources are collected one after the other, and the first that cannot be had ends the collection.
What a collection comes to is thus said by what comes of each (`mapM_eq_ok_iff`,
`mapM_eq_error_iff`):

* **files** — the files of a directory are read in turn, up to the first that the system refuses,
  and directories in turn, up to the first that cannot be listed or has such a file
  (`ofDirectories_eq_error_iff`); no reader has been touched by then;
* **readers** — they are read in turn, up to the first that fails (`ofReaders_eq_error_iff`);
  whichever that is, none is left for the next time;
* **the whole** — a collection comes to the sources in order (`collect_eq_ok_iff`), or to what is
  wrong with the first that cannot be had (`collect_eq_error_iff`). A second collection comes to the
  sources without the readers, to the same error, or, where a reader failed, to an end
  (`collect_twice`).
-/

namespace Provision.Source

variable {system : FileSystem} {read : Reading} {o : Options} {sources : List Source}
  {e : GatherError}

/-! ## What there is to collect -/

/-- Whether an element of a list is reached from the front, through elements with a property only,
which are those before it. -/
def Reaches {α : Type} (p : α → Prop) (l before : List α) (x : α) : Prop :=
  (∀ y ∈ before, p y) ∧ ∃ after, l = before ++ x :: after

/-- Whether a source is a file with what the system reads there. -/
def IsRead (read : Reading) (file : FoundFile) (s : Source) : Prop :=
  ∃ content, read file = .ok content ∧ s = ⟨.file file.path, content⟩

/-- Whether a directory gives these sources: one for each file that is listed, in the order of the
listing. -/
def Gives (system : FileSystem) (path : String) (sources : List Source) : Prop :=
  ∃ found, system.listing path = .ok found ∧ List.Forall₂ (IsRead system.read) found sources

/-- Whether directories give these sources: what the first one gives, what the second one gives, and
so on. -/
def GiveAll (system : FileSystem) (paths : List String) (sources : List Source) : Prop :=
  ∃ groups, List.Forall₂ (Gives system) paths groups ∧ sources = groups.flatten

/-- Why a directory gives no sources: it cannot be listed, or a file is the first in it that the
system refuses. -/
inductive Fault (system : FileSystem) (path : String) : GatherError → Prop
  | unlisted {fault : FileFault} (listing : system.listing path = .error fault) :
      Fault system path (.directory path fault)
  | refused {found before : List FoundFile} {file : FoundFile} {why : String}
      (listing : system.listing path = .ok found)
      (reached : Reaches (fun f => ∃ s, IsRead system.read f s) found before file)
      (refusal : system.read file = .error why) : Fault system path (.file file.path why)

/-- Why directories give no sources: what is wrong with the first that gives none. -/
def FaultIn (system : FileSystem) (paths : List String) (e : GatherError) : Prop :=
  ∃ before path, Reaches (fun p => ∃ sources, Gives system p sources) paths before path ∧
    Fault system path e

/-- Why readers give no sources: the message of the first that fails, under its number. -/
def FaultOf (readers : List Reader) (e : GatherError) : Prop :=
  ∃ before r message, Reaches (·.failure = none) readers before r ∧ r.failure = some message ∧
    e = .reader (.reader before.length) message

/-- The document of the boot line, if that is asked for and can be read. -/
def ofBoot (system : FileSystem) (o : Options) : List Source :=
  if o.mergeBootLine then
    (system.text? o.bootFile).toOption.toList.map fun line =>
      ⟨.bootLine o.bootFile, Bytes.ofText (BootLine.document line).toText⟩
  else []

/-- The contents of readers, each under its number. -/
def ofContents (readers : List Reader) : List Source :=
  readers.mapIdx fun i r => ⟨.reader i, r.content⟩

/-- All sources in order, with what the directories give. -/
def inOrder (system : FileSystem) (o : Options) (files : List Source) : List Source :=
  ofBoot system o ++ files ++ ofContents o.readers ++ ofOverwrites o

/-- Whether these are the sources in order: every directory gives some, and no reader fails. -/
def Gathers (system : FileSystem) (o : Options) (sources : List Source) : Prop :=
  ∃ files, GiveAll system o.directories files ∧ (∀ r ∈ o.readers, r.failure = none) ∧
    sources = inOrder system o files

/-- Why there are no sources: what is wrong with the directories, or else with the readers. -/
def Fails (system : FileSystem) (o : Options) (e : GatherError) : Prop :=
  FaultIn system o.directories e ∨
    (∃ files, GiveAll system o.directories files) ∧ FaultOf o.readers e

/-- Whether a source is the content of a reader. -/
def isReader (s : Source) : Bool :=
  match s.origin with
  | .reader _ => true
  | _ => false

/-! ## One after the other -/

section

variable {ε α β : Type} {f : α → Except ε β} {p : α → Prop} {l : List α}

/-- What is reached is the first element, or it is reached behind that. -/
theorem reaches_cons {x y : α} {before : List α} :
    Reaches p (y :: l) before x ↔
      before = [] ∧ x = y ∨ ∃ more, before = y :: more ∧ p y ∧ Reaches p l more x := by
  cases before with
  | nil => simp [Reaches, eq_comm]
  | cons z before =>
    constructor
    · rintro ⟨hbefore, after, hl⟩
      obtain ⟨rfl, rfl⟩ := List.cons.inj hl
      obtain ⟨hz, hbefore⟩ := List.forall_mem_cons.1 hbefore
      exact .inr ⟨before, rfl, hz, hbefore, after, rfl⟩
    · rintro (⟨⟨⟩, -⟩ | ⟨more, heq, hy, hmore, after, rfl⟩)
      cases heq
      exact ⟨List.forall_mem_cons.2 ⟨hy, hmore⟩, after, rfl⟩

theorem mapM_cons (f : α → Except ε β) (x : α) (l : List α) :
    (x :: l).mapM f = (f x).bind fun y => (l.mapM f).map (y :: ·) := by
  rw [List.mapM_cons]
  rfl

/-- All of a list is had if each element is. -/
theorem mapM_eq_ok_iff {ys : List β} :
    l.mapM f = .ok ys ↔ List.Forall₂ (fun x y => f x = .ok y) l ys := by
  induction l generalizing ys with
  | nil =>
    rw [List.mapM_nil, List.forall₂_nil_left_iff]
    simp [pure, Except.pure, eq_comm]
  | cons x l ih =>
    rw [mapM_cons, List.forall₂_cons_left_iff]
    cases f x with
    | error e => simp [Except.bind]
    | ok y =>
      simp only [Except.bind, ← ih]
      cases l.mapM f <;> simp [Except.map, eq_comm]

/-- Otherwise the first that is not had is an error. -/
theorem mapM_eq_error_iff {e : ε} :
    l.mapM f = .error e ↔
      ∃ before x, Reaches (fun x => ∃ y, f x = .ok y) l before x ∧ f x = .error e := by
  induction l with
  | nil => simp [Reaches, pure, Except.pure]
  | cons x l ih =>
    have map_eq_error (y : β) :
        (l.mapM f).map (y :: ·) = .error e ↔ l.mapM f = .error e := by
      cases l.mapM f <;> simp [Except.map]
    rw [mapM_cons]
    constructor
    · intro h
      cases hx : f x with
      | error e' =>
        rw [hx] at h
        cases h
        exact ⟨[], x, reaches_cons.2 (.inl ⟨rfl, rfl⟩), hx⟩
      | ok y =>
        rw [hx] at h
        obtain ⟨before, z, reached, hz⟩ := ih.1 ((map_eq_error y).1 h)
        exact ⟨x :: before, z, reaches_cons.2 (.inr ⟨before, rfl, ⟨y, hx⟩, reached⟩), hz⟩
    · rintro ⟨before, z, reached, hz⟩
      rcases reaches_cons.1 reached with ⟨-, rfl⟩ | ⟨more, -, ⟨y, hy⟩, reached⟩
      · rw [hz]
        rfl
      · rw [hy]
        exact (map_eq_error y).2 (ih.2 ⟨more, z, reached, hz⟩)

end

/-! ## Files -/

theorem ofFile_eq_ok_iff {file : FoundFile} {s : Source} :
    ofFile read file = .ok s ↔ IsRead read file s := by
  unfold ofFile IsRead
  cases read file <;> simp [eq_comm]

theorem ofFile_eq_error_iff {file : FoundFile} :
    ofFile read file = .error e ↔ ∃ why, read file = .error why ∧ e = .file file.path why := by
  unfold ofFile
  cases read file <;> simp [eq_comm]

/-- The files of one directory. -/
theorem ofDirectory_eq_ok_iff {path : String} :
    ofDirectory system path = .ok sources ↔ Gives system path sources := by
  unfold ofDirectory Gives
  cases system.listing path with
  | error fault => simp
  | ok found => simp [mapM_eq_ok_iff, ofFile_eq_ok_iff]

theorem ofDirectory_eq_error_iff {path : String} :
    ofDirectory system path = .error e ↔ Fault system path e := by
  unfold ofDirectory
  cases hlisting : system.listing path with
  | error fault =>
    constructor
    · rintro ⟨⟩
      exact .unlisted hlisting
    · rintro (h | ⟨h, -, -⟩)
      · cases hlisting.symm.trans h
        rfl
      · cases hlisting.symm.trans h
  | ok found =>
    show found.mapM (ofFile system.read) = .error e ↔ _
    simp only [mapM_eq_error_iff, ofFile_eq_ok_iff, ofFile_eq_error_iff]
    constructor
    · rintro ⟨before, file, reached, why, refusal, rfl⟩
      exact .refused hlisting reached refusal
    · rintro (h | ⟨h, reached, refusal⟩)
      · cases hlisting.symm.trans h
      · cases hlisting.symm.trans h
        exact ⟨_, _, reached, _, refusal, rfl⟩

theorem ofDirectories_eq_ok_iff {paths : List String} :
    ofDirectories system paths = .ok sources ↔ GiveAll system paths sources := by
  have hmap : ofDirectories system paths = .ok sources ↔
      ∃ groups, paths.mapM (ofDirectory system) = .ok groups ∧ sources = groups.flatten := by
    unfold ofDirectories
    cases paths.mapM (ofDirectory system) <;> simp [Except.map, eq_comm]
  simp only [hmap, mapM_eq_ok_iff, ofDirectory_eq_ok_iff, GiveAll]

theorem ofDirectories_eq_error_iff {paths : List String} :
    ofDirectories system paths = .error e ↔ FaultIn system paths e := by
  have hmap : ofDirectories system paths = .error e ↔
      paths.mapM (ofDirectory system) = .error e := by
    unfold ofDirectories
    cases paths.mapM (ofDirectory system) <;> simp [Except.map]
  simp only [hmap, mapM_eq_error_iff, ofDirectory_eq_ok_iff, ofDirectory_eq_error_iff, FaultIn]

/-! ## Readers -/

theorem ofReader_eq_ok_iff {r : Reader} {index : Nat} {s : Source} :
    ofReader r index = .ok s ↔ r.failure = none ∧ ⟨.reader index, r.content⟩ = s := by
  unfold ofReader
  cases r.failure <;> simp

theorem ofReader_eq_error_iff {r : Reader} {index : Nat} :
    ofReader r index = .error e ↔
      ∃ message, r.failure = some message ∧ e = .reader (.reader index) message := by
  unfold ofReader
  cases r.failure <;> simp [eq_comm]

theorem forall_mem_zipIdx {readers : List Reader} :
    (∀ r ∈ readers.zipIdx, r.1.failure = none) ↔ ∀ r ∈ readers, r.failure = none := by
  conv_rhs => rw [← List.zipIdx_map_fst 0 readers]
  rw [List.forall_mem_map]

theorem ofReaders_eq_ok_iff {readers : List Reader} :
    ofReaders readers = .ok sources ↔
      (∀ r ∈ readers, r.failure = none) ∧ sources = ofContents readers := by
  rw [ofReaders, mapM_eq_ok_iff]
  simp only [ofReader_eq_ok_iff]
  rw [List.forall₂_and_left, forall_mem_zipIdx, ← List.forall₂_map_left_iff, List.forall₂_eq_eq_eq,
    ofContents, List.mapIdx_eq_zipIdx_map, eq_comm]

theorem ofReaders_eq_error_iff {readers : List Reader} :
    ofReaders readers = .error e ↔ FaultOf readers e := by
  rw [ofReaders, mapM_eq_error_iff]
  simp only [ofReader_eq_ok_iff, ofReader_eq_error_iff]
  constructor
  · rintro ⟨before, ⟨r, i⟩, ⟨hbefore, after, hcut⟩, message, hfailure, rfl⟩
    obtain ⟨first, rest, rfl, rfl, hrest⟩ := List.zipIdx_eq_append_iff.1 hcut
    obtain ⟨r, rest, rfl, ⟨⟩, -⟩ := List.zipIdx_eq_cons_iff.1 hrest.symm
    have hfirst : ∀ y ∈ first, y.failure = none :=
      forall_mem_zipIdx.1 fun y hy => (hbefore y hy).elim fun _ h => h.1
    exact ⟨first, r, message, ⟨hfirst, rest, rfl⟩, hfailure, by rw [Nat.zero_add]⟩
  · rintro ⟨before, r, message, ⟨hbefore, after, rfl⟩, hfailure, rfl⟩
    refine ⟨before.zipIdx, (r, before.length), ⟨?_, after.zipIdx (before.length + 1), ?_⟩, message,
      hfailure, rfl⟩
    · exact fun y hy => ⟨_, forall_mem_zipIdx.2 hbefore y hy, rfl⟩
    · rw [List.zipIdx_append, Nat.zero_add, List.zipIdx_cons]

/-! ## The whole -/

theorem fst_ofBootLine (system : FileSystem) (o : Options) :
    (ofBootLine system o).1 = ofBoot system o := by
  unfold ofBootLine ofBoot
  split
  · cases system.text? o.bootFile with
    | error cause => rfl
    | ok line => rfl
  · rfl

/-- A collection that fails on a directory leaves the options as they are. -/
theorem collect_of_fault (h : ofDirectories system o.directories = .error e) :
    (collect system o).outcome = .error e ∧ (collect system o).options = o := by
  unfold collect
  rw [h]
  exact ⟨rfl, rfl⟩

/-- A collection that comes to the readers leaves none of them. -/
theorem collect_of_files {files : List Source}
    (h : ofDirectories system o.directories = .ok files) :
    (collect system o).outcome = (ofReaders o.readers).map
        (fun contents => ofBoot system o ++ files ++ contents ++ ofOverwrites o) ∧
      (collect system o).options = { o with readers := [] } := by
  unfold collect
  rw [h, ← fst_ofBootLine]
  exact ⟨rfl, rfl⟩

/-- What related lists say about each element of the second one. -/
theorem forall_mem_of_forall₂ {α β : Type} {rel : α → β → Prop} {q : β → Prop}
    (hq : ∀ a b, rel a b → q b) {l : List α} {l' : List β} (h : List.Forall₂ rel l l') :
    ∀ b ∈ l', q b := by
  have hflip : List.Forall₂ (flip fun b a => q b ∧ rel a b) l l' :=
    h.imp fun a b hab => ⟨hq a b hab, hab⟩
  exact ((List.forall₂_and_left l' l).1 hflip.flip).1

theorem GiveAll.isReader_eq_false {paths : List String} {files : List Source}
    (give : GiveAll system paths files) : ∀ s ∈ files, s.isReader = false := by
  obtain ⟨groups, hgroups, rfl⟩ := give
  have hgroup (path : String) (group : List Source) (hgives : Gives system path group) :
      ∀ s ∈ group, s.isReader = false := by
    obtain ⟨found, -, hfound⟩ := hgives
    refine forall_mem_of_forall₂ ?_ hfound
    rintro file s ⟨content, -, rfl⟩
    rfl
  intro s hs
  obtain ⟨group, hmem, hs⟩ := List.mem_flatten.1 hs
  exact forall_mem_of_forall₂ hgroup hgroups group hmem s hs

theorem isReader_of_mem_ofContents {readers : List Reader} :
    ∀ s ∈ ofContents readers, s.isReader = true := by
  intro s hs
  obtain ⟨i, hi, rfl⟩ := List.mem_mapIdx.1 hs
  rfl

theorem isReader_eq_false_of_mem_ofBoot : ∀ s ∈ ofBoot system o, s.isReader = false := by
  unfold ofBoot
  split
  · intro s hs
    obtain ⟨line, -, rfl⟩ := List.mem_map.1 hs
    rfl
  · exact List.forall_mem_nil _

theorem isReader_eq_false_of_mem_ofOverwrites : ∀ s ∈ ofOverwrites o, s.isReader = false := by
  intro s hs
  obtain ⟨text, -, rfl⟩ := List.mem_map.1 hs
  rfl

/-- The sources without those of the readers. -/
theorem filter_inOrder {files : List Source} (give : GiveAll system o.directories files) :
    (inOrder system o files).filter (!·.isReader) = ofBoot system o ++ files ++ ofOverwrites o := by
  have keep {l : List Source} (h : ∀ s ∈ l, s.isReader = false) :
      l.filter (!·.isReader) = l := by
    rw [List.filter_eq_self]
    intro s hs
    rw [h s hs]
    rfl
  have hcontents : (ofContents o.readers).filter (!·.isReader) = [] := by
    rw [List.filter_eq_nil_iff]
    intro s hs
    rw [isReader_of_mem_ofContents s hs]
    exact Bool.false_ne_true
  unfold inOrder
  rw [List.filter_append, List.filter_append, List.filter_append, hcontents,
    keep isReader_eq_false_of_mem_ofBoot, keep give.isReader_eq_false,
    keep isReader_eq_false_of_mem_ofOverwrites, List.append_nil]

/-- What a collection comes to if it succeeds: the sources in order. -/
theorem collect_eq_ok_iff :
    (collect system o).outcome = .ok sources ↔ Gathers system o sources := by
  cases hfiles : ofDirectories system o.directories with
  | error e =>
    rw [(collect_of_fault hfiles).1]
    constructor
    · nofun
    · rintro ⟨files, give, -⟩
      cases hfiles.symm.trans (ofDirectories_eq_ok_iff.2 give)
  | ok files =>
    rw [(collect_of_files hfiles).1]
    constructor
    · intro h
      cases hreaders : ofReaders o.readers with
      | error e =>
        rw [hreaders] at h
        cases h
      | ok contents =>
        obtain ⟨fine, rfl⟩ := ofReaders_eq_ok_iff.1 hreaders
        rw [hreaders] at h
        exact ⟨files, ofDirectories_eq_ok_iff.1 hfiles, fine, (Except.ok.inj h).symm⟩
    · rintro ⟨files', give, fine, rfl⟩
      cases hfiles.symm.trans (ofDirectories_eq_ok_iff.2 give)
      rw [ofReaders_eq_ok_iff.2 ⟨fine, rfl⟩]
      rfl

/-- What a collection comes to if it fails. -/
theorem collect_eq_error_iff : (collect system o).outcome = .error e ↔ Fails system o e := by
  cases hfiles : ofDirectories system o.directories with
  | error e' =>
    have fault := ofDirectories_eq_error_iff.1 hfiles
    rw [(collect_of_fault hfiles).1]
    constructor
    · rintro ⟨⟩
      exact .inl fault
    · rintro (fault' | ⟨⟨files, give⟩, -⟩)
      · exact hfiles.symm.trans (ofDirectories_eq_error_iff.2 fault')
      · cases hfiles.symm.trans (ofDirectories_eq_ok_iff.2 give)
  | ok files =>
    have give := ofDirectories_eq_ok_iff.1 hfiles
    have herror : (collect system o).outcome = .error e ↔ ofReaders o.readers = .error e := by
      rw [(collect_of_files hfiles).1]
      cases ofReaders o.readers <;> simp [Except.map]
    rw [herror, ofReaders_eq_error_iff]
    constructor
    · exact fun fault => .inr ⟨⟨files, give⟩, fault⟩
    · rintro (fault | ⟨-, fault⟩)
      · cases hfiles.symm.trans (ofDirectories_eq_error_iff.2 fault)
      · exact fault

/-- A second collection comes to the same as the first one, but for the readers. -/
theorem collect_unread {files : List Source}
    (h : ofDirectories system o.directories = .ok files) :
    (collect system { o with readers := [] }).outcome =
      .ok (ofBoot system o ++ files ++ ofOverwrites o) := by
  have hfiles : ofDirectories system { o with readers := [] }.directories = .ok files := h
  rw [(collect_of_files hfiles).1]
  show Except.ok (ofBoot system o ++ files ++ [] ++ ofOverwrites o) = _
  rw [List.append_nil]

/-- **Collecting twice.** If the first collection succeeds, its sources are in order the document of
the boot line, what the directories give, the contents of all readers, none of which fails, and what
is laid over everything; the second one comes to the same list without the readers. If it fails on a
directory or a file, it leaves the options as they are, and the second one fails in the same way. If
it fails on a reader, no reader is left, and the second one succeeds without readers. Nothing but
the readers ever changes in the options. -/
theorem collect_twice (system : FileSystem) (o : Options) :
    let first := collect system o
    let second := collect system first.options
    (∀ sources, first.outcome = .ok sources →
      (∃ files, GiveAll system o.directories files ∧ sources = inOrder system o files) ∧
        (∀ r ∈ o.readers, r.failure = none) ∧
        second.outcome = .ok (sources.filter (!·.isReader))) ∧
    (∀ e, first.outcome = .error e →
      (FaultIn system o.directories e ∧ first.options = o ∧ second.outcome = .error e) ∨
        (FaultOf o.readers e ∧ first.options.readers = [] ∧
          ∃ files, GiveAll system o.directories files ∧
            second.outcome = .ok (ofBoot system o ++ files ++ ofOverwrites o))) ∧
    first.options = { o with readers := first.options.readers } := by
  intro first second
  cases hfiles : ofDirectories system o.directories with
  | error e =>
    obtain ⟨houtcome, hoptions⟩ : first.outcome = _ ∧ first.options = _ :=
      collect_of_fault hfiles
    have hsecond : second.outcome = .error e := by
      show (collect system first.options).outcome = _
      rw [hoptions]
      exact houtcome
    rw [houtcome, hoptions, hsecond]
    refine ⟨nofun, ?_, rfl⟩
    rintro e' ⟨⟩
    exact .inl ⟨ofDirectories_eq_error_iff.1 hfiles, rfl, rfl⟩
  | ok files =>
    have give := ofDirectories_eq_ok_iff.1 hfiles
    have hoptions : first.options = { o with readers := [] } := (collect_of_files hfiles).2
    have hsecond : second.outcome = .ok (ofBoot system o ++ files ++ ofOverwrites o) := by
      show (collect system first.options).outcome = _
      rw [hoptions, collect_unread hfiles]
    refine ⟨?_, ?_, by rw [hoptions]⟩
    · intro sources houtcome
      obtain ⟨files', give', fine, rfl⟩ := collect_eq_ok_iff.1 houtcome
      cases hfiles.symm.trans (ofDirectories_eq_ok_iff.2 give')
      exact ⟨⟨files, give, rfl⟩, fine, by rw [hsecond, filter_inOrder give]⟩
    · intro e houtcome
      rcases collect_eq_error_iff.1 houtcome with fault | ⟨-, fault⟩
      · cases hfiles.symm.trans (ofDirectories_eq_error_iff.2 fault)
      · exact .inr ⟨fault, by rw [hoptions], files, give, hsecond⟩

/-- Two readers that can be read; the second of three that fails; a file that is refused before any
reader is read. -/
theorem collect_twice_read_failed_and_refused :
    let tree : FileNode := .directory [("conf", .directory [("a", .file [4])])]
    let system : FileSystem := { root := tree }
    let refusing : FileSystem := { root := tree, read := fun _ => .error "PermissionDenied" }
    let fine : Options := { readers := [⟨[1], none⟩, ⟨[2], none⟩], overwrites := some "a: 1" }
    let failing : Options :=
      { readers := [⟨[1], none⟩, ⟨[2], some "gone"⟩, ⟨[3], none⟩], overwrites := some "a: 1" }
    let behind : Options := { directories := ["conf"], readers := [⟨[1], none⟩] }
    ((collect system fine).outcome = .ok
        [⟨.reader 0, [1]⟩, ⟨.reader 1, [2]⟩, ⟨.overwrites, Bytes.ofText "a: 1"⟩] ∧
      (collect system (collect system fine).options).outcome =
        .ok [⟨.overwrites, Bytes.ofText "a: 1"⟩]) ∧
    ((collect system failing).outcome = .error (.reader (.reader 1) "gone") ∧
      (collect system failing).options.readers = [] ∧
      (collect system (collect system failing).options).outcome =
        .ok [⟨.overwrites, Bytes.ofText "a: 1"⟩]) ∧
    (collect refusing behind).outcome = .error (.file "conf/a" "PermissionDenied") ∧
      (collect refusing behind).options = behind := by
  intro tree system refusing fine failing behind
  refine ⟨⟨rfl, ?_⟩, ⟨rfl, ?_, rfl⟩, ?_⟩
  · obtain ⟨hok, -⟩ := collect_twice system fine
    exact (hok _ rfl).2.2
  · obtain ⟨-, herror, -⟩ := collect_twice system failing
    rcases herror _ rfl with ⟨⟨before, path, -, fault⟩, -⟩ | ⟨-, hreaders, -⟩
    · cases fault
    · exact hreaders
  · have hlisting : refusing.listing "conf" = .ok [⟨"conf/a", [4]⟩] :=
      congrArg Except.ok (FileNode.filesBelow_singleton "conf" "a" [4])
    have hrefused : (collect refusing behind).outcome =
        .error (.file "conf/a" "PermissionDenied") := by
      refine collect_eq_error_iff.2 (.inl ⟨[], "conf", reaches_cons.2 (.inl ⟨rfl, rfl⟩), ?_⟩)
      exact .refused hlisting (reaches_cons.2 (.inl ⟨rfl, rfl⟩)) rfl
    obtain ⟨-, herror, -⟩ := collect_twice refusing behind
    rcases herror _ hrefused with ⟨-, hoptions, -⟩ | ⟨⟨before, r, message, -, -, he⟩, -⟩
    · exact ⟨hrefused, hoptions⟩
    · cases he

end Provision.Source
