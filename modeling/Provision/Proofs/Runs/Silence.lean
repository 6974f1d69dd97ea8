import Provision.Gather.Run
import Provision.Proofs.Links.Bounds

/-!
# Silence

A quiet run does what the other one does, and says less: its notices are those of the other one
without the ones about what was left out. Each part of a run has something to say that does not
depend on being quiet, and being quiet decides only how much of it is `reported` — in lock step
through the sources (`Run.fold_says`) and through the links of a chain (`Chain.follow_says`). What
is fetched is told in either run, and counted.
-/

namespace Provision

namespace Notice

/-- Whether the notice is about something that was left out. -/
def omission : Notice → Bool
  | .bootLineUnreadable _ _ | .headingMissing _ | .notAMapping _ _ | .remoteHeadingMissing _ => true
  | .merging _ _ | .fetching _ _ => false

/-- The link that the notice says is followed, and how many there are with it. -/
def fetching? : Notice → Option (String × Nat)
  | .fetching url depth => some (url, depth)
  | _ => none

/-- The links that the notices say are followed. -/
def fetchings (notices : List Notice) : List (String × Nat) := notices.filterMap fetching?

section

variable (quiet : Bool) (notices more : List Notice) (url : String) (depth : Nat)

@[simp] theorem reported_append :
    reported quiet (notices ++ more) = reported quiet notices ++ reported quiet more := by
  cases quiet
  · rfl
  · exact List.filter_append notices more

@[simp] theorem reported_fetching : reported quiet (.fetching url depth :: notices) =
    .fetching url depth :: reported quiet notices := by
  cases quiet <;> rfl

@[simp] theorem reported_merging (origin : Origin) (keys : Nat) :
    reported quiet [.merging origin keys] = [.merging origin keys] := by
  cases quiet <;> rfl

@[simp] theorem fetchings_nil : fetchings [] = [] := rfl

@[simp] theorem fetchings_append :
    fetchings (notices ++ more) = fetchings notices ++ fetchings more :=
  List.filterMap_append

@[simp] theorem fetchings_fetching :
    fetchings (.fetching url depth :: notices) = (url, depth) :: fetchings notices := rfl

/-- A quiet run says what is not about something left out. -/
theorem reported_true : reported true notices = notices.filter (!·.omission) := by
  have same : ∀ n : Notice, n.silenceable = n.omission := fun n => by cases n <;> rfl
  simp [reported, same]

/-- Links that are followed are reported in every run. -/
theorem fetchings_reported : fetchings (reported quiet notices) = fetchings notices := by
  cases quiet with
  | false => rfl
  | true =>
    rw [reported, if_pos rfl, fetchings, List.filterMap_filter]
    congr 1
    funext n
    cases n <;> rfl

end

end Notice

open Notice

/-- What a part of a run comes to, and what it has to say, if it follows no link: a quiet run
reports some of that, the other one all. -/
structure Says {α : Type} (part : Bool → α × List Notice) (outcome : α) (said : List Notice) :
    Prop where
  heard : ∀ quiet, part quiet = (outcome, reported quiet said)
  unlinked : fetchings said = []

namespace Says

variable {α : Type} {part : Bool → α × List Notice}

theorem nothing {outcome : α} (h : ∀ quiet, part quiet = (outcome, [])) : Says part outcome [] where
  heard := by simpa using h
  unlinked := rfl

end Says

namespace Source

theorem ofBootLine_says (system : FileSystem) (o : Options) :
    ∃ sources said, Says (fun quiet => ofBootLine system { o with quiet }) sources said := by
  simp only [ofBootLine]
  cases o.mergeBootLine with
  | false => exact ⟨[], [], .nothing fun quiet => rfl⟩
  | true =>
    cases system.text? o.bootFile with
    | error cause => exact ⟨[], [.bootLineUnreadable o.bootFile cause], fun quiet => rfl, rfl⟩
    | ok line => exact ⟨_, [], .nothing fun quiet => rfl⟩

theorem collect_says (system : FileSystem) (o : Options) :
    ∃ outcome said, Says (fun quiet => ((collect system { o with quiet }).outcome,
      (collect system { o with quiet }).notices)) outcome said := by
  obtain ⟨boot, said, hboot, unlinked⟩ := ofBootLine_says system o
  cases hfiles : ofDirectories system o.directories with
  | error e =>
    refine ⟨.error e, said, fun quiet => ?_, unlinked⟩
    simp only [collect, hboot, hfiles]
  | ok files =>
    refine ⟨(ofReaders o.readers).map (boot ++ files ++ · ++ ofOverwrites o), said,
      fun quiet => ?_, unlinked⟩
    simp only [collect, hboot, hfiles]
    rfl

end Source

namespace Run

theorem load_says (sieve : Sieve) (s : Source) :
    ∃ outcome said, Says (fun quiet => load sieve quiet s) outcome said := by
  unfold load
  cases sieve s.content with
  | error message => exact ⟨_, [], .nothing fun quiet => rfl⟩
  | ok content =>
    dsimp only
    split
    · exact ⟨.ok none, [.headingMissing s.origin], fun quiet => rfl, rfl⟩
    · cases Document.ofBytes content with
      | ok d =>
        exact ⟨.ok (some d), [.merging s.origin d.entries.length], fun quiet => by simp, rfl⟩
      | error cause =>
        cases cause with
        | notAMapping kind => exact ⟨.ok none, [.notAMapping s.origin kind], fun quiet => rfl, rfl⟩
        | _ => exact ⟨_, [], .nothing fun quiet => rfl⟩

theorem fold_says (sieve : Sieve) (d : Document) (sources : List Source) :
    ∃ outcome said, Says (fun quiet => fold sieve quiet d sources) outcome said := by
  induction sources generalizing d with
  | nil => exact ⟨.ok d, [], .nothing fun quiet => rfl⟩
  | cons s sources ih =>
    -- What the source came to decides what is done next, and does not depend on being quiet.
    obtain ⟨loaded, said, hload, unlinked⟩ := load_says sieve s
    match loaded with
    | .error e => exact ⟨.error e, said, fun quiet => by simp [fold, hload], unlinked⟩
    | .ok none =>
      obtain ⟨outcome, more, hfold, unlinked'⟩ := ih d
      exact ⟨outcome, said ++ more, fun quiet => by simp [fold, hload, hfold],
        by simp [unlinked, unlinked']⟩
    | .ok (some next) =>
      cases hmerge : d.merge next with
      | error cause =>
        exact ⟨.error (.merge cause), said, fun quiet => by simp [fold, hload, hmerge], unlinked⟩
      | ok merged =>
        obtain ⟨outcome, more, hfold, unlinked'⟩ := ih merged
        exact ⟨outcome, said ++ more, fun quiet => by simp [fold, hload, hmerge, hfold],
          by simp [unlinked, unlinked']⟩

end Run

namespace Chain

/-- What there is to tell of a chain: a quiet run reports some of the notices of `f`, the other one
all, and the links that they say are followed are those fetched, counted from `depth` on. -/
structure Tells (chain : Bool → Followed) (depth : Nat) (f : Followed) : Prop where
  heard : ∀ quiet, chain quiet = { f with notices := reported quiet f.notices }
  counted : fetchings f.notices = f.fetched.zipIdx depth

namespace Tells

variable {chain : Bool → Followed} {visited : List String}

theorem nothing (outcome : Except GatherError Document) (depth : Nat) :
    Tells (fun _ => { outcome }) depth { outcome } where
  heard quiet := by simp
  counted := rfl

theorem stopped {more : List Notice} (url : String) (outcome : Except GatherError Document)
    (hmore : fetchings more = []) :
    Tells (fun quiet => Chain.stopped visited url outcome (reported quiet more))
      (visited.length + 1) (Chain.stopped visited url outcome more) where
  heard quiet := by simp [Chain.stopped]
  counted := by simp [Chain.stopped, hmore]

theorem after {f : Followed} {depth : Nat} (url : String) (h : Tells chain (depth + 1) f) :
    Tells (fun quiet => (chain quiet).after url [.fetching url depth]) depth
      (f.after url [.fetching url depth]) where
  heard quiet := by simp [h.heard, Followed.after]
  counted := by simp [Followed.after, h.counted, List.zipIdx_cons]

end Tells

theorem follow_says (fetcher : Fetcher) {limit left : Nat} {visited : List String} (d : Document)
    (next : Option String) (room : left + visited.length = limit) :
    ∃ f, Tells (fun quiet => follow fetcher quiet limit left visited d next)
      (visited.length + 1) f := by
  induction left generalizing visited d next with
  | zero => cases next <;> exact ⟨_, .nothing _ _⟩
  | succ left ih =>
    cases next with
    | none => exact ⟨_, .nothing _ _⟩
    | some url =>
      simp only [follow_succ]
      have within : visited.length < limit := by omega
      obtain ⟨-, hturn⟩ | ⟨outcome, more, -, -, hmore, hturn⟩ | ⟨merged, after, -, hturn⟩ :=
        turn_cases fetcher d url within
      · simp only [hturn]
        exact ⟨_, .nothing _ _⟩
      · simp only [hturn]
        have none : fetchings more = [] := by rcases hmore with rfl | rfl <;> rfl
        exact ⟨_, .stopped url outcome none⟩
      · obtain ⟨f, hf⟩ := ih merged after (room_cons url room)
        simp only [hturn]
        exact ⟨_, hf.after url⟩

theorem resolve_says (fetcher : Fetcher) (limit : Nat) (d : Document) :
    ∃ f, Tells (fun quiet => resolve fetcher quiet limit d) 1 f := by
  have room : limit + ([] : List String).length = limit := rfl
  exact follow_says fetcher d d.link? room

end Chain

namespace Run

/-- What there is to tell of a run: what was collected and merged, and then the chain. -/
theorem scan_says (system : FileSystem) (web : Web) (o : Options) (sieve : Sieve) :
    ∃ run : Run,
      (∀ quiet, scan system web { o with quiet } sieve =
        { run with notices := reported quiet run.notices }) ∧
      fetchings run.notices = run.fetched.zipIdx 1 := by
  obtain ⟨collected, said, hcollect, unlinked⟩ := Source.collect_says system o
  simp only [Prod.mk.injEq] at hcollect
  cases collected with
  | error e =>
    refine ⟨{ outcome := .error e, notices := said }, fun quiet => ?_, unlinked⟩
    simp [scan, hcollect]
  | ok sources =>
    obtain ⟨outcome, more, hfold, unlinked'⟩ := fold_says sieve {} sources
    cases outcome with
    | error e =>
      refine ⟨{ outcome := .error e, notices := said ++ more }, fun quiet => ?_, ?_⟩
      · simp [scan, hcollect, hfold]
      · simp [unlinked, unlinked']
    | ok d =>
      obtain ⟨f, hchain, counted⟩ :=
        Chain.resolve_says (o.fetcher.getD web.fetch) o.linkLimit d
      refine ⟨⟨f.outcome, f.fetched, said ++ more ++ f.notices⟩, fun quiet => ?_, ?_⟩
      · simp [scan, hcollect, hfold, hchain]
      · simpa [unlinked, unlinked'] using counted

/-- **Silence changes nothing but what is said.** A quiet run comes to the same outcome and fetches
the same links as the other one. Its notices are those of the other without the ones about what was
left out, and in both the links that are said to be followed are those fetched, counted from one. -/
theorem scan_quiet (system : FileSystem) (web : Web) (o : Options) (sieve : Sieve) :
    let quiet := scan system web { o with quiet := true } sieve
    let loud := scan system web { o with quiet := false } sieve
    quiet.outcome = loud.outcome ∧ quiet.fetched = loud.fetched ∧
      quiet.notices = loud.notices.filter (!·.omission) ∧
      fetchings quiet.notices = quiet.fetched.zipIdx 1 ∧
      fetchings loud.notices = loud.fetched.zipIdx 1 := by
  obtain ⟨run, heard, counted⟩ := scan_says system web o sieve
  simp only [heard, fetchings_reported, counted, true_and, and_true]
  exact reported_true run.notices

end Run

end Provision
