import Mathlib.Data.List.Chain
import Mathlib.Logic.Relation
import Provision.Proofs.Links.ChainFold

/-!
# Chains are bounded

Whoever serves the documents also says which one comes next, and may name a new one each time or
lead round in a circle. Following ends all the same:

* **one turn** — `Stage.Advances` is a turn of the loop that leads to another one. It needs a link
  that was not followed yet, with fewer links behind it than the limit, and leaves one more behind,
  so that no run goes on for ever (`Stage.advances_wellFounded`);
* **the whole loop** — a turn is inverted once (`turn_cases`); from that the loop comes to a stage
  where it rests (`follow_rests`), and what it asks for on the way is as `Asked` says;
* **memory** — a server may answer by what it was asked before. As no link is asked for twice, the
  chain cannot tell it from one that does not (`followFrom_eq`).
-/

namespace Provision

@[simp] theorem Notice.reported_nil (quiet : Bool) : Notice.reported quiet [] = [] := by
  cases quiet <;> rfl

namespace Chain

variable {fetcher : Fetcher} {quiet : Bool} {limit left : Nat} {visited fetched : List String}
  {d : Document} {next : Option String}

/-! ## One turn -/

/-- Where the loop stands: the links that are followed, the last one first, the document that is
merged so far, and the link that comes next. -/
structure Stage where
  visited : List String
  document : Document
  next : Option String

namespace Stage

/-- Where the loop begins. -/
def first (start : Document) : Stage := ⟨[], start, start.link?⟩

/-- A turn of the loop after which there is another one. -/
inductive Advances (fetcher : Fetcher) (limit : Nat) : Stage → Stage → Prop
  | merged {visited : List String} {d linked merged : Document} {url : String} {body : Bytes} :
      url ∉ visited → visited.length < limit → fetcher url = .ok body →
      (Heading.ofBytes? body).isSome = true → Document.ofBytes body = .ok linked →
      d.merge linked = .ok merged →
      Advances fetcher limit ⟨visited, d, some url⟩ ⟨url :: visited, merged, linked.link?⟩

/-- The last turn of the loop, and its outcome. -/
inductive Rests (fetcher : Fetcher) (limit : Nat) : Stage → Except GatherError Document → Prop
  | ended {visited : List String} {d : Document} {next : Option String} :
      Ends fetcher limit visited next → Rests fetcher limit ⟨visited, d, next⟩ (.ok d)
  | failed {visited : List String} {d : Document} {url : String} {e : GatherError} :
      Fault fetcher limit visited d url e →
      Rests fetcher limit ⟨visited, d, some url⟩ (.error e)

theorem Advances.decreases {before after : Stage} (h : Advances fetcher limit before after) :
    limit - after.visited.length < limit - before.visited.length := by
  cases h with
  | merged fresh within fetched headed read step =>
    simp only [List.length_cons]
    omega

/-- However the documents name each other, the loop does not go on for ever. -/
theorem advances_wellFounded (fetcher : Fetcher) (limit : Nat) :
    WellFounded fun after before => Advances fetcher limit before after :=
  Subrelation.wf (fun h => Advances.decreases h)
    (measure fun s : Stage => limit - s.visited.length).wf

/-- After the last turn there is no other one. -/
theorem Rests.not_advances {s after : Stage} {outcome : Except GatherError Document}
    (h : Rests fetcher limit s outcome) : ¬ Advances fetcher limit s after := by
  rintro ⟨fresh, within, fetched, headed, read, step⟩
  cases h with
  | ended ends =>
    cases ends with
    | headless _ _ fetched' headless => simp_all
  | failed fault =>
    cases fault with
    | cycle again => exact fresh again
    | tooDeep _ full => omega
    | fetch _ _ unfetched => simp_all
    | remote _ _ fetched' _ unread => simp_all
    | merge _ _ fetched' _ read' unmerged => simp_all

end Stage

/-- The end of a chain with the link that was asked for last. -/
def stopped (visited : List String) (url : String) (outcome : Except GatherError Document)
    (more : List Notice) : Followed :=
  { outcome, fetched := [url], notices := .fetching url (visited.length + 1) :: more }

/-- One turn of `follow`, apart from who is asked: what it makes of the answer for a link, where
`go` is the chain from the next link on. -/
def turn (quiet : Bool) (visited : List String) (d : Document) (url : String)
    (answer : Except FetchError Bytes) (go : Document → Option String → Followed) : Followed :=
  if visited.contains url then { outcome := .error (.cycle url) }
  else
    match answer with
    | .error cause => stopped visited url (.error (.fetch url cause)) []
    | .ok body =>
      if (Heading.ofBytes? body).isNone then
        stopped visited url (.ok d) (Notice.reported quiet [.remoteHeadingMissing url])
      else
        match Document.ofBytes body with
        | .error cause => stopped visited url (.error (.remote url cause)) []
        | .ok next =>
          match d.merge next with
          | .error cause => stopped visited url (.error (.merge cause)) []
          | .ok merged => (go merged next.link?).after url [.fetching url (visited.length + 1)]

theorem follow_succ (fetcher : Fetcher) (quiet : Bool) (limit left : Nat) (visited : List String)
    (d : Document) (url : String) :
    follow fetcher quiet limit (left + 1) visited d (some url) =
      turn quiet visited d url (fetcher url) (follow fetcher quiet limit left (url :: visited)) :=
  rfl

/-- A turn finds its link followed before; or it asks for it and is the last one, whatever would
come next; or it asks for it and goes on. Being quiet matters only for what is said of the link. -/
theorem turn_cases (fetcher : Fetcher) (d : Document) (url : String)
    (within : visited.length < limit) :
    (url ∈ visited ∧ ∀ quiet go,
      turn quiet visited d url (fetcher url) go = { outcome := .error (.cycle url) }) ∨
    (∃ outcome more, url ∉ visited ∧ Stage.Rests fetcher limit ⟨visited, d, some url⟩ outcome ∧
      (more = [] ∨ more = [.remoteHeadingMissing url]) ∧
      ∀ quiet go, turn quiet visited d url (fetcher url) go =
        stopped visited url outcome (Notice.reported quiet more)) ∨
    ∃ merged next,
      Stage.Advances fetcher limit ⟨visited, d, some url⟩ ⟨url :: visited, merged, next⟩ ∧
      ∀ quiet go, turn quiet visited d url (fetcher url) go =
        (go merged next).after url [.fetching url (visited.length + 1)] := by
  by_cases fresh : url ∈ visited
  · exact .inl ⟨fresh, fun quiet go => by simp [turn, fresh]⟩
  refine .inr ?_
  cases fetched : fetcher url with
  | error cause =>
    exact .inl ⟨_, [], fresh, .failed (.fetch fresh within fetched), .inl rfl,
      fun quiet go => by simp [turn, fresh]⟩
  | ok body =>
    cases headed : Heading.ofBytes? body with
    | none =>
      exact .inl ⟨_, _, fresh, .ended (.headless fresh within fetched headed), .inr rfl,
        fun quiet go => by simp [turn, fresh, headed]⟩
    | some heading =>
      have headed' : (Heading.ofBytes? body).isSome = true := by rw [headed]; rfl
      cases read : Document.ofBytes body with
      | error cause =>
        exact .inl ⟨_, [], fresh, .failed (.remote fresh within fetched headed' read), .inl rfl,
          fun quiet go => by simp [turn, fresh, headed, read]⟩
      | ok linked =>
        cases step : d.merge linked with
        | error cause =>
          exact .inl ⟨_, [], fresh, .failed (.merge fresh within fetched headed' read step),
            .inl rfl, fun quiet go => by simp [turn, fresh, headed, read, step]⟩
        | ok merged =>
          exact .inr ⟨merged, linked.link?, .merged fresh within fetched headed' read step,
            fun quiet go => by simp [turn, fresh, headed, read, step]⟩

/-! ## The whole loop -/

/-- A link names another one when the document it leads to does. -/
def Names (fetcher : Fetcher) (url other : String) : Prop :=
  ∃ body d, fetcher url = .ok body ∧ Document.ofBytes body = .ok d ∧ d.link? = some other

/-- What the loop asks for from a stage on, with so many links left. -/
structure Asked (fetcher : Fetcher) (left : Nat) (visited : List String) (next : Option String)
    (fetched : List String) : Prop where
  within : fetched.length ≤ left
  distinct : fetched.Nodup
  fresh : ∀ url ∈ fetched, url ∉ visited
  first : ∀ url ∈ fetched.head?, next = some url
  linked : fetched.IsChain (Names fetcher)

namespace Asked

theorem nil : Asked fetcher left visited next [] where
  within := Nat.zero_le left
  distinct := .nil
  fresh := nofun
  first := nofun
  linked := .nil

theorem single {url : String} (fresh : url ∉ visited) :
    Asked fetcher (left + 1) visited (some url) [url] where
  within := by simp
  distinct := by simp
  fresh := by simpa using fresh
  first := by simp
  linked := .singleton url

/-- One turn: the link that comes next is asked for, and then what the document there leads to. -/
theorem cons {url : String} {merged : Document}
    (turn : Stage.Advances fetcher limit ⟨visited, d, some url⟩ ⟨url :: visited, merged, next⟩)
    (h : Asked fetcher left (url :: visited) next fetched) :
    Asked fetcher (left + 1) visited (some url) (url :: fetched) := by
  cases turn with
  | @merged _ _ linked _ _ body fresh _ answered _ read _ =>
    exact {
      within := Nat.succ_le_succ h.within
      distinct := List.nodup_cons.2
        ⟨fun again => h.fresh url again List.mem_cons_self, h.distinct⟩
      fresh := by
        intro other hmem
        rcases List.mem_cons.1 hmem with rfl | hmem
        · exact fresh
        · exact fun seen => h.fresh other hmem (List.mem_cons_of_mem _ seen)
      first := by simp
      linked := List.isChain_cons.2
        ⟨fun other hother => ⟨body, linked, answered, read, h.first other hother⟩, h.linked⟩ }

end Asked

/-- A turn takes one link from those that are left and puts it behind. -/
theorem room_cons (url : String) (room : left + 1 + visited.length = limit) :
    left + (url :: visited).length = limit := by
  rw [List.length_cons]
  omega

theorem follow_asked (fetcher : Fetcher) (quiet : Bool) (d : Document) (next : Option String)
    (room : left + visited.length = limit) :
    Asked fetcher left visited next (follow fetcher quiet limit left visited d next).fetched := by
  induction left generalizing visited d next with
  | zero => cases next <;> exact .nil
  | succ left ih =>
    cases next with
    | none => exact .nil
    | some url =>
      rw [follow_succ]
      have within : visited.length < limit := by omega
      obtain ⟨-, hturn⟩ | ⟨_, _, fresh, -, -, hturn⟩ | ⟨merged, after, advances, hturn⟩ :=
        turn_cases fetcher d url within
      · rw [hturn]
        exact .nil
      · rw [hturn]
        exact .single fresh
      · rw [hturn]
        exact .cons advances (ih merged after (room_cons url room))

/-- The loop comes to a stage where it rests. -/
theorem follow_rests (fetcher : Fetcher) (quiet : Bool) (d : Document) (next : Option String)
    (room : left + visited.length = limit) :
    ∃ last, Relation.ReflTransGen (Stage.Advances fetcher limit) ⟨visited, d, next⟩ last ∧
      last.Rests fetcher limit (follow fetcher quiet limit left visited d next).outcome := by
  induction left generalizing visited d next with
  | zero =>
    refine ⟨_, .refl, ?_⟩
    cases next with
    | none => exact .ended .unlinked
    | some url =>
      by_cases again : url ∈ visited
      · simpa [follow, again] using Stage.Rests.failed (.cycle again)
      · have full : limit ≤ visited.length := by omega
        simpa [follow, again] using Stage.Rests.failed (.tooDeep again full)
  | succ left ih =>
    cases next with
    | none => exact ⟨_, .refl, .ended .unlinked⟩
    | some url =>
      rw [follow_succ]
      have within : visited.length < limit := by omega
      obtain ⟨again, hturn⟩ | ⟨_, _, -, rests, -, hturn⟩ | ⟨merged, after, advances, hturn⟩ :=
        turn_cases fetcher d url within
      · rw [hturn]
        exact ⟨_, .refl, .failed (.cycle again)⟩
      · rw [hturn]
        exact ⟨_, .refl, rests⟩
      · obtain ⟨last, reached, rests⟩ := ih merged after (room_cons url room)
        rw [hturn]
        exact ⟨last, .head advances reached, rests⟩

/-! ## Memory -/

/-- A server whose answer may depend on what it was asked before. -/
abbrev Server (σ : Type) := σ → String → Except FetchError Bytes × σ

/-- The chain from a link on, asked of such a server. -/
def followFrom {σ : Type} (ask : Server σ) (quiet : Bool) (limit : Nat) :
    (memory : σ) → (left : Nat) → (visited : List String) → Document → Option String → Followed
  | _, _, _, d, none => { outcome := .ok d }
  | _, 0, visited, _, some url =>
    { outcome := .error (if visited.contains url then .cycle url else .tooDeep limit) }
  | memory, left + 1, visited, d, some url =>
    turn quiet visited d url (ask memory url).1
      (followFrom ask quiet limit (ask memory url).2 left (url :: visited))

/-- What a server answers when it is asked for links, one after the other. -/
def Server.answers {σ : Type} (ask : Server σ) : σ → List String → List (Except FetchError Bytes)
  | _, [] => []
  | memory, url :: urls => (ask memory url).1 :: answers ask (ask memory url).2 urls

/-- What was asked for before does not matter any more. -/
theorem follow_congr {other : Fetcher} (quiet : Bool) (limit : Nat) (d : Document)
    (next : Option String) (agree : ∀ url, url ∉ visited → fetcher url = other url) :
    follow fetcher quiet limit left visited d next =
      follow other quiet limit left visited d next := by
  induction left generalizing visited d next with
  | zero => cases next <;> rfl
  | succ left ih =>
    cases next with
    | none => rfl
    | some url =>
      rw [follow_succ, follow_succ]
      by_cases again : url ∈ visited
      · simp [turn, again]
      have rest : follow fetcher quiet limit left (url :: visited) =
          follow other quiet limit left (url :: visited) := by
        funext merged after
        exact ih merged after fun url' fresh => agree url' fun h => fresh (List.mem_cons_of_mem _ h)
      rw [agree url again, rest]

/-- In one chain, a server that remembers is no more than one that does not. -/
theorem followFrom_eq {σ : Type} (ask : Server σ) (memory : σ) (quiet : Bool) (d : Document)
    (next : Option String) (room : left + visited.length = limit) :
    ∃ fetcher : Fetcher,
      followFrom ask quiet limit memory left visited d next =
        follow fetcher quiet limit left visited d next ∧
      Server.answers ask memory (followFrom ask quiet limit memory left visited d next).fetched =
        (followFrom ask quiet limit memory left visited d next).fetched.map fetcher := by
  induction left generalizing memory visited d next with
  | zero => cases next <;> exact ⟨fun url => .error (.unavailable url), rfl, rfl⟩
  | succ left ih =>
    cases next with
    | none => exact ⟨fun url => .error (.unavailable url), rfl, rfl⟩
    | some url =>
      rw [followFrom]
      have within : visited.length < limit := by omega
      -- In the last turn, its answer is the only one.
      obtain ⟨-, hturn⟩ | ⟨_, _, -, -, -, hturn⟩ | ⟨merged, after, advances, hturn⟩ :=
        turn_cases (fun _ => (ask memory url).1) d url within
      · exact ⟨fun _ => (ask memory url).1, by rw [follow_succ, hturn, hturn], by rw [hturn]; rfl⟩
      · exact ⟨fun _ => (ask memory url).1, by rw [follow_succ, hturn, hturn], by rw [hturn]; rfl⟩
      · obtain ⟨fetcher, same, answers⟩ := ih (ask memory url).2 merged after (room_cons url room)
        have asked := follow_asked fetcher quiet merged after (room_cons url room)
        rw [hturn]
        -- The rest of the chain does not ask for this link, so that its answer can be added.
        refine ⟨Function.update fetcher url (ask memory url).1, ?_, ?_⟩
        · rw [follow_succ, Function.update_self, hturn, same]
          congr 1
          apply follow_congr
          intro other fresh
          rw [Function.update_of_ne (List.ne_of_not_mem_cons fresh)]
        · simp only [Followed.after, Server.answers, List.map_cons, Function.update_self, answers]
          congr 1
          apply List.map_congr_left
          intro other hmem
          rw [same] at hmem
          rw [Function.update_of_ne (List.ne_of_not_mem_cons (asked.fresh other hmem))]

/-! ## The bounds -/

/-- What holds of the chain from a document, however the documents name each other. -/
structure Bounded (fetcher : Fetcher) (limit : Nat) (start : Document) (f : Followed) : Prop where
  /-- No run of the loop goes on for ever. -/
  terminates : WellFounded fun after before => Stage.Advances fetcher limit before after
  /-- The loop comes to a stage after which there is no other, and the outcome is what holds
  there. -/
  rests : ∃ last, Relation.ReflTransGen (Stage.Advances fetcher limit) (.first start) last ∧
    (∀ after, ¬ last.Advances fetcher limit after) ∧ last.Rests fetcher limit f.outcome
  /-- No more links are asked for than the limit. -/
  within : f.fetched.length ≤ limit
  /-- No link is asked for twice. -/
  distinct : f.fetched.Nodup
  /-- The first link is the one that the document names. -/
  first : ∀ url ∈ f.fetched.head?, start.link? = some url
  /-- Every further link is named by the document that the link before it led to. -/
  linked : f.fetched.IsChain (Names fetcher)

theorem resolve_isBounded (fetcher : Fetcher) (quiet : Bool) (limit : Nat) (start : Document) :
    Bounded fetcher limit start (resolve fetcher quiet limit start) := by
  have room : limit + ([] : List String).length = limit := rfl
  have asked := follow_asked fetcher quiet start start.link? room
  obtain ⟨last, reached, rests⟩ := follow_rests fetcher quiet start start.link? room
  exact {
    terminates := Stage.advances_wellFounded fetcher limit
    rests := ⟨last, reached, fun _ => rests.not_advances, rests⟩
    within := asked.within
    distinct := asked.distinct
    first := asked.first
    linked := asked.linked }

end Chain

namespace Resolver

open Chain in
/-- **Following links ends within the limit**, for every resolver and every document; and so it does
with a server that answers by what it was asked before. -/
theorem resolve_bounded :
    (∀ (web : Web) (r : Resolver) (start : Document),
      Bounded (r.fetcherInUse web) r.limit start (r.resolve web start).1) ∧
    ∀ {σ : Type} (ask : Server σ) (memory : σ) (quiet : Bool) (limit : Nat) (start : Document),
      let f := followFrom ask quiet limit memory limit [] start start.link?
      ∃ fetcher : Fetcher, Server.answers ask memory f.fetched = f.fetched.map fetcher ∧
        Bounded fetcher limit start f := by
  refine ⟨fun web r start => resolve_isBounded (r.fetcherInUse web) r.quiet r.limit start,
    fun ask memory quiet limit start => ?_⟩
  have room : limit + ([] : List String).length = limit := rfl
  obtain ⟨fetcher, same, answers⟩ := followFrom_eq ask memory quiet start start.link? room
  refine ⟨fetcher, answers, ?_⟩
  rw [same]
  exact resolve_isBounded fetcher quiet limit start

end Resolver

end Provision
