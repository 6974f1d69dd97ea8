import Provision.Gather.Resolver
import Provision.Proofs.Headings.Written
import Provision.Proofs.Yaml.RoundTrip

/-!
# Following a chain is folding its documents

What a chain of links amounts to can be said without following it:

* **trails** — `Trail` walks the graph of remote documents from one document on; each link is the
  one that the last document names itself, however the documents were merged;
* **success** — `Resolves`: the trail ends, its links are distinct and within the limit, and the
  result is the left fold of merging over its documents;
* **failure** — `Fails`: the first link that cannot be followed says why, and `Fault` says which
  reason comes first where there are several.

The two exclude each other and leave nothing out, because following visits the trail link by link
(`follow_of_trail`) and every place of a trail is passed, ends it, or fails (`resolves_or_fails`).
-/

namespace Provision

namespace Document

/-- A document laid over by others, one after the other. -/
def mergeAll (d : Document) (others : List Document) : Except DocumentError Document :=
  others.foldlM Document.merge d

/-- Whether this is the link that a document names, or none if it names none. What names a link is a
string under the key of links that is not empty. -/
def IsNext (d : Document) (next : Option String) : Prop :=
  ∀ url, next = some url ↔ url ≠ "" ∧ d.entries.get? linkKey = some (.string url)

theorem isNext_iff {d : Document} {next : Option String} : d.IsNext next ↔ next = d.link? := by
  have named (url : String) :
      d.link? = some url ↔ url ≠ "" ∧ d.entries.get? linkKey = some (.string url) := by
    unfold link?
    cases d.entries.get? linkKey with
    | none => simp
    | some v =>
      cases v with
      | string s =>
        by_cases hs : s = "" <;> grind [Value.string?, String.isEmpty_iff]
      | _ => simp [Value.string?]
  constructor
  · intro h
    ext url
    rw [h url, named]
  · rintro rfl
    exact named

end Document

namespace Chain

variable {fetcher : Fetcher} {quiet : Bool} {limit : Nat} {start d : Document}
  {links : List (String × Document)} {next : Option String}

/-- The walk along links from a document: the links passed, each with the document it led to, and
the link that comes next. -/
inductive Trail (fetcher : Fetcher) (start : Document) :
    List (String × Document) → Option String → Prop
  | nil {next : Option String} : start.IsNext next → Trail fetcher start [] next
  | snoc {links : List (String × Document)} {url : String} {body : Bytes} {d : Document}
      {next : Option String} : Trail fetcher start links (some url) → fetcher url = .ok body →
      (Heading.ofBytes? body).isSome = true → Document.ofBytes body = .ok d → d.IsNext next →
      Trail fetcher start (links ++ [(url, d)]) next

/-- The links of a trail. -/
abbrev urls (links : List (String × Document)) : List String := links.map Prod.fst

/-- The documents of a trail. -/
abbrev documents (links : List (String × Document)) : List Document := links.map Prod.snd

/-- A trail that can be followed: no link twice, none beyond the limit, and `d` comes of merging. -/
structure Passes (limit : Nat) (start : Document) (links : List (String × Document))
    (d : Document) : Prop where
  distinct : (urls links).Nodup
  within : links.length ≤ limit
  merged : start.mergeAll (documents links) = .ok d

/-- A link beyond which a trail cannot go: there is none, or its body has no heading and is left
out. -/
inductive Ends (fetcher : Fetcher) (limit : Nat) (visited : List String) : Option String → Prop
  | unlinked : Ends fetcher limit visited none
  | headless {url : String} {body : Bytes} : url ∉ visited → visited.length < limit →
      fetcher url = .ok body → Heading.ofBytes? body = none →
      Ends fetcher limit visited (some url)

/-- Why a link cannot be followed: it was followed before; else it is one too many; else it cannot
be fetched, or what it leads to cannot be read, or cannot be merged. -/
inductive Fault (fetcher : Fetcher) (limit : Nat) (visited : List String) (d : Document)
    (url : String) : GatherError → Prop
  | cycle : url ∈ visited → Fault fetcher limit visited d url (.cycle url)
  | tooDeep : url ∉ visited → limit ≤ visited.length →
      Fault fetcher limit visited d url (.tooDeep limit)
  | fetch {cause : FetchError} : url ∉ visited → visited.length < limit →
      fetcher url = .error cause → Fault fetcher limit visited d url (.fetch url cause)
  | remote {body : Bytes} {cause : DocumentError} : url ∉ visited → visited.length < limit →
      fetcher url = .ok body → (Heading.ofBytes? body).isSome = true →
      Document.ofBytes body = .error cause → Fault fetcher limit visited d url (.remote url cause)
  | merge {body : Bytes} {linked : Document} {cause : DocumentError} : url ∉ visited →
      visited.length < limit → fetcher url = .ok body → (Heading.ofBytes? body).isSome = true →
      Document.ofBytes body = .ok linked → d.merge linked = .error cause →
      Fault fetcher limit visited d url (.merge cause)

/-- The chain from a document ends well with this result. -/
def Resolves (fetcher : Fetcher) (limit : Nat) (start result : Document) : Prop :=
  ∃ links next, Trail fetcher start links next ∧ Passes limit start links result ∧
    Ends fetcher limit (urls links) next

/-- The chain from a document stops at its first link that cannot be followed, for this reason. -/
def Fails (fetcher : Fetcher) (limit : Nat) (start : Document) (e : GatherError) : Prop :=
  ∃ links url d, Trail fetcher start links (some url) ∧ Passes limit start links d ∧
    Fault fetcher limit (urls links) d url e

theorem Passes.nil : Passes limit start [] start := ⟨List.nodup_nil, Nat.zero_le _, rfl⟩

theorem mergeAll_concat (start : Document) (others : List Document) (last : Document) :
    start.mergeAll (others ++ [last]) = (start.mergeAll others).bind (·.merge last) := by
  simp only [Document.mergeAll, List.foldlM_append, List.foldlM_cons, List.foldlM_nil, bind_pure]
  rfl

/-- A trail passes one link further if the link is new, within the limit, and merged. -/
theorem passes_concat {url : String} {linked result : Document} :
    Passes limit start (links ++ [(url, linked)]) result ↔
      ∃ d, Passes limit start links d ∧ url ∉ urls links ∧ links.length < limit ∧
        d.merge linked = .ok result := by
  constructor
  · rintro ⟨distinct, within, merged⟩
    simp only [urls, List.map_append, List.map_cons, List.map_nil, List.nodup_append,
      List.mem_singleton] at distinct
    rw [List.length_append, List.length_singleton] at within
    simp only [documents, List.map_append, List.map_cons, List.map_nil] at merged
    rw [mergeAll_concat] at merged
    -- The merge of all documents is that of the earlier ones, and then of the last.
    cases hd : start.mergeAll (documents links) with
    | error e =>
      rw [hd] at merged
      cases merged
    | ok d =>
      rw [hd] at merged
      exact ⟨d, ⟨distinct.1, by omega, hd⟩, fun h => distinct.2.2 url h url rfl rfl, by omega,
        merged⟩
  · rintro ⟨d, ⟨distinct, within, merged⟩, fresh, room, step⟩
    refine ⟨?_, ?_, ?_⟩
    · simp only [urls, List.map_append, List.map_cons, List.map_nil, List.nodup_append,
        List.mem_singleton]
      refine ⟨distinct, by simp, ?_⟩
      rintro a ha b rfl rfl
      exact fresh ha
    · rw [List.length_append, List.length_singleton]
      omega
    · simp only [documents, List.map_append, List.map_cons, List.map_nil]
      rw [mergeAll_concat, merged]
      exact step

/-! ## One link -/

section Link

variable {left : Nat} {visited : List String} {url : String}

theorem follow_unlinked : (follow fetcher quiet limit left visited d none).outcome = .ok d := by
  cases left <;> rfl

theorem follow_ends (h : Ends fetcher limit visited next) (room : left + visited.length = limit) :
    (follow fetcher quiet limit left visited d next).outcome = .ok d := by
  cases h with
  | unlinked => exact follow_unlinked
  | headless fresh within fetched headless =>
    obtain ⟨left, rfl⟩ : ∃ n, left = n + 1 := ⟨left - 1, by omega⟩
    simp [follow, fresh, fetched, headless]

theorem follow_fault {e : GatherError} (h : Fault fetcher limit visited d url e)
    (room : left + visited.length = limit) :
    (follow fetcher quiet limit left visited d (some url)).outcome = .error e := by
  cases h with
  | cycle again => cases left <;> simp [follow, again]
  | tooDeep fresh full =>
    obtain rfl : left = 0 := by omega
    simp [follow, fresh]
  | fetch fresh within fetched =>
    obtain ⟨left, rfl⟩ : ∃ n, left = n + 1 := ⟨left - 1, by omega⟩
    simp [follow, fresh, fetched]
  | remote fresh within fetched headed unread =>
    obtain ⟨left, rfl⟩ : ∃ n, left = n + 1 := ⟨left - 1, by omega⟩
    have headed' : Heading.ofBytes? _ ≠ none := Option.isSome_iff_ne_none.1 headed
    simp [follow, fresh, fetched, headed', unread]
  | merge fresh within fetched headed read unmerged =>
    obtain ⟨left, rfl⟩ : ∃ n, left = n + 1 := ⟨left - 1, by omega⟩
    have headed' : Heading.ofBytes? _ ≠ none := Option.isSome_iff_ne_none.1 headed
    simp [follow, fresh, fetched, headed', read, unmerged]

theorem follow_passes {body : Bytes} {linked merged : Document} (fresh : url ∉ visited)
    (fetched : fetcher url = .ok body) (headed : (Heading.ofBytes? body).isSome = true)
    (read : Document.ofBytes body = .ok linked) (step : d.merge linked = .ok merged) :
    follow fetcher quiet limit (left + 1) visited d (some url) =
      (follow fetcher quiet limit left (url :: visited) merged linked.link?).after url
        [.fetching url (visited.length + 1)] := by
  have headed' : Heading.ofBytes? body ≠ none := Option.isSome_iff_ne_none.1 headed
  simp [follow, fresh, fetched, headed', read, step]

end Link

/-! ## Whole chains -/

/-- Following a chain goes along its trail: what is left to do after some links is to follow the
next one from the document merged so far. -/
theorem follow_of_trail (trail : Trail fetcher start links next)
    (passes : Passes limit start links d) :
    (resolve fetcher quiet limit start).outcome =
        (follow fetcher quiet limit (limit - links.length) (urls links).reverse d next).outcome ∧
      (resolve fetcher quiet limit start).fetched = urls links ++
          (follow fetcher quiet limit (limit - links.length) (urls links).reverse d
            next).fetched := by
  induction trail generalizing d with
  | nil named =>
    obtain rfl := Document.isNext_iff.1 named
    have hd : start = d := by
      have := passes.merged
      simpa [documents, Document.mergeAll, pure, Except.pure] using this
    subst hd
    exact ⟨rfl, rfl⟩
  | @snoc links url body linked next trail fetched headed read named ih =>
    obtain rfl := Document.isNext_iff.1 named
    obtain ⟨before, passes, fresh, room, step⟩ := passes_concat.1 passes
    obtain ⟨outcome, asked⟩ := ih passes
    obtain ⟨left, hleft⟩ : ∃ n, limit - links.length = n + 1 := ⟨limit - links.length - 1, by omega⟩
    have hleft' : limit - (links ++ [(url, linked)]).length = left := by
      rw [List.length_append, List.length_singleton]
      omega
    have fresh' : url ∉ (urls links).reverse := by simpa using fresh
    -- The loop has one link less left, and one more behind it.
    rw [hleft, follow_passes fresh' fetched headed read step] at outcome asked
    rw [hleft', outcome, asked]
    simp [Followed.after, urls]

theorem Ends.congr {visited other : List String} (h : Ends fetcher limit visited next)
    (mem : ∀ url, url ∈ other ↔ url ∈ visited) (length : other.length = visited.length) :
    Ends fetcher limit other next := by
  cases h with
  | unlinked => exact .unlinked
  | headless fresh within fetched headless =>
    exact .headless (fun h => fresh ((mem _).1 h)) (by omega) fetched headless

theorem Fault.congr {visited other : List String} {url : String} {e : GatherError}
    (h : Fault fetcher limit visited d url e) (mem : ∀ url, url ∈ other ↔ url ∈ visited)
    (length : other.length = visited.length) : Fault fetcher limit other d url e := by
  have absent : url ∉ visited → url ∉ other := fun fresh h => fresh ((mem _).1 h)
  cases h with
  | cycle again => exact .cycle ((mem _).2 again)
  | tooDeep fresh full => exact .tooDeep (absent fresh) (by omega)
  | fetch fresh within fetched => exact .fetch (absent fresh) (by omega) fetched
  | remote fresh within fetched headed unread =>
    exact .remote (absent fresh) (by omega) fetched headed unread
  | merge fresh within fetched headed read unmerged =>
    exact .merge (absent fresh) (by omega) fetched headed read unmerged

theorem outcome_of_resolves {result : Document} (h : Resolves fetcher limit start result) :
    (resolve fetcher quiet limit start).outcome = .ok result := by
  obtain ⟨links, next, trail, passes, ends⟩ := h
  rw [(follow_of_trail trail passes).1]
  have within := passes.within
  -- The loop holds the links in reverse, which changes neither which they are nor how many.
  apply follow_ends (ends.congr (fun _ => List.mem_reverse) (List.length_reverse))
  simp only [urls, List.length_reverse, List.length_map]
  omega

theorem outcome_of_fails {e : GatherError} (h : Fails fetcher limit start e) :
    (resolve fetcher quiet limit start).outcome = .error e := by
  obtain ⟨links, url, d, trail, passes, fault⟩ := h
  rw [(follow_of_trail trail passes).1]
  have within := passes.within
  apply follow_fault (fault.congr (fun _ => List.mem_reverse) (List.length_reverse))
  simp only [urls, List.length_reverse, List.length_map]
  omega

/-- Every chain ends well or fails: from each place of a trail it goes on for as many links as are
left, at most. -/
theorem resolves_or_fails_from (left : Nat) (trail : Trail fetcher start links next)
    (passes : Passes limit start links d) (room : left + links.length = limit) :
    (∃ result, Resolves fetcher limit start result) ∨ ∃ e, Fails fetcher limit start e := by
  -- The induction is on the links that are left. Each way through the loop extends the trail, ends
  -- it, or is a fault of the next link.
  induction left generalizing links d next with
  | zero =>
    cases next with
    | none => exact .inl ⟨d, links, none, trail, passes, .unlinked⟩
    | some url =>
      refine .inr ?_
      by_cases again : url ∈ urls links
      · exact ⟨_, links, url, d, trail, passes, .cycle again⟩
      · refine ⟨_, links, url, d, trail, passes, .tooDeep again ?_⟩
        simp only [urls, List.length_map]
        omega
  | succ left ih =>
    cases next with
    | none => exact .inl ⟨d, links, none, trail, passes, .unlinked⟩
    | some url =>
      by_cases again : url ∈ urls links
      · exact .inr ⟨_, links, url, d, trail, passes, .cycle again⟩
      have within : (urls links).length < limit := by
        simp only [urls, List.length_map]
        omega
      cases fetched : fetcher url with
      | error cause => exact .inr ⟨_, links, url, d, trail, passes, .fetch again within fetched⟩
      | ok body =>
        cases headed : Heading.ofBytes? body with
        | none =>
          exact .inl ⟨d, links, some url, trail, passes, .headless again within fetched headed⟩
        | some heading =>
          have headed' : (Heading.ofBytes? body).isSome = true := by rw [headed]; rfl
          cases read : Document.ofBytes body with
          | error cause =>
            exact .inr ⟨_, links, url, d, trail, passes, .remote again within fetched headed' read⟩
          | ok linked =>
            cases step : d.merge linked with
            | error cause =>
              exact .inr ⟨_, links, url, d, trail, passes,
                .merge again within fetched headed' read step⟩
            | ok merged =>
              refine ih (.snoc trail fetched headed' read (Document.isNext_iff.2 rfl))
                (passes_concat.2 ⟨d, passes, again, by omega, step⟩) ?_
              rw [List.length_append, List.length_singleton]
              omega

theorem resolves_or_fails (fetcher : Fetcher) (limit : Nat) (start : Document) :
    (∃ result, Resolves fetcher limit start result) ∨ ∃ e, Fails fetcher limit start e :=
  resolves_or_fails_from limit (.nil (Document.isNext_iff.2 rfl)) .nil rfl

end Chain

namespace Resolver

variable {web : Web} {r : Resolver}

theorem settled_eq :
    (r.settled web).fetcherInUse web = r.fetcherInUse web ∧ (r.settled web).quiet = r.quiet ∧
      (r.settled web).limit = r.limit := by
  unfold settled
  split
  · next client hnone => exact ⟨by simp only [fetcherInUse, hnone]; rfl, rfl, rfl⟩
  · exact ⟨rfl, rfl, rfl⟩

/-- A resolver goes on asking what it asked before. -/
theorem after_eq (earlier : List Document) :
    (r.after web earlier).fetcherInUse web = r.fetcherInUse web ∧
      (r.after web earlier).quiet = r.quiet ∧ (r.after web earlier).limit = r.limit := by
  induction earlier generalizing r with
  | nil => exact ⟨rfl, rfl, rfl⟩
  | cons d earlier ih =>
    obtain ⟨hf, hq, hl⟩ := ih (r := (r.resolve web d).2)
    rw [after, hf, hq, hl]
    simp only [resolve]
    split
    · exact ⟨rfl, rfl, rfl⟩
    · exact settled_eq

/-- **A resolver computes the fold of the chain**, whatever it resolved before, with the fetcher
that it was given or, without one, with the web. -/
theorem resolve_iff_chain (web : Web) (r : Resolver) (earlier : List Document)
    (start : Document) :
    (∀ result, ((r.after web earlier).resolve web start).1.outcome = .ok result ↔
      Chain.Resolves (r.fetcherInUse web) r.limit start result) ∧
    (∀ e, ((r.after web earlier).resolve web start).1.outcome = .error e ↔
      Chain.Fails (r.fetcherInUse web) r.limit start e) := by
  obtain ⟨hf, hq, hl⟩ := @after_eq web r earlier
  have hres : ((r.after web earlier).resolve web start).1 =
      Chain.resolve (r.fetcherInUse web) r.quiet r.limit start := by
    rw [resolve, hf, hq, hl]
  rw [hres]
  refine ⟨fun result => ⟨fun h => ?_, Chain.outcome_of_resolves⟩,
    fun e => ⟨fun h => ?_, Chain.outcome_of_fails⟩⟩
  · rcases Chain.resolves_or_fails (r.fetcherInUse web) r.limit start with ⟨other, ok⟩ | ⟨e, bad⟩
    · rw [Chain.outcome_of_resolves ok] at h
      cases h
      exact ok
    · rw [Chain.outcome_of_fails bad] at h
      cases h
  · rcases Chain.resolves_or_fails (r.fetcherInUse web) r.limit start with ⟨other, ok⟩ | ⟨e', bad⟩
    · rw [Chain.outcome_of_resolves ok] at h
      cases h
    · rw [Chain.outcome_of_fails bad] at h
      cases h
      exact bad

/-- Two links are as many as may be followed, and one too many where one may be. The merged document
still names the second link, which the document there does not name again. -/
theorem resolve_iff_chain_two_links :
    let first : Document := ⟨[("config_url", .string "b"), ("x", .string "1")]⟩
    let second : Document := ⟨[("y", .string "2")]⟩
    let start : Document := ⟨[("config_url", .string "a")]⟩
    let shelf : RemoteShelf :=
      ⟨[("a", Bytes.ofText first.toText), ("b", Bytes.ofText second.toText)], []⟩
    let resolver (limit : Nat) : Resolver := { fetcher := some shelf.fetch, limit }
    let web : Web := .error "Http"
    ((resolver 2).resolve web start).1.outcome =
        .ok ⟨[("config_url", .string "b"), ("x", .string "1"), ("y", .string "2")]⟩ ∧
      ((resolver 1).resolve web start).1.outcome = .error (.tooDeep 1) := by
  intro first second start shelf resolver web
  have hfirst : first.IsFlat := ⟨by decide, by decide, by decide⟩
  have hsecond : second.IsFlat := ⟨by decide, by decide, by decide⟩
  have headed (d : Document) : (Heading.ofBytes? (Bytes.ofText d.toText)).isSome = true := by
    rw [show Heading.ofBytes? (Bytes.ofText d.toText) = _ from
      Heading.ofBytes?_heading .cloudConfig _]
    rfl
  have trail : Chain.Trail shelf.fetch start ([] ++ [("a", first)]) (some "b") :=
    .snoc (.nil (Document.isNext_iff.2 rfl)) rfl (headed first) hfirst.ofBytes_toText
      (Document.isNext_iff.2 rfl)
  constructor
  · refine ((resolve_iff_chain web (resolver 2) [] start).1 _).2
      ⟨[("a", first), ("b", second)], none, ?_, ⟨by decide, by decide, rfl⟩, .unlinked⟩
    exact .snoc trail rfl (headed second) hsecond.ofBytes_toText (Document.isNext_iff.2 rfl)
  · refine ((resolve_iff_chain web (resolver 1) [] start).2 _).2
      ⟨[("a", first)], "b", _, trail, ⟨by decide, by decide, rfl⟩, ?_⟩
    exact .tooDeep (by decide) (by decide)

end Resolver

end Provision
