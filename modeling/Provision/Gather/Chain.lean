import Provision.Gather.Fetcher

/-!
# Chains of linked documents

A document may name a further one, and that one the next. `follow` fetches them one after the other
and merges each into the document so far. The next link is the one that the fetched document names
itself. A link that was followed before is an error, and so is one more than the limit. A body
without a heading ends the chain and is not merged.
-/

namespace Provision

/-- Where a chain led. -/
structure Followed where
  outcome : Except GatherError Document
  /-- The links that were asked for, in order. -/
  fetched : List String := []
  notices : List Notice := []

namespace Followed

/-- What came of a chain after one more link in front of it. -/
def after (url : String) (notices : List Notice) (f : Followed) : Followed :=
  { f with fetched := url :: f.fetched, notices := notices ++ f.notices }

end Followed

namespace Chain

/-- The chain from a link on. So many links are `left` of the limit, and those in `visited` are
followed already. -/
def follow (fetcher : Fetcher) (quiet : Bool) (limit : Nat) :
    (left : Nat) → (visited : List String) → Document → Option String → Followed
  | _, _, d, none => { outcome := .ok d }
  | 0, visited, _, some url =>
    { outcome := .error (if visited.contains url then .cycle url else .tooDeep limit) }
  | left + 1, visited, d, some url =>
    if visited.contains url then { outcome := .error (.cycle url) }
    else
      let fetching := Notice.fetching url (visited.length + 1)
      let stop (outcome : Except GatherError Document) (more : List Notice) : Followed :=
        { outcome, fetched := [url], notices := fetching :: more }
      match fetcher url with
      | .error cause => stop (.error (.fetch url cause)) []
      | .ok body =>
        if (Heading.ofBytes? body).isNone then
          stop (.ok d) (Notice.reported quiet [.remoteHeadingMissing url])
        else
          match Document.ofBytes body with
          | .error cause => stop (.error (.remote url cause)) []
          | .ok next =>
            match d.merge next with
            | .error cause => stop (.error (.merge cause)) []
            | .ok merged =>
              (follow fetcher quiet limit left (url :: visited) merged next.link?).after url
                [fetching]

/-- The chain that starts at a document's own link. -/
def resolve (fetcher : Fetcher) (quiet : Bool) (limit : Nat) (d : Document) : Followed :=
  follow fetcher quiet limit limit [] d d.link?

/-- How many links are followed unless something else is asked for. -/
def defaultLimit : Nat := 32

end Chain

end Provision
