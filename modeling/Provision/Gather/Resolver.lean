import Provision.Gather.Chain

/-!
# Resolvers

A resolver follows the chains of several documents, one after the other. What it keeps from one to
the next is its fetcher alone: where none was given, the one that the web has is kept from the first
link on. The links that were followed belong to their chain and are forgotten with it.
-/

namespace Provision

/-- What follows chains of links. -/
structure Resolver where
  fetcher : Option Fetcher := none
  /-- Whether the notices that can be silenced are. -/
  quiet : Bool := false
  limit : Nat := Chain.defaultLimit

namespace Resolver

/-- What the resolver asks for links. -/
def fetcherInUse (web : Web) (r : Resolver) : Fetcher := r.fetcher.getD web.fetch

/-- The resolver after it has asked for a link: it keeps a client that was set up for that. -/
def settled (web : Web) (r : Resolver) : Resolver :=
  match r.fetcher, web with
  | none, .ok client => { r with fetcher := some client.fetch }
  | _, _ => r

/-- The chain of a document, and the resolver afterwards. -/
def resolve (web : Web) (r : Resolver) (d : Document) : Followed × Resolver :=
  let followed := Chain.resolve (r.fetcherInUse web) r.quiet r.limit d
  (followed, if followed.fetched.isEmpty then r else r.settled web)

/-- The resolver after the chains of documents, whatever came of them. -/
def after (web : Web) (r : Resolver) : List Document → Resolver
  | [] => r
  | d :: earlier => after web (r.resolve web d).2 earlier

end Resolver

end Provision
