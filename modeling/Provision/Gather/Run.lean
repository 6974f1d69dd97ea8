import Provision.Gather.Sieve
import Provision.Gather.Source

/-!
# Runs

A run collects the sources, reads them one after the other through a sieve, merges those that are
configuration documents, and follows the links of the result. The first error stops it.
-/

namespace Provision

/-- What came of a run. -/
structure Run where
  outcome : Except GatherError Document
  /-- The links that were asked for, in order. -/
  fetched : List String := []
  notices : List Notice := []

namespace Run

/-- The document that a source contributes, if it does, and what is reported. -/
def load (sieve : Sieve) (quiet : Bool) (s : Source) :
    Except GatherError (Option Document) × List Notice :=
  match sieve s.content with
  | .error message => (.error (.refused s.origin message), [])
  | .ok content =>
    if s.origin.needsHeading && (Heading.ofBytes? content).isNone then
      (.ok none, Notice.reported quiet [.headingMissing s.origin])
    else
      match Document.ofBytes content with
      | .ok d => (.ok (some d), [.merging s.origin d.entries.length])
      | .error (.notAMapping kind) =>
        (.ok none, Notice.reported quiet [.notAMapping s.origin kind])
      | .error cause => (.error (.unreadable s.origin cause), [])

/-- The sources merged into a document, one after the other. -/
def fold (sieve : Sieve) (quiet : Bool) (d : Document) :
    List Source → Except GatherError Document × List Notice
  | [] => (.ok d, [])
  | s :: sources =>
    match load sieve quiet s with
    | (.error e, notices) => (.error e, notices)
    | (.ok none, notices) =>
      let (outcome, more) := fold sieve quiet d sources
      (outcome, notices ++ more)
    | (.ok (some next), notices) =>
      match d.merge next with
      | .error cause => (.error (.merge cause), notices)
      | .ok merged =>
        let (outcome, more) := fold sieve quiet merged sources
        (outcome, notices ++ more)

/-- The run over the files of a system with the given options. Links are asked of the web, unless
there is a fetcher among the options. -/
def scan (system : FileSystem) (web : Web) (o : Options) (sieve : Sieve) : Run :=
  let collected := Source.collect system o
  match collected.outcome with
  | .error e => { outcome := .error e, notices := collected.notices }
  | .ok sources =>
    match fold sieve o.quiet {} sources with
    | (.error e, notices) => { outcome := .error e, notices := collected.notices ++ notices }
    | (.ok d, notices) =>
      let chain := Chain.resolve (o.fetcher.getD web.fetch) o.quiet o.linkLimit d
      { outcome := chain.outcome, fetched := chain.fetched,
        notices := collected.notices ++ notices ++ chain.notices }

end Run

end Provision
