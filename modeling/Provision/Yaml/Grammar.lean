import Provision.Yaml.Event
import Provision.Yaml.Token

/-!
# The grammar of documents

`events? tokens` are the events of the first document of a stream, if its tokens follow the grammar.
The parser is predictive: it keeps a stack of goals, and the next token decides what becomes of the
goal on top. Each move takes a token or puts lighter goals in the place of the top one, so the
parser stops.

Only the first document counts. One token after its last node is looked at, and must be there.
-/

namespace Provision.Yaml

/-- Which tokens stand for an absent node, where one may be absent. -/
inductive Slot where
  | blockKey
  | blockValue
  | blockItem
  | bareItem
  | flowKey
  | flowValue
  | pairValue
deriving DecidableEq, Repr

/-- A part of a document that is still to come. -/
inductive Goal where
  /-- A node; `block` tells whether it may be a block collection, and `bare` whether a block
  sequence that is not indented. -/
  | node (block bare : Bool)
  /-- A node that may be absent. -/
  | slot (place : Slot)
  /-- A key of a block mapping with what follows, or its end. -/
  | blockKey
  /-- The value of the last key of a block mapping. -/
  | blockValue
  /-- An item of a block sequence with what follows, or its end. -/
  | blockItem
  /-- The same of a sequence that is not indented. -/
  | bareItem
  /-- What follows the start of a flow sequence or a comma in it. -/
  | flowItem
  /-- What follows an item of a flow sequence. -/
  | flowItems
  /-- The key of a pair without braces in a flow sequence. -/
  | pairKey
  /-- The value of such a pair. -/
  | pairValue
  /-- The end of such a pair. -/
  | pairEnd
  /-- What follows the start of a flow mapping or a comma in it. -/
  | flowKey
  /-- The value of the last key of a flow mapping. -/
  | flowValue
  /-- The absent value of a key without a colon. -/
  | noValue
  /-- What follows an entry of a flow mapping. -/
  | flowKeys
deriving DecidableEq, Repr

/-- What is declared in a document up to a place. -/
structure Scope where
  /-- The handle that a directive declares. -/
  handle : Option (List Char) := none
  /-- The anchors set so far with their numbers, the last one first. -/
  anchors : List (List Char × Nat) := []

namespace Scope

/-- The number of the next anchor. The first one is 1. -/
def next (s : Scope) : Nat := s.anchors.length + 1

/-- The scope after an anchor is set. -/
def anchor (name : List Char) (s : Scope) : Scope :=
  { s with anchors := (name, s.next) :: s.anchors }

/-- The suffix of a tag. A handle that is named must be declared, but for `!!`. -/
def suffix? (s : Scope) (handle suffix : List Char) : Option (List Char) :=
  if handle.length ≤ 1 ∨ handle = ['!', '!'] ∨ s.handle = some handle then some suffix
  else none

end Scope

/-- The properties at the start of a node, an anchor and a tag in either order. -/
def properties? (s : Scope) : List Token → Option (Properties × Scope × List Token)
  | .anchor name :: .tag handle suffix :: ts =>
    (s.suffix? handle suffix).map fun tag =>
      ({ anchor := some s.next, tag := some tag }, s.anchor name, ts)
  | .anchor name :: ts => some ({ anchor := some s.next }, s.anchor name, ts)
  | .tag handle suffix :: .anchor name :: ts =>
    (s.suffix? handle suffix).map fun tag =>
      ({ anchor := some s.next, tag := some tag }, s.anchor name, ts)
  | .tag handle suffix :: ts =>
    (s.suffix? handle suffix).map fun tag => ({ tag := some tag }, s, ts)
  | ts => some ({}, s, ts)

/-- What the parser does with a goal. -/
structure Move where
  /-- The events that are complete. -/
  events : List Event
  /-- The goals that take the place of the top one. -/
  goals : List Goal
  scope : Scope
  rest : List Token

/-- Whether a slot stays empty before this token. -/
def Slot.skips : Slot → Token → Bool
  | .blockKey, t => t == .key || t == .value || t == .blockEnd
  | .blockValue, t => t == .key || t == .value || t == .blockEnd
  | .blockItem, t => t == .blockEntry || t == .blockEnd
  | .bareItem, t => t == .blockEntry || t == .key || t == .value || t == .blockEnd
  | .flowKey, t => t == .value || t == .flowEntry || t == .flowMappingEnd
  | .flowValue, t => t == .flowEntry || t == .flowMappingEnd
  | .pairValue, t => t == .flowEntry || t == .flowSequenceEnd

/-- The node that may stand in a slot. -/
def Slot.node : Slot → Goal
  | .blockKey => .node true true
  | .blockValue => .node true true
  | .blockItem => .node true false
  | .bareItem => .node true false
  | _ => .node false false

/-- The content of a node after its properties. -/
def content? (block bare : Bool) (p : Properties) (s : Scope) : List Token → Option Move
  | [] => none
  | t :: ts =>
    match t with
    | .scalar plain text => some ⟨[.scalar p plain text], [], s, ts⟩
    | .flowSequenceStart => some ⟨[.sequenceStart p], [.flowItem], s, ts⟩
    | .flowMappingStart => some ⟨[.mappingStart p], [.flowKey], s, ts⟩
    | .blockEntry =>
      if bare then some ⟨[.sequenceStart p], [.slot .bareItem, .bareItem], s, ts⟩
      else if p.isEmpty then none else some ⟨[.scalar p true []], [], s, t :: ts⟩
    | .blockSequenceStart =>
      if block then some ⟨[.sequenceStart p], [.blockItem], s, ts⟩
      else if p.isEmpty then none else some ⟨[.scalar p true []], [], s, t :: ts⟩
    | .blockMappingStart =>
      if block then some ⟨[.mappingStart p], [.blockKey], s, ts⟩
      else if p.isEmpty then none else some ⟨[.scalar p true []], [], s, t :: ts⟩
    | _ => if p.isEmpty then none else some ⟨[.scalar p true []], [], s, t :: ts⟩

namespace Goal

/-- How heavy a goal is: more than all goals together that may take its place without a token. -/
def weight : Goal → Nat
  | .node _ _ => 1
  | .slot _ => 2
  | .blockKey => 1
  | .blockValue => 2
  | .blockItem => 1
  | .bareItem => 1
  | .flowItem => 3
  | .flowItems => 1
  | .pairKey => 4
  | .pairValue => 2
  | .pairEnd => 1
  | .flowKey => 4
  | .flowValue => 1
  | .noValue => 1
  | .flowKeys => 1

/-- The move for a goal. -/
def step? (goal : Goal) (s : Scope) (tokens : List Token) : Option Move :=
  match goal, tokens with
  | .node _ _, .alias name :: ts =>
    (s.anchors.lookup name).map fun id => ⟨[.alias id], [], s, ts⟩
  | .node block bare, ts =>
    match properties? s ts with
    | none => none
    | some (p, s, ts) => content? block bare p s ts
  | .slot place, t :: ts =>
    if place.skips t then some ⟨[.absent], [], s, t :: ts⟩
    else some ⟨[], [place.node], s, t :: ts⟩
  | .blockKey, .key :: ts => some ⟨[], [.slot .blockKey, .blockValue], s, ts⟩
  | .blockKey, .value :: ts => some ⟨[.absent], [.slot .blockValue, .blockKey], s, ts⟩
  | .blockKey, .blockEnd :: ts => some ⟨[.mappingEnd], [], s, ts⟩
  | .blockValue, .value :: ts => some ⟨[], [.slot .blockValue, .blockKey], s, ts⟩
  | .blockValue, t :: ts => some ⟨[.absent], [.blockKey], s, t :: ts⟩
  | .blockItem, .blockEntry :: ts => some ⟨[], [.slot .blockItem, .blockItem], s, ts⟩
  | .blockItem, .blockEnd :: ts => some ⟨[.sequenceEnd], [], s, ts⟩
  | .bareItem, .blockEntry :: ts => some ⟨[], [.slot .bareItem, .bareItem], s, ts⟩
  | .bareItem, t :: ts => some ⟨[.sequenceEnd], [], s, t :: ts⟩
  | .flowItem, .flowSequenceEnd :: ts => some ⟨[.sequenceEnd], [], s, ts⟩
  | .flowItem, .key :: ts => some ⟨[.mappingStart {}], [.pairKey, .flowItems], s, ts⟩
  | .flowItem, ts => some ⟨[], [.node false false, .flowItems], s, ts⟩
  | .flowItems, .flowSequenceEnd :: ts => some ⟨[.sequenceEnd], [], s, ts⟩
  | .flowItems, .flowEntry :: ts => some ⟨[], [.flowItem], s, ts⟩
  | .pairKey, .value :: ts => some ⟨[.absent], [.pairValue], s, ts⟩
  | .pairKey, .flowEntry :: ts => some ⟨[.absent], [.pairValue], s, ts⟩
  | .pairKey, .flowSequenceEnd :: ts => some ⟨[.absent], [.pairValue], s, ts⟩
  | .pairKey, ts => some ⟨[], [.node false false, .pairValue], s, ts⟩
  | .pairValue, .value :: ts => some ⟨[], [.slot .pairValue, .pairEnd], s, ts⟩
  | .pairValue, ts => some ⟨[.absent], [.pairEnd], s, ts⟩
  | .pairEnd, ts => some ⟨[.mappingEnd], [], s, ts⟩
  | .flowKey, .flowMappingEnd :: ts => some ⟨[.mappingEnd], [], s, ts⟩
  | .flowKey, .key :: ts => some ⟨[], [.slot .flowKey, .flowValue, .flowKeys], s, ts⟩
  | .flowKey, .value :: ts => some ⟨[.absent], [.slot .flowValue, .flowKeys], s, ts⟩
  | .flowKey, ts => some ⟨[], [.node false false, .noValue, .flowKeys], s, ts⟩
  | .flowValue, .value :: ts => some ⟨[], [.slot .flowValue], s, ts⟩
  | .flowValue, ts => some ⟨[.absent], [], s, ts⟩
  | .noValue, ts => some ⟨[.absent], [], s, ts⟩
  | .flowKeys, .flowMappingEnd :: ts => some ⟨[.mappingEnd], [], s, ts⟩
  | .flowKeys, .flowEntry :: ts => some ⟨[], [.flowKey], s, ts⟩
  | _, _ => none

/-- The weight of a stack. -/
def total : List Goal → Nat
  | [] => 0
  | goal :: goals => goal.weight + total goals

theorem total_append (goals more : List Goal) :
    total (goals ++ more) = total goals + total more := by
  induction goals with
  | nil => exact (Nat.zero_add _).symm
  | cons goal goals ih =>
    rw [List.cons_append, total, total, ih, Nat.add_assoc]

theorem length_properties? {s s' : Scope} {ts rest : List Token} {p : Properties}
    (h : properties? s ts = some (p, s', rest)) :
    rest.length ≤ ts.length := by
  unfold properties? at h
  split at h <;> simp only [Option.map_eq_some_iff, Option.some.injEq, Prod.mk.injEq] at h
  · obtain ⟨_, _, _, _, rfl⟩ := h
    simp
    omega
  · obtain ⟨_, _, rfl⟩ := h
    simp
  · obtain ⟨_, _, _, _, rfl⟩ := h
    simp
    omega
  · obtain ⟨_, _, _, _, rfl⟩ := h
    simp
  · obtain ⟨_, _, rfl⟩ := h
    simp

theorem content?_lighter {block bare : Bool} {p : Properties} {s : Scope} {ts : List Token}
    {m : Move} (h : content? block bare p s ts = some m) :
    m.rest.length < ts.length ∨ (m.rest.length ≤ ts.length ∧ m.goals = []) := by
  unfold content? at h
  split at h
  · simp at h
  · split at h
    all_goals repeat' split at h
    all_goals simp only [Option.some.injEq, reduceCtorEq] at h
    all_goals subst h; simp

/-- A move takes a token or makes the stack lighter. -/
theorem step?_lighter {goal : Goal} {s : Scope} {ts : List Token} {m : Move}
    (h : goal.step? s ts = some m) :
    m.rest.length < ts.length ∨
      (m.rest.length ≤ ts.length ∧ total m.goals < goal.weight) := by
  unfold step? at h
  split at h
  case h_1 =>
    obtain ⟨_, _, rfl⟩ := Option.map_eq_some_iff.1 h
    simp
  case h_2 =>
    split at h
    · simp at h
    · next hp =>
      have h1 := length_properties? hp
      rcases content?_lighter h with h2 | ⟨h2, h3⟩
      · left; omega
      · right; rw [h3]; exact ⟨by omega, by simp [total, weight]⟩
  case h_3 =>
    split at h <;> simp only [Option.some.injEq] at h <;> subst h
    · simp [total, weight]
    · rename_i place _ _ _
      cases place <;> simp [total, weight, Slot.node]
  all_goals simp only [Option.some.injEq, reduceCtorEq] at h
  all_goals subst h; simp [total, weight]

end Goal

/-- The events of a stack of goals, and the tokens after them. -/
def run? (goals : List Goal) (s : Scope) (tokens : List Token) :
    Option (List Event × List Token) :=
  match goals with
  | [] => some ([], tokens)
  | goal :: goals =>
    match _move : goal.step? s tokens with
    | none => none
    | some m => (run? (m.goals ++ goals) m.scope m.rest).map fun (events, rest) =>
        (m.events ++ events, rest)
termination_by (tokens.length, Goal.total goals)
decreasing_by
  have := Goal.step?_lighter _move
  rw [Goal.total_append, Goal.total]
  rw [Prod.lex_def]
  rcases this with h1 | ⟨h1, h2⟩
  · exact Or.inl h1
  · rcases Nat.lt_or_eq_of_le h1 with h3 | h3
    · exact Or.inl h3
    · refine Or.inr ⟨h3, ?_⟩
      omega

/-- The directives at the start of a document: at most one gives a version. What is declared is the
handle of the last one, if that is the declaration of a handle. -/
def directives? (version : Bool) (handle : Option (List Char)) :
    List Token → Option (Option (List Char) × List Token)
  | .versionDirective :: ts => if version then none else directives? true none ts
  | .tagDirective declared :: ts => directives? version (some declared) ts
  | ts => some (handle, ts)

/-- Whether a token stands between documents. -/
def Token.endsDocument : Token → Bool
  | .versionDirective => true
  | .tagDirective _ => true
  | .documentStart => true
  | .documentEnd => true
  | .streamEnd => true
  | _ => false

/-- Whether a document may end before these tokens: there is one, and it is no directive. -/
def documentEnds : List Token → Bool
  | [] => false
  | .versionDirective :: _ => false
  | .tagDirective _ :: _ => false
  | _ => true

/-- The events of a document after its start. -/
def document? (absent : Bool) (s : Scope) (tokens : List Token) : Option (List Event) := do
  let (events, rest) ←
    match tokens with
    | t :: _ =>
      if absent && t.endsDocument then some ([.absent], tokens)
      else run? [.node true false] s tokens
    | [] => none
  if documentEnds rest then some events else none

/-- The events of the first document of a stream. A stream may hold none. -/
def events? (tokens : List Token) : Option (List Event) :=
  match tokens.dropWhile (· == .documentEnd) with
  | [] => none
  | t :: ts =>
    if t = .streamEnd then some []
    else if t.endsDocument then do
      match ← directives? false none (t :: ts) with
      | (handle, .documentStart :: ts) => document? true { handle } ts
      | _ => none
    else document? false {} (t :: ts)

end Provision.Yaml
