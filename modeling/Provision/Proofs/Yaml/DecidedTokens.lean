import Mathlib.Logic.Basic
import Provision.Proofs.Yaml.Steps

/-!
# Tokens that nothing behind them changes

The reader puts tokens for a key back to where the key started, so that a token is decided only when
no pending key stands before it (`Keeps`). Whatever the reader takes next, decided tokens stay where
they are:

* **a step** — `Takes` lists what a step may do, which `takes_of_act?` finds out once; each of these
  keeps what is decided (`Keeps.takes`), and so does going to the next token (`Keeps.next?`);
* **a run** — the tokens of a run start with those that were decided before it
  (`Keeps.exists_run`), also where the reader gives up.
-/

namespace Provision.Yaml.TokenReader

/-- The first tokens of the reader are these, the last one first, and every pending key stands
behind them. -/
def Keeps (known : List Token) (r : TokenReader) : Prop :=
  known <:+ r.tokens ∧ ∀ pending ∈ r.pending :: r.outer, ∀ key ∈ pending, known <:+ key.earlier

/-- What a step may do with the token at which the reader stands. -/
inductive Takes (r r' : TokenReader) : Prop
  | finish : r.finish? = some r' → Takes r r'
  | directive : r.directive? = some r' → Takes r r'
  | marker (token : Token) : r.marker? token = some r' → Takes r r'
  | openFlow (sequence : Bool) : r.openFlow? sequence = some r' → Takes r r'
  | closeFlow (sequence : Bool) : r.closeFlow? sequence = some r' → Takes r r'
  | flowEntry : r.flowEntry? = some r' → Takes r r'
  | blockEntry : r.blockEntry? = some r' → Takes r r'
  | explicitKey : r.explicitKey? = some r' → Takes r r'
  | value : r.value? = some r' → Takes r r'
  | anchor (make : List Char → Token) : r.anchor? make = some r' → Takes r r'
  | tag : r.tag? = some r' → Takes r r'
  | block (folded : Bool) : r.block? folded = some r' → Takes r r'
  | quoted (style : Quoted.Style) : r.quoted? style = some r' → Takes r r'
  | plain : r.plain? = some r' → Takes r r'

theorem takes_of_lexeme? {r r' : TokenReader} {x : Char} {after : List Char}
    (h : r.lexeme? x after = some r') : Takes r r' := by
  unfold lexeme? at h
  obtain ⟨-, h⟩ := Option.ite_none_left_eq_some.1 h
  obtain ⟨-, h⟩ | ⟨-, h⟩ := ite_eq_iff.1 h
  · exact .openFlow true h
  obtain ⟨-, h⟩ | ⟨-, h⟩ := ite_eq_iff.1 h
  · exact .openFlow false h
  obtain ⟨-, h⟩ | ⟨-, h⟩ := ite_eq_iff.1 h
  · exact .closeFlow true h
  obtain ⟨-, h⟩ | ⟨-, h⟩ := ite_eq_iff.1 h
  · exact .closeFlow false h
  obtain ⟨-, h⟩ | ⟨-, h⟩ := ite_eq_iff.1 h
  · exact .flowEntry h
  obtain ⟨-, h⟩ | ⟨-, h⟩ := ite_eq_iff.1 h
  · exact .blockEntry h
  obtain ⟨-, h⟩ | ⟨-, h⟩ := ite_eq_iff.1 h
  · exact .explicitKey h
  obtain ⟨-, h⟩ | ⟨-, h⟩ := ite_eq_iff.1 h
  · exact .value h
  obtain ⟨-, h⟩ | ⟨-, h⟩ := ite_eq_iff.1 h
  · exact .value (Option.ite_none_left_eq_some.1 h).2
  obtain ⟨-, h⟩ | ⟨-, h⟩ := ite_eq_iff.1 h
  · exact .anchor .alias h
  obtain ⟨-, h⟩ | ⟨-, h⟩ := ite_eq_iff.1 h
  · exact .anchor .anchor h
  obtain ⟨-, h⟩ | ⟨-, h⟩ := ite_eq_iff.1 h
  · exact .tag h
  obtain ⟨-, h⟩ | ⟨-, h⟩ := ite_eq_iff.1 h
  · exact .block false h
  obtain ⟨-, h⟩ | ⟨-, h⟩ := ite_eq_iff.1 h
  · exact .block true h
  obtain ⟨-, h⟩ | ⟨-, h⟩ := ite_eq_iff.1 h
  · exact .quoted .single h
  obtain ⟨-, h⟩ | ⟨-, h⟩ := ite_eq_iff.1 h
  · exact .quoted .double h
  obtain ⟨-, h⟩ := Option.ite_none_left_eq_some.1 h
  exact .plain h

/-- A step takes what the reader stands at, and gives up a key that is stale then. -/
theorem takes_of_act? {r r' : TokenReader} (h : r.act? = some r') :
    ∃ r₁, Takes r r₁ ∧ r₁.dropStale? = some r' := by
  unfold act? at h
  dsimp only at h
  split at h
  · obtain ⟨r₁, htake, hstale⟩ := Option.bind_eq_some_iff.1 h
    exact ⟨r₁, .finish htake, hstale⟩
  · obtain ⟨-, h⟩ | ⟨-, h⟩ := ite_eq_iff.1 h
    · obtain ⟨r₁, htake, hstale⟩ := Option.bind_eq_some_iff.1 h
      exact ⟨r₁, .directive htake, hstale⟩
    obtain ⟨-, h⟩ | ⟨-, h⟩ := ite_eq_iff.1 h
    · obtain ⟨r₁, htake, hstale⟩ := Option.bind_eq_some_iff.1 h
      exact ⟨r₁, .marker _ htake, hstale⟩
    obtain ⟨-, h⟩ | ⟨-, h⟩ := ite_eq_iff.1 h
    · obtain ⟨r₁, htake, hstale⟩ := Option.bind_eq_some_iff.1 h
      exact ⟨r₁, .marker _ htake, hstale⟩
    · obtain ⟨r₁, htake, hstale⟩ := Option.bind_eq_some_iff.1 h
      exact ⟨r₁, takes_of_lexeme? htake, hstale⟩

namespace Keeps

variable {known : List Token} {r r' : TokenReader}

/-- Where no key is pending, all tokens are decided. -/
theorem of_tokens (pending : r.pending = none) (outer : r.outer = []) (tokens : r.tokens = known) :
    Keeps known r := by
  refine ⟨tokens ▸ List.suffix_refl _, fun p hp key hkey => ?_⟩
  rw [pending, outer, List.mem_singleton] at hp
  rw [hp] at hkey
  cases hkey

/-! ## Parts of a step -/

theorem push {t : Token} (h : Keeps known r) : Keeps known (r.push t) :=
  ⟨h.1.trans (List.suffix_cons t r.tokens), h.2⟩

/-- A key that is given up is behind nothing. -/
theorem forget (h : Keeps known r) : Keeps known { r with pending := none } := by
  refine ⟨h.1, List.forall_mem_cons.2 ⟨by rintro key ⟨⟩, ?_⟩⟩
  exact fun pending hmem => h.2 pending (List.mem_cons_of_mem _ hmem)

theorem dropKey? (step : r.dropKey? = some r') (h : Keeps known r) : Keeps known r' := by
  unfold TokenReader.dropKey? at step
  split at step
  · cases step
    exact h
  · obtain ⟨-, ⟨⟩⟩ := Option.ite_none_left_eq_some.1 step
    exact h.forget

theorem dropStale? (step : r.dropStale? = some r') (h : Keeps known r) : Keeps known r' := by
  unfold TokenReader.dropStale? at step
  split at step
  · cases step
    exact h
  · split at step
    · obtain ⟨-, ⟨⟩⟩ := Option.ite_none_left_eq_some.1 step
      exact h.forget
    · cases step
      exact h

/-- A key that is marked here stands behind all tokens so far. -/
theorem markKey (h : Keeps known r) : Keeps known r.markKey := by
  unfold TokenReader.markKey
  split
  · refine ⟨h.1, List.forall_mem_cons.2 ⟨?_, ?_⟩⟩
    · rintro key ⟨⟩
      exact h.1
    · exact fun pending hmem => h.2 pending (List.mem_cons_of_mem _ hmem)
  · exact h

theorem closeTo {column : Int} (h : Keeps known r) : Keeps known (r.closeTo column) := by
  unfold TokenReader.closeTo
  split
  · exact h
  · exact ⟨h.1.trans (List.suffix_append _ _), h.2⟩

theorem openHere {start : Token} (h : Keeps known r) : Keeps known (r.openHere start) := by
  unfold TokenReader.openHere
  split
  · exact h
  · refine ⟨?_, h.2⟩
    dsimp only
    split
    · exact h.1.trans (List.suffix_cons _ _)
    · exact h.1

theorem shiftMargin (h : Keeps known r) : Keeps known r.shiftMargin := by
  unfold TokenReader.shiftMargin
  split <;> exact h

theorem closePair (h : Keeps known r) : Keeps known r.closePair := by
  unfold TokenReader.closePair
  split
  · exact push h
  · exact h

theorem skipBlanks? (step : r.skipBlanks? = some r') (h : Keeps known r) : Keeps known r' := by
  obtain ⟨p, -, rfl⟩ := Option.map_eq_some_iff.1 step
  exact h

theorem skipToToken? (step : r.skipToToken? = some r') (h : Keeps known r) : Keeps known r' := by
  obtain ⟨p, -, rfl⟩ := Option.map_eq_some_iff.1 step
  exact h

/-- Tokens that are put in where a pending key started come behind those that are decided. -/
theorem insertAt {key : PendingKey} (earlier : known <:+ key.earlier) (added tokens : List Token) :
    known <:+ insertAt key added tokens :=
  (earlier.trans (List.suffix_append _ _)).trans (List.suffix_append _ _)

/-- The key before the bracket of a collection is pending again behind it. -/
theorem leaveFlow (h : Keeps known r) :
    Keeps known (match r.outer with
      | [] => r
      | key :: outer => { r with pending := key, outer }) := by
  split
  · exact h
  · next key outer houter =>
    refine ⟨h.1, fun pending hmem => h.2 pending ?_⟩
    rw [houter]
    exact List.mem_cons_of_mem _ hmem

/-! ## Tokens -/

theorem openFlow? {sequence : Bool} (step : r.openFlow? sequence = some r') (h : Keeps known r) :
    Keeps known r' := by
  have hmark : Keeps known r.markKey.shiftMargin := h.markKey.shiftMargin
  unfold TokenReader.openFlow? at step
  obtain ⟨-, step⟩ := Option.ite_none_left_eq_some.1 step
  obtain ⟨r₁, hblanks, rfl⟩ := Option.map_eq_some_iff.1 step
  refine push (skipBlanks? hblanks ⟨hmark.1, ?_⟩)
  exact List.forall_mem_cons.2 ⟨by rintro key ⟨⟩, hmark.2⟩

theorem closeFlow? {sequence : Bool} (step : r.closeFlow? sequence = some r')
    (h : Keeps known r) : Keeps known r' := by
  obtain ⟨r₁, hdrop, step⟩ := Option.bind_eq_some_iff.1 step
  obtain ⟨r₂, hblanks, hr'⟩ := Option.bind_eq_some_iff.1 step
  cases hr'
  have hclosed : Keeps known r₂ := skipBlanks? hblanks (closePair (dropKey? hdrop h).leaveFlow)
  refine push ?_
  split <;> exact hclosed

theorem flowEntry? (step : r.flowEntry? = some r') (h : Keeps known r) : Keeps known r' := by
  obtain ⟨r₁, hdrop, step⟩ := Option.bind_eq_some_iff.1 step
  obtain ⟨r₂, hblanks, hr'⟩ := Option.bind_eq_some_iff.1 step
  cases hr'
  have hdropped : Keeps known r₁ := dropKey? hdrop h
  exact push (skipBlanks? hblanks (closePair hdropped))

theorem blockEntry? (step : r.blockEntry? = some r') (h : Keeps known r) : Keeps known r' := by
  unfold TokenReader.blockEntry? at step
  obtain ⟨-, step⟩ := Option.ite_none_left_eq_some.1 step
  obtain ⟨-, step⟩ := Option.ite_none_left_eq_some.1 step
  obtain ⟨⟨blanks, c⟩, -, step⟩ := Option.bind_eq_some_iff.1 step
  obtain ⟨-, step⟩ := Option.ite_none_left_eq_some.1 step
  obtain ⟨r₁, hdrop, hr'⟩ := Option.bind_eq_some_iff.1 step
  cases hr'
  have hdropped : Keeps known r₁ := by
    refine dropKey? hdrop ?_
    split
    · exact shiftMargin h.openHere
    · exact h.openHere
  exact push hdropped

theorem explicitKey? (step : r.explicitKey? = some r') (h : Keeps known r) : Keeps known r' := by
  unfold TokenReader.explicitKey? at step
  obtain ⟨-, step⟩ := Option.ite_none_left_eq_some.1 step
  obtain ⟨r₁, hdrop, step⟩ := Option.bind_eq_some_iff.1 step
  obtain ⟨-, step⟩ := Option.ite_none_left_eq_some.1 step
  obtain ⟨-, step⟩ := Option.ite_none_left_eq_some.1 step
  cases step
  have hdropped : Keeps known r₁ := by
    refine dropKey? hdrop ?_
    split
    · exact h
    · exact h.openHere
  exact push hdropped

theorem value? (step : r.value? = some r') (h : Keeps known r) : Keeps known r' := by
  obtain ⟨c, -, step⟩ := Option.bind_eq_some_iff.1 step
  dsimp only at step
  split at step
  · next key hkey =>
    have hearlier : known <:+ key.earlier := h.2 _ List.mem_cons_self key hkey
    obtain ⟨-, ⟨⟩⟩ := Option.ite_none_left_eq_some.1 step
    exact push (shiftMargin ⟨insertAt hearlier _ _, h.forget.2⟩)
  · obtain ⟨-, ⟨⟩⟩ := Option.ite_none_left_eq_some.1 step
    refine push (shiftMargin (openHere ?_))
    split
    · exact push h
    · exact h

theorem anchor? {make : List Char → Token} (step : r.anchor? make = some r') (h : Keeps known r) :
    Keeps known r' := by
  obtain ⟨⟨name, c⟩, -, hr'⟩ := Option.bind_eq_some_iff.1 step
  cases hr'
  exact push (markKey h)

theorem tag? (step : r.tag? = some r') (h : Keeps known r) : Keeps known r' := by
  obtain ⟨⟨token, c⟩, -, hr'⟩ := Option.bind_eq_some_iff.1 step
  cases hr'
  exact push (markKey h)

theorem quoted? {style : Quoted.Style} (step : r.quoted? style = some r') (h : Keeps known r) :
    Keeps known r' := by
  obtain ⟨⟨text, n⟩, -, step⟩ := Option.bind_eq_some_iff.1 step
  obtain ⟨⟨blanks, c⟩, -, step⟩ := Option.bind_eq_some_iff.1 step
  obtain ⟨-, step⟩ := Option.ite_none_right_eq_some.1 step
  obtain ⟨r₁, hskip, hr'⟩ := Option.bind_eq_some_iff.1 step
  cases hr'
  have hskipped : Keeps known r₁ := skipToToken? hskip h.markKey
  exact push hskipped

theorem plain? (step : r.plain? = some r') (h : Keeps known r) : Keeps known r' := by
  unfold TokenReader.plain? at step
  obtain ⟨-, step⟩ := Option.ite_none_left_eq_some.1 step
  obtain ⟨⟨text, n⟩, -, step⟩ := Option.bind_eq_some_iff.1 step
  obtain ⟨-, ⟨⟩⟩ := Option.ite_none_left_eq_some.1 step
  exact push h.markKey

theorem block? {folded : Bool} (step : r.block? folded = some r') (h : Keeps known r) :
    Keeps known r' := by
  obtain ⟨⟨header, n⟩, -, step⟩ := Option.bind_eq_some_iff.1 step
  obtain ⟨⟨blanks, c⟩, -, step⟩ := Option.bind_eq_some_iff.1 step
  dsimp only at step
  split at step
  · cases step
    exact push h.markKey
  · obtain ⟨-, step⟩ := Option.ite_none_left_eq_some.1 step
    obtain ⟨⟨text, m⟩, -, hr'⟩ := Option.bind_eq_some_iff.1 step
    cases hr'
    exact push h.markKey

/-! ## Documents -/

theorem finish? (step : r.finish? = some r') (h : Keeps known r) : Keeps known r' := by
  obtain ⟨-, ⟨⟩⟩ := Option.ite_none_left_eq_some.1 step
  have hleft : Keeps known { r with pending := none, outer := r.outer.map fun _ => none } := by
    refine ⟨h.1, List.forall_mem_cons.2 ⟨by rintro key ⟨⟩, fun pending hmem => ?_⟩⟩
    obtain ⟨_, -, rfl⟩ := List.mem_map.1 hmem
    rintro key ⟨⟩
  exact push hleft.closeTo

theorem leaveDocument? (step : r.leaveDocument? = some r') (h : Keeps known r) :
    Keeps known r' := by
  obtain ⟨r₁, hdrop, hr'⟩ := Option.bind_eq_some_iff.1 step
  cases hr'
  have hdropped : Keeps known r₁ := dropKey? hdrop h.closeTo
  exact hdropped

theorem directive? (step : r.directive? = some r') (h : Keeps known r) : Keeps known r' := by
  obtain ⟨r₁, hleave, step⟩ := Option.bind_eq_some_iff.1 step
  obtain ⟨⟨token, c⟩, -, hr'⟩ := Option.bind_eq_some_iff.1 step
  cases hr'
  have hleft : Keeps known r₁ := leaveDocument? hleave h
  exact push hleft

theorem marker? {token : Token} (step : r.marker? token = some r') (h : Keeps known r) :
    Keeps known r' := by
  obtain ⟨r₁, hleave, step⟩ := Option.bind_eq_some_iff.1 step
  have hleft : Keeps known r₁ := leaveDocument? hleave h
  have hmarked : Keeps known ((r₁.moveTo (r₁.cursor.advance 3)).push token) := push hleft
  obtain ⟨-, step⟩ | ⟨-, step⟩ := ite_eq_iff.1 step
  · obtain ⟨r₂, hblanks, step⟩ := Option.bind_eq_some_iff.1 step
    obtain ⟨-, ⟨⟩⟩ := Option.ite_none_right_eq_some.1 step
    exact skipBlanks? hblanks hmarked
  · cases step
    exact hmarked

/-! ## Steps and runs -/

theorem settled? (step : r.settled? = some r') (h : Keeps known r) : Keeps known r' := by
  obtain ⟨r₁, hskip, step⟩ := Option.bind_eq_some_iff.1 step
  obtain ⟨r₂, hstale, hr'⟩ := Option.bind_eq_some_iff.1 step
  cases hr'
  exact closeTo (dropStale? hstale (skipToToken? hskip h))

theorem takes (step : Takes r r') (h : Keeps known r) : Keeps known r' := by
  cases step with
  | finish step => exact h.finish? step
  | directive step => exact h.directive? step
  | marker token step => exact h.marker? step
  | openFlow sequence step => exact h.openFlow? step
  | closeFlow sequence step => exact h.closeFlow? step
  | flowEntry step => exact h.flowEntry? step
  | blockEntry step => exact h.blockEntry? step
  | explicitKey step => exact h.explicitKey? step
  | value step => exact h.value? step
  | anchor make step => exact h.anchor? step
  | tag step => exact h.tag? step
  | block folded step => exact h.block? step
  | quoted style step => exact h.quoted? step
  | plain step => exact h.plain? step

theorem act? (step : r.act? = some r') (h : Keeps known r) : Keeps known r' := by
  obtain ⟨r₁, htake, hstale⟩ := takes_of_act? step
  exact dropStale? hstale (h.takes htake)

theorem next? (step : r.next? = some r') (h : Keeps known r) : Keeps known r' := by
  rw [next?_eq, Option.bind_eq_some_iff] at step
  obtain ⟨s, hsettled, hact⟩ := step
  exact act? hact (settled? hsettled h)

/-- The tokens that no pending key can change any more start with those that are kept. -/
theorem decided (h : Keeps known r) : known <:+ r.decided := by
  unfold TokenReader.decided
  split
  · next key hkey =>
    obtain ⟨pending, hpending, hid⟩ := List.mem_filterMap.1 (List.mem_of_getLast? hkey)
    exact h.2 pending hpending key hid
  · exact h.1

/-- The tokens of a run start with those that are kept, whatever the run finds. -/
theorem exists_run (h : Keeps known r) (length : Nat) :
    ∃ more, run length r = known.reverse ++ more := by
  have starts {tokens : List Token} (h : known <:+ tokens) :
      ∃ more, tokens.reverse = known.reverse ++ more := by
    obtain ⟨more, rfl⟩ := h
    exact ⟨more.reverse, List.reverse_append⟩
  fun_induction run length r with
  | case1 r stuck => exact starts h.decided
  | case2 r r' step ended => exact starts (h.next? step).1
  | case3 r r' step going moved ih => exact ih (h.next? step)
  | case4 r r' step going stalled => exact starts h.decided

end Keeps

end Provision.Yaml.TokenReader
