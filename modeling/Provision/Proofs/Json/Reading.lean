import Provision.Proofs.Json.Tokens

/-!
# Reading JSON texts

The reader comes to stand behind a value that fits, with the tokens of the value, and in one that
does not fit it gets stuck at the first part that it cannot read (`reads`). A stream in which it
gets stuck has no tokens at all, since the whole text could still be a key (`Rooted`).
-/

namespace Provision.Json

open Yaml Yaml.TokenReader
open Relation (ReflTransGen)

/-! ## Where a reader gets stuck -/

/-- A collection is open, the outermost one could be a key, and nothing stands before it. -/
def Rooted (outer : List (Option PendingKey)) : Prop :=
  ∃ inner key, outer = inner ++ [some key] ∧ key.earlier = []

theorem Rooted.cons {outer : List (Option PendingKey)} (h : Rooted outer)
    (pending : Option PendingKey) : Rooted (pending :: outer) := by
  obtain ⟨inner, key, rfl, hkey⟩ := h
  exact ⟨pending :: inner, key, rfl, hkey⟩

theorem At.rooted {s : TokenReader} {rest : List Char} {tokens : List Token}
    {outer : List (Option PendingKey)} {braced : Bool} (h : At s rest tokens outer braced)
    (rooted : Rooted outer) : Rooted s.outer := by
  rw [h.outer_eq]
  exact rooted

theorem Rooted.ne_nil {outer : List (Option PendingKey)} (h : Rooted outer) : outer ≠ [] := by
  obtain ⟨inner, key, rfl, -⟩ := h
  exact List.append_ne_nil_of_right_ne_nil _ (List.cons_ne_nil _ _)

/-- Nothing that a reader has read is decided while the outermost collection is open. -/
theorem Rooted.decided_eq {r : TokenReader} (h : Rooted r.outer) : r.decided = [] := by
  obtain ⟨inner, key, houter, hkey⟩ := h
  have hlast : ((r.pending :: r.outer).filterMap id).getLast? = some key := by
    rw [houter, ← List.cons_append, List.filterMap_append]
    exact List.getLast?_concat
  rw [decided, hlast]
  exact hkey

/-- The reader comes to a token that it cannot take, at once or within the outermost collection. -/
def Stuck (s : TokenReader) : Prop :=
  ∃ s', ReflTransGen Follows s s' ∧ s'.act? = none ∧ (s' = s ∨ Rooted s'.outer)

theorem Stuck.before {s₁ s : TokenReader} (h : Stuck s) (steps : ReflTransGen Follows s₁ s)
    (rooted : Rooted s.outer) : Stuck s₁ := by
  obtain ⟨s', hsteps, hact, hs'⟩ := h
  refine ⟨s', steps.trans hsteps, hact, .inr ?_⟩
  rcases hs' with rfl | hrooted
  · exact rooted
  · exact hrooted

/-- What becomes of a reader at a part of a text: it comes to stand behind the part if that fits,
and gets stuck if it does not. -/
inductive Outcome (s : TokenReader) (fits : Prop) (tail : List Char) (tokens : List Token)
    (outer : List (Option PendingKey)) (braced : Bool) : Prop
  | read (fits : fits) (s' : TokenReader) (steps : ReflTransGen Follows s s')
      (behind : At s' tail tokens outer braced)
  | stuck (unfit : ¬ fits) (stuck : Stuck s)

section Outcome

variable {s : TokenReader} {fits fits' : Prop} {tail tail' : List Char}
  {tokens tokens' : List Token} {outer outer' : List (Option PendingKey)} {braced braced' : Bool}

/-- The same where a part comes first that is read in any case. -/
theorem Outcome.before {s₁ : TokenReader} (h : Outcome s fits tail tokens outer braced)
    (steps : ReflTransGen Follows s₁ s) (rooted : Rooted s.outer) (iff : fits ↔ fits') :
    Outcome s₁ fits' tail tokens outer braced := by
  cases h with
  | read hfits s' hsteps hs' => exact .read (iff.1 hfits) s' (steps.trans hsteps) hs'
  | stuck hunfit hstuck => exact .stuck (mt iff.2 hunfit) (hstuck.before steps rooted)

/-- What is known of braces may be forgotten. -/
theorem Outcome.forget (h : Outcome s fits tail tokens outer braced)
    (forget : braced' = true → braced = true) : Outcome s fits tail tokens outer braced' := by
  cases h with
  | read hfits s' hsteps hs' =>
    exact .read hfits s' hsteps { hs' with braced_of := fun h => hs'.braced_of (forget h) }
  | stuck hunfit hstuck => exact .stuck hunfit hstuck

/-- Two parts, one after the other. -/
theorem Outcome.next (h : Outcome s fits tail tokens outer braced) (rooted : Rooted outer)
    (next : ∀ s', At s' tail tokens outer braced →
      Outcome s' fits' tail' tokens' outer' braced') :
    Outcome s (fits ∧ fits') tail' tokens' outer' braced' := by
  cases h with
  | read hfits s' hsteps hs' =>
    exact (next s' hs').before hsteps (hs'.rooted rooted) (and_iff_right hfits).symm
  | stuck hunfit hstuck => exact .stuck (fun h => hunfit h.1) hstuck

end Outcome

/-! ## The tokens of a value -/

/-- How many more collections may be opened. -/
def room (outer : List (Option PendingKey)) : Nat := flowLimit - outer.length

/-- That the reader reads a value if it fits, wherever nothing can be decided before its end. -/
def Reads (v : Node) : Prop :=
  ∀ ⦃s : TokenReader⦄ ⦃gap tail : List Char⦄ ⦃tokens : List Token⦄
    ⦃outer : List (Option PendingKey)⦄ ⦃braced : Bool⦄,
    At s (v.text ++ (gap ++ tail)) tokens outer braced → Rooted (s.markKey.pending :: outer) →
      White gap → Stops outer tail →
        Outcome s (v.Fits (room outer)) tail (v.tokens.reverse ++ tokens) outer braced

theorem reads_word {v : Node} (word : v.isWord = true) : Reads v := by
  intro s gap tail tokens outer braced h _ white stops
  obtain ⟨hword, htokens⟩ := Node.wordText_of_isWord word
  obtain ⟨s', hfollows, hs'⟩ := h.word hword white stops
  rw [htokens]
  exact .read (Node.fits_of_isWord word _) s' (.single hfollows) hs'

theorem reads_string (pieces : List Piece) : Reads (.string pieces) := by
  intro s gap tail tokens outer braced h _ white stops
  rw [Node.text] at h
  by_cases hreadable : pieces.all Piece.isReadable = true
  · obtain ⟨s', hfollows, hs', -⟩ := h.string white (.inl stops) hreadable
    exact .read (Node.fits_string.2 hreadable) s' (.single hfollows) hs'
  · have hact := h.string_unreadable (Bool.eq_false_iff.2 hreadable)
    exact .stuck (mt Node.fits_string.1 hreadable) ⟨s, .refl, hact, .inl rfl⟩

section Collections

variable {s : TokenReader} {gap tail : List Char} {tokens : List Token}
  {outer : List (Option PendingKey)} {pending : Option PendingKey} {braced : Bool}

/-- What follows an item or a member: the end of its collection, or a comma with the next one. -/
theorem stops_more (sequence empty : Bool) (more cs : List Char) :
    Stops (pending :: outer) ((if empty then [] else ',' :: more) ++ (closer sequence :: cs)) := by
  refine .inr ⟨List.cons_ne_nil _ _, ?_⟩
  cases empty with
  | true =>
    refine ⟨_, _, rfl, ?_⟩
    cases sequence
    · exact .inr (.inr rfl)
    · exact .inr (.inl rfl)
  | false => exact ⟨_, _, rfl, .inl rfl⟩

/-- The end of a collection, in which everything fits. -/
theorem outcome_close (sequence : Bool) {fits : Prop} (hfits : fits)
    (h : At s (closer sequence :: (gap ++ tail)) tokens (pending :: outer) braced)
    (free : ∀ key ∈ pending, key.required = false) (white : White gap) (stops : Stops outer tail) :
    Outcome s fits tail (flowEnd sequence :: tokens) outer braced := by
  obtain ⟨s', hfollows, hs'⟩ := h.close sequence white stops.starts free
  exact .read hfits s' (.single hfollows) hs'

/-- What follows an item of an array, by induction on the items that follow. -/
theorem reads_moreItems (free : ∀ key ∈ pending, key.required = false)
    (rooted : Rooted (pending :: outer)) (white : White gap) (stops : Stops outer tail)
    {items : List (Spaced Node)} (reads : ∀ item ∈ items, Reads item.inner)
    (h : At s ((if items.isEmpty then [] else ',' :: Node.itemsText items) ++
      (closer true :: (gap ++ tail))) tokens (pending :: outer) braced) :
    Outcome s (Node.ItemsFit items (room (pending :: outer))) tail
      (.flowSequenceEnd ::
        ((if items.isEmpty then [] else .flowEntry :: Node.itemTokens items).reverse ++ tokens))
      outer braced := by
  induction items generalizing s tokens with
  | nil => exact outcome_close true Node.itemsFit_nil h free white stops
  | cons item items ih =>
    obtain ⟨before, v, after⟩ := item
    obtain ⟨hv, hitems⟩ := List.forall_mem_cons.1 reads
    have hcomma : At s (',' :: (before.chars ++ (v.text ++ (after.chars ++
        ((if items.isEmpty then [] else ',' :: Node.itemsText items) ++
          (closer true :: (gap ++ tail))))))) tokens (pending :: outer) braced := by
      simpa [Node.itemsText] using h
    obtain ⟨s₁, hfollows, hs₁, -⟩ := hcomma.comma before.isWhite (v.starts_text _).1
    have hread := (hv hs₁ (rooted.cons _) after.isWhite (stops_more true items.isEmpty _ _)).next
      rooted fun s' hs' => ih hitems hs'
    have htokens : (Node.itemTokens (⟨before, v, after⟩ :: items)).reverse =
        (if items.isEmpty then [] else .flowEntry :: Node.itemTokens items).reverse ++
          v.tokens.reverse := by rw [Node.itemTokens, List.reverse_append]
    simpa [htokens] using
      hread.before (.single hfollows) (hs₁.rooted rooted) Node.itemsFit_cons.symm

variable {name : Spaced (List Piece)} {before after : Gap} {v : Node}

/-- A member of an object. The colon shows that its name was a key. -/
theorem reads_member (rooted : Rooted (pending :: outer)) (reads : Reads v)
    (stops : Stops (pending :: outer) tail) (allowed : s.keyAllowed = true)
    (h : At s (stringText name.inner ++ (name.after.chars ++ (':' ::
      (before.chars ++ (v.text ++ (after.chars ++ tail)))))) tokens (pending :: outer) true) :
    Outcome s ((name.inner.all Piece.isReadable = true ∧
        (isTabs before.chars && v.isWord) = false) ∧ v.Fits (room (pending :: outer)))
      tail (v.tokens.reverse ++ (.value :: .scalar false (decode name.inner) :: .key :: tokens))
      (pending :: outer) true := by
  have hflow := rooted.ne_nil
  obtain ⟨hstarts, hatWord⟩ := v.starts_text (after.chars ++ tail)
  cases hname : name.inner.all Piece.isReadable with
  | false =>
    have hact := h.string_unreadable hname
    exact .stuck (fun hfits => Bool.false_ne_true hfits.1.1) ⟨s, .refl, hact, .inl rfl⟩
  | true =>
    obtain ⟨s₁, hfollows₁, hs₁, hkey⟩ := h.string name.after.isWhite (.inr ⟨hflow, _, rfl⟩) hname
    obtain ⟨hadjacent, hpending⟩ := hkey hflow
    cases htabs : isTabs before.chars && v.isWord with
    | true =>
      obtain ⟨hgap, hword⟩ := Bool.and_eq_true_iff.1 htabs
      have hact := hs₁.colon_stuck hflow hadjacent hstarts hgap (hatWord.trans hword)
      exact .stuck (fun hfits => Bool.false_ne_true hfits.1.2.symm)
        ⟨s₁, .single hfollows₁, hact, .inr (hs₁.rooted rooted)⟩
    | false =>
      -- The name was marked as a key where it started, with the tokens before it.
      obtain ⟨key, hmarked, hearlier⟩ :
          ∃ key, s.markKey.pending = some key ∧ key.earlier = tokens := by
        unfold markKey
        rw [if_pos allowed]
        exact ⟨_, rfl, h.tokens_eq⟩
      subst hearlier
      obtain ⟨s₂, hfollows₂, hs₂⟩ := hs₁.colon hflow (hpending.trans hmarked) hadjacent
        before.isWhite hstarts (by rw [hatWord, htabs])
      exact (reads hs₂ (rooted.cons _) after.isWhite stops).before
        (.tail (.single hfollows₁) hfollows₂) (hs₂.rooted rooted) (and_iff_right ⟨rfl, rfl⟩).symm

/-- What follows a member of an object, by induction on the members that follow. -/
theorem reads_moreMembers (free : ∀ key ∈ pending, key.required = false)
    (rooted : Rooted (pending :: outer)) (white : White gap) (stops : Stops outer tail)
    {members : List (Spaced (List Piece) × Spaced Node)} (reads : ∀ m ∈ members, Reads m.2.inner)
    (h : At s ((if members.isEmpty then [] else ',' :: Node.membersText members) ++
      (closer false :: (gap ++ tail))) tokens (pending :: outer) true) :
    Outcome s (Node.MembersFit members (room (pending :: outer))) tail
      (.flowMappingEnd ::
        ((if members.isEmpty then [] else .flowEntry :: Node.memberTokens members).reverse ++
          tokens))
      outer true := by
  induction members generalizing s tokens with
  | nil => exact outcome_close false Node.membersFit_nil h free white stops
  | cons m members ih =>
    obtain ⟨name, before, v, after⟩ := m
    obtain ⟨hv, hmembers⟩ := List.forall_mem_cons.1 reads
    have hcomma : At s (',' :: (name.before.chars ++ (stringText name.inner ++
        (name.after.chars ++ (':' :: (before.chars ++ (v.text ++ (after.chars ++
          ((if members.isEmpty then [] else ',' :: Node.membersText members) ++
            (closer false :: (gap ++ tail)))))))))))
        tokens (pending :: outer) true := by
      simpa [Node.membersText] using h
    obtain ⟨s₁, hfollows, hs₁, hallowed⟩ :=
      hcomma.comma name.before.isWhite (starts_cons (by decide) _)
    have hread := (reads_member rooted hv (stops_more false members.isEmpty _ _) hallowed hs₁).next
      rooted fun s' hs' => ih hmembers hs'
    have htokens : (Node.memberTokens ((name, ⟨before, v, after⟩) :: members)).reverse =
        (if members.isEmpty then [] else .flowEntry :: Node.memberTokens members).reverse ++
          (v.tokens.reverse ++ [.value, .scalar false (decode name.inner), .key]) := by
      simp [Node.memberTokens]
    simpa [htokens] using
      hread.before (.single hfollows) (hs₁.rooted rooted) Node.membersFit_cons.symm

/-- A collection, which needs room for itself besides that for what is in it. -/
theorem reads_collection (sequence : Bool) {fits inner : Nat → Prop} (full : ¬ fits 0)
    (within : ∀ n, fits (n + 1) ↔ inner n) {rest : List Char} {tokens' : List Token}
    (h : At s (opener sequence :: (gap ++ rest)) tokens outer braced)
    (rooted : Rooted (s.markKey.pending :: outer)) (white : White gap) (starts : Starts rest)
    (inside : ∀ s₁, s₁.keyAllowed = true →
      At s₁ rest (flowStart sequence :: tokens) (s.markKey.pending :: outer)
        (braced || !sequence) →
      Outcome s₁ (inner (room (s.markKey.pending :: outer))) tail tokens' outer
        (braced || !sequence)) :
    Outcome s (fits (room outer)) tail tokens' outer braced := by
  by_cases hroom : outer.length < flowLimit
  · obtain ⟨s₁, hfollows, hs₁, hallowed⟩ := h.open sequence white starts hroom
    have hone : room outer = room (s.markKey.pending :: outer) + 1 := by
      rw [room, room, List.length_cons]
      omega
    rw [hone]
    have houtcome :=
      (inside s₁ hallowed hs₁).before (.single hfollows) (hs₁.rooted rooted) (within _).symm
    refine houtcome.forget fun hbraced => ?_
    rw [hbraced, Bool.true_or]
  · have hact := h.open_full sequence (Nat.not_lt.1 hroom)
    have hzero : room outer = 0 := Nat.sub_eq_zero_of_le (Nat.not_lt.1 hroom)
    rw [hzero]
    exact .stuck full ⟨s, .refl, hact, .inl rfl⟩

/-- An array is read if its items are. -/
theorem reads_array (gap₀ : Gap) {items : List (Spaced Node)}
    (reads : ∀ item ∈ items, Reads item.inner) : Reads (.array gap₀ items) := by
  intro s gap tail tokens outer braced h rooted white stops
  have hfull : ¬ (Node.array gap₀ items).Fits 0 := fun hfits => Nat.not_succ_le_zero _ hfits.1
  have hwithin (n : Nat) : (Node.array gap₀ items).Fits (n + 1) ↔ Node.ItemsFit items n :=
    Node.fits_array
  have hfree := h.free_markKey
  cases items with
  | nil =>
    have hopener : At s ('[' :: (gap₀.chars ++ (']' :: (gap ++ tail)))) tokens outer braced := by
      simpa [Node.text, Node.itemsText] using h
    exact reads_collection true hfull hwithin hopener rooted gap₀.isWhite (starts_closer true _)
      fun s₁ _ hs₁ => outcome_close true Node.itemsFit_nil hs₁ hfree white stops
  | cons item items =>
    obtain ⟨before, v, after⟩ := item
    obtain ⟨hv, hitems⟩ := List.forall_mem_cons.1 reads
    have hopener : At s ('[' :: ((gap₀.chars ++ before.chars) ++ (v.text ++ (after.chars ++
        ((if items.isEmpty then [] else ',' :: Node.itemsText items) ++
          (']' :: (gap ++ tail))))))) tokens outer braced := by
      simpa [Node.text, Node.itemsText] using h
    refine reads_collection true hfull hwithin hopener rooted (gap₀.isWhite.append before.isWhite)
      (v.starts_text _).1 fun s₁ _ hs₁ => ?_
    have hread := (hv hs₁ (rooted.cons _) after.isWhite (stops_more true items.isEmpty _ _)).next
      rooted fun s' hs' => reads_moreItems hfree rooted white stops hitems hs'
    rw [Node.itemsFit_cons]
    simpa [Node.tokens, Node.itemTokens, flowStart] using hread

/-- An object is read if its members are. -/
theorem reads_object (gap₀ : Gap) {members : List (Spaced (List Piece) × Spaced Node)}
    (reads : ∀ m ∈ members, Reads m.2.inner) : Reads (.object gap₀ members) := by
  intro s gap tail tokens outer braced h rooted white stops
  have hfull : ¬ (Node.object gap₀ members).Fits 0 := fun hfits => Nat.not_succ_le_zero _ hfits.1
  have hwithin (n : Nat) : (Node.object gap₀ members).Fits (n + 1) ↔ Node.MembersFit members n :=
    Node.fits_object
  have hfree := h.free_markKey
  cases members with
  | nil =>
    have hopener : At s ('\x7b' :: (gap₀.chars ++ ('\x7d' :: (gap ++ tail))))
        tokens outer braced := by
      simpa [Node.text, Node.membersText] using h
    exact reads_collection false hfull hwithin hopener rooted gap₀.isWhite (starts_closer false _)
      fun s₁ _ hs₁ => outcome_close false Node.membersFit_nil hs₁ hfree white stops
  | cons m members =>
    obtain ⟨name, before, v, after⟩ := m
    obtain ⟨hv, hmembers⟩ := List.forall_mem_cons.1 reads
    have hopener : At s ('\x7b' :: ((gap₀.chars ++ name.before.chars) ++ (stringText name.inner ++
        (name.after.chars ++ (':' :: (before.chars ++ (v.text ++ (after.chars ++
          ((if members.isEmpty then [] else ',' :: Node.membersText members) ++
            ('\x7d' :: (gap ++ tail))))))))))) tokens outer braced := by
      simpa [Node.text, Node.membersText] using h
    refine reads_collection false hfull hwithin hopener rooted
      (gap₀.isWhite.append name.before.isWhite) (starts_cons (by decide) _)
      fun s₁ hallowed hs₁ => ?_
    rw [Bool.not_false, Bool.or_true] at hs₁ ⊢
    have hread := (reads_member rooted hv (stops_more false members.isEmpty _ _) hallowed hs₁).next
      rooted fun s' hs' => reads_moreMembers hfree rooted white stops hmembers hs'
    rw [Node.membersFit_cons]
    simpa [Node.tokens, Node.memberTokens, flowStart] using hread

/-- Every value, by induction on what is in it. -/
theorem reads (v : Node) : Reads v := by
  induction v with
  | null => exact reads_word rfl
  | bool b => exact reads_word rfl
  | number n => exact reads_word rfl
  | string pieces => exact reads_string pieces
  | array gap items ih => exact reads_array gap ih
  | object gap members ih => exact reads_object gap ih

end Collections

/-! ## The tokens of a text -/

/-- A run that gets stuck has read nothing. -/
theorem run_eq_nil_of_stuck {r s : TokenReader} (start : r.settled? = some s) (stuck : Stuck s)
    (decided : r.decided = []) {length : Nat} (bound : r.cursor.size ≤ length) :
    run length r = [] := by
  obtain ⟨s', hsteps, hact, hs'⟩ := stuck
  rcases hs' with rfl | hrooted
  · rw [run_eq_of_stuck start hact, decided, List.reverse_nil]
  · obtain ⟨r', hr', -, hrun⟩ := run_eq_of_follows hsteps start bound
    rw [outer_of_settled? hr'] at hrooted
    rw [hrun, run_eq_of_stuck hr' hact, hrooted.decided_eq, List.reverse_nil]

/-- The tokens of a JSON text are those of its value if that fits, and there are none if it does
not. -/
theorem tokens_text (d : Document) :
    (d.inner.Fits flowLimit → Yaml.tokens d.text = d.inner.tokens ++ [.streamEnd]) ∧
      (¬ d.inner.Fits flowLimit → Yaml.tokens d.text = []) := by
  let start : TokenReader := { cursor := { rest := streamText d.text } }
  have hstart : At start (d.before.chars ++ (d.inner.text ++ (d.after.chars ++ []))) [] [] false :=
    { rest_eq := by rw [List.append_nil]; rfl
      tokens_eq := rfl
      outer_eq := rfl
      margins_eq := rfl
      inPair_eq := rfl
      ended_eq := rfl
      free := nofun
      braced_of := nofun }
  have hbound : start.cursor.size ≤ (streamText d.text).length := by simp [start, Cursor.size]
  obtain ⟨s, hsettled, hs, hallowed, -⟩ :=
    hstart.settled? d.before.isWhite (d.inner.starts_text _).1
  -- The value could be a key, with nothing before it.
  have hrooted : Rooted [s.markKey.pending] := by
    unfold markKey
    rw [if_pos (hallowed rfl)]
    exact ⟨[], _, rfl, hs.tokens_eq⟩
  cases reads d.inner hs hrooted d.after.isWhite (.inl rfl) with
  | read hfits s' hsteps hs' =>
    refine ⟨fun _ => ?_, fun hunfit => absurd hfits hunfit⟩
    obtain ⟨r', hr', -, hrun⟩ := run_eq_of_follows hsteps hsettled hbound
    obtain ⟨r, hact, hended, htokens⟩ := hs'.finish
    show run _ start = _
    rw [hrun, run_eq_of_ended hr' hact hended, htokens]
    simp
  | stuck hunfit hstuck =>
    exact ⟨fun hfits => absurd hfits hunfit,
      fun _ => run_eq_nil_of_stuck hsettled hstuck rfl hbound⟩

end Provision.Json
