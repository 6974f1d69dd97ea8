/-!
# Entries

The entries of a mapping: keys with what they hold, in the order in which the keys came. A key
stands for its first entry. `put` keeps the place of a key that is there already and appends one
that is not, so that no operation of this module makes a second entry for a key.
-/

namespace Provision

/-- Keys with what they hold, in the order in which they came. -/
abbrev Entries (α : Type) := List (String × α)

namespace Entries

variable {α : Type}

/-- What a key holds. -/
def get? (key : String) : Entries α → Option α
  | [] => none
  | (k, a) :: es => if k = key then some a else get? key es

/-- The entries with `a` under the key: in the key's place if it has one, at the end if not. -/
def put (key : String) (a : α) : Entries α → Entries α
  | [] => [(key, a)]
  | (k, b) :: es => if k = key then (k, a) :: es else (k, b) :: put key a es

/-- The keys in order. -/
def keys (es : Entries α) : List String := es.map Prod.fst

/-- The entries whose keys satisfy a test. -/
def restrict (keep : String → Bool) (es : Entries α) : Entries α := es.filter fun e => keep e.1

/-- The entries in the order of their keys, code point by code point. -/
def sorted (es : Entries α) : Entries α := es.mergeSort fun a b => a.1 ≤ b.1

/-- The entries in which each key holds what it is given last, at the place where it came first. -/
def ofList (es : List (String × α)) : Entries α := es.foldl (fun acc e => acc.put e.1 e.2) []

@[simp] theorem get?_nil (key : String) : get? key ([] : Entries α) = none := rfl

theorem get?_cons (key k : String) (a : α) (es : Entries α) :
    get? key ((k, a) :: es) = if k = key then some a else get? key es := rfl

/-- Putting changes what one key holds, and that key only. -/
theorem get?_put (key other : String) (a : α) (es : Entries α) :
    get? other (es.put key a) = if key = other then some a else get? other es := by
  induction es with
  | nil => simp [put, get?]
  | cons e es ih =>
    obtain ⟨k, b⟩ := e
    by_cases hk : k = key
    · subst hk
      simp [put, get?_cons]
      split <;> rfl
    · simp only [put, if_neg hk, get?_cons, ih]
      by_cases ho : k = other
      · have : ¬ key = other := fun h => hk (ho.trans h.symm)
        simp [ho, this]
      · simp [ho]

/-- A key is found exactly where it is one of the keys. -/
theorem get?_eq_none_iff (key : String) (es : Entries α) :
    es.get? key = none ↔ key ∉ es.keys := by
  induction es with
  | nil => simp [keys]
  | cons e es ih =>
    obtain ⟨k, b⟩ := e
    by_cases hk : k = key
    · simp [get?_cons, hk, keys]
    · have : ¬ key = k := fun h => hk h.symm
      simpa [get?_cons, hk, keys, this] using ih

/-- Putting under a key that is there keeps the keys; under a new one it appends the key. -/
theorem keys_put (key : String) (a : α) (es : Entries α) :
    (es.put key a).keys = if key ∈ es.keys then es.keys else es.keys ++ [key] := by
  induction es with
  | nil => simp [put, keys]
  | cons e es ih =>
    obtain ⟨k, b⟩ := e
    by_cases hk : k = key
    · simp [put, keys, hk]
    · have hne : ¬ key = k := fun h => hk h.symm
      have ih' : List.map Prod.fst (put key a es) =
          if key ∈ List.map Prod.fst es then List.map Prod.fst es
          else List.map Prod.fst es ++ [key] := ih
      simp only [put, if_neg hk, keys, List.map_cons, ih', List.mem_cons, hne, false_or]
      split <;> rfl

/-- Putting makes no second entry for a key. -/
theorem nodup_keys_put (key : String) (a : α) {es : Entries α} (h : es.keys.Nodup) :
    (es.put key a).keys.Nodup := by
  rw [keys_put]
  split
  · exact h
  · rename_i hmem
    refine List.nodup_append.2 ⟨h, by simp, ?_⟩
    intro x hx y hy hxy
    simp only [List.mem_singleton] at hy
    exact hmem (hy ▸ hxy ▸ hx)

/-- Restricting keeps the keys that satisfy the test, in their order. -/
theorem keys_restrict (keep : String → Bool) (es : Entries α) :
    (es.restrict keep).keys = es.keys.filter keep := by
  induction es with
  | nil => rfl
  | cons e es ih =>
    have ih' : List.map Prod.fst (List.filter (fun e => keep e.1) es) =
        List.filter keep (List.map Prod.fst es) := ih
    by_cases h : keep e.1 = true
    · simp [restrict, keys, h, ih']
    · simp [restrict, keys, h, ih']

/-- What a key holds after restricting: what it held before, if the key satisfies the test. -/
theorem get?_restrict (keep : String → Bool) (key : String) (es : Entries α) :
    get? key (es.restrict keep) = if keep key then get? key es else none := by
  induction es with
  | nil => simp [restrict]
  | cons e es ih =>
    obtain ⟨k, a⟩ := e
    have ih' : get? key (List.filter (fun e => keep e.1) es) =
        if keep key then get? key es else none := ih
    by_cases hk : k = key
    · subst hk
      by_cases h : keep k = true
      · simp [restrict, h, get?_cons]
      · simp [restrict, h, ih']
    · by_cases h : keep k = true
      · simp [restrict, h, get?_cons, hk, ih']
      · simp [restrict, h, get?_cons, hk, ih']

end Entries

end Provision
