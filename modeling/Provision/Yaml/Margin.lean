import Provision.Yaml.Token

/-!
# Margins

The block collections that are open at a place, innermost first, each with the column where its
entries start. Between them may stand a loose margin, which no collection has: after a colon or a
dash, what follows may not stand at the column of the entry itself, so the margin moves right by one
until a block collection takes its place or a scalar drops it.
-/

namespace Provision.Yaml

/-- A column that the content of the following lines must not stand left of. -/
structure Margin where
  column : Nat
  /-- Whether a block collection starts at this column. -/
  block : Bool
deriving DecidableEq, Repr

namespace Margin

/-- The innermost margin's column, which is -1 outside all collections. -/
def indent : List Margin → Int
  | [] => -1
  | m :: _ => m.column

/-- The margins at or left of a column, and an end for each collection that is left. -/
def close (column : Int) : List Margin → List Margin × List Token
  | [] => ([], [])
  | m :: ms =>
    if column < m.column then
      let (kept, ends) := close column ms
      (kept, if m.block then .blockEnd :: ends else ends)
    else (m :: ms, [])

/-- The margins from the innermost collection on. -/
def dropLoose (ms : List Margin) : List Margin := ms.dropWhile fun m => !m.block

/-- The margins when an entry of a block collection stands at a column, and whether that starts a
collection. A loose margin gives way to an entry at its column or right of it. -/
def openAt (column : Nat) (ms : List Margin) : List Margin × Bool :=
  let ms :=
    match ms with
    | m :: rest => if m.block = false ∧ m.column ≤ column then rest else ms
    | [] => []
  if indent ms < column then (⟨column, true⟩ :: ms, true) else (ms, false)

/-- The margins after an indicator: one column to the right of the innermost collection. -/
def shift : List Margin → List Margin
  | m :: ms => if m.block then ⟨m.column + 1, false⟩ :: m :: ms else m :: ms
  | [] => []

end Margin

end Provision.Yaml
