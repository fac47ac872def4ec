/-
# Geofence.CellList.Normal -- a cell list at one level

Every cell is brought to one level: a coarser cell stands for the cells inside
it, a finer one for the cell around it.  The result is sorted by id, and where
several entries name a cell the first one decides its value.
-/
import Geofence.Cell.Literal

namespace Geofence.CellList

set_option autoImplicit false

def children (c : Cell) (level : Int) : Except Fault (List Cell) := do
  let first ← Cell.firstChild c level
  let count := 4 ^ (level - Cell.depth c).toNat
  return (List.range count).map fun (i : Nat) => first + i * (2 * Cell.unit level)

/-- The cells at `level` that `c` stands for. -/
def atLevel (c : Cell) (level : Int) : Except Fault (List Cell) := do
  let _ ← Cell.validate c
  if Cell.depth c = level then return [c]
  else if Cell.depth c < level then children c level
  else do
    let a ← Cell.ancestor c level
    return [a]

def expand (level : Int) (x : Listed) : Except Fault (List Listed) := do
  let cells ← atLevel x.cell level
  return cells.map fun cell => { x with cell }

/-- The entries without those whose cell is named by the entry in front. -/
def firstOfEach (entries : List Listed) : List Listed :=
  entries.foldr (fun x rest => x :: rest.dropWhile fun y => y.cell == x.cell) []

/-- The list at `level`, sorted by id, with one entry per cell. -/
def normalize (level : Int) (entries : List Listed) : Except Fault (List Listed) := do
  let expanded ← entries.mapM (expand level)
  return firstOfEach (expanded.flatten.mergeSort fun x y => x.cell ≤ y.cell)

end Geofence.CellList
