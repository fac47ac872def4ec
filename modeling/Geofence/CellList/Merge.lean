/-
# Geofence.CellList.Merge -- ranges of a cell list

Neighbouring cells with one value make up a range.  A range is closed when the
next cell does not follow the last or carries another value.
-/
import Geofence.CellRange

namespace Geofence.CellList

set_option autoImplicit false

/-- The ranges of the entries behind an open range. -/
def rangesFrom (level : Int) (start stop : Cell) (value : Int) :
    List Listed → Except Fault (List CellRange)
  | [] => do
    let r ← CellRange.of start stop value
    return [r]
  | x :: rest => do
    let l ← Cell.level x.cell
    if l ≠ level then throw (.listedLevel x.cell level)
    if stop ≠ x.cell ∨ x.value ≠ value then
      let r ← CellRange.of start stop value
      let stop ← Cell.childrenEnd x.cell level
      let ranges ← rangesFrom level x.cell stop x.value rest
      return r :: ranges
    else
      let stop ← Cell.childrenEnd x.cell level
      rangesFrom level start stop value rest

def toRanges (level : Int) : List Listed → Except Fault (List CellRange)
  | [] => return []
  | x :: rest => do
    let l ← Cell.level x.cell
    if l ≠ level then throw (.listedLevel x.cell level)
    let stop ← Cell.childrenEnd x.cell level
    rangesFrom level x.cell stop x.value rest

end Geofence.CellList
