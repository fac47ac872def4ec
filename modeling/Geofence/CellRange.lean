/-
# Geofence.CellRange -- half-open ranges of cells

A range holds the cells of one level from `start` up to, but without, `stop`,
and tags them with a value.  Ids grow along the six faces, so `start < stop`,
with one exception: a range that runs to the last cell of face 5 ends on the
first cell of face 0.  Such a range wraps, and its end counts as `2 ^ 64`.
-/
import Geofence.Cell.Literal

namespace Geofence

set_option autoImplicit false

def Span.text (s : Span) : String :=
  "SuffixTableRange(start=" ++ Cell.token s.start ++ ", end=" ++ Cell.token s.stop
    ++ ", entry_value=" ++ toString s.value ++ ")"

/-- A span of cells of one level that runs forward or wraps, with a value of at least 0. -/
structure CellRange extends Span where
  start_valid : Cell.isValid start = true
  stop_valid : Cell.isValid stop = true
  depth_eq : Cell.depth start = Cell.depth stop
  ordered : start < stop ∨ Cell.wrapsTo start stop = true
  value_nonneg : 0 ≤ value
  deriving DecidableEq

namespace CellRange

/-- The range of a span, with the first thing that is wrong with it otherwise. -/
def ofSpan (s : Span) : Except Fault CellRange :=
  if start_valid : Cell.isValid s.start = true then
    if stop_valid : Cell.isValid s.stop = true then
      if depth_eq : Cell.depth s.start = Cell.depth s.stop then
        if ordered : s.start < s.stop ∨ Cell.wrapsTo s.start s.stop = true then
          if value_nonneg : 0 ≤ s.value then
            .ok { s with start_valid, stop_valid, depth_eq, ordered, value_nonneg }
          else .error (.negativeValue s.value)
        else .error (.startNotBelowStop s)
      else .error (.levelsDiffer s)
    else .error (.invalidCell s.stop)
  else .error (.invalidCell s.start)

def of (start stop value : Int) : Except Fault CellRange :=
  ofSpan { start, stop, value }

/-- The range ends on the first cell of face 0 because it runs to the end of face 5. -/
def wraps (r : CellRange) : Bool :=
  Cell.wrapsTo r.start r.stop

def level (r : CellRange) : Int :=
  Cell.depth r.start

/-- The end as a number above every cell of the range. -/
def stopKey (r : CellRange) : Int :=
  if r.wraps then Cell.wordCount else r.stop

def overlaps (r s : CellRange) : Bool :=
  r.start < s.stopKey && s.start < r.stopKey

def contains (r : CellRange) (c : Cell) : Bool :=
  r.start ≤ c && c < r.stopKey

def text (r : CellRange) : String :=
  r.toSpan.text

theorem toSpan_of_ofSpan {s : Span} {r : CellRange} (h : ofSpan s = .ok r) : r.toSpan = s := by
  unfold ofSpan at h
  split at h <;> try contradiction
  split at h <;> try contradiction
  split at h <;> try contradiction
  split at h <;> try contradiction
  split at h <;> try contradiction
  cases h; rfl

end CellRange

end Geofence
