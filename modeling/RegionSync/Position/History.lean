import RegionSync.Position.Point
import Std.Data.TreeMap

/-!
Recent positions by sequence number. There is room for one position in each residue class of the
capacity, and a position is found only under the number it was recorded under, so one from an
earlier lap of the window is never served.
-/

namespace RegionSync

/-- Positions by sequence number; each residue has a place for one record. -/
structure History where
  capacity : Nat
  records : Std.TreeMap Nat (UInt32 × Point)

namespace History

/-- Room for a whole window, at least for one position. -/
def empty (window : UInt32) : History := ⟨max window.toNat 1, ∅⟩

/-- The place of a number. -/
def place (h : History) (s : UInt32) : Nat :=
  s.toNat % h.capacity

/-- The history with a position in its place. -/
def record (h : History) (s : UInt32) (p : Point) : History :=
  { h with records := h.records.insert (h.place s) (s, p) }

/-- The position recorded under a number, if its place still holds it. -/
def get? (h : History) (s : UInt32) : Option Point :=
  match h.records[h.place s]? with
  | some (t, p) => if t = s then some p else none
  | none => none

/-- What was recorded is found, until its place is taken. -/
theorem get?_record (h : History) (s : UInt32) (p : Point) : (h.record s p).get? s = some p := by
  simp [record, get?, place]

/-- Recording in another place changes nothing here. -/
theorem get?_record_of_ne {h : History} {s t : UInt32} (p : Point) (ne : h.place s ≠ h.place t) :
    (h.record s p).get? t = h.get? t := by
  simp only [place] at ne
  simp [record, get?, place, Std.TreeMap.getElem?_insert, ne]

end History

end RegionSync
