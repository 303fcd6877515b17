import Unleashed.Zfs.SpaceMap.Log

/-!
# The size estimate

`space_map_estimate_optimal_size` bounds what the segments of a range tree take on disk from its histogram, with an
allowance for pads; `space_map_write_impl` asserts the bound.
-/

namespace Unleashed.Zfs

open Lib Lib.Segs Finset Function SpaceMap

section
variable {rt : RangeTree}

end

section

/-- How many entries a segment of `size` units takes. -/
def segEntries (words size : Nat) : Nat :=
  (size + (if words = 2 then sm2RunMax else smRunMax) - 1) / (if words = 2 then sm2RunMax else smRunMax)

variable {sm : SpaceMap} {s : Seg} {v2 force forceDouble : Bool}

end

section
variable (sm : SpaceMap) (v2 : Bool)

/-- Where the object ends after the segments, from the word `pos` on. -/
def SpaceMap.layOut : List Seg → (Nat → Bool) → Nat → Nat
  | [], _, pos => pos
  | s :: segs, force, pos =>
    let words := entryWords sm s smNoVdevid v2 (force 0)
    layOut segs (fun i => force (i + 1)) ((place sm.blockWords words)^[segEntries words ((s.hi - s.lo) >>> sm.smShift)] pos)

/-- The words of the entries of the segments. -/
def SpaceMap.payload : List Seg → (Nat → Bool) → Nat
  | [], _ => 0
  | s :: segs, force =>
    let words := entryWords sm s smNoVdevid v2 (force 0)
    words * segEntries words ((s.hi - s.lo) >>> sm.smShift) + payload segs fun i => force (i + 1)

variable {sm v2}

lemma LaidAll.layOut {t : MapType} {segs : List Seg} {force : Nat → Bool} {pos : Nat} {ws : List Nat} {ess : List (List SpaceMapEntry)}
    (h : LaidAll sm.toSpaceMapRegion sm.blockWords (fun s force => entryWords sm s smNoVdevid v2 force) t smNoVdevid segs force pos ws ess) :
    pos + ws.length = sm.layOut v2 segs force pos := by
  induction h with
  | nil force pos => rfl
  | cons hruns h rest ih =>
    have hlen := h.length
    rw [h.count] at hlen
    rw [List.length_append, ← add_assoc, ih, hlen]
    rfl

end

end Unleashed.Zfs
