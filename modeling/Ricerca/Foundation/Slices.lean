import Mathlib.Tactic.Common

/-! Arrays that are written slice by slice. What a cell holds is decided by the last slice
that covers it. -/
namespace Ricerca.Foundation

universe u

variable {V : Type u}

/-- Values for the cells from `offset` on, `len` of them. -/
structure Slice (V : Type u) where
  offset : Nat
  len : Nat
  data : Nat → V

namespace Slice

def Covers (slice : Slice V) (i : Nat) : Prop :=
  slice.offset ≤ i ∧ i < slice.offset + slice.len

instance (slice : Slice V) (i : Nat) : Decidable (slice.Covers i) :=
  inferInstanceAs (Decidable (slice.offset ≤ i ∧ i < slice.offset + slice.len))

/-- The slice lies within an array of this size; nothing wraps around. -/
def Within (slice : Slice V) (size : Nat) : Prop := slice.offset + slice.len ≤ size

/-- The array with the slice written to it. -/
def writeTo (slice : Slice V) (cells : Nat → V) : Nat → V :=
  fun i => if slice.Covers i then slice.data (i - slice.offset) else cells i

end Slice

/-- What the last of the slices that cover a cell has there, or else `default`. -/
def lastValue (default : V) (slices : List (Slice V)) (i : Nat) : V :=
  match slices.reverse.find? (·.Covers i) with
  | some slice => slice.data (i - slice.offset)
  | none => default

/-- One more slice decides over the cells that it covers. -/
theorem lastValue_append (default : V) (slices : List (Slice V)) (last : Slice V) (i : Nat) :
    lastValue default (slices ++ [last]) i = last.writeTo (lastValue default slices) i := by
  rw [lastValue, Slice.writeTo, List.reverse_append, List.reverse_singleton,
    List.singleton_append, List.find?_cons]
  by_cases hCovers : last.Covers i
  · simp [hCovers]
  · simp [hCovers, lastValue]

end Ricerca.Foundation
