import Mathlib.Tactic.Common

/-! Sequences of reads and writes. A sequence is in order when it reads a place only
after somebody wrote it: before the sequence began, or earlier in the sequence. -/
namespace Ricerca.Foundation

universe u

/-- One access to a place. -/
inductive Access (α : Type u) where
  | read (place : α)
  | write (place : α)
  deriving DecidableEq

namespace Access

variable {α : Type u} {defined defined' : α → Prop} {first second : List (Access α)} {place : α}

/-- Every read finds what was `defined` at the start or written since. -/
def InOrder (defined : α → Prop) : List (Access α) → Prop
  | [] => True
  | .read place :: rest => defined place ∧ InOrder defined rest
  | .write place :: rest => InOrder (fun p => p = place ∨ defined p) rest

theorem inOrder_append : InOrder defined (first ++ second) ↔
    InOrder defined first ∧ InOrder (fun p => .write p ∈ first ∨ defined p) second := by
  induction first generalizing defined with
  | nil => simp [InOrder]
  | cons access rest ih =>
      cases access with
      | read place =>
          rw [List.cons_append, InOrder, InOrder, ih, and_assoc]
          simp
      | write place =>
          rw [List.cons_append, InOrder, InOrder, ih]
          simp only [List.mem_cons, write.injEq, or_left_comm, or_assoc]

/-- A sequence that only reads what was there at the start. -/
theorem InOrder.of_reads (h : ∀ p, .read p ∈ first → defined p) : InOrder defined first := by
  induction first generalizing defined with
  | nil => trivial
  | cons access rest ih =>
      cases access with
      | read place =>
          exact ⟨h place (List.mem_cons_self ..), ih fun p hp => h p (List.mem_cons_of_mem _ hp)⟩
      | write place => exact ih fun p hp => Or.inr (h p (List.mem_cons_of_mem _ hp))

/-- A read of a place that the sequence has not written yet. -/
theorem InOrder.read_defined (h : InOrder defined (first ++ .read place :: second))
    (hNot : .write place ∉ first) : defined place :=
  ((inOrder_append.mp h).2.1).resolve_left hNot

end Access

end Ricerca.Foundation
