import Mathlib.Data.List.Nodup
import Mathlib.Logic.Function.Basic
import Mathlib.Tactic.Common

/-! Singly linked chains. The cells of a chain hold the address of the next cell
in some memory `next`; a distinguished address ends the chain. The memory and the
addresses are arbitrary, so that a chain can run through the free blocks of an
allocator as well as through the fields of records. -/
namespace Ricerca.Foundation

universe u

variable {α : Type u}

/-- `cells` are the cells met from `head` on, in order, up to `null`. -/
inductive Chain (next : α → α) (null : α) : α → List α → Prop where
  | nil : Chain next null null []
  | cons {a : α} {cells : List α} (hNe : a ≠ null) (rest : Chain next null (next a) cells) :
      Chain next null a (a :: cells)

namespace Chain

variable {next next' : α → α} {null head : α} {cells other : List α}

theorem eq_nil_iff (h : Chain next null head cells) : cells = [] ↔ head = null := by
  cases h with
  | nil => simp
  | cons hNe _ => simp [hNe]

/-- A chain only depends on what its own cells hold. -/
theorem congr (h : Chain next null head cells) (hSame : ∀ a ∈ cells, next' a = next a) :
    Chain next' null head cells := by
  induction h with
  | nil => exact .nil
  | @cons a cells hNe _ ih =>
      have hTail := ih fun b hb => hSame b (List.mem_cons_of_mem _ hb)
      rw [← hSame a (List.mem_cons_self ..)] at hTail
      exact .cons hNe hTail

theorem update_of_notMem [DecidableEq α] {a v : α} (h : Chain next null head cells)
    (hNot : a ∉ cells) : Chain (Function.update next a v) null head cells :=
  h.congr fun b hb => Function.update_of_ne (fun hEq : b = a => hNot (hEq ▸ hb)) _ _

/-- Link a new cell in front of the chain. -/
theorem push [DecidableEq α] {a : α} (h : Chain next null head cells) (hNe : a ≠ null)
    (hNot : a ∉ cells) : Chain (Function.update next a head) null a (a :: cells) := by
  refine .cons hNe ?_
  rw [Function.update_self]
  exact h.update_of_notMem hNot

/-- Unlink the first cell. -/
theorem pop {a : α} (h : Chain next null head (a :: cells)) :
    head = a ∧ a ≠ null ∧ Chain next null (next a) cells := by
  cases h with
  | cons hNe rest => exact ⟨rfl, hNe, rest⟩

/-- Link a new cell behind the last one. -/
theorem snoc {last a : α} (h : Chain next null head (cells ++ [last])) (hNe : a ≠ null)
    (hSame : ∀ b ∈ cells, next' b = next b) (hLast : next' last = a) (hEnd : next' a = null) :
    Chain next' null head (cells ++ [last, a]) := by
  induction cells generalizing head with
  | nil =>
      obtain ⟨rfl, hHead, -⟩ := pop h
      refine .cons hHead ?_
      rw [hLast]
      refine .cons hNe ?_
      rw [hEnd]
      exact .nil
  | cons b cells ih =>
      obtain ⟨rfl, hHead, hRest⟩ := pop h
      refine .cons hHead ?_
      rw [hSame head (List.mem_cons_self ..)]
      exact ih hRest fun c hc => hSame c (List.mem_cons_of_mem _ hc)

end Chain

end Ricerca.Foundation
