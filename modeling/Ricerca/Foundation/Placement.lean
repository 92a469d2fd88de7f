import Mathlib.Data.List.Nodup
import Mathlib.Tactic.Common

/-! Items that lie in places. Every live item lies in exactly one place, and there
once; the rules say how this survives when one item is put somewhere, taken away or
moved. -/
namespace Ricerca.Foundation

universe u v

variable {ι : Type u} {α : Type v}

/-- `held` lists the items in each place. -/
structure Placement (held : ι → List α) (live : α → Prop) : Prop where
  nodup : ∀ p, (held p).Nodup
  disjoint : ∀ p q x, x ∈ held p → x ∈ held q → p = q
  live_iff : ∀ x, live x ↔ ∃ p, x ∈ held p

namespace Placement

variable {held held' : ι → List α} {live live' : α → Prop} {p q : ι} {x : α}

theorem live_of_mem (h : Placement held live) (hx : x ∈ held p) : live x := (h.live_iff x).mpr ⟨p, hx⟩

/-- Places whose items come in another order. -/
theorem congr (h : Placement held live) (hPerm : ∀ p, (held' p).Perm (held p)) :
    Placement held' live := by
  refine ⟨fun p => (hPerm p).nodup_iff.mpr (h.nodup p), fun p q x hp hq => ?_, fun x => ?_⟩
  · exact h.disjoint p q x ((hPerm p).mem_iff.mp hp) ((hPerm q).mem_iff.mp hq)
  · rw [h.live_iff]
    exact exists_congr fun p => (hPerm p).mem_iff.symm

/-- An item that was not there before is put somewhere. -/
theorem insert (h : Placement held live) (hNew : ¬live x) (hTo : (held' q).Perm (x :: held q))
    (hRest : ∀ i, i ≠ q → held' i = held i) (hLive : ∀ y, live' y ↔ y = x ∨ live y) :
    Placement held' live' := by
  have hMem : ∀ i y, y ∈ held' i ↔ i = q ∧ y = x ∨ y ∈ held i := by
    intro i y
    by_cases hi : i = q
    · subst hi
      rw [hTo.mem_iff, List.mem_cons]
      simp
    · rw [hRest i hi]
      simp [hi]
  refine ⟨fun i => ?_, fun i j y hi hj => ?_, fun y => ?_⟩
  · by_cases hi : i = q
    · subst hi
      rw [hTo.nodup_iff, List.nodup_cons]
      exact ⟨fun hx => hNew (h.live_of_mem hx), h.nodup i⟩
    · rw [hRest i hi]
      exact h.nodup i
  · rcases (hMem i y).mp hi with ⟨rfl, rfl⟩ | hi <;> rcases (hMem j y).mp hj with ⟨rfl, hEq⟩ | hj
    · rfl
    · exact (hNew (h.live_of_mem hj)).elim
    · exact (hNew (hEq ▸ h.live_of_mem hi)).elim
    · exact h.disjoint i j y hi hj
  · rw [hLive, h.live_iff]
    constructor
    · rintro (rfl | ⟨i, hi⟩)
      · exact ⟨q, (hMem q y).mpr (Or.inl ⟨rfl, rfl⟩)⟩
      · exact ⟨i, (hMem i y).mpr (Or.inr hi)⟩
    · rintro ⟨i, hi⟩
      rcases (hMem i y).mp hi with ⟨-, rfl⟩ | hi
      · exact Or.inl rfl
      · exact Or.inr ⟨i, hi⟩

/-- An item is taken away. -/
theorem remove (h : Placement held live) (hFrom : (held p).Perm (x :: held' p))
    (hRest : ∀ i, i ≠ p → held' i = held i) (hLive : ∀ y, live' y ↔ y ≠ x ∧ live y) :
    Placement held' live' := by
  have hNodup := List.nodup_cons.mp (hFrom.nodup_iff.mp (h.nodup p))
  have hx : x ∈ held p := hFrom.mem_iff.mpr (List.mem_cons_self ..)
  have hMem : ∀ i y, y ∈ held' i ↔ y ∈ held i ∧ y ≠ x := by
    intro i y
    by_cases hi : i = p
    · subst hi
      rw [hFrom.mem_iff, List.mem_cons]
      constructor
      · exact fun hy => ⟨Or.inr hy, fun hEq => hNodup.1 (hEq ▸ hy)⟩
      · exact fun ⟨hy, hNe⟩ => hy.resolve_left hNe
    · rw [hRest i hi]
      exact ⟨fun hy => ⟨hy, fun hEq => hi (h.disjoint i p y hy (hEq ▸ hx))⟩, And.left⟩
  refine ⟨fun i => ?_, fun i j y hi hj => ?_, fun y => ?_⟩
  · by_cases hi : i = p
    · exact hi ▸ hNodup.2
    · rw [hRest i hi]
      exact h.nodup i
  · exact h.disjoint i j y ((hMem i y).mp hi).1 ((hMem j y).mp hj).1
  · rw [hLive, h.live_iff]
    constructor
    · rintro ⟨hNe, i, hi⟩
      exact ⟨i, (hMem i y).mpr ⟨hi, hNe⟩⟩
    · rintro ⟨i, hi⟩
      exact ⟨((hMem i y).mp hi).2, i, ((hMem i y).mp hi).1⟩

/-- An item goes from one place to another one. -/
theorem move [DecidableEq ι] (h : Placement held live) (hNe : p ≠ q)
    (hFrom : (held p).Perm (x :: held' p)) (hTo : (held' q).Perm (x :: held q))
    (hRest : ∀ i, i ≠ p → i ≠ q → held' i = held i) : Placement held' live := by
  have hx : live x := h.live_of_mem (hFrom.mem_iff.mpr (List.mem_cons_self ..))
  have hTaken : Placement (fun i => if i = p then held' p else held i) fun y => y ≠ x ∧ live y := by
    refine h.remove (p := p) (x := x) ?_ (fun i hi => if_neg hi) fun y => Iff.rfl
    rw [if_pos rfl]
    exact hFrom
  refine hTaken.insert (q := q) (x := x) (fun hNot => hNot.1 rfl) ?_ (fun i hi => ?_) fun y => ?_
  · rw [if_neg (Ne.symm hNe)]
    exact hTo
  · by_cases hp : i = p
    · rw [if_pos hp, hp]
    · rw [if_neg hp, hRest i hp hi]
  · by_cases hy : y = x
    · simp [hy, hx]
    · simp [hy]

end Placement

end Ricerca.Foundation
