import Mathlib.Algebra.Group.Nat.Defs
import Mathlib.Data.List.Pairwise
import Mathlib.Data.List.Perm.Basic
import Mathlib.Tactic.Common

/-! Blocks of addresses and tilings of an interval by blocks. A tiling is the
shape an allocator's memory has when nothing is lost and nothing is handed out
twice: the blocks are pairwise apart and together they cover the interval. -/
namespace Ricerca.Foundation

/-- `size` consecutive addresses from `addr` on, at least one. -/
structure Block where
  addr : Nat
  size : Nat
  pos : 0 < size
  deriving DecidableEq

namespace Block

def Contains (b : Block) (a : Nat) : Prop := b.addr ≤ a ∧ a < b.addr + b.size

/-- One block ends before the other begins. -/
def Apart (b c : Block) : Prop := b.addr + b.size ≤ c.addr ∨ c.addr + c.size ≤ b.addr

theorem contains_addr (b : Block) : b.Contains b.addr := by
  have := b.pos
  simp only [Contains]
  omega

theorem Apart.symm {b c : Block} (h : b.Apart c) : c.Apart b := Or.symm h

instance : Std.Symm Apart := ⟨fun _ _ => Apart.symm⟩

theorem Apart.not_contains {b c : Block} (h : b.Apart c) {a : Nat} (hb : b.Contains a) :
    ¬c.Contains a := by
  simp only [Apart, Contains] at *
  omega

theorem Apart.addr_ne {b c : Block} (h : b.Apart c) : b.addr ≠ c.addr := by
  intro hEq
  exact h.not_contains b.contains_addr (hEq ▸ c.contains_addr)

/-- The block of `2 ^ order` addresses. -/
def ofOrder (addr order : Nat) : Block := ⟨addr, 2 ^ order, Nat.two_pow_pos order⟩

/-- The block of `size` addresses; an empty request still gets one. -/
def ofSize (addr size : Nat) : Block := ⟨addr, max 1 size, by omega⟩

/-- Every address of `b` belongs to `c`. -/
def Inside (b c : Block) : Prop := c.addr ≤ b.addr ∧ b.addr + b.size ≤ c.addr + c.size

theorem Inside.apart {b c d : Block} (h : b.Inside c) (hApart : c.Apart d) : b.Apart d := by
  simp only [Inside, Apart] at *
  omega

theorem Inside.trans {b c d : Block} (h : b.Inside c) (hOuter : c.Inside d) : b.Inside d := by
  simp only [Inside] at *
  omega

theorem Inside.not_apart {b c : Block} (h : b.Inside c) : ¬b.Apart c := by
  have := b.pos
  simp only [Inside, Apart] at *
  omega

theorem Inside.contains {b c : Block} (h : b.Inside c) {a : Nat} (ha : b.Contains a) :
    c.Contains a := by
  simp only [Inside, Contains] at *
  omega

/-- Cutting one of several blocks into pieces keeps all of them apart. -/
theorem pairwise_apart_replace {b : Block} {pieces rest : List Block}
    (h : (b :: rest).Pairwise Apart) (hPieces : pieces.Pairwise Apart)
    (hInside : ∀ p ∈ pieces, p.Inside b) : (pieces ++ rest).Pairwise Apart := by
  rw [List.pairwise_cons] at h
  rw [List.pairwise_append]
  exact ⟨hPieces, h.2, fun p hp c hc => (hInside p hp).apart (h.1 c hc)⟩

end Block

/-- Adding an element to one of the lists indexed below `n` adds it to all of
them together. -/
theorem flatMap_range_perm_cons {β : Type} {f g : Nat → List β} {x : β} {k n : Nat} (hLt : k < n)
    (hAt : (g k).Perm (x :: f k)) (hElse : ∀ i, i ≠ k → g i = f i) :
    ((List.range n).flatMap g).Perm (x :: (List.range n).flatMap f) := by
  induction n with
  | zero => omega
  | succ n ih =>
      rw [List.range_succ, List.flatMap_append, List.flatMap_append]
      simp only [List.flatMap_singleton]
      rcases Nat.lt_or_ge k n with hBelow | hAbove
      · rw [hElse n (by omega)]
        exact (ih hBelow).append_right _
      · have hEq : k = n := by omega
        subst hEq
        have hSame : (List.range k).flatMap g = (List.range k).flatMap f :=
          List.flatMap_congr fun i hi => hElse i (by have := List.mem_range.mp hi; omega)
        rw [hSame]
        exact (hAt.append_left _).trans List.perm_middle

/-- The addresses `start`, `start + step`, ... below `stop`, as a counting loop
visits them. -/
def addrRange (start stop step : Nat) : List Nat :=
  (List.range ((stop - start + step - 1) / step)).map (start + · * step)

theorem mem_addrRange {start stop step a : Nat} (hStep : 0 < step) :
    a ∈ addrRange start stop step ↔ ∃ i, a = start + i * step ∧ a < stop := by
  simp only [addrRange, List.mem_map, List.mem_range]
  constructor
  · rintro ⟨i, hi, rfl⟩
    refine ⟨i, rfl, ?_⟩
    rw [Nat.lt_div_iff_mul_lt hStep] at hi
    omega
  · rintro ⟨i, rfl, hLt⟩
    refine ⟨i, ?_, rfl⟩
    rw [Nat.lt_div_iff_mul_lt hStep]
    omega

/-- The blocks of one stride each along a counting loop are apart. -/
theorem addrRange_pairwise_apart (start stop : Nat) {step : Nat} {block : Nat → Block}
    (hAddr : ∀ a, (block a).addr = a) (hSize : ∀ a, (block a).size ≤ step) :
    ((addrRange start stop step).map block).Pairwise Block.Apart := by
  rw [addrRange, List.map_map, List.pairwise_map]
  refine List.Pairwise.imp ?_ List.pairwise_lt_range
  intro i j hLt
  left
  have hMul : (i + 1) * step ≤ j * step := Nat.mul_le_mul_right step hLt
  have := hSize (start + i * step)
  simp only [Function.comp_apply, hAddr, Nat.succ_mul] at *
  omega

/-- The blocks are pairwise apart and cover exactly `[lo, hi)`. -/
def Tiles (blocks : List Block) (lo hi : Nat) : Prop :=
  blocks.Pairwise Block.Apart ∧ ∀ a, (∃ b ∈ blocks, b.Contains a) ↔ lo ≤ a ∧ a < hi

namespace Tiles

variable {blocks : List Block} {b : Block} {lo hi : Nat}

theorem nil (lo : Nat) : Tiles [] lo lo := by
  refine ⟨List.Pairwise.nil, fun a => ?_⟩
  simp only [List.not_mem_nil, false_and, exists_false, false_iff]
  omega

/-- The order in which the blocks are listed does not matter. -/
theorem perm {other : List Block} (h : Tiles blocks lo hi) (hPerm : blocks.Perm other) :
    Tiles other lo hi := by
  refine ⟨hPerm.pairwise h.1 Block.Apart.symm, fun a => ?_⟩
  rw [← h.2 a]
  simp only [hPerm.mem_iff]

theorem within (h : Tiles blocks lo hi) (hMem : b ∈ blocks) :
    lo ≤ b.addr ∧ b.addr + b.size ≤ hi := by
  have hPos := b.pos
  have hFirst := (h.2 b.addr).mp ⟨b, hMem, b.contains_addr⟩
  have hLast := (h.2 (b.addr + b.size - 1)).mp ⟨b, hMem, by simp only [Block.Contains]; omega⟩
  omega

/-- Cutting a block into halves keeps the tiling. -/
theorem halve {a order : Nat} (h : Tiles (Block.ofOrder a (order + 1) :: blocks) lo hi) :
    Tiles (Block.ofOrder a order :: Block.ofOrder (a + 2 ^ order) order :: blocks) lo hi := by
  obtain ⟨hApart, hCover⟩ := h
  rw [List.pairwise_cons] at hApart
  have hDouble : 2 ^ (order + 1) = 2 ^ order + 2 ^ order := by rw [Nat.pow_succ]; omega
  have hPos := Nat.two_pow_pos order
  refine ⟨?_, fun x => ?_⟩
  · rw [List.pairwise_cons, List.pairwise_cons]
    refine ⟨?_, ?_, hApart.2⟩
    · intro c hc
      rcases List.mem_cons.mp hc with rfl | hc
      · exact Or.inl (Nat.le_refl _)
      · have := hApart.1 c hc
        simp only [Block.Apart, Block.ofOrder] at *
        omega
    · intro c hc
      have := hApart.1 c hc
      simp only [Block.Apart, Block.ofOrder] at *
      omega
  · rw [← hCover x]
    simp only [List.mem_cons, exists_eq_or_imp]
    rw [← or_assoc]
    refine or_congr ?_ Iff.rfl
    simp only [Block.Contains, Block.ofOrder]
    omega

/-- A block that starts where the interval ends makes the interval longer. -/
theorem extend (h : Tiles blocks lo b.addr) (hLe : lo ≤ b.addr) :
    Tiles (b :: blocks) lo (b.addr + b.size) := by
  refine ⟨?_, fun x => ?_⟩
  · rw [List.pairwise_cons]
    exact ⟨fun c hc => Or.inr (h.within hc).2, h.1⟩
  · have hPos := b.pos
    have hOld := h.2 x
    simp only [List.mem_cons, exists_eq_or_imp, hOld]
    simp only [Block.Contains]
    omega

/-- Where all sizes are multiples of a step, so are the distances to the lower end. -/
theorem dvd_addr_sub {d : Nat} (h : Tiles blocks lo hi) (hSizes : ∀ b ∈ blocks, d ∣ b.size)
    (hMem : b ∈ blocks) : d ∣ b.addr - lo := by
  induction hAddr : b.addr using Nat.strongRecOn generalizing b with
  | _ addr ih =>
      have hWithin := h.within hMem
      rcases Nat.eq_or_lt_of_le hWithin.1 with hFirst | hLater
      · rw [← hAddr, ← hFirst, Nat.sub_self]
        exact Nat.dvd_zero d
      · -- The address below the block lies in another one, which ends where this one begins.
        obtain ⟨c, hc, hContains⟩ := (h.2 (b.addr - 1)).mpr (by omega)
        have hPos := b.pos
        have hNe : c ≠ b := by
          rintro rfl
          have hLow := hContains.1
          omega
        have hApart := h.1.forall hc hMem hNe
        simp only [Block.Contains, Block.Apart] at hContains hApart
        have hBefore := ih c.addr (by omega) hc rfl
        have hSum : addr - lo = (c.addr - lo) + c.size := by
          have hLow := (h.within hc).1
          omega
        rw [hSum]
        exact Nat.dvd_add hBefore (hSizes c hc)

end Tiles

end Ricerca.Foundation
