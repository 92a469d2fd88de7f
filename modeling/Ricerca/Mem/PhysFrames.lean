import Ricerca.Mem.HeapClasses
import Ricerca.Mem.PhysRanges

/-! What the page allocator leaves alone. It writes its links into free blocks only, and no
free list has blocks that are smaller than a page, so that the blocks of a range are aligned to
pages when the range is. -/
namespace Ricerca.PhysSlab

open Ricerca.Foundation

/-- There are no blocks below the size of a page. -/
def Coarse (r : Region) : Prop := ∀ order < physSlabGran, r.slab.freeLists order = physNull

section Frames

variable {base length block order target size a : Nat} {r : Region} {held : List Block}
  {free : Nat → List Nat}

/-- Splitting writes to the upper halves. -/
theorem Layout.splitUntilTarget_mem
    (h : Layout base length r (Block.ofOrder block order :: held) free)
    (hOrder : order < memPhysSlabOrdersCount) (hOut : ¬(Block.ofOrder block order).Contains a) :
    (memPhysSlabSplitUntilTarget r block order target).mem a = r.mem a := by
  induction order generalizing r free with
  | zero => rfl
  | succ order ih =>
      rw [memPhysSlabSplitUntilTarget]
      split_ifs
      · have hHalves : Layout base length r (Block.ofOrder (block + 2 ^ order) order ::
            Block.ofOrder block order :: held) free :=
          { h with tiles := h.tiles.halve.perm (.swap _ _ _) }
        have hUpper := (hHalves.within (List.mem_cons_self ..)).2
        have hPos := Nat.two_pow_pos order
        simp only [Block.ofOrder, Block.Contains] at hUpper hOut
        have hSum : wrap (block + wrap (2 ^ order)) = block + 2 ^ order := by
          simp only [wrap]
          omega
        rw [hSum, ih (hHalves.enqueue (by omega)) (by omega)]
        · refine Function.update_of_ne ?_ _ _
          rw [Nat.pow_succ] at hOut
          omega
        · simp only [Block.ofOrder, Block.Contains]
          rw [Nat.pow_succ] at hOut
          omega
      · rfl

/-- An allocation changes nothing in the blocks that are held. -/
theorem Layout.alloc_mem (h : Layout base length r held free) {b : Block} (hb : b ∈ held)
    (ha : b.Contains a) : (memPhysSlabAlloc r size).2.mem a = r.mem a := by
  unfold memPhysSlabAlloc
  by_cases hTooBig : memPhysSlabGetOrder size = memPhysSlabOrdersCount
  · simp [hTooBig]
  simp only [if_neg hTooBig]
  cases hFirst : firstFreeOrder r.slab (memPhysSlabGetOrder size) with
  | none =>
      simp only
      split_ifs
      · rfl
      · rfl
  | some i =>
      obtain ⟨-, hMax, hNonempty⟩ := firstFreeOrder_spec hFirst
      have hi : i < memPhysSlabOrdersCount := Nat.lt_of_le_of_lt hMax h.max_lt
      obtain ⟨block, cells, hCells⟩ : ∃ block cells, free i = block :: cells := by
        cases hFree : free i with
        | nil => exact (hNonempty ((h.chains i hi).eq_nil_iff.mp hFree)).elim
        | cons block cells => exact ⟨block, cells, rfl⟩
      obtain ⟨hBlock, hHeld⟩ := h.dequeue hi hCells
      have hApart := (List.pairwise_cons.mp hHeld.tiles.1).1 b (List.mem_append_left _ hb)
      simp only [hBlock]
      exact hHeld.splitUntilTarget_mem hi (hApart.symm.not_contains ha)

theorem free_mem {addr : Nat} (hNe : a ≠ addr) : (memPhysSlabFree r addr size).mem a = r.mem a :=
  Function.update_of_ne hNe _ _

/-- The memory may change where no free block is, and outside of the range. -/
theorem Layout.view {mem : Nat → Nat} (h : Layout base length r held free)
    (hSame : ∀ a, base ≤ a → a < base + length → (∀ b ∈ held, ¬b.Contains a) →
      mem a = r.mem a) :
    Layout base length { r with mem := mem } held free := by
  refine { h with chains := fun order hOrder => (h.chains order hOrder).congr fun a ha => ?_ }
  have hFree := freeBlocks_mem hOrder ha
  have hWithin := h.tiles.within (List.mem_append_right held hFree)
  have hPos := Nat.two_pow_pos order
  have hBrk := h.brk_le
  simp only [Block.ofOrder] at hWithin
  refine hSame a (by omega) (by omega) fun b hb => ?_
  have hApart := (List.pairwise_append.mp h.tiles.1).2.2 b hb _ hFree
  exact hApart.symm.not_contains (Block.contains_addr _)

theorem Coarse.enqueue (h : Coarse r) (hOrder : physSlabGran ≤ order) :
    Coarse (memPhysSlabEnqueue r order block) := by
  intro o ho
  simp only [memPhysSlabEnqueue]
  rw [Function.update_of_ne (by omega)]
  exact h o ho

theorem Coarse.splitUntilTarget (h : Coarse r) (hTarget : physSlabGran ≤ target) :
    Coarse (memPhysSlabSplitUntilTarget r block order target) := by
  induction order generalizing r with
  | zero => exact h
  | succ order ih =>
      rw [memPhysSlabSplitUntilTarget]
      split_ifs
      · exact ih (h.enqueue (by omega))
      · exact h

theorem Coarse.alloc (h : Coarse r) : Coarse (memPhysSlabAlloc r size).2 := by
  have hGran := (Heap.memPhysSlabGetOrder_bounds size).1
  unfold memPhysSlabAlloc
  by_cases hTooBig : memPhysSlabGetOrder size = memPhysSlabOrdersCount
  · simpa [hTooBig] using h
  simp only [if_neg hTooBig]
  cases hFirst : firstFreeOrder r.slab (memPhysSlabGetOrder size) with
  | none =>
      simp only
      split_ifs
      · exact h
      · exact h
  | some i =>
      obtain ⟨hLow, -⟩ := firstFreeOrder_spec hFirst
      refine Coarse.splitUntilTarget (fun o ho => ?_) hGran
      simp only [memPhysSlabDequeue]
      rw [Function.update_of_ne (by simp only [physSlabGran] at ho; omega)]
      exact h o ho

theorem Coarse.slabFree {addr : Nat} (h : Coarse r) : Coarse (memPhysSlabFree r addr size) :=
  h.enqueue (Heap.memPhysSlabGetOrder_bounds size).1

theorem coarse_run {trace : List Event} {s : State}
    (run : (system base length).Execution trace s) : Coarse s.toRegion := by
  refine run.stateInvariant (P := fun s => Coarse s.toRegion) (fun s hInit => ?_)
    fun s event s' h hStep => ?_
  · intro order _
    rw [hInit.1]
    rfl
  · cases hStep with
    | @alloc size addr r hAlloc =>
        have hNext : Coarse (memPhysSlabAlloc s.toRegion size).2 := h.alloc
        rwa [hAlloc] at hNext
    | free => exact h.slabFree
    | store => exact h

/-- Held blocks are aligned to pages with the range. -/
theorem Layout.aligned (h : Layout base length r held free) (hCoarse : Coarse r)
    (hBase : base % pageSize = 0) (hSizes : ∀ b ∈ held, pageSize ∣ b.size) {b : Block}
    (hb : b ∈ held) : b.addr % pageSize = 0 := by
  have hMem := List.mem_append_left (freeBlocks free) hb
  have hDvd := h.tiles.dvd_addr_sub (d := pageSize) (fun c hc => ?_) hMem
  · have hLow := (h.tiles.within hMem).1
    have hSum : b.addr = (b.addr - base) + base := by omega
    rw [hSum]
    exact Nat.mod_eq_zero_of_dvd (Nat.dvd_add hDvd (Nat.dvd_of_mod_eq_zero hBase))
  · rcases List.mem_append.mp hc with hHeld | hFree
    · exact hSizes c hHeld
    · simp only [freeBlocks, List.mem_flatMap, List.mem_range, List.mem_map] at hFree
      obtain ⟨order, hOrder, x, hx, rfl⟩ := hFree
      rw [pageSize_eq]
      refine Nat.pow_dvd_pow 2 (Nat.le_of_not_lt fun hSmall => ?_)
      rw [(h.chains order hOrder).eq_nil_iff.mpr (hCoarse order hSmall)] at hx
      cases hx

end Frames

end Ricerca.PhysSlab
