import Ricerca.Foundation.Chain
import Ricerca.Mem.PhysSlab

/-! Safety of the physical slab allocator. The blocks handed out and the blocks
on the free lists tile the memory below the break, whatever sizes are requested
and in whatever order they are given back. -/
namespace Ricerca.PhysSlab

open Ricerca.Foundation

/-- The blocks on all free lists, when `free order` are the cells of one list. -/
def freeBlocks (free : Nat → List Nat) : List Block :=
  (List.range memPhysSlabOrdersCount).flatMap fun order => (free order).map (Block.ofOrder · order)

/-- The memory of a slab made for `[base, base + length)` while some blocks are
held, by clients or by a call that is splitting them. -/
structure Layout (base length : Nat) (r : Region) (held : List Block) (free : Nat → List Nat) :
    Prop where
  base_eq : r.slab.base = base
  length_eq : r.slab.length = length
  chains : ∀ order < memPhysSlabOrdersCount,
    Chain r.mem physNull (r.slab.freeLists order) (free order)
  tiles : Tiles (held ++ freeBlocks free) base (base + r.slab.brkBytes)
  brk_le : r.slab.brkBytes ≤ length
  max_lt : r.slab.maxFreedOrder < memPhysSlabOrdersCount
  base_pos : 0 < base
  end_lt : base + length < 2 ^ 63

/-- Adding a cell to one free list adds its block. -/
theorem freeBlocks_push (free : Nat → List Nat) {order : Nat} (hOrder : order < memPhysSlabOrdersCount)
    (block : Nat) :
    (freeBlocks (Function.update free order (block :: free order))).Perm
      (Block.ofOrder block order :: freeBlocks free) := by
  refine flatMap_range_perm_cons hOrder ?_ ?_
  · simp
  · intro i hi
    simp [hi]

theorem freeBlocks_mem {free : Nat → List Nat} {order block : Nat}
    (hOrder : order < memPhysSlabOrdersCount) (hMem : block ∈ free order) :
    Block.ofOrder block order ∈ freeBlocks free :=
  List.mem_flatMap.mpr ⟨order, List.mem_range.mpr hOrder, List.mem_map.mpr ⟨block, hMem, rfl⟩⟩

namespace Layout

variable {base length : Nat} {r : Region} {held : List Block} {free : Nat → List Nat}
  {order block : Nat}

theorem perm {other : List Block} (h : Layout base length r held free) (hPerm : held.Perm other) :
    Layout base length r other free :=
  { h with tiles := h.tiles.perm (hPerm.append_right _) }

/-- A held block shares no address with the free cells. -/
theorem notMem_free {b : Block} (h : Layout base length r (b :: held) free) {a : Nat} (ha : b.Contains a)
    (hOrder : order < memPhysSlabOrdersCount) : a ∉ free order := by
  intro hMem
  have hApart := (List.pairwise_cons.mp h.tiles.1).1 _
    (List.mem_append_right held (freeBlocks_mem hOrder hMem))
  exact hApart.not_contains ha (Block.contains_addr _)

/-- Every block lies between `base` and the break. -/
theorem within (h : Layout base length r held free) {b : Block} (hMem : b ∈ held ++ freeBlocks free) :
    0 < b.addr ∧ b.addr + b.size < 2 ^ 63 := by
  have hWithin := h.tiles.within hMem
  have hBrk := h.brk_le
  have hEnd := h.end_lt
  have hBase := h.base_pos
  omega

/-- Putting a held block on the free list of its order. -/
theorem enqueue (h : Layout base length r (Block.ofOrder block order :: held) free)
    (hOrder : order < memPhysSlabOrdersCount) :
    Layout base length (memPhysSlabEnqueue r order block) held
      (Function.update free order (block :: free order)) := by
  have hContains : (Block.ofOrder block order).Contains block := Block.contains_addr _
  have hNe : block ≠ physNull := Nat.ne_of_gt (h.within (List.mem_cons_self ..)).1
  refine ⟨h.base_eq, h.length_eq, ?_, ?_, h.brk_le, ?_, h.base_pos, h.end_lt⟩
  · intro o ho
    have hNot := h.notMem_free hContains ho
    by_cases hEq : o = order
    · subst hEq
      simp only [memPhysSlabEnqueue, Function.update_self]
      exact (h.chains o ho).push hNe hNot
    · simp only [memPhysSlabEnqueue, Function.update_of_ne hEq]
      exact (h.chains o ho).update_of_notMem hNot
  · refine h.tiles.perm ?_
    exact List.perm_middle.symm.trans ((freeBlocks_push free hOrder block).symm.append_left held)
  · have hMax := h.max_lt
    simp only [memPhysSlabEnqueue]
    split_ifs <;> omega

theorem rescan_le (freeLists : Nat → Nat) (i maxFreedOrder bound : Nat) (hi : i ≤ bound)
    (hMax : maxFreedOrder ≤ bound) : rescanFreeLists freeLists i maxFreedOrder ≤ bound := by
  induction i generalizing maxFreedOrder with
  | zero => exact hMax
  | succ i ih =>
      refine ih _ (by omega) ?_
      split_ifs <;> omega

/-- Taking the first block off a free list. -/
theorem dequeue {cells : List Nat} (h : Layout base length r held free)
    (hOrder : order < memPhysSlabOrdersCount) (hFree : free order = block :: cells) :
    (memPhysSlabDequeue r order).1 = block ∧
    Layout base length (memPhysSlabDequeue r order).2 (Block.ofOrder block order :: held)
      (Function.update free order cells) := by
  have hChain := h.chains order hOrder
  rw [hFree] at hChain
  obtain ⟨hHead, -, hRest⟩ := hChain.pop
  refine ⟨hHead, h.base_eq, h.length_eq, ?_, ?_, h.brk_le, ?_, h.base_pos, h.end_lt⟩
  · intro o ho
    by_cases hEq : o = order
    · subst hEq
      simp only [memPhysSlabDequeue, Function.update_self, hHead]
      exact hRest
    · simp only [memPhysSlabDequeue, Function.update_of_ne hEq]
      exact h.chains o ho
  · refine h.tiles.perm ?_
    have hPush := freeBlocks_push (Function.update free order cells) hOrder block
    simp only [Function.update_self, Function.update_idem] at hPush
    rw [← hFree, Function.update_eq_self] at hPush
    exact (hPush.append_left held).trans List.perm_middle
  · have hMax := h.max_lt
    simp only [memPhysSlabDequeue]
    split_ifs with hRescan
    · have hLe := rescan_le (Function.update r.slab.freeLists order (r.mem (r.slab.freeLists order)))
        (r.slab.maxFreedOrder - 1) 0 r.slab.maxFreedOrder (by omega) (by omega)
      omega
    · exact hMax

/-- Splitting a held block down to the order needed frees the upper halves. The
sums on the way stay below `2 ^ 63`. -/
theorem splitUntilTarget {target : Nat}
    (h : Layout base length r (Block.ofOrder block order :: held) free)
    (hOrder : order < memPhysSlabOrdersCount) (hTarget : target ≤ order) :
    (∃ free', Layout base length (memPhysSlabSplitUntilTarget r block order target)
      (Block.ofOrder block target :: held) free') ∧
    ∀ p ∈ splitSums block order target, p.1 + p.2 < 2 ^ 63 := by
  induction order generalizing r free with
  | zero =>
      have hZero : target = 0 := by omega
      subst hZero
      exact ⟨⟨free, h⟩, by simp [splitSums]⟩
  | succ order ih =>
      rcases Nat.lt_or_ge target (order + 1) with hBelow | hAbove
      · have hHalves : Layout base length r (Block.ofOrder (block + 2 ^ order) order ::
            Block.ofOrder block order :: held) free :=
          { h with tiles := h.tiles.halve.perm (.swap _ _ _) }
        have hUpper := (hHalves.within (List.mem_cons_self ..)).2
        have hPos := Nat.two_pow_pos order
        simp only [Block.ofOrder] at hUpper
        have hSum : wrap (block + wrap (2 ^ order)) = block + 2 ^ order := by
          have hInner : wrap (2 ^ order) = 2 ^ order := Nat.mod_eq_of_lt (by omega)
          rw [hInner]
          exact Nat.mod_eq_of_lt (by omega)
        obtain ⟨hLayout, hSums⟩ := ih (hHalves.enqueue (by omega)) (by omega) (by omega)
        simp only [memPhysSlabSplitUntilTarget, splitSums, if_pos hBelow, hSum]
        refine ⟨hLayout, ?_⟩
        intro p hp
        rcases List.mem_cons.mp hp with rfl | hp
        · simp only
          omega
        · exact hSums p hp
      · have hEq : target = order + 1 := by omega
        subst hEq
        simp only [memPhysSlabSplitUntilTarget, splitSums, gt_iff_lt, Nat.lt_irrefl, if_false]
        exact ⟨⟨free, h⟩, by simp⟩

end Layout

theorem getOrderLoop_spec (size left : Nat) {current order : Nat}
    (hOrder : order + left = memPhysSlabOrdersCount) (hCurrent : 0 < left → current = 2 ^ order)
    (hFound : getOrderLoop size left current order < memPhysSlabOrdersCount) :
    size ≤ 2 ^ getOrderLoop size left current order ∧
    order ≤ getOrderLoop size left current order := by
  induction left generalizing current order with
  | zero => simp [getOrderLoop] at hFound
  | succ left ih =>
      have hNow := hCurrent (by omega)
      simp only [getOrderLoop] at hFound ⊢
      split_ifs at hFound ⊢ with hFits
      · exact ⟨hNow ▸ hFits, Nat.le_refl _⟩
      · have hNext : 0 < left → wrap (current * 2) = 2 ^ (order + 1) := by
          intro hLeft
          have hExp : order + 1 < 64 := by simp only [memPhysSlabOrdersCount] at hOrder; omega
          rw [hNow, ← Nat.pow_succ]
          exact Nat.mod_eq_of_lt (Nat.pow_lt_pow_right (by omega) hExp)
        obtain ⟨hSize, hLe⟩ := ih (by omega) hNext hFound
        exact ⟨hSize, by omega⟩

/-- The order computed for a size is large enough for it and for a page. -/
theorem memPhysSlabGetOrder_spec {size : Nat}
    (h : memPhysSlabGetOrder size < memPhysSlabOrdersCount) :
    max size pageSize ≤ 2 ^ memPhysSlabGetOrder size := by
  obtain ⟨hSize, hGran⟩ := getOrderLoop_spec size (memPhysSlabOrdersCount - physSlabGran)
    rfl (fun _ => rfl) h
  rw [pageSize_eq]
  exact Nat.max_le.mpr ⟨hSize, Nat.pow_le_pow_right (by omega) hGran⟩

theorem getOrderLoop_le (size left : Nat) {current order : Nat}
    (hOrder : order + left = memPhysSlabOrdersCount) :
    getOrderLoop size left current order ≤ memPhysSlabOrdersCount := by
  induction left generalizing current order with
  | zero => exact Nat.le_refl _
  | succ left ih =>
      simp only [getOrderLoop]
      split_ifs
      · omega
      · exact ih (by omega)

theorem memPhysSlabGetOrder_lt {size : Nat}
    (h : memPhysSlabGetOrder size ≠ memPhysSlabOrdersCount) :
    memPhysSlabGetOrder size < memPhysSlabOrdersCount :=
  Nat.lt_of_le_of_ne (getOrderLoop_le size _ rfl) h

theorem firstFreeOrder_spec {slab : MemPhysSlab} {order i : Nat}
    (h : firstFreeOrder slab order = some i) :
    order ≤ i ∧ i ≤ slab.maxFreedOrder ∧ slab.freeLists i ≠ physNull := by
  have hMem := List.mem_of_find?_eq_some h
  have hFound := List.find?_some h
  rw [List.mem_range'_1] at hMem
  simp only [ne_eq, decide_eq_true_eq] at hFound
  exact ⟨hMem.1, by omega, hFound⟩

namespace Layout

variable {base length : Nat} {r : Region} {held : List Block} {free : Nat → List Nat} {size : Nat}

/-- Moving the break, when the rest of the range is long enough. -/
theorem moveBrk {order : Nat} (h : Layout base length r held free)
    (hFits : r.slab.brkBytes + 2 ^ order ≤ length) :
    Layout base length
      { r with slab := { r.slab with brkBytes := r.slab.brkBytes + 2 ^ order } }
      (Block.ofOrder (base + r.slab.brkBytes) order :: held) free := by
  refine ⟨h.base_eq, h.length_eq, h.chains, ?_, hFits, h.max_lt, h.base_pos, h.end_lt⟩
  have hTiles := Tiles.extend (b := Block.ofOrder (base + r.slab.brkBytes) order) h.tiles
    (Nat.le_add_right ..)
  simpa only [Block.ofOrder, Nat.add_assoc, List.cons_append] using hTiles

/-- What an allocation does: it fails and changes nothing, or it hands out a
block of the order of its size. -/
theorem alloc (h : Layout base length r held free) (size : Nat) :
    (memPhysSlabAlloc r size = (physNull, r) ∨
      ((memPhysSlabAlloc r size).1 ≠ physNull ∧
        memPhysSlabGetOrder size < memPhysSlabOrdersCount ∧
        ∃ free', Layout base length (memPhysSlabAlloc r size).2
          (Block.ofOrder (memPhysSlabAlloc r size).1 (memPhysSlabGetOrder size) :: held) free')) ∧
    ∀ p ∈ allocSums r size, p.1 + p.2 < 2 ^ 64 := by
  unfold memPhysSlabAlloc allocSums
  by_cases hTooBig : memPhysSlabGetOrder size = memPhysSlabOrdersCount
  · simp [hTooBig]
  have hOrder := memPhysSlabGetOrder_lt hTooBig
  simp only [if_neg hTooBig]
  cases hFirst : firstFreeOrder r.slab (memPhysSlabGetOrder size) with
  | some i =>
      obtain ⟨hLe, hMax, hNonempty⟩ := firstFreeOrder_spec hFirst
      have hi : i < memPhysSlabOrdersCount := Nat.lt_of_le_of_lt hMax h.max_lt
      obtain ⟨block, cells, hCells⟩ : ∃ block cells, free i = block :: cells := by
        cases hFree : free i with
        | nil => exact (hNonempty ((h.chains i hi).eq_nil_iff.mp hFree)).elim
        | cons block cells => exact ⟨block, cells, rfl⟩
      obtain ⟨hBlock, hHeld⟩ := h.dequeue hi hCells
      have hHead : r.slab.freeLists i = block := hBlock
      have hNe : block ≠ physNull := hHead ▸ hNonempty
      obtain ⟨hSplit, hSums⟩ := hHeld.splitUntilTarget hi hLe
      simp only [hBlock, hHead]
      refine ⟨Or.inr ⟨hNe, hOrder, hSplit⟩, fun p hp => ?_⟩
      have := hSums p hp
      omega
  | none =>
      have hBrk := h.brk_le
      have hEnd := h.end_lt
      have hBase := h.base_eq
      have hPow : 2 ^ memPhysSlabGetOrder size ≤ 2 ^ 63 :=
        Nat.pow_le_pow_right (by omega) (Nat.le_of_lt_succ hOrder)
      have hShift : wrap (2 ^ memPhysSlabGetOrder size) = 2 ^ memPhysSlabGetOrder size :=
        Nat.mod_eq_of_lt (by omega)
      have hNew : wrap (r.slab.brkBytes + wrap (2 ^ memPhysSlabGetOrder size)) =
          r.slab.brkBytes + 2 ^ memPhysSlabGetOrder size := by
        rw [hShift]
        exact Nat.mod_eq_of_lt (by omega)
      have hAddr : wrap (r.slab.brkBytes + r.slab.base) = base + r.slab.brkBytes := by
        rw [hBase, Nat.add_comm]
        exact Nat.mod_eq_of_lt (by omega)
      simp only [hNew, hAddr]
      split_ifs with hFits
      · refine ⟨Or.inr ⟨?_, hOrder, free, h.moveBrk (h.length_eq ▸ hFits)⟩, ?_⟩
        · have hPos := h.base_pos
          simp only [physNull]
          omega
        · simp only [List.mem_cons, List.not_mem_nil, or_false, forall_eq_or_imp, forall_eq]
          omega
      · refine ⟨Or.inl rfl, ?_⟩
        simp only [List.mem_cons, List.not_mem_nil, or_false, forall_eq]
        omega

/-- Writes of the clients into blocks that they hold. -/
theorem store {mem : Nat → Nat} (h : Layout base length r held free)
    (hSame : ∀ a, (∀ b ∈ held, ¬b.Contains a) → mem a = r.mem a) :
    Layout base length { r with mem := mem } held free := by
  refine { h with chains := fun order hOrder => ?_ }
  refine (h.chains order hOrder).congr fun a ha => hSame a fun b hb => ?_
  have hApart := (List.pairwise_append.mp h.tiles.1).2.2 b hb _ (freeBlocks_mem hOrder ha)
  exact hApart.symm.not_contains (Block.contains_addr _)

end Layout

/-- The invariant of the allocator together with its clients. -/
def Safe (base length : Nat) (s : State) : Prop :=
  (∃ free, Layout base length s.toRegion s.allocated free) ∧
  ∀ p ∈ s.live, memPhysSlabGetOrder p.2 < memPhysSlabOrdersCount

theorem safe_init {base length : Nat} (hBase : 0 < base) (hEnd : base + length < 2 ^ 63)
    {s : State} (h : (system base length).init s) : Safe base length s := by
  obtain ⟨hSlab, hLive⟩ := h
  refine ⟨⟨fun _ => [], ?_⟩, by simp [hLive]⟩
  have hNone : freeBlocks (fun _ => []) = [] := by simp [freeBlocks]
  refine ⟨by rw [hSlab]; rfl, by rw [hSlab]; rfl, ?_, ?_, ?_, ?_, hBase, hEnd⟩
  · intro order _
    rw [hSlab]
    exact .nil
  · rw [hNone, hSlab, State.allocated, hLive]
    exact Tiles.nil base
  · rw [hSlab]
    exact Nat.zero_le _
  · rw [hSlab]
    exact Nat.zero_lt_succ _

theorem safe_step {base length : Nat} {s s' : State} {event : Event}
    (h : Safe base length s) (hStep : Step s event s') : Safe base length s' := by
  obtain ⟨⟨free, hLayout⟩, hOrders⟩ := h
  cases hStep with
  | @alloc size addr r hAlloc =>
      obtain ⟨hOutcome, -⟩ := hLayout.alloc size
      rw [hAlloc] at hOutcome
      rcases hOutcome with hFailed | ⟨hNe, hOrder, free', hLayout'⟩
      · obtain ⟨rfl, rfl⟩ := Prod.mk.inj hFailed
        exact ⟨⟨free, by simpa [State.allocated] using hLayout⟩, by simpa using hOrders⟩
      · simp only at hNe
        refine ⟨⟨free', ?_⟩, ?_⟩
        · simpa [State.allocated, hNe, liveBlock] using hLayout'
        · simp only [if_neg hNe]
          intro p hp
          rcases List.mem_cons.mp hp with rfl | hp
          · exact hOrder
          · exact hOrders p hp
  | @free addr size hLive =>
      have hPerm : s.allocated.Perm (liveBlock (addr, size) ::
          (s.live.erase (addr, size)).map liveBlock) :=
        (List.perm_cons_erase hLive).map liveBlock
      have hFreed := (hLayout.perm hPerm).enqueue (hOrders _ hLive)
      exact ⟨⟨_, hFreed⟩, fun p hp => hOrders p (List.mem_of_mem_erase hp)⟩
  | @store mem hSame =>
      exact ⟨⟨free, hLayout.store hSame⟩, hOrders⟩

theorem safe_run {base length : Nat} (hBase : 0 < base) (hEnd : base + length < 2 ^ 63)
    {trace : List Event} {s : State} (run : (system base length).Execution trace s) :
    Safe base length s :=
  run.stateInvariant (fun _ h => safe_init hBase hEnd h) (fun _ _ _ h hStep => safe_step h hStep)

/-- Allocated blocks and free blocks tile `[base, base + brk_bytes)` after every
sequence of allocations, frees and writes to allocated memory; every allocated
block is as large as the order of its size says, and no sum wraps. -/
theorem blocks_tile_below_brk {base length : Nat} (hBase : 0 < base)
    (hEnd : base + length < 2 ^ 63) {trace : List Event} {s : State}
    (run : (system base length).Execution trace s) :
    (∃ free : Nat → List Nat,
      (∀ order < memPhysSlabOrdersCount,
        Chain s.mem physNull (s.slab.freeLists order) (free order)) ∧
      Tiles (s.allocated ++ freeBlocks free) base (base + s.slab.brkBytes)) ∧
    s.slab.brkBytes ≤ length ∧
    (∀ p ∈ s.live, memPhysSlabGetOrder p.2 < memPhysSlabOrdersCount ∧
      max p.2 pageSize ≤ 2 ^ memPhysSlabGetOrder p.2) ∧
    (∀ size, ∀ p ∈ allocSums s.toRegion size, p.1 + p.2 < 2 ^ 64) := by
  obtain ⟨⟨free, hLayout⟩, hOrders⟩ := safe_run hBase hEnd run
  refine ⟨⟨free, hLayout.chains, hLayout.tiles⟩, hLayout.brk_le, fun p hp => ?_,
    fun size => (hLayout.alloc size).2⟩
  exact ⟨hOrders p hp, memPhysSlabGetOrder_spec (hOrders p hp)⟩

/-- Two pages are allocated and freed; the next request splits the freed block. -/
theorem blocks_tile_below_brk_split :
    ∃ s, (system 4096 16384).Execution
        [.alloc 8192 4096, .free 4096 8192, .alloc 4096 4096] s ∧
      s.allocated = [Block.ofOrder 4096 12] ∧ s.slab.freeLists 12 = 8192 ∧
      s.slab.brkBytes = 8192 ∧ s.slab.brkBytes ≤ 16384 ∧
      ∃ free, Tiles (s.allocated ++ freeBlocks free) 4096 (4096 + s.slab.brkBytes) := by
  let s₀ : State := ⟨⟨memPhysSlabInit 4096 16384, fun _ => 0⟩, []⟩
  let s₁ : State := ⟨(memPhysSlabAlloc s₀.toRegion 8192).2, [(4096, 8192)]⟩
  let s₂ : State := ⟨memPhysSlabFree s₁.toRegion 4096 8192, []⟩
  let s₃ : State := ⟨(memPhysSlabAlloc s₂.toRegion 4096).2, [(4096, 4096)]⟩
  have first : Step s₀ (.alloc 8192 4096) s₁ := by
    have hAlloc : memPhysSlabAlloc s₀.toRegion 8192 = (4096, s₁.toRegion) :=
      Prod.ext (by decide) (by dsimp only [s₁])
    simpa [s₁, s₀, physNull] using Step.alloc hAlloc
  have second : Step s₁ (.free 4096 8192) s₂ := by
    have hLive : (4096, 8192) ∈ s₁.live := List.mem_singleton.mpr rfl
    simpa [s₂, s₁] using Step.free hLive
  have third : Step s₂ (.alloc 4096 4096) s₃ := by
    have hAlloc : memPhysSlabAlloc s₂.toRegion 4096 = (4096, s₃.toRegion) :=
      Prod.ext (by decide) (by dsimp only [s₃])
    simpa [s₃, s₂, physNull] using Step.alloc hAlloc
  have start : (system 4096 16384).Execution [] s₀ := .start ⟨rfl, rfl⟩
  have run := ((start.step first).step second).step third
  obtain ⟨⟨free, -, hTiles⟩, hBrk, -⟩ := blocks_tile_below_brk (by omega) (by omega) run
  exact ⟨s₃, run, rfl, by decide, by decide, hBrk, free, hTiles⟩

end Ricerca.PhysSlab
