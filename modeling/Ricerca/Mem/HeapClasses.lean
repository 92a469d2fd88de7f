import Ricerca.Mem.HeapRealloc
import Ricerca.Mem.HeapSafety
import Ricerca.Mem.PhysSlabSafety

/-! Size classes of the kernel heap, and the heap as it looks when every request is
rounded up to its class. The two computations of orders, that of the heap and that of the
page allocator, stop at the same powers of two; and since no function of the heap looks at
how long the blocks of the page allocator are, rounding commutes with all of them. -/
namespace Ricerca.Heap

open Ricerca.Foundation
open Ricerca.PhysSlab (memPhysSlabGetOrder memPhysSlabOrdersCount getOrderLoop)

theorem sizeOrderLoop_bounds (size left test result : Nat) :
    result ≤ sizeOrderLoop size left test result ∧
    sizeOrderLoop size left test result ≤ result + left := by
  induction left generalizing test result with
  | zero => exact ⟨Nat.le_refl _, Nat.le_refl _⟩
  | succ left ih =>
      have hNext := ih (test * 2 % 2 ^ 64) (result + 1)
      simp only [sizeOrderLoop]
      split_ifs <;> omega

/-- A doubled power of two that still fits a word. -/
theorem double_pow {k : Nat} (hLt : k + 1 < 64) : 2 ^ k * 2 % 2 ^ 64 = 2 ^ (k + 1) := by
  rw [← Nat.pow_succ]
  exact Nat.mod_eq_of_lt (Nat.pow_lt_pow_right (by omega) hLt)

/-- The loop stops at an order or below it when the size fits that order. -/
theorem sizeOrderLoop_le_iff (size left : Nat) {test result k : Nat} (hMax : result + left ≤ 64)
    (hTest : 0 < left → test = 2 ^ result) (hLow : result ≤ k) (hHigh : k < result + left) :
    sizeOrderLoop size left test result ≤ k ↔ size ≤ 2 ^ k := by
  induction left generalizing test result with
  | zero => omega
  | succ left ih =>
      have hNow := hTest (Nat.succ_pos left)
      have hPow : 2 ^ result ≤ 2 ^ k := Nat.pow_le_pow_right (by omega) hLow
      have hBounds := sizeOrderLoop_bounds size left (test * 2 % 2 ^ 64) (result + 1)
      simp only [sizeOrderLoop]
      split_ifs with hBig
      · rcases Nat.eq_or_lt_of_le hLow with rfl | hAbove
        · omega
        · refine ih (by omega) (fun hLeft => ?_) hAbove (by omega)
          rw [hNow]
          exact double_pow (by omega)
      · omega

theorem memHeapGetSizeOrder_bounds (size maxOrder : Nat) (hMax : 4 ≤ maxOrder) :
    4 ≤ memHeapGetSizeOrder size maxOrder ∧ memHeapGetSizeOrder size maxOrder ≤ maxOrder := by
  have hBounds := sizeOrderLoop_bounds (if size < 16 then 16 else size) (maxOrder - 4) 16 4
  rw [memHeapGetSizeOrder]
  omega

theorem memHeapGetSizeOrder_le_iff (size maxOrder k : Nat) (hMax : maxOrder ≤ 64)
    (hLow : 4 ≤ k) (hHigh : k < maxOrder) :
    memHeapGetSizeOrder size maxOrder ≤ k ↔ size ≤ 2 ^ k := by
  have hPow : 2 ^ 4 ≤ 2 ^ k := Nat.pow_le_pow_right (by omega) hLow
  rw [memHeapGetSizeOrder,
    sizeOrderLoop_le_iff _ _ (by omega) (fun _ => by omega) hLow (by omega)]
  split_ifs <;> omega

theorem le_getOrderLoop (size left current order : Nat)
    (hOrder : order + left = memPhysSlabOrdersCount) :
    order ≤ getOrderLoop size left current order := by
  induction left generalizing current order with
  | zero => exact Nat.le_of_eq hOrder
  | succ left ih =>
      simp only [getOrderLoop]
      split_ifs
      · exact Nat.le_refl _
      · exact Nat.le_trans (Nat.le_succ order) (ih _ _ (by omega))

theorem getOrderLoop_le_iff (size left : Nat) {current order k : Nat}
    (hOrder : order + left = memPhysSlabOrdersCount) (hCurrent : 0 < left → current = 2 ^ order)
    (hLow : order ≤ k) (hHigh : k < memPhysSlabOrdersCount) :
    getOrderLoop size left current order ≤ k ↔ size ≤ 2 ^ k := by
  induction left generalizing current order with
  | zero => omega
  | succ left ih =>
      have hNow := hCurrent (Nat.succ_pos left)
      have hPow : 2 ^ order ≤ 2 ^ k := Nat.pow_le_pow_right (by omega) hLow
      have hBound := le_getOrderLoop size left (wrap (current * 2)) (order + 1) (by omega)
      simp only [getOrderLoop]
      split_ifs with hFits
      · omega
      · rcases Nat.eq_or_lt_of_le hLow with rfl | hAbove
        · omega
        · refine ih (by omega) (fun hLeft => ?_) hAbove
          rw [hNow]
          exact double_pow (by simp only [memPhysSlabOrdersCount] at hOrder; omega)

theorem memPhysSlabGetOrder_le_iff (size : Nat) {k : Nat} (hLow : 12 ≤ k)
    (hHigh : k < memPhysSlabOrdersCount) : memPhysSlabGetOrder size ≤ k ↔ size ≤ 2 ^ k :=
  getOrderLoop_le_iff size _ rfl (fun _ => rfl) hLow hHigh

theorem memPhysSlabGetOrder_bounds (size : Nat) :
    12 ≤ memPhysSlabGetOrder size ∧ memPhysSlabGetOrder size ≤ memPhysSlabOrdersCount :=
  ⟨le_getOrderLoop size _ _ _ rfl, Ricerca.PhysSlab.getOrderLoop_le size _ rfl⟩

/-- Two orders up to a bound are the same when they fit the same powers of two. -/
theorem order_ext {x y low high : Nat} (hx : low ≤ x ∧ x ≤ high) (hy : low ≤ y ∧ y ≤ high)
    (hSame : ∀ k, low ≤ k → k < high → (x ≤ k ↔ y ≤ k)) : x = y := by
  rcases Nat.lt_trichotomy x y with hLt | hEq | hGt
  · have hBelow := (hSame x hx.1 (by omega)).mp (Nat.le_refl x)
    omega
  · exact hEq
  · have hBelow := (hSame y hy.1 (by omega)).mpr (Nat.le_refl y)
    omega

/-- A request has an order or a smaller one when it fits that order. -/
theorem sizeClass_le_iff (size k : Nat) (hLow : 4 ≤ k) (hHigh : k < 64) :
    sizeClass size ≤ k ↔ size ≤ 2 ^ k := by
  have hSmall := memHeapGetSizeOrder_bounds size 12 (by omega)
  have hLast := memHeapGetSizeOrder_le_iff size 12 11 (by omega) (by omega) (by omega)
  have hOrder : k < 12 → (memHeapGetSizeOrder size 12 ≤ k ↔ size ≤ 2 ^ k) :=
    memHeapGetSizeOrder_le_iff size 12 k (by omega) hLow
  rw [sizeClass, memHeapSlabOrders]
  split_ifs with hDirect
  · rcases Nat.lt_or_ge k 12 with hIn | hOut
    · have hPages := memPhysSlabGetOrder_bounds size
      have hOver := hOrder hIn
      omega
    · exact memPhysSlabGetOrder_le_iff size hOut hHigh
  · rcases Nat.lt_or_ge k 12 with hIn | hOut
    · exact hOrder hIn
    · have hPow : 2 ^ 11 ≤ 2 ^ k := Nat.pow_le_pow_right (by omega) (by omega)
      omega

theorem sizeClass_bounds (size : Nat) : 4 ≤ sizeClass size ∧ sizeClass size ≤ 64 := by
  have hSmall := memHeapGetSizeOrder_bounds size 12 (by omega)
  have hPages := memPhysSlabGetOrder_bounds size
  rw [sizeClass, memHeapSlabOrders]
  simp only [memPhysSlabOrdersCount] at hPages
  split_ifs <;> omega

/-- What the comment in `mem_heap_realloc` assumes: slab orders continued up to 64 are
the orders of the page allocator. -/
theorem sizeClass_eq (size : Nat) : sizeClass size = memHeapGetSizeOrder size 64 := by
  apply order_ext (sizeClass_bounds size) (memHeapGetSizeOrder_bounds size 64 (by omega))
  intro k hLow hHigh
  rw [sizeClass_le_iff size k hLow hHigh,
    memHeapGetSizeOrder_le_iff size 64 k (Nat.le_refl _) hLow hHigh]

/-- The class determines the order that allocation and freeing compute. -/
theorem memHeapGetSizeOrder_eq_min (size : Nat) :
    memHeapGetSizeOrder size memHeapSlabOrders = min memHeapSlabOrders (sizeClass size) := by
  have hClass := sizeClass_bounds size
  rw [memHeapSlabOrders]
  apply order_ext (memHeapGetSizeOrder_bounds size 12 (by omega)) (by omega)
  intro k hLow hHigh
  rw [memHeapGetSizeOrder_le_iff size 12 k (by omega) hLow hHigh,
    ← sizeClass_le_iff size k hLow (by omega)]
  omega

theorem sizeClass_direct {size : Nat}
    (hDirect : memHeapGetSizeOrder size memHeapSlabOrders = memHeapSlabOrders) :
    sizeClass size = memPhysSlabGetOrder size := by
  rw [sizeClass, if_pos hDirect]

theorem sizeClass_small {size : Nat}
    (hSmall : memHeapGetSizeOrder size memHeapSlabOrders ≠ memHeapSlabOrders) :
    sizeClass size = memHeapGetSizeOrder size memHeapSlabOrders := by
  rw [sizeClass, if_neg hSmall]

/-- A class that is not the last one has room for the request. -/
theorem le_two_pow_sizeClass {size : Nat} (hLt : sizeClass size < 64) : size ≤ 2 ^ sizeClass size :=
  (sizeClass_le_iff size _ (sizeClass_bounds size).1 hLt).mp (Nat.le_refl _)

/-- A request that is rounded up to its class stays in it. -/
@[simp] theorem sizeClass_two_pow (size : Nat) : sizeClass (2 ^ sizeClass size) = sizeClass size := by
  apply order_ext (sizeClass_bounds _) (sizeClass_bounds size)
  intro k hLow hHigh
  rw [sizeClass_le_iff _ k hLow hHigh]
  exact Nat.pow_le_pow_iff_right (by omega)

@[simp] theorem memHeapGetSizeOrder_two_pow (size : Nat) :
    memHeapGetSizeOrder (2 ^ sizeClass size) memHeapSlabOrders =
      memHeapGetSizeOrder size memHeapSlabOrders := by
  rw [memHeapGetSizeOrder_eq_min, sizeClass_two_pow, memHeapGetSizeOrder_eq_min]

section Rounding

variable {win id size : Nat} {h h' : KernelHeap} {pmm : Nat → Option Nat} {ptr : Nat}

/-- What was allocated has a class below the last one, and so has room for the request. -/
theorem sizeClass_lt_of_alloc
    (hGrant : ∀ i addr, pmm i = some addr → PageGrant win h.phys (physRequest size) addr)
    (hAlloc : memHeapAllocOnBehalf win h size id pmm = (some ptr, h')) : sizeClass size < 64 := by
  by_cases hDirect : memHeapGetSizeOrder size memHeapSlabOrders = memHeapSlabOrders
  · rw [memHeapAllocOnBehalf, if_pos hDirect] at hAlloc
    cases hPages : pmm 0 with
    | none => simp [hPages] at hAlloc
    | some addr =>
        have hOrder := (hGrant 0 addr hPages).1
        rw [physRequest, if_pos hDirect] at hOrder
        rw [sizeClass_direct hDirect]
        exact hOrder
  · have hBound := memHeapGetSizeOrder_bounds size memHeapSlabOrders (by decide)
    rw [sizeClass_small hDirect]
    exact Nat.lt_of_le_of_lt hBound.2 (by decide)

/-- The heap as the page allocator sees it: blocks have the sizes of their orders. -/
def KernelHeap.rounded (h : KernelHeap) : KernelHeap := { h with phys := h.phys.map pageBlock }

/-- An allocation with its size rounded up to its class. -/
def roundUp (allocation : Nat × Nat) : Nat × Nat := (allocation.1, 2 ^ sizeClass allocation.2)

def State.rounded (s : State) : State := ⟨s.toKernelHeap.rounded, s.live.map roundUp⟩

theorem ofSize_two_pow (a k : Nat) : Block.ofSize a (2 ^ k) = Block.ofOrder a k := by
  have hPos := Nat.two_pow_pos k
  simp only [Block.ofSize, Block.ofOrder, Block.mk.injEq, true_and]
  omega

theorem liveBlock_roundUp (p : Nat × Nat) : liveBlock (roundUp p) = classBlock p := by
  by_cases hDirect : memHeapGetSizeOrder p.2 memHeapSlabOrders = memHeapSlabOrders
  · rw [liveBlock_direct (by simpa [roundUp] using hDirect), roundUp, ofSize_two_pow, classBlock]
  · rw [liveBlock_small (by simpa [roundUp] using hDirect), classBlock, sizeClass_small hDirect,
      roundUp, memHeapGetSizeOrder_two_pow]

theorem pageBlock_ofSize {a : Nat} (hPos : 0 < size) :
    pageBlock (Block.ofSize a size) = Block.ofOrder a (memPhysSlabGetOrder size) := by
  have hSize : (Block.ofSize a size).size = size := Nat.max_eq_right hPos
  rw [pageBlock, hSize]
  rfl

theorem direct_pos (hDirect : memHeapGetSizeOrder size memHeapSlabOrders = memHeapSlabOrders) :
    0 < size := by
  rcases Nat.eq_zero_or_pos size with rfl | hPos
  · exact absurd hDirect (by decide)
  · exact hPos

/-- A chunk of slabs has the size of an order. -/
theorem pageBlock_chunk (a : Nat) :
    pageBlock (Block.ofSize a memHeapChunkSize) = Block.ofSize a memHeapChunkSize := by
  have hOrder : memPhysSlabGetOrder memHeapChunkSize = 22 := rfl
  have hSize : memHeapChunkSize = 2 ^ 22 := rfl
  rw [pageBlock_ofSize (by omega), hOrder, hSize, ofSize_two_pow]

theorem rounded_foldl {step : KernelHeap → Nat → KernelHeap}
    (hStep : ∀ h a, step (KernelHeap.rounded h) a = (step h a).rounded) (l : List Nat)
    (h : KernelHeap) : l.foldl step h.rounded = (l.foldl step h).rounded :=
  List.foldl_hom KernelHeap.rounded hStep

theorem rounded_addSlab (h : KernelHeap) (n order : Nat) :
    memHeapAddSlab h.rounded n order = (memHeapAddSlab h n order).rounded :=
  rounded_foldl (fun _ _ => rfl) _ { h.setSlabData n _ with mem := _ }

theorem rounded_newSlabsChunk (win : Nat) (h : KernelHeap) (n : Nat) (answer : Option Nat) :
    memAllocateNewSlabsChunk win h.rounded n answer =
      ((memAllocateNewSlabsChunk win h n answer).1,
        (memAllocateNewSlabsChunk win h n answer).2.rounded) := by
  cases answer with
  | none => rfl
  | some a =>
      have hStart : ({ h.rounded with
          phys := Block.ofSize (win + a) memHeapChunkSize :: h.rounded.phys } : KernelHeap) =
          KernelHeap.rounded
            { h with phys := Block.ofSize (win + a) memHeapChunkSize :: h.phys } := by
        rw [KernelHeap.rounded, KernelHeap.rounded, List.map_cons, pageBlock_chunk]
      simp only [memAllocateNewSlabsChunk, hStart]
      rw [rounded_foldl fun _ _ => rfl]

theorem rounded_allocFromNeighbours (win order : Nat) (pmm : Nat → Option Nat) (ids : List Nat)
    (i : Nat) (h : KernelHeap) :
    allocFromNeighbours win order pmm i ids h.rounded =
      ((allocFromNeighbours win order pmm i ids h).1,
        (allocFromNeighbours win order pmm i ids h).2.rounded) := by
  induction ids generalizing i h with
  | nil => rfl
  | cons n rest ih =>
      have hNodes : h.rounded.nodes = h.nodes := rfl
      simp only [allocFromNeighbours, hNodes]
      split_ifs with hFree hUnused
      · rfl
      · rw [rounded_addSlab]
        rfl
      · rw [rounded_newSlabsChunk]
        rcases memAllocateNewSlabsChunk win h n (pmm i) with ⟨ok, h'⟩
        cases ok with
        | false => exact ih (i + 1) h'
        | true =>
            simp only [rounded_addSlab]
            rfl

/-- Rounding commutes with allocation. -/
theorem rounded_alloc (win : Nat) (h : KernelHeap) (size id : Nat) (pmm : Nat → Option Nat) :
    memHeapAllocOnBehalf win h.rounded (2 ^ sizeClass size) id pmm =
      ((memHeapAllocOnBehalf win h size id pmm).1,
        (memHeapAllocOnBehalf win h size id pmm).2.rounded) := by
  simp only [memHeapAllocOnBehalf, memHeapGetSizeOrder_two_pow]
  split_ifs with hDirect
  · cases pmm 0 with
    | none => rfl
    | some res =>
        simp only [KernelHeap.rounded, List.map_cons, pageBlock_ofSize (direct_pos hDirect),
          ofSize_two_pow, sizeClass_direct hDirect]
  · exact rounded_allocFromNeighbours ..

/-- Rounding commutes with freeing. -/
theorem rounded_free (win : Nat) (h : KernelHeap) (mem size : Nat) :
    memHeapFree win h.rounded mem (2 ^ sizeClass size) = (memHeapFree win h mem size).rounded := by
  simp only [memHeapFree, memHeapGetSizeOrder_two_pow]
  split_ifs with hDirect
  · simp only [memPhysFree, KernelHeap.rounded, List.filter_map]
    rfl
  · rfl

/-- The page allocator is asked for what a rounded request takes. -/
theorem physRequest_two_pow (size : Nat) :
    physRequest (2 ^ sizeClass size) = 2 ^ memPhysSlabGetOrder (physRequest size) := by
  simp only [physRequest, memHeapGetSizeOrder_two_pow]
  split_ifs with hDirect
  · rw [sizeClass_direct hDirect]
  · rfl

end Rounding

end Ricerca.Heap
