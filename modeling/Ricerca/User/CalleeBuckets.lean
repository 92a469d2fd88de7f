import Ricerca.Mem.HeapClasses
import Ricerca.User.Callee

/-! The memory behind the buckets of a callee (`lib/intmap.h`). A user says how many buckets
there are to be, and `intmap_init` multiplies this number with the size of a bucket, without a
look at the carry. -/
namespace Ricerca.CalleeBuckets

open Foundation Heap
open Ricerca.Callee (bucketsCount sizeofList)
open Ricerca.PhysSlab (memPhysSlabGetOrder memPhysSlabOrdersCount)

/-- `struct intmap`, with the address of the buckets. -/
structure Intmap where
  bucketsCount : UInt64
  nodes : Nat

/-- The bytes of bucket `i`. -/
def bucketAt (nodes i : Nat) : Block := ⟨nodes + i * sizeofList.toNat, sizeofList.toNat, by decide⟩

/-- `nodes[i] = LIST_INIT`. -/
def initBucket (nodes : Nat) (mem : Nat → Nat) (i : Nat) : Nat → Nat :=
  let bucket := (bucketAt nodes i).addr
  Function.update (Function.update mem bucket null) (bucket + 8) null

/-- `intmap_init` on a core of node `id`; no map is returned for `false`. -/
def intmapInit (win : Nat) (h : KernelHeap) (id : Nat) (pmm : Nat → Option Nat) (buckets : UInt64) :
    Option Intmap × KernelHeap :=
  match memHeapAllocOnBehalf win h (buckets * sizeofList).toNat id pmm with
  | (none, h) => (none, h)
  | (some nodes, h) =>
      (some ⟨buckets, nodes⟩,
        { h with mem := (List.range buckets.toNat).foldl (initBucket nodes) h.mem })

/-- The bucket that `intmap_insert`, `intmap_search` and `intmap_remove` use for a key. -/
def Intmap.bucket (intmap : Intmap) (key : UInt64) : Block :=
  bucketAt intmap.nodes (key % intmap.bucketsCount).toNat

/-- If `intmap_init` returns true, then it has asked for all the bytes of the buckets, they are
in the block that it got, and so is everything that it initialises and that later calls use. -/
def Fits (win : Nat) (h : KernelHeap) (id : Nat) (pmm : Nat → Option Nat) (buckets : UInt64) : Prop :=
  ∀ intmap h', intmapInit win h id pmm buckets = (some intmap, h') →
    let size := (buckets * sizeofList).toNat
    let block := classBlock (intmap.nodes, size)
    size = buckets.toNat * sizeofList.toNat ∧ size ≤ block.size ∧
      (∀ i, i < buckets.toNat → (bucketAt intmap.nodes i).Inside block) ∧
      ∀ key, (intmap.bucket key).Inside block

/-- It does so whatever the kernel has done with the heap, and whatever the page allocator
answers. -/
def AlwaysFits (buckets : UInt64) : Prop :=
  ∀ la57 count trace s id pmm,
    (reallocSystem (memWbPhysWinBase la57) count).Execution trace s →
    (∀ i addr, pmm i = some addr → PageGrant (memWbPhysWinBase la57) s.phys
      (physRequest (buckets * sizeofList).toNat) addr) →
    Fits (memWbPhysWinBase la57) s.toKernelHeap id pmm buckets

variable {win id size : Nat} {h h' : KernelHeap} {pmm : Nat → Option Nat} {buckets : UInt64}
  {ptr : Nat}

/-- A bucket in front of the end. -/
theorem bucketAt_inside {nodes i count : Nat} {block : Block} (hAddr : block.addr = nodes)
    (hSize : count * sizeofList.toNat ≤ block.size) (hi : i < count) :
    (bucketAt nodes i).Inside block := by
  have hNext : (i + 1) * sizeofList.toNat ≤ count * sizeofList.toNat := Nat.mul_le_mul_right _ hi
  rw [Nat.add_mul, Nat.one_mul] at hNext
  simp only [Block.Inside, bucketAt, hAddr]
  omega

theorem alloc_of_init {intmap : Intmap}
    (hInit : intmapInit win h id pmm buckets = (some intmap, h')) :
    intmap.bucketsCount = buckets ∧ ∃ taken,
      memHeapAllocOnBehalf win h (buckets * sizeofList).toNat id pmm = (some intmap.nodes, taken) := by
  rw [intmapInit] at hInit
  split at hInit
  · cases hInit
  · rename_i nodes taken hAlloc
    cases hInit
    exact ⟨rfl, taken, hAlloc⟩

/-- Without a carry, there is a byte for every byte that is used. -/
theorem fits_of_product (hPositive : 0 < buckets.toNat)
    (hProduct : buckets.toNat * sizeofList.toNat < 2 ^ 64)
    (hGrant : ∀ i addr, pmm i = some addr →
      PageGrant win h.phys (physRequest (buckets * sizeofList).toNat) addr) :
    Fits win h id pmm buckets := by
  intro intmap h' hInit
  obtain ⟨hCount, taken, hAlloc⟩ := alloc_of_init hInit
  have hSize : (buckets * sizeofList).toNat = buckets.toNat * sizeofList.toNat := by
    rw [UInt64.toNat_mul]
    exact Nat.mod_eq_of_lt hProduct
  have hRoom : (buckets * sizeofList).toNat ≤
      (classBlock (intmap.nodes, (buckets * sizeofList).toNat)).size :=
    le_two_pow_sizeClass (sizeClass_lt_of_alloc hGrant hAlloc)
  have hInside : ∀ i, i < buckets.toNat → (bucketAt intmap.nodes i).Inside
      (classBlock (intmap.nodes, (buckets * sizeofList).toNat)) :=
    fun i hi => bucketAt_inside rfl (hSize ▸ hRoom) hi
  refine ⟨hSize, hRoom, hInside, fun key => hInside _ ?_⟩
  rw [hCount, UInt64.toNat_mod]
  exact Nat.mod_lt _ hPositive

/-- A block is found, and a carry has gone unnoticed. -/
theorem not_fits_of_carry {intmap : Intmap}
    (hInit : intmapInit win h id pmm buckets = (some intmap, h'))
    (hCarry : 2 ^ 64 ≤ buckets.toNat * sizeofList.toNat) : ¬Fits win h id pmm buckets := by
  intro hFits
  have hSize := (hFits intmap h' hInit).1
  have hLt := UInt64.toNat_lt (buckets * sizeofList)
  omega

/-- A request that is refused leaves nothing to fit. -/
theorem fits_of_refused (hLarge : 2 ^ 63 < (buckets * sizeofList).toNat)
    (hGrant : ∀ i addr, pmm i = some addr →
      PageGrant win h.phys (physRequest (buckets * sizeofList).toNat) addr) :
    Fits win h id pmm buckets := by
  intro intmap h' hInit
  obtain ⟨-, taken, hAlloc⟩ := alloc_of_init hInit
  have hClass := sizeClass_lt_of_alloc hGrant hAlloc
  have hRoom := le_two_pow_sizeClass hClass
  have hPow : 2 ^ sizeClass (buckets * sizeofList).toNat ≤ 2 ^ 63 :=
    Nat.pow_le_pow_right (by decide) (Nat.le_of_lt_succ hClass)
  omega

/-- One node, and nothing allocated yet. -/
def start : State where
  nodes _ := ⟨[0], ⟨fun _ => null, null⟩⟩
  mem _ := 0
  phys := []
  live := []

theorem start_execution (win : Nat) : (reallocSystem win 1).Execution [] start := by
  refine .start ⟨rfl, rfl, fun id => ⟨rfl, fun n hn => ?_⟩⟩
  rw [List.mem_singleton.mp hn]
  exact Nat.one_pos

/-- The page allocator has free memory. -/
def somePages : Nat → Option Nat := fun _ => some pageSize

theorem somePages_grant (win : Nat) (hSize : size ≤ 2 ^ 63) (i addr : Nat)
    (hAnswer : somePages i = some addr) : PageGrant win start.phys (physRequest size) addr := by
  cases hAnswer
  refine ⟨?_, rfl, fun b hb => by cases hb⟩
  have hRequest : physRequest size ≤ 2 ^ 63 := by
    rw [physRequest]
    split_ifs
    · exact hSize
    · decide
  exact Nat.lt_succ_of_le ((memPhysSlabGetOrder_le_iff _ (by decide) (by decide)).mpr hRequest)

/-- Then a request of at most this size is served. -/
theorem start_alloc (win size : Nat) :
    ∃ ptr h, memHeapAllocOnBehalf win start.toKernelHeap size 0 somePages = (some ptr, h) := by
  rw [memHeapAllocOnBehalf]
  split_ifs
  · exact ⟨_, _, rfl⟩
  · exact ⟨_, _, rfl⟩

theorem start_init (win : Nat) (buckets : UInt64) :
    ∃ intmap h, intmapInit win start.toKernelHeap 0 somePages buckets = (some intmap, h) := by
  obtain ⟨nodes, h, hAlloc⟩ := start_alloc win (buckets * sizeofList).toNat
  rw [intmapInit, hAlloc]
  exact ⟨_, _, rfl⟩

theorem bucketsCount_pos (hint : UInt64) : 0 < (bucketsCount hint).toNat := by
  rw [bucketsCount]
  split_ifs with hZero
  · decide
  · have hNe : hint.toNat ≠ 0 := fun hEq => hZero (UInt64.toNat_inj.mp hEq)
    exact Nat.pos_of_ne_zero hNe

/-- The buckets that a callee gets for a hint fit into the block that is allocated for them, if
and only if the number of their bytes fits a word or leaves, without the carry, a number for
which the page allocator has no order. -/
theorem callee_buckets_fit_iff (hint : UInt64) :
    AlwaysFits (bucketsCount hint) ↔
      (bucketsCount hint).toNat * sizeofList.toNat < 2 ^ 64 ∨
      2 ^ 63 < (bucketsCount hint * sizeofList).toNat := by
  constructor
  · intro hFits
    by_contra hNot
    obtain ⟨hCarry, hSmall⟩ := not_or.mp hNot
    obtain ⟨intmap, h, hInit⟩ := start_init (memWbPhysWinBase false) (bucketsCount hint)
    exact not_fits_of_carry hInit (Nat.le_of_not_lt hCarry) (hFits false 1 [] start 0 somePages
      (start_execution _) (somePages_grant _ (Nat.le_of_not_lt hSmall)))
  · intro hCondition la57 count trace s id pmm _ hGrant
    rcases hCondition with hProduct | hLarge
    · exact fits_of_product (bucketsCount_pos hint) hProduct hGrant
    · exact fits_of_refused hLarge hGrant

/-- With `2 ^ 60` buckets, no bytes at all are asked for. The map gets an object of sixteen bytes,
and everything but its first bucket lies outside. -/
theorem callee_buckets_carry :
    ¬AlwaysFits (bucketsCount 0x1000000000000000) ∧
    ∃ intmap h, intmapInit (memWbPhysWinBase false) start.toKernelHeap 0 somePages
        (bucketsCount 0x1000000000000000) = (some intmap, h) ∧
      (classBlock (intmap.nodes, (bucketsCount 0x1000000000000000 * sizeofList).toNat)).size = 16 ∧
      ∀ i, 0 < i → ¬(bucketAt intmap.nodes i).Inside
        (classBlock (intmap.nodes, (bucketsCount 0x1000000000000000 * sizeofList).toNat)) := by
  have hBlock : ∀ nodes, classBlock (nodes,
      (bucketsCount 0x1000000000000000 * sizeofList).toNat) = Block.ofOrder nodes 4 := by
    intro nodes
    have hClass : sizeClass (bucketsCount 0x1000000000000000 * sizeofList).toNat = 4 := by decide
    rw [classBlock, hClass]
  obtain ⟨intmap, h, hInit⟩ :=
    start_init (memWbPhysWinBase false) (bucketsCount 0x1000000000000000)
  refine ⟨fun hFits => ?_, intmap, h, hInit, ?_, fun i hi hInside => ?_⟩
  · refine not_fits_of_carry hInit (by decide) (hFits false 1 [] start 0 somePages
      (start_execution _) (somePages_grant _ (by decide)))
  · rw [hBlock]
    rfl
  · rw [hBlock] at hInside
    have hEnd := hInside.2
    simp only [bucketAt, Block.ofOrder, show sizeofList.toNat = 16 from rfl] at hEnd
    omega

end Ricerca.CalleeBuckets
