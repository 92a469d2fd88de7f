import Ricerca.Foundation.WordBytes
import Ricerca.Mem.Heap
import Ricerca.Mem.PhysSlab

/-! Reallocation on the kernel heap (`mem_heap_realloc`). The call compares orders that
are computed up to 64, whereas the heap itself tells slab objects from pages at order 12
and leaves the pages to the orders of the page allocator. -/
namespace Ricerca.Heap

open Ricerca.Foundation
open Ricerca.PhysSlab (memPhysSlabGetOrder memPhysSlabOrdersCount)

/-- `mem_heap_realloc` on a core of node `id`: the pointer, or `none` for `NULL`. -/
def memHeapRealloc (win : Nat) (h : KernelHeap) (mem newsize oldsize id : Nat)
    (pmm : Nat → Option Nat) : Option Nat × KernelHeap :=
  if mem = null then memHeapAllocOnBehalf win h newsize id pmm
  else if newsize = 0 then (none, memHeapFree win h mem oldsize)
  else
    let oldorder := memHeapGetSizeOrder oldsize 64
    let neworder := memHeapGetSizeOrder newsize 64
    if oldorder = neworder then (some mem, h)
    else
      let min := if oldsize < newsize then oldsize else newsize
      match memHeapAllocOnBehalf win h newsize id pmm with
      | (none, h') => (none, h')
      | (some result, h') =>
          let copied := { h' with mem := copyBytes h'.mem result mem min }
          (some result, memHeapFree win copied mem oldsize)

/-- The order that a request of this size takes: that of its slab, or of its pages. -/
def sizeClass (size : Nat) : Nat :=
  let order := memHeapGetSizeOrder size memHeapSlabOrders
  if order = memHeapSlabOrders then memPhysSlabGetOrder size else order

/-- The memory that a live pointer really has. -/
def classBlock (allocation : Nat × Nat) : Block := Block.ofOrder allocation.1 (sizeClass allocation.2)

/-- The pages behind a block that the page allocator has handed out. Its record, in
`mem_phys_objects_info`, has the size that was requested. -/
def pageBlock (b : Block) : Block := Block.ofOrder b.addr (memPhysSlabGetOrder b.size)

/-- What the heap relies on: the page allocator refuses sizes above its largest order,
and returns page-aligned blocks of the order of the size, apart from all that it has
handed out. -/
def PageGrant (win : Nat) (phys : List Block) (size addr : Nat) : Prop :=
  memPhysSlabGetOrder size < memPhysSlabOrdersCount ∧
  PhysAnswer win (phys.map pageBlock) (2 ^ memPhysSlabGetOrder size) addr

/-- The pointers that the clients hold after a reallocation. -/
def reallocLive (live : List (Nat × Nat)) (ptr newsize oldsize : Nat) :
    Option Nat → List (Nat × Nat)
  | none => live
  | some result => (result, newsize) :: live.erase (ptr, oldsize)

inductive ReallocEvent where
  | alloc (size id : Nat) (ptr : Option Nat)
  | realloc (ptr newsize oldsize id : Nat) (result : Option Nat)
  | free (ptr size : Nat)
  | store

/-- A client allocates, reallocates or frees, or memory changes that the heap does not
own: inside the live blocks, and outside of all that the page allocator has handed to the
heap. -/
inductive ReallocStep (win : Nat) : State → ReallocEvent → State → Prop where
  | alloc {s : State} {size id : Nat} {pmm : Nat → Option Nat} {ptr : Option Nat} {h : KernelHeap}
      (hPhys : ∀ i addr, pmm i = some addr → PageGrant win s.phys (physRequest size) addr)
      (hAlloc : memHeapAllocOnBehalf win s.toKernelHeap size id pmm = (ptr, h)) :
      ReallocStep win s (.alloc size id ptr) ⟨h, (ptr.map (·, size)).toList ++ s.live⟩
  | realloc {s : State} {ptr newsize oldsize id : Nat} {pmm : Nat → Option Nat}
      {result : Option Nat} {h : KernelHeap} (hLive : (ptr, oldsize) ∈ s.live)
      (hPositive : 0 < newsize)
      (hPhys : ∀ i addr, pmm i = some addr → PageGrant win s.phys (physRequest newsize) addr)
      (hRealloc : memHeapRealloc win s.toKernelHeap ptr newsize oldsize id pmm = (result, h)) :
      ReallocStep win s (.realloc ptr newsize oldsize id result)
        ⟨h, reallocLive s.live ptr newsize oldsize result⟩
  | free {s : State} {ptr requested size : Nat} (hLive : (ptr, requested) ∈ s.live)
      (hClass : memHeapGetSizeOrder size memHeapSlabOrders =
        memHeapGetSizeOrder requested memHeapSlabOrders) :
      ReallocStep win s (.free ptr size)
        ⟨memHeapFree win s.toKernelHeap ptr size, s.live.erase (ptr, requested)⟩
  | store {s : State} {mem : Nat → Nat}
      (hSame : ∀ a, (∃ b ∈ s.phys, (pageBlock b).Contains a) →
        (∀ p ∈ s.live, ¬(classBlock p).Contains a) → mem a = s.mem a) :
      ReallocStep win s .store { s with mem := mem }

/-- All uses of the heap, with reallocations. -/
def reallocSystem (win count : Nat) : System State ReallocEvent where
  init := (system win count).init
  step := ReallocStep win

end Ricerca.Heap
