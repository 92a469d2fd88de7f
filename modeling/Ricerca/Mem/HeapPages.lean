import Ricerca.Mem.HeapReallocSafety
import Ricerca.Mem.PhysFrames

/-! The kernel heap on the page allocator. Both keep their links in the memory that they
manage, and this is one memory: the heap sees it through the window that starts at `win`, a
range by physical addresses. A call of the page allocator works on what the memory holds at
that time, and what it writes is there for the heap afterwards. -/
namespace Ricerca.HeapPages

open Ricerca.Foundation
open Ricerca.Heap (KernelHeap memHeapGetSizeOrder memHeapSlabOrders memHeapChunkSize null
  memAllocateFromSlab memHeapAddSlab memAllocateNewSlabsChunk)
open Ricerca.Phys (Allocation MemRange memPhysAllocSpecificNolock)
open Ricerca.PhysSlab (physNull)

/-- The ranges with the memory that is seen through the window. -/
def lend (win : Nat) (mem : Nat → Nat) (pages : Phys.State) : Phys.State :=
  { pages with ranges := fun pointer => (pages.ranges pointer).map fun range =>
      { range with region.mem := fun a => mem (win + a) } }

/-- The memory after a range has written to its part of it. -/
def adopt (win : Nat) (range : Option MemRange) (mem : Nat → Nat) : Nat → Nat :=
  match range with
  | none => mem
  | some range => fun x =>
      let base := win + range.region.slab.base
      if base ≤ x ∧ x < base + range.region.slab.length then range.region.mem (x - win) else mem x

/-- `mem_phys_alloc_specific`: the address, or `PHYS_NULL`. There is no result when following
the range list gives none. -/
def memPhysAllocSpecific (win fuel : Nat) (mem : Nat → Nat) (pages : Phys.State) (size id : Nat) :
    Option (Nat × (Nat → Nat) × Phys.State) :=
  match memPhysAllocSpecificNolock fuel (lend win mem pages) size id with
  | none => none
  | some (addr, pointer, pages') =>
      if addr = physNull then some (addr, mem, pages')
      else some (addr, adopt win (pages'.ranges pointer) mem,
        { pages' with live := ⟨addr, size, pointer⟩ :: pages'.live })

/-- `mem_phys_alloc_on_behalf`, from some neighbour on. -/
def memPhysAllocOnBehalf (win fuel size : Nat) :
    (neighbours : List Nat) → (Nat → Nat) → Phys.State → Option (Nat × (Nat → Nat) × Phys.State)
  | [], mem, pages => some (physNull, mem, pages)
  | neighbourId :: rest, mem, pages =>
      match memPhysAllocSpecific win fuel mem pages size neighbourId with
      | none => none
      | some (addr, mem', pages') =>
          if addr = physNull then memPhysAllocOnBehalf win fuel size rest mem' pages'
          else some (addr, mem', pages')

/-- `mem_phys_free`. -/
def memPhysFree (win : Nat) (mem : Nat → Nat) (pages : Phys.State) (addr : Nat) :
    Option ((Nat → Nat) × Phys.State) :=
  match Phys.memPhysFree (lend win mem pages) addr with
  | none => none
  | some pages' =>
      let pointer := (pages.memPhysObjectsInfo (addr / pageSize)).range
      some (adopt win (pages'.ranges pointer) mem,
        { pages' with live := pages'.live.filter (·.addr ≠ addr) })

/-- The loop of `mem_heap_alloc_on_behalf` over the neighbours. -/
def allocFromNeighbours (win order fuel : Nat) :
    List Nat → KernelHeap → Phys.State → Option (Option Nat × KernelHeap × Phys.State)
  | [], h, pages => some (none, h, pages)
  | neighbourId :: rest, h, pages =>
      if (h.nodes neighbourId).slabData.freeLists order ≠ null then
        let obj := memAllocateFromSlab h neighbourId order
        some (some obj.1, obj.2, pages)
      else if (h.nodes neighbourId).slabData.slabs ≠ null then
        let obj := memAllocateFromSlab (memHeapAddSlab h neighbourId order) neighbourId order
        some (some obj.1, obj.2, pages)
      else
        match memPhysAllocSpecific win fuel h.mem pages memHeapChunkSize neighbourId with
        | none => none
        | some (addr, mem, pages') =>
            if addr = physNull then allocFromNeighbours win order fuel rest { h with mem } pages'
            else
              let h' := (memAllocateNewSlabsChunk win { h with mem } neighbourId (some addr)).2
              let obj := memAllocateFromSlab (memHeapAddSlab h' neighbourId order) neighbourId order
              some (some obj.1, obj.2, pages')

/-- `mem_heap_alloc_on_behalf`. -/
def memHeapAllocOnBehalf (win fuel : Nat) (h : KernelHeap) (pages : Phys.State) (size id : Nat) :
    Option (Option Nat × KernelHeap × Phys.State) :=
  let order := memHeapGetSizeOrder size memHeapSlabOrders
  if order = memHeapSlabOrders then
    match memPhysAllocOnBehalf win fuel size (h.nodes id).neighbours h.mem pages with
    | none => none
    | some (addr, mem, pages') =>
        if addr = physNull then some (none, { h with mem }, pages')
        else some (some (win + addr),
          { h with mem, phys := Block.ofSize (win + addr) size :: h.phys }, pages')
  else allocFromNeighbours win order fuel (h.nodes id).neighbours h pages

/-- `mem_heap_free`. -/
def memHeapFree (win : Nat) (h : KernelHeap) (pages : Phys.State) (mem size : Nat) :
    Option (KernelHeap × Phys.State) :=
  if memHeapGetSizeOrder size memHeapSlabOrders = memHeapSlabOrders then
    match memPhysFree win h.mem pages (mem - win) with
    | none => none
    | some (mem', pages') => some ({ Heap.memPhysFree win h (mem - win) with mem := mem' }, pages')
  else some (Heap.memHeapFree win h mem size, pages)

/-- The heap with its clients, whose memory is that of the machine, and the page allocator. -/
structure State where
  heap : Heap.State
  pages : Phys.State

/-- The heap has this block from the page allocator. -/
def State.Owns (s : State) (win : Nat) (a : Allocation) : Prop :=
  ∃ b ∈ s.heap.phys, b.addr = win + a.addr

/-- The blocks of a range that others have. -/
def State.OthersHave (s : State) (win pointer : Nat) (b : Block) : Prop :=
  (∃ a ∈ s.pages.live, a.range = pointer ∧ ¬s.Owns win a ∧ b = a.block) ∨
    ∃ a ∈ s.pages.earlier pointer, b = PhysSlab.liveBlock a

inductive Event where
  | alloc (size id : Nat) (ptr : Option Nat)
  | free (ptr size : Nat)
  | pagesAlloc (size id addr : Nat)
  | pagesFree (addr : Nat)
  | store

/-- Clients use the heap, other parts of the kernel the page allocator, and both write to what
they have, as everyone does to the memory outside of the ranges. -/
inductive Step (win : Nat) : State → Event → State → Prop where
  | alloc {s : State} {fuel size id : Nat} {ptr : Option Nat} {h : KernelHeap} {pages : Phys.State}
      (hAlloc : memHeapAllocOnBehalf win fuel s.heap.toKernelHeap s.pages size id =
        some (ptr, h, pages)) :
      Step win s (.alloc size id ptr) ⟨⟨h, (ptr.map (·, size)).toList ++ s.heap.live⟩, pages⟩
  | free {s : State} {ptr requested size : Nat} {h : KernelHeap} {pages : Phys.State}
      (hLive : (ptr, requested) ∈ s.heap.live)
      (hClass : memHeapGetSizeOrder size memHeapSlabOrders =
        memHeapGetSizeOrder requested memHeapSlabOrders)
      (hFree : memHeapFree win s.heap.toKernelHeap s.pages ptr size = some (h, pages)) :
      Step win s (.free ptr size) ⟨⟨h, s.heap.live.erase (ptr, requested)⟩, pages⟩
  | pagesAlloc {s : State} {fuel size id addr : Nat} {mem : Nat → Nat} {pages : Phys.State}
      (hAlloc : memPhysAllocSpecific win fuel s.heap.mem s.pages size id =
        some (addr, mem, pages)) :
      Step win s (.pagesAlloc size id addr) ⟨{ s.heap with mem }, pages⟩
  | pagesFree {s : State} {a : Allocation} {mem : Nat → Nat} {pages : Phys.State}
      (hLive : a ∈ s.pages.live) (hOther : ¬s.Owns win a)
      (hFree : memPhysFree win s.heap.mem s.pages a.addr = some (mem, pages)) :
      Step win s (.pagesFree a.addr) ⟨{ s.heap with mem }, pages⟩
  | store {s : State} {mem : Nat → Nat}
      (hSame : ∀ pointer range, s.pages.ranges pointer = some range → ∀ a,
        range.region.slab.base ≤ a → a < range.region.slab.base + range.region.slab.length →
        (∀ p ∈ s.heap.live, ¬(Heap.classBlock p).Contains (win + a)) →
        (∀ b, s.OthersHave win pointer b → ¬b.Contains a) → mem (win + a) = s.heap.mem (win + a)) :
      Step win s .store ⟨{ s.heap with mem }, s.pages⟩

/-- All uses of the heap and of the pages from the time when the page allocator is ready and the
heap is empty. -/
def system (win count : Nat) (start : Phys.State) : System State Event where
  init s := s.pages = start ∧ (Heap.system win count).init s.heap ∧
    ∀ pointer range, start.ranges pointer = some range → ∀ a,
      range.region.slab.base ≤ a → a < range.region.slab.base + range.region.slab.length →
      s.heap.mem (win + a) = range.region.mem a
  step := Step win

end Ricerca.HeapPages
