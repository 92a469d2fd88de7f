import Ricerca.Foundation.Execution
import Ricerca.Foundation.Blocks
import Ricerca.Foundation.Words
import Mathlib.Logic.Function.Basic

/-! The kernel heap (`mem/heap/heap.c`). Objects up to half a page come from
slabs: aligned 64 KiB regions that are carved into objects of one size and start
with a header naming the NUMA node they belong to. Everything larger comes from
the page allocator. Free objects and unused slabs are linked through their own
memory; a word is addressed by its virtual address inside the physical window,
which starts at `win`. -/
namespace Ricerca.Heap

open Ricerca.Foundation

/-- `MEM_HEAP_SLAB_SIZE`. -/
def memHeapSlabSize : Nat := 65536

/-- `MEM_HEAP_CHUNK_SIZE`. -/
def memHeapChunkSize : Nat := 64 * memHeapSlabSize

/-- `MEM_HEAP_SLAB_ORDERS`. -/
def memHeapSlabOrders : Nat := 12

/-- `sizeof(struct mem_heap_slab_hdr)`: the owner at offset 0 and the link
`next_free` at offset 8. -/
def memHeapSlabHdrSize : Nat := 16

/-- `NULL`. -/
def null : Nat := 0

/-- `mem_wb_phys_win_base` as `mem_misc_collect_info` sets it, with 5-level paging or
without. -/
def memWbPhysWinBase (la57 : Bool) : Nat :=
  if la57 then 0xff00000000000000 else 0xffff800000000000

def alignUp (val align : Nat) : Nat := alignDown (val + align - 1) align

/-- `struct mem_heap_slab_data`. -/
structure MemHeapSlabData where
  freeLists : Nat → Nat
  slabs : Nat

/-- `struct numa_node`: the ids of all nodes by distance, and the heap's data. -/
structure NumaNode where
  neighbours : List Nat
  slabData : MemHeapSlabData

/-- The nodes, the memory, and the blocks that the page allocator has handed to
the heap and not got back. -/
structure KernelHeap where
  nodes : Nat → NumaNode
  mem : Nat → Nat
  phys : List Block

def KernelHeap.setSlabData (h : KernelHeap) (id : Nat) (data : MemHeapSlabData) : KernelHeap :=
  { h with nodes := Function.update h.nodes id { h.nodes id with slabData := data } }

@[simp]
theorem KernelHeap.mem_setSlabData (h : KernelHeap) (id : Nat) (data : MemHeapSlabData) :
    (h.setSlabData id data).mem = h.mem := rfl

theorem KernelHeap.slabData_setSlabData (h : KernelHeap) (id : Nat) (data : MemHeapSlabData)
    (n : Nat) : ((h.setSlabData id data).nodes n).slabData =
      if n = id then data else (h.nodes n).slabData := by
  by_cases hEq : n = id
  · subst hEq
    simp [KernelHeap.setSlabData]
  · simp [KernelHeap.setSlabData, hEq]

@[simp]
theorem KernelHeap.neighbours_setSlabData (h : KernelHeap) (id : Nat) (data : MemHeapSlabData)
    (n : Nat) : ((h.setSlabData id data).nodes n).neighbours = (h.nodes n).neighbours := by
  by_cases hEq : n = id
  · subst hEq
    simp [KernelHeap.setSlabData]
  · simp [KernelHeap.setSlabData, hEq]

/-- The loop of `mem_heap_get_size_order`, with the orders left up to `maxOrder`. -/
def sizeOrderLoop (size : Nat) : (left test result : Nat) → Nat
  | 0, _, result => result
  | left + 1, test, result =>
      if size > test then sizeOrderLoop size left (test * 2 % 2 ^ 64) (result + 1) else result

def memHeapGetSizeOrder (size maxOrder : Nat) : Nat :=
  sizeOrderLoop (if size < 16 then 16 else size) (maxOrder - 4) 16 4

/-- Put the slab at `physaddr` on the list of unused slabs. -/
def linkSlab (win id : Nat) (h : KernelHeap) (physaddr : Nat) : KernelHeap :=
  let newSlab := win + physaddr
  let data := (h.nodes id).slabData
  { h.setSlabData id { data with slabs := newSlab } with
    mem := Function.update h.mem (newSlab + 8) data.slabs }

/-- `mem_allocate_new_slabs_chunk`; `answer` is the chunk that the page
allocator returns, or `none` for `PHYS_NULL`. -/
def memAllocateNewSlabsChunk (win : Nat) (h : KernelHeap) (id : Nat) (answer : Option Nat) :
    Bool × KernelHeap :=
  match answer with
  | none => (false, h)
  | some backingPhysmem =>
      let backingBegin := alignUp backingPhysmem memHeapSlabSize
      let backingEnd := alignDown (backingPhysmem + memHeapChunkSize) memHeapSlabSize
      (true, (addrRange backingBegin backingEnd memHeapSlabSize).foldl (linkSlab win id)
        { h with phys := Block.ofSize (win + backingPhysmem) memHeapChunkSize :: h.phys })

/-- Put the object at `addr` on the free list of `order`. -/
def pushObject (id order : Nat) (h : KernelHeap) (addr : Nat) : KernelHeap :=
  let data := (h.nodes id).slabData
  { h.setSlabData id { data with freeLists := Function.update data.freeLists order addr } with
    mem := Function.update h.mem addr (data.freeLists order) }

/-- `mem_heap_add_slab`: take an unused slab and carve it for `order`. -/
def memHeapAddSlab (h : KernelHeap) (id order : Nat) : KernelHeap :=
  let data := (h.nodes id).slabData
  let newSlab := data.slabs
  let start := alignUp (newSlab + memHeapSlabHdrSize) (2 ^ order)
  (addrRange start (newSlab + memHeapSlabSize) (2 ^ order)).foldl (pushObject id order)
    { h.setSlabData id { data with slabs := h.mem (newSlab + 8) } with
      mem := Function.update h.mem newSlab id }

/-- `mem_allocate_from_slab`: the first object of the free list. -/
def memAllocateFromSlab (h : KernelHeap) (id order : Nat) : Nat × KernelHeap :=
  let data := (h.nodes id).slabData
  let obj := data.freeLists order
  (obj, h.setSlabData id { data with freeLists := Function.update data.freeLists order (h.mem obj) })

/-- The loop of `mem_heap_alloc_on_behalf` over the neighbours. `pmm i` is what
the page allocator answers when it is asked in iteration `i`. -/
def allocFromNeighbours (win order : Nat) (pmm : Nat → Option Nat) :
    (i : Nat) → List Nat → KernelHeap → Option Nat × KernelHeap
  | _, [], h => (none, h)
  | i, neighbourId :: rest, h =>
      if (h.nodes neighbourId).slabData.freeLists order ≠ null then
        let obj := memAllocateFromSlab h neighbourId order
        (some obj.1, obj.2)
      else if (h.nodes neighbourId).slabData.slabs ≠ null then
        let obj := memAllocateFromSlab (memHeapAddSlab h neighbourId order) neighbourId order
        (some obj.1, obj.2)
      else
        match memAllocateNewSlabsChunk win h neighbourId (pmm i) with
        | (false, h') => allocFromNeighbours win order pmm (i + 1) rest h'
        | (true, h') =>
            let obj := memAllocateFromSlab (memHeapAddSlab h' neighbourId order) neighbourId order
            (some obj.1, obj.2)

/-- `mem_heap_alloc_on_behalf`: the pointer, or `none` for `NULL`. -/
def memHeapAllocOnBehalf (win : Nat) (h : KernelHeap) (size id : Nat) (pmm : Nat → Option Nat) :
    Option Nat × KernelHeap :=
  let order := memHeapGetSizeOrder size memHeapSlabOrders
  if order = memHeapSlabOrders then
    match pmm 0 with
    | none => (none, h)
    | some res => (some (win + res), { h with phys := Block.ofSize (win + res) size :: h.phys })
  else allocFromNeighbours win order pmm 0 (h.nodes id).neighbours h

/-- `mem_phys_free` takes the block back into the page allocator. -/
def memPhysFree (win : Nat) (h : KernelHeap) (addr : Nat) : KernelHeap :=
  { h with phys := h.phys.filter (·.addr ≠ win + addr) }

def memHeapFree (win : Nat) (h : KernelHeap) (mem size : Nat) : KernelHeap :=
  let order := memHeapGetSizeOrder size memHeapSlabOrders
  if order = memHeapSlabOrders then memPhysFree win h (mem - win)
  else pushObject (h.mem (alignDown mem memHeapSlabSize)) order h mem

/-- The heap and its clients: `live` are the pointers handed out and not freed
yet, each with the size that was requested. -/
structure State extends KernelHeap where
  live : List (Nat × Nat)

/-- The memory behind a live pointer: one object of its order, or the pages. -/
def liveBlock (allocation : Nat × Nat) : Block :=
  let order := memHeapGetSizeOrder allocation.2 memHeapSlabOrders
  if order = memHeapSlabOrders then Block.ofSize allocation.1 allocation.2
  else Block.ofOrder allocation.1 order

/-- What the heap relies on: the page allocator returns page-aligned blocks that
are apart from all blocks it has handed out. -/
def PhysAnswer (win : Nat) (phys : List Block) (size addr : Nat) : Prop :=
  addr % pageSize = 0 ∧ ∀ b ∈ phys, (Block.ofSize (win + addr) size).Apart b

/-- The number of bytes that a request of this size takes from the page
allocator: a chunk of slabs, or the pages themselves. -/
def physRequest (size : Nat) : Nat :=
  if memHeapGetSizeOrder size memHeapSlabOrders = memHeapSlabOrders then size else memHeapChunkSize

inductive Event where
  | alloc (size id : Nat) (ptr : Option Nat)
  | free (ptr size : Nat)
  | store

/-- A client allocates on behalf of a node, frees a pointer that it holds with a
size of the same class, or memory changes that the heap does not own: live blocks
and everything the page allocator has not handed to the heap. -/
inductive Step (win : Nat) : State → Event → State → Prop where
  | alloc {s : State} {size id : Nat} {pmm : Nat → Option Nat} {ptr : Option Nat} {h : KernelHeap}
      (hPhys : ∀ i addr, pmm i = some addr → PhysAnswer win s.phys (physRequest size) addr)
      (hAlloc : memHeapAllocOnBehalf win s.toKernelHeap size id pmm = (ptr, h)) :
      Step win s (.alloc size id ptr) ⟨h, (ptr.map (·, size)).toList ++ s.live⟩
  | free {s : State} {ptr requested size : Nat} (hLive : (ptr, requested) ∈ s.live)
      (hClass : memHeapGetSizeOrder size memHeapSlabOrders =
        memHeapGetSizeOrder requested memHeapSlabOrders) :
      Step win s (.free ptr size)
        ⟨memHeapFree win s.toKernelHeap ptr size, s.live.erase (ptr, requested)⟩
  | store {s : State} {mem : Nat → Nat}
      (hSame : ∀ a, (∃ b ∈ s.phys, b.Contains a) →
        (∀ p ∈ s.live, ¬(liveBlock p).Contains a) → mem a = s.mem a) :
      Step win s .store { s with mem := mem }

/-- All uses of the heap on a machine with `count` entries in the node array. At
the start there are no slabs, and neighbours are nodes of the array. -/
def system (win count : Nat) : System State Event where
  init s := s.live = [] ∧ s.phys = [] ∧ ∀ id,
    (s.nodes id).slabData = ⟨fun _ => null, null⟩ ∧ ∀ n ∈ (s.nodes id).neighbours, n < count
  step := Step win

end Ricerca.Heap
