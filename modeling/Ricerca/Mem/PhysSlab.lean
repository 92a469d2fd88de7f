import Ricerca.Foundation.Execution
import Ricerca.Foundation.Blocks
import Ricerca.Foundation.Words
import Mathlib.Logic.Function.Basic

/-! The physical slab allocator (`mem/phys/slab.c`). Memory is handed out in
blocks of `2 ^ order` bytes, first from 64 free lists and then by moving the
break. The free lists are linked through the first word of the free blocks
themselves; a word is addressed here by its physical address, which the
writeback window at `mem_wb_phys_win_base` maps one to one. -/
namespace Ricerca.PhysSlab

open Ricerca.Foundation

/-- `PHYS_NULL`. -/
def physNull : Nat := 0

/-- `PHYS_SLAB_GRAN`. -/
def physSlabGran : Nat := 12

/-- `PAGE_SIZE`. -/
theorem pageSize_eq : pageSize = 2 ^ physSlabGran := rfl

/-- `MEM_PHYS_SLAB_ORDERS_COUNT`. -/
def memPhysSlabOrdersCount : Nat := 64

/-- `struct mem_phys_slab`, the fields that the allocator reads. -/
structure MemPhysSlab where
  base : Nat
  brkBytes : Nat
  length : Nat
  freeLists : Nat → Nat
  maxFreedOrder : Nat

/-- A slab together with the physical memory it manages. -/
structure Region where
  slab : MemPhysSlab
  mem : Nat → Nat

def memPhysSlabInit (base length : Nat) : MemPhysSlab where
  base := base
  brkBytes := 0
  length := length
  freeLists := fun _ => physNull
  maxFreedOrder := 0

def memPhysSlabEnqueue (r : Region) (order block : Nat) : Region where
  slab := { r.slab with
    freeLists := Function.update r.slab.freeLists order block
    maxFreedOrder := if r.slab.maxFreedOrder < order then order else r.slab.maxFreedOrder }
  mem := Function.update r.mem block (r.slab.freeLists order)

/-- The loop `while (i-- > 0)` of `mem_phys_slab_dequeue`: every non-empty list
below `i` overwrites the result, so the lowest one stays. -/
def rescanFreeLists (freeLists : Nat → Nat) : (i maxFreedOrder : Nat) → Nat
  | 0, maxFreedOrder => maxFreedOrder
  | i + 1, maxFreedOrder =>
      rescanFreeLists freeLists i (if freeLists i ≠ physNull then i else maxFreedOrder)

def memPhysSlabDequeue (r : Region) (order : Nat) : Nat × Region :=
  let block := r.slab.freeLists order
  let next := r.mem block
  let freeLists := Function.update r.slab.freeLists order next
  let maxFreedOrder :=
    if next = physNull ∧ r.slab.maxFreedOrder = order then
      rescanFreeLists freeLists (r.slab.maxFreedOrder - 1) 0
    else r.slab.maxFreedOrder
  (block, { r with slab := { r.slab with freeLists, maxFreedOrder } })

/-- The upper half of the block goes to the free list of each order passed on
the way down. -/
def memPhysSlabSplitUntilTarget (r : Region) (base : Nat) : (order target : Nat) → Region
  | 0, _ => r
  | order + 1, target =>
      if order + 1 > target then
        memPhysSlabSplitUntilTarget
          (memPhysSlabEnqueue r order (wrap (base + wrap (2 ^ order)))) base order target
      else r

/-- The loop of `mem_phys_slab_get_order`, with the number of orders left to try. -/
def getOrderLoop (size : Nat) : (left current order : Nat) → Nat
  | 0, _, _ => memPhysSlabOrdersCount
  | left + 1, current, order =>
      if size ≤ current then order else getOrderLoop size left (wrap (current * 2)) (order + 1)

def memPhysSlabGetOrder (size : Nat) : Nat :=
  getOrderLoop size (memPhysSlabOrdersCount - physSlabGran) pageSize physSlabGran

/-- The first non-empty free list from `order` up to `max_freed_order`. -/
def firstFreeOrder (slab : MemPhysSlab) (order : Nat) : Option Nat :=
  (List.range' order (slab.maxFreedOrder + 1 - order)).find? (slab.freeLists · ≠ physNull)

/-- `mem_phys_slab_alloc`: the block, or `PHYS_NULL`. -/
def memPhysSlabAlloc (r : Region) (size : Nat) : Nat × Region :=
  let order := memPhysSlabGetOrder size
  if order = memPhysSlabOrdersCount then (physNull, r)
  else
    match firstFreeOrder r.slab order with
    | some i =>
        let (block, r') := memPhysSlabDequeue r i
        (block, memPhysSlabSplitUntilTarget r' block i order)
    | none =>
        let newBrkBytes := wrap (r.slab.brkBytes + wrap (2 ^ order))
        if newBrkBytes ≤ r.slab.length then
          (wrap (r.slab.brkBytes + r.slab.base),
            { r with slab := { r.slab with brkBytes := newBrkBytes } })
        else (physNull, r)

def memPhysSlabFree (r : Region) (addr size : Nat) : Region :=
  memPhysSlabEnqueue r (memPhysSlabGetOrder size) addr

/-- The operands of the sums that `mem_phys_slab_split_until_target` computes. -/
def splitSums (base : Nat) : (order target : Nat) → List (Nat × Nat)
  | 0, _ => []
  | order + 1, target =>
      if order + 1 > target then (base, 2 ^ order) :: splitSums base order target else []

/-- The operands of the sums that `mem_phys_slab_alloc` computes on its way. -/
def allocSums (r : Region) (size : Nat) : List (Nat × Nat) :=
  let order := memPhysSlabGetOrder size
  if order = memPhysSlabOrdersCount then []
  else
    match firstFreeOrder r.slab order with
    | some i => splitSums (r.slab.freeLists i) i order
    | none =>
        if wrap (r.slab.brkBytes + wrap (2 ^ order)) ≤ r.slab.length then
          [(r.slab.brkBytes, 2 ^ order), (r.slab.brkBytes, r.slab.base)]
        else [(r.slab.brkBytes, 2 ^ order)]

/-- The allocator and its clients: `live` are the addresses handed out and not
freed yet, each with the size that was requested. -/
structure State extends Region where
  live : List (Nat × Nat)

/-- The block behind a live allocation. -/
def liveBlock (allocation : Nat × Nat) : Block :=
  Block.ofOrder allocation.1 (memPhysSlabGetOrder allocation.2)

/-- The blocks currently allocated. -/
def State.allocated (s : State) : List Block := s.live.map liveBlock

inductive Event where
  | alloc (size addr : Nat)
  | free (addr size : Nat)
  | store

/-- A client allocates, frees what it holds with the size it asked for, or
writes to memory that it holds. -/
inductive Step : State → Event → State → Prop where
  | alloc {s : State} {size addr : Nat} {r : Region}
      (h : memPhysSlabAlloc s.toRegion size = (addr, r)) :
      Step s (.alloc size addr) ⟨r, if addr = physNull then s.live else (addr, size) :: s.live⟩
  | free {s : State} {addr size : Nat} (h : (addr, size) ∈ s.live) :
      Step s (.free addr size) ⟨memPhysSlabFree s.toRegion addr size, s.live.erase (addr, size)⟩
  | store {s : State} {mem : Nat → Nat}
      (h : ∀ a, (∀ b ∈ s.allocated, ¬b.Contains a) → mem a = s.mem a) :
      Step s .store { s with mem := mem }

/-- All uses of a slab initialised for `[base, base + length)`. -/
def system (base length : Nat) : System State Event where
  init s := s.slab = memPhysSlabInit base length ∧ s.live = []
  step := Step

end Ricerca.PhysSlab
