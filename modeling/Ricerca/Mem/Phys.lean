import Ricerca.Foundation.Chain
import Ricerca.Mem.PhysSlab

/-! Physical memory allocation from the ranges of a NUMA node (`mem/phys/phys.c`), after
`mem_phys_init`. References to a range are counted with `MEM_REF_BORROW` and
`MEM_REF_DROP`, which work on the first words of the object that they are given: the first
word of a `struct mem_range` is its link to the next range. -/
namespace Ricerca.Phys

open Ricerca.Foundation Ricerca.PhysSlab

/-- `struct mem_range`, with the physical memory of its slab. `rcBase` is the first word of
the slab, which no function initialises. -/
structure MemRange where
  nextRange : Nat
  rcBase : Nat
  region : Region

/-- `struct mem_phys_object_data`. -/
structure MemPhysObjectData where
  range : Nat
  size : Nat
  nodeId : Nat

/-- A block that was allocated after `mem_phys_init`, and the range that served it. -/
structure Allocation where
  addr : Nat
  size : Nat
  range : Nat
  deriving DecidableEq

/-- `numaNodes` are the heads of the range lists and `ranges` the range objects by their
addresses. `earlier` are the blocks that were allocated before `mem_phys_init` had made
room for the object data, `live` those allocated since and not freed. -/
structure State where
  numaNodes : Nat → Nat
  ranges : Nat → Option MemRange
  memPhysObjectsInfo : Nat → MemPhysObjectData
  earlier : Nat → List (Nat × Nat)
  live : List Allocation

/-- `mem_rc_borrow` on a range. -/
def memRcBorrow (range : MemRange) : MemRange :=
  { range with nextRange := wrap (range.nextRange + 1) }

/-- `mem_rc_drop` on a range. It calls the second word of the object when the first one
becomes zero and the second one is not; no function is there. -/
def memRcDrop (range : MemRange) : Option MemRange :=
  if range.nextRange = 1 ∧ range.rcBase ≠ 0 then none
  else some { range with nextRange := wrap (range.nextRange + (2 ^ 64 - 1)) }

def State.setRange (s : State) (pointer : Nat) (range : MemRange) : State :=
  { s with ranges := Function.update s.ranges pointer (some range) }

def memPhysStoreInfo (s : State) (addr size pointer : Nat) (range : MemRange) (id : Nat) : State :=
  { s.setRange pointer (memRcBorrow range) with
    memPhysObjectsInfo :=
      Function.update s.memPhysObjectsInfo (addr / pageSize) ⟨pointer, size, id⟩ }

/-- The loop over the ranges, from the one at `pointer` on. It returns the block with the
range that it was found in. There is no result when the loop takes more than `fuel` turns
or comes to an address where no range is. The source goes on there, with what it finds in
memory: `Step.strayAlloc`. -/
def allocLoop (size id : Nat) : (fuel : Nat) → State → (pointer : Nat) → Option (Nat × Nat × State)
  | 0, _, _ => none
  | fuel + 1, s, pointer =>
      if pointer = 0 then some (physNull, pointer, s)
      else
        match s.ranges pointer with
        | none => none
        | some range =>
            let (result, region) := memPhysSlabAlloc range.region size
            let range := { range with region }
            if result ≠ physNull then
              some (result, pointer, memPhysStoreInfo s result size pointer range id)
            else allocLoop size id fuel (s.setRange pointer range) range.nextRange

def memPhysAllocSpecificNolock (fuel : Nat) (s : State) (size id : Nat) :
    Option (Nat × Nat × State) :=
  allocLoop size id fuel s (s.numaNodes id)

/-- There is no result when the object data names no range, or when `mem_rc_drop` calls the
second word of the range. -/
def memPhysFree (s : State) (addr : Nat) : Option State :=
  let obj := s.memPhysObjectsInfo (addr / pageSize)
  match s.ranges obj.range with
  | none => none
  | some range =>
      (memRcDrop { range with region := memPhysSlabFree range.region addr obj.size }).map
        (s.setRange obj.range)

/-- The blocks of a range that are allocated. -/
def State.held (s : State) (pointer : Nat) : List Block :=
  ((s.live.filter (·.range = pointer)).map fun a => liveBlock (a.addr, a.size)) ++
    (s.earlier pointer).map liveBlock

inductive Event where
  | alloc (size id addr : Nat)
  | free (addr : Nat)
  | store
  | stray

/-- Blocks are allocated and freed, and their owners write to them. After a call that takes
something else for a range, or calls what is no function, nothing is known. -/
inductive Step : State → Event → State → Prop where
  | alloc {s s' : State} {fuel size id addr pointer : Nat}
      (hAlloc : memPhysAllocSpecificNolock fuel s size id = some (addr, pointer, s')) :
      Step s (.alloc size id addr)
        { s' with live := if addr = physNull then s'.live else ⟨addr, size, pointer⟩ :: s'.live }
  | free {s s' : State} {a : Allocation} (hLive : a ∈ s.live)
      (hFree : memPhysFree s a.addr = some s') :
      Step s (.free a.addr) { s' with live := s'.live.erase a }
  | store {s : State} {pointer : Nat} {range : MemRange} {mem : Nat → Nat}
      (hRange : s.ranges pointer = some range)
      (hOwn : ∀ address, (∀ b ∈ s.held pointer, ¬b.Contains address) →
        mem address = range.region.mem address) :
      Step s .store (s.setRange pointer { range with region.mem := mem })
  | strayAlloc {s s' : State} {size id : Nat}
      (hStray : ∀ fuel, memPhysAllocSpecificNolock fuel s size id = none) : Step s .stray s'
  | strayFree {s s' : State} {a : Allocation} (hLive : a ∈ s.live)
      (hStray : memPhysFree s a.addr = none) : Step s .stray s'

def system (start : State) : System State Event where
  init s := s = start
  step := Step

/-- No block is allocated. -/
def Event.Refused : Event → Prop
  | .alloc _ _ addr => addr = physNull
  | _ => True

/-- The runs in which no allocation succeeds. -/
def refusing (start : State) : System State Event :=
  (system start).restrict fun _ event => event.Refused

/-- The runs in which every call finds ranges where it looks for them. -/
def tracked (start : State) : System State Event :=
  (system start).restrict fun _ event => event ≠ .stray

/-- The link fields of all ranges. -/
def State.nextRange (s : State) (pointer : Nat) : Nat := ((s.ranges pointer).map (·.nextRange)).getD 0

/-- The state that `mem_phys_init` leaves: linked lists of ranges, with slabs that were
initialised for different parts of physical memory and used since. -/
structure Initialised (start : State) : Prop where
  live : start.live = []
  listed : ∀ id, ∃ pointers, Chain start.nextRange 0 (start.numaNodes id) pointers ∧
    ∀ pointer ∈ pointers, (start.ranges pointer).isSome
  word : ∀ pointer range, start.ranges pointer = some range → range.nextRange < 2 ^ 64
  slab : ∀ pointer range, start.ranges pointer = some range →
    0 < range.region.slab.base ∧ range.region.slab.base + range.region.slab.length < 2 ^ 63 ∧
    ∃ trace, (PhysSlab.system range.region.slab.base range.region.slab.length).Execution trace
      ⟨range.region, start.earlier pointer⟩
  apart : ∀ p q range other, start.ranges p = some range → start.ranges q = some other → p ≠ q →
    range.region.slab.base + range.region.slab.length ≤ other.region.slab.base ∨
    other.region.slab.base + other.region.slab.length ≤ range.region.slab.base

end Ricerca.Phys
