import Mathlib.Order.CompletePartialOrder
import Mathlib.Order.Interval.Set.Disjoint
import Ricerca.Sys.Acpi

/-! Memory at boot (`mem/bootstrap.c`, `mem/mem.c`). The bootstrap allocator moves a border up
through the memory map; `mem_add_numa_ranges` gives what lies above the border to the page
allocator. Addresses are physical ones. -/
namespace Ricerca.Bootstrap

open Ricerca.Foundation Ricerca.Acpi

/-- `struct stivale2_mmap_entry`. -/
structure MmapEntry where
  base : Nat
  length : Nat
  type : Nat

/-- `STIVALE2_MMAP_USABLE`. -/
def stivale2MmapUsable : Nat := 1

/-- `base + length`. -/
def MmapEntry.stop (entry : MmapEntry) : Nat := (entry.base + entry.length) % 2 ^ 64

def MmapEntry.usable (entry : MmapEntry) : Bool := entry.type == stivale2MmapUsable

/-- `PHYS_LOW`. -/
def physLow : Nat := 2 * 1024 * 1024

/-- `sizeof(struct mem_range)`. -/
def sizeofMemRange : Nat := 576

/-- The variables of `mem/bootstrap.c`. -/
structure State where
  borderOffset : Nat
  memmapIndex : Nat
  usable : Bool
  deriving DecidableEq

/-- After `mem_bootstrap_alloc_init`. -/
def initial : State := ⟨physLow, 0, true⟩

structure Allocation where
  addr : Nat
  size : Nat
  deriving DecidableEq

/-- `mem_wb_phys_win_base`, by paging mode. -/
def memWbPhysWinBase (fiveLevel : Bool) : Nat :=
  if fiveLevel then 0xff00000000000000 else 0xffff800000000000

/-- The pointer that the caller gets. -/
def Allocation.pointer (a : Allocation) (fiveLevel : Bool) : Nat :=
  (memWbPhysWinBase fiveLevel + a.addr) % 2 ^ 64

/-- The loop of `mem_bootstrap_alloc`, with `left` entries left. -/
def allocFrom (map : List MmapEntry) (realSize : Nat) : Nat → State → Option (Nat × State)
  | 0, _ => none
  | left + 1, s =>
      match map[s.memmapIndex]? with
      | none => none
      | some entry =>
          if entry.usable = false ∨ entry.stop ≤ s.borderOffset then
            allocFrom map realSize left { s with memmapIndex := s.memmapIndex + 1 }
          else
            let border :=
              if s.borderOffset < entry.base then alignUp entry.base 16 else s.borderOffset
            if realSize ≤ (entry.stop + 2 ^ 64 - border) % 2 ^ 64 then
              some (border, { s with borderOffset := (border + realSize) % 2 ^ 64 })
            else
              allocFrom map realSize left
                { s with borderOffset := border, memmapIndex := s.memmapIndex + 1 }

/-- `mem_bootstrap_alloc`; `none` when it panics. -/
def memBootstrapAlloc (map : List MmapEntry) (s : State) (size : Nat) :
    Option (Allocation × State) :=
  if s.usable then
    (allocFrom map (alignUp size 16) (map.length - s.memmapIndex) s).map fun r => (⟨r.1, size⟩, r.2)
  else none

/-- Calls of `mem_bootstrap_alloc`, one after the other. -/
def memBootstrapAllocs (map : List MmapEntry) : State → List Nat → Option (List Allocation × State)
  | s, [] => some ([], s)
  | s, size :: sizes =>
      match memBootstrapAlloc map s size with
      | none => none
      | some (a, s') => (memBootstrapAllocs map s' sizes).map fun r => (a :: r.1, r.2)

/-- `mem_bootstrap_terminate_allocator`. -/
def memBootstrapTerminateAllocator (s : State) : Nat × State :=
  (alignUp s.borderOffset pageSize, { s with usable := false })

/-- `acpi_numa_get_memory_range`, with the offset of the iterator; `none` when its loop takes
more rounds than `fuel`. -/
def getMemoryRange (srat : Option Table) (fuel rangeStart rangeEnd sratOffset : Nat) :
    Option (Option MemoryRange × Nat) :=
  match srat with
  | none =>
      if sratOffset = 0 then
        some (some ⟨alignUp rangeStart pageSize, alignDown rangeEnd pageSize, 0⟩, 1)
      else some (none, sratOffset)
  | some table =>
      ((Reading.loop (acpiNumaGetMemoryRange table rangeStart rangeEnd) fuel
        (sratOffset, ())).result table).map fun r => (r.1, r.2.1)

/-- All memory ranges that an iterator gives, in at most `n` calls. -/
def memoryRanges (srat : Option Table) (fuel rangeStart rangeEnd : Nat) :
    Nat → Nat → Option (List MemoryRange)
  | 0, _ => none
  | n + 1, sratOffset =>
      match getMemoryRange srat fuel rangeStart rangeEnd sratOffset with
      | none => none
      | some (none, _) => some []
      | some (some range, sratOffset) =>
          (memoryRanges srat fuel rangeStart rangeEnd n sratOffset).map (range :: ·)

/-- `mem_estimate_boot_ranges_upper_bound`. -/
def memEstimateBootRangesUpperBound (srat : Option Table) (fuel : Nat) : List MmapEntry → Option Nat
  | [] => some 0
  | entry :: map =>
      if entry.usable then
        match memoryRanges srat fuel entry.base entry.stop fuel 0 with
        | none => none
        | some ranges => (memEstimateBootRangesUpperBound srat fuel map).map (ranges.length + ·)
      else memEstimateBootRangesUpperBound srat fuel map

/-- The loop of `mem_add_numa_ranges` over the memory map: the ranges that are given to
`mem_phys_slab_init`. The result is `some none` when the assertion about the number of range
objects fails. -/
def addRanges (srat : Option Table) (fuel border : Nat) :
    List MmapEntry → Nat → Option (Option (List MemoryRange))
  | [], _ => some (some [])
  | entry :: map, left =>
      if entry.usable = false ∨ entry.stop ≤ border then addRanges srat fuel border map left
      else
        let start := if entry.base < border then border else entry.base
        match memoryRanges srat fuel start entry.stop fuel 0 with
        | none => none
        | some ranges =>
            if ranges.length ≤ left then
              (addRanges srat fuel border map (left - ranges.length)).map
                (Option.map (ranges ++ ·))
            else some none

/-- What `mem_add_numa_ranges` comes to. -/
inductive AddResult where
  | noMemory
  | assertFailed
  | added (entries : Allocation) (ranges : List MemoryRange)
  deriving DecidableEq

/-- `mem_add_numa_ranges`; `none` when a loop takes more rounds than `fuel`. -/
def memAddNumaRanges (map : List MmapEntry) (srat : Option Table) (fuel : Nat) (s : State) :
    Option AddResult :=
  match memEstimateBootRangesUpperBound srat fuel map with
  | none => none
  | some numEntries =>
      match memBootstrapAlloc map s (sizeofMemRange * numEntries % 2 ^ 64) with
      | none => some .noMemory
      | some (entries, s') =>
          match addRanges srat fuel (memBootstrapTerminateAllocator s').1 map numEntries with
          | none => none
          | some none => some .assertFailed
          | some (some ranges) => some (.added entries ranges)

/-- What a boot loader guarantees: usable entries are page-aligned ranges of addresses that do
not overlap. -/
structure Stivale2Map (map : List MmapEntry) : Prop where
  aligned : ∀ entry ∈ map, entry.usable → entry.base % pageSize = 0 ∧ entry.length % pageSize = 0
  range : ∀ entry ∈ map, entry.usable → entry.base + entry.length ≤ 2 ^ 64
  apart : map.Pairwise fun e f => e.usable → f.usable →
    Disjoint (Set.Ico e.base (e.base + e.length)) (Set.Ico f.base (f.base + f.length))

/-- Where the walk from one entry of an SRAT goes on. -/
def nextOffset (table : Table) (offset : Nat) : Nat :=
  (offset + ((readByte (sizeofAcpiSrat + offset + 1)).result table).toNat) % 2 ^ 64

/-- The offsets of the entries of an SRAT. -/
inductive Visited (table : Table) : Nat → Prop where
  | first : Visited table 0
  | next {offset : Nat} (prior : Visited table offset) (hIn : sratInside table offset) :
      Visited table (nextOffset table offset)

/-- Base and length of an entry that is an active memory entry. -/
def memoryAt (table : Table) (offset : Nat) : Option (Nat × Nat) :=
  let entry := sizeofAcpiSrat + offset
  if (readByte entry).result table = acpiSratMemEntry ∧
      (readWord (entry + 28)).result table &&& 1 ≠ 0 then
    some ((readRange entry).result table)
  else none

/-- The memory entries of an SRAT are page-aligned ranges of addresses. -/
structure SratPages (table : Table) : Prop where
  aligned : ∀ offset base len, Visited table offset → sratInside table offset →
    memoryAt table offset = some (base, len) → base % pageSize = 0 ∧ len % pageSize = 0
  range : ∀ offset base len, Visited table offset → sratInside table offset →
    memoryAt table offset = some (base, len) → base + len ≤ 2 ^ 64

/-- The memory entries of an SRAT are page-aligned ranges of addresses that do not overlap. -/
structure SratMemory (table : Table) : Prop where
  aligned : ∀ offset base len, Visited table offset → sratInside table offset →
    memoryAt table offset = some (base, len) → base % pageSize = 0 ∧ len % pageSize = 0
  range : ∀ offset base len, Visited table offset → sratInside table offset →
    memoryAt table offset = some (base, len) → base + len ≤ 2 ^ 64
  apart : ∀ offset offset' base len base' len', Visited table offset → sratInside table offset →
    Visited table offset' → sratInside table offset' → offset ≠ offset' →
    memoryAt table offset = some (base, len) → memoryAt table offset' = some (base', len') →
    Disjoint (Set.Ico base (base + len)) (Set.Ico base' (base' + len'))

end Ricerca.Bootstrap
