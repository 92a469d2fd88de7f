import Ricerca.Foundation.Reading
import Ricerca.Foundation.Words

/-! ACPI tables (`sys/acpi/acpi.h`) and the functions that walk them (`sys/acpi/numa.c`,
`sys/acpi/smp.c`, `sys/acpi/acpi.c`). A table is given by the bytes from its start on, with
those that follow it in memory. Addresses count from the start of the table; offsets have 64
bits, like all of `uintptr_t`. -/
namespace Ricerca.Acpi

open Ricerca.Foundation

abbrev Table := Nat → UInt8

abbrev TableReading := Reading Nat UInt8

def readByte (addr : Nat) : TableReading UInt8 := Reading.cell (addr % 2 ^ 64)

/-- A `uint32_t`, the lowest byte first. -/
def readWord (addr : Nat) : TableReading Nat := do
  let byte₀ ← readByte addr
  let byte₁ ← readByte (addr + 1)
  let byte₂ ← readByte (addr + 2)
  let byte₃ ← readByte (addr + 3)
  pure (byte₀.toNat + 2 ^ 8 * byte₁.toNat + 2 ^ 16 * byte₂.toNat + 2 ^ 24 * byte₃.toNat)

/-- `hdr.length`. -/
def hdrLength (table : Table) : Nat := (readWord 4).result table

/-- `sizeof(struct acpi_srat)`. -/
def sizeofAcpiSrat : Nat := 48

/-- `sizeof(struct acpi_madt)`. -/
def sizeofAcpiMadt : Nat := 44

/-- `ACPI_SRAT_XAPIC_ENTRY`. -/
def acpiSratXapicEntry : UInt8 := 0

/-- `ACPI_SRAT_MEM_ENTRY`. -/
def acpiSratMemEntry : UInt8 := 1

/-- `ACPI_SRAT_X2APIC_ENTRY`. -/
def acpiSratX2apicEntry : UInt8 := 2

/-- `ACPI_MADT_XAPIC_ENTRY`. -/
def acpiMadtXapicEntry : UInt8 := 0

/-- `ACPI_MADT_X2APIC_ENTRY`. -/
def acpiMadtX2apicEntry : UInt8 := 9

section Rounds

variable {σ ρ : Type}

/-- What a function does with one entry, given the type of the entry and where it is. -/
abbrev Visit (σ ρ : Type) := UInt8 → Nat → σ → TableReading (Outcome σ (ρ × σ))

/-- The outcome of a visit, with the offset of the next entry. -/
def moveTo (offset : Nat) : Outcome σ (ρ × σ) → Outcome (Nat × σ) (ρ × (Nat × σ))
  | .again acc => .again (offset, acc)
  | .stop (r, acc) => .stop (r, (offset, acc))

/-- One round of a loop over the entries. The function moves on to the next entry first. -/
def walkRound (header : Nat) (inside : Nat → Prop) [DecidablePred inside] (visit : Visit σ ρ)
    (finish : σ → ρ) (s : Nat × σ) : TableReading (Outcome (Nat × σ) (ρ × (Nat × σ))) :=
  if inside s.1 then do
    let entry := header + s.1
    let length ← readByte (entry + 1)
    let offset := (s.1 + length.toNat) % 2 ^ 64
    let type ← readByte entry
    let outcome ← visit type entry s.2
    pure (moveTo offset outcome)
  else pure (.stop (finish s.2, s))

/-- `offset < entries_len` for an SRAT; the difference is unsigned. -/
def sratInside (table : Table) (offset : Nat) : Prop :=
  offset < (hdrLength table + 2 ^ 64 - sizeofAcpiSrat) % 2 ^ 64

/-- `address < end_address` for an MADT. -/
def madtInside (table : Table) (offset : Nat) : Prop := sizeofAcpiMadt + offset < hdrLength table

instance (table : Table) : DecidablePred (sratInside table) := fun _ =>
  inferInstanceAs (Decidable (_ < _))

instance (table : Table) : DecidablePred (madtInside table) := fun _ =>
  inferInstanceAs (Decidable (_ < _))

def sratRound (table : Table) : Visit σ ρ → (σ → ρ) → Nat × σ →
    TableReading (Outcome (Nat × σ) (ρ × (Nat × σ))) :=
  walkRound sizeofAcpiSrat (sratInside table)

def madtRound (table : Table) : Visit σ ρ → (σ → ρ) → Nat × σ →
    TableReading (Outcome (Nat × σ) (ρ × (Nat × σ))) :=
  walkRound sizeofAcpiMadt (madtInside table)

end Rounds

/-- The proximity domain of an xAPIC entry. -/
def readXapicDomain (entry : Nat) : TableReading Nat := do
  let domainLow ← readByte (entry + 2)
  let domainHigh₀ ← readByte (entry + 9)
  let domainHigh₁ ← readByte (entry + 10)
  let domainHigh₂ ← readByte (entry + 11)
  pure (domainLow.toNat + 2 ^ 8 * domainHigh₀.toNat + 2 ^ 16 * domainHigh₁.toNat +
    2 ^ 24 * domainHigh₂.toNat)

/-- Base and length of a memory entry. -/
def readRange (entry : Nat) : TableReading (Nat × Nat) := do
  let baseHigh ← readWord (entry + 12)
  let baseLow ← readWord (entry + 8)
  let lengthHigh ← readWord (entry + 20)
  let lengthLow ← readWord (entry + 16)
  pure (2 ^ 32 * baseHigh + baseLow, 2 ^ 32 * lengthHigh + lengthLow)

/-- What `acpi_numa_enumerate_at_boot` does with an entry. -/
def visitProximity : Visit Unit (Option Nat) := fun type entry _ =>
  if type = acpiSratXapicEntry then do
    let flags ← readWord (entry + 4)
    if flags &&& 1 = 0 then pure (.again ())
    else do
      let domain ← readXapicDomain entry
      pure (.stop (some domain, ()))
  else if type = acpiSratX2apicEntry then do
    let flags ← readWord (entry + 12)
    if flags &&& 1 = 0 then pure (.again ())
    else do
      let domain ← readWord (entry + 4)
      pure (.stop (some domain, ()))
  else if type = acpiSratMemEntry then do
    let flags ← readWord (entry + 28)
    if flags &&& 1 = 0 then pure (.again ())
    else do
      let domain ← readWord (entry + 2)
      pure (.stop (some domain, ()))
  else pure (.again ())

/-- The loop of `acpi_numa_enumerate_at_boot`, from an iterator on. -/
def acpiNumaEnumerateAtBoot (table : Table) :
    Nat × Unit → TableReading (Outcome (Nat × Unit) (Option Nat × (Nat × Unit))) :=
  sratRound table visitProximity fun _ => none

/-- `struct acpi_numa_memory_range`. -/
structure MemoryRange where
  start : Nat
  stop : Nat
  nodeId : Nat
  deriving DecidableEq

/-- `align_up`. -/
def alignUp (val align : Nat) : Nat := alignDown ((val + align - 1) % 2 ^ 64) align

/-- The part of a memory entry that is in a range, if there is any. -/
def clip (rangeStart rangeEnd base len domain : Nat) : Option MemoryRange :=
  let stop := (base + len) % 2 ^ 64
  if stop ≤ rangeStart ∨ rangeEnd ≤ base then none
  else some
    { start := alignUp (if base < rangeStart then rangeStart else base) pageSize
      stop := alignDown (if rangeEnd < stop then rangeEnd else stop) pageSize
      nodeId := domain }

/-- What `acpi_numa_get_memory_range` does with an entry. -/
def visitMemory (rangeStart rangeEnd : Nat) : Visit Unit (Option MemoryRange) := fun type entry _ =>
  if type = acpiSratMemEntry then do
    let flags ← readWord (entry + 28)
    if flags &&& 1 = 0 then pure (.again ())
    else do
      let domain ← readWord (entry + 2)
      let range ← readRange entry
      pure (match clip rangeStart rangeEnd range.1 range.2 domain with
        | none => .again ()
        | some part => .stop (some part, ()))
  else pure (.again ())

/-- The loop of `acpi_numa_get_memory_range`, from an iterator on. -/
def acpiNumaGetMemoryRange (table : Table) (rangeStart rangeEnd : Nat) :
    Nat × Unit → TableReading (Outcome (Nat × Unit) (Option MemoryRange × (Nat × Unit))) :=
  sratRound table (visitMemory rangeStart rangeEnd) fun _ => none

/-- What `acpi_numa_apic2numa_id` does with an entry. -/
def visitApic (apicId : Nat) : Visit Unit (Option Nat) := fun type entry _ =>
  if type = acpiSratXapicEntry then do
    let flags ← readWord (entry + 4)
    if flags &&& 1 = 0 then pure (.again ())
    else do
      let domain ← readXapicDomain entry
      let xapicId ← readByte (entry + 3)
      if xapicId.toNat = apicId then pure (.stop (some domain, ()))
      else pure (.again ())
  else if type = acpiSratX2apicEntry then do
    let flags ← readWord (entry + 12)
    if flags &&& 1 = 0 then pure (.again ())
    else do
      let x2apicId ← readWord (entry + 8)
      if x2apicId = apicId then do
        let domain ← readWord (entry + 4)
        pure (.stop (some domain, ()))
      else pure (.again ())
  else pure (.again ())

/-- The loop of `acpi_numa_apic2numa_id`; `none` is the panic at the end. -/
def acpiNumaApic2numaId (table : Table) (apicId : Nat) :
    Nat × Unit → TableReading (Outcome (Nat × Unit) (Option Nat × (Nat × Unit))) :=
  sratRound table (visitApic apicId) fun _ => none

/-- What `acpi_query_phys_space_size` does with an entry. -/
def visitSpace : Visit Nat Nat := fun type entry size =>
  if type = acpiSratMemEntry then do
    let flags ← readWord (entry + 28)
    if flags &&& 1 = 0 then pure (.again size)
    else do
      let range ← readRange entry
      let stop := (range.1 + range.2) % 2 ^ 64
      pure (.again (if size < stop then stop else size))
  else pure (.again size)

/-- The loop of `acpi_query_phys_space_size`, with the size found so far. -/
def acpiQueryPhysSpaceSize (table : Table) :
    Nat × Nat → TableReading (Outcome (Nat × Nat) (Nat × (Nat × Nat))) :=
  sratRound table visitSpace id

/-- What `acpi_smp_get_max_cpus` does with an entry. -/
def visitCount : Visit Nat Nat := fun type entry count =>
  if type = acpiMadtXapicEntry then do
    let flags ← readWord (entry + 4)
    pure (.again (if flags &&& 3 = 0 then count else (count + 1) % 2 ^ 32))
  else if type = acpiMadtX2apicEntry then do
    let flags ← readWord (entry + 8)
    pure (.again (if flags &&& 3 = 0 then count else (count + 1) % 2 ^ 32))
  else pure (.again count)

/-- The loop of `acpi_smp_get_max_cpus`, with the number of processors so far. -/
def acpiSmpGetMaxCpus (table : Table) :
    Nat × Nat → TableReading (Outcome (Nat × Nat) (Nat × (Nat × Nat))) :=
  madtRound table visitCount id

/-- `struct acpi_smp_cpu`. -/
structure SmpCpu where
  apicId : Nat
  acpiId : Nat
  logicalId : Nat
  deriving DecidableEq

/-- What `acpi_smp_iterate_over_cpus` does with an entry. -/
def visitCpu : Visit Nat (Option SmpCpu) := fun type entry logicalId =>
  if type = acpiMadtXapicEntry then do
    let flags ← readWord (entry + 4)
    if flags &&& 3 = 0 then pure (.again logicalId)
    else do
      let acpiId ← readByte (entry + 2)
      let apicId ← readByte (entry + 3)
      pure (.stop (some ⟨apicId.toNat, acpiId.toNat, logicalId⟩, (logicalId + 1) % 2 ^ 32))
  else if type = acpiMadtX2apicEntry then do
    let flags ← readWord (entry + 8)
    if flags &&& 3 = 0 then pure (.again logicalId)
    else do
      let acpiId ← readWord (entry + 12)
      let apicId ← readWord (entry + 4)
      pure (.stop (some ⟨apicId, acpiId, logicalId⟩, (logicalId + 1) % 2 ^ 32))
  else pure (.again logicalId)

/-- The loop of `acpi_smp_iterate_over_cpus`, from an iterator with its next logical id on. -/
def acpiSmpIterateOverCpus (table : Table) :
    Nat × Nat → TableReading (Outcome (Nat × Nat) (Option SmpCpu × (Nat × Nat))) :=
  madtRound table visitCpu fun _ => none

/-- `enum acpi_madt_lapic_entry_prop`. -/
inductive LapicEntryProp where
  | logicalId
  | acpiId
  | apicId
  deriving DecidableEq

/-- `acpi_madt_xapic_load_prop`. -/
def acpiMadtXapicLoadProp (entry : Nat) : LapicEntryProp → Nat → TableReading Nat
  | .logicalId, lid => pure lid
  | .acpiId, _ => do
      let acpiId ← readByte (entry + 2)
      pure acpiId.toNat
  | .apicId, _ => do
      let apicId ← readByte (entry + 3)
      pure apicId.toNat

/-- `acpi_madt_x2apic_load_prop`. -/
def acpiMadtX2apicLoadProp (entry : Nat) : LapicEntryProp → Nat → TableReading Nat
  | .logicalId, lid => pure lid
  | .acpiId, _ => readWord (entry + 12)
  | .apicId, _ => readWord (entry + 4)

/-- What `acpi_madt_convert_ids` does with an entry. -/
def visitIds (matched returned : LapicEntryProp) (expected : Nat) : Visit Nat (Option Nat) :=
    fun type entry logicalId =>
  if type = acpiMadtXapicEntry then do
    let flags ← readWord (entry + 4)
    if flags &&& 3 = 0 then pure (.again logicalId)
    else do
      let matchedVal ← acpiMadtXapicLoadProp entry matched logicalId
      if matchedVal = expected then do
        let returnedVal ← acpiMadtXapicLoadProp entry returned logicalId
        pure (.stop (some returnedVal, logicalId))
      else pure (.again ((logicalId + 1) % 2 ^ 32))
  else if type = acpiMadtX2apicEntry then do
    let flags ← readWord (entry + 8)
    if flags &&& 3 = 0 then pure (.again logicalId)
    else do
      let matchedVal ← acpiMadtX2apicLoadProp entry matched logicalId
      if matchedVal = expected then do
        let returnedVal ← acpiMadtX2apicLoadProp entry returned logicalId
        pure (.stop (some returnedVal, logicalId))
      else pure (.again ((logicalId + 1) % 2 ^ 32))
  else pure (.again logicalId)

/-- The loop of `acpi_madt_convert_ids`; `none` is the panic at the end. -/
def acpiMadtConvertIds (table : Table) (matched returned : LapicEntryProp) (expected : Nat) :
    Nat × Nat → TableReading (Outcome (Nat × Nat) (Option Nat × (Nat × Nat))) :=
  madtRound table (visitIds matched returned expected) fun _ => none

end Ricerca.Acpi
