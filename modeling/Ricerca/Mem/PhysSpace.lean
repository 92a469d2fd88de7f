import Ricerca.Mem.NumaRanges

/-! The size of the physical address space (`mem/misc.c`), by which the table of page allocations is
made. It comes from the SRAT, or from the memory map where the SRAT has no memory; the ranges that are
allocated from come from both. -/
namespace Ricerca.Bootstrap

open Ricerca.Foundation Ricerca.Acpi

/-- `acpi_query_phys_space_size`; `none` when its loop takes more rounds than `fuel`. -/
def acpiQueryPhysSpaceSize (srat : Option Table) (fuel : Nat) : Option Nat :=
  match srat with
  | none => some 0
  | some table =>
      ((Reading.loop (Acpi.acpiQueryPhysSpaceSize table) fuel (0, 0)).result table).map Prod.fst

/-- The end of the memory map. -/
def highestEnd (map : List MmapEntry) : Nat :=
  map.foldl (fun size entry => if size < entry.stop then entry.stop else size) 0

/-- `mem_calculate_phys_space_size`. -/
def memCalculatePhysSpaceSize (map : List MmapEntry) (srat : Option Table) (fuel : Nat) : Option Nat :=
  (acpiQueryPhysSpaceSize srat fuel).map fun size =>
    alignUp (if size = 0 then highestEnd map else size) pageSize

/-- The usable entries of a memory map are page-aligned, and neither they nor the end of the map,
rounded up to a page, wrap around. -/
structure MapPages (map : List MmapEntry) : Prop where
  aligned : ∀ entry ∈ map, entry.usable → entry.base % pageSize = 0 ∧ entry.length % pageSize = 0
  range : ∀ entry ∈ map, entry.usable → entry.base + entry.length ≤ 2 ^ 64
  roof : ∀ entry ∈ map, entry.stop + pageSize ≤ 2 ^ 64

section Query

variable {table : Table} {offset size : Nat} {way : List Nat}

/-- The end of the memory of an entry, or 0 where the entry has none. -/
def endAt (table : Table) (offset : Nat) : Nat :=
  match memoryAt table offset with
  | none => 0
  | some (base, len) => (base + len) % 2 ^ 64

theorem visitSpace_result :
    (visitSpace ((readByte (sizeofAcpiSrat + offset)).result table)
      (sizeofAcpiSrat + offset) size).result table = .again (max size (endAt table offset)) := by
  simp only [visitSpace, endAt, memoryAt, Reading.result_ite, Reading.result_bind,
    Reading.result_pure]
  by_cases hType : (readByte (sizeofAcpiSrat + offset)).result table = acpiSratMemEntry
  · by_cases hFlags :
        (readWord (sizeofAcpiSrat + offset + 28)).result table &&& 1 = 0
    · simp [hType, hFlags]
    · simp only [hType, hFlags, if_true, if_false, ne_eq, not_false_eq_true, and_self]
      congr 1
      split_ifs <;> omega
  · simp [hType]

/-- One round of `acpi_query_phys_space_size`. -/
theorem querySpace_round :
    (Acpi.acpiQueryPhysSpaceSize table (offset, size)).result table =
      if sratInside table offset then
        .again (nextOffset table offset, max size (endAt table offset))
      else .stop (size, (offset, size)) := by
  rw [Acpi.acpiQueryPhysSpaceSize, sratRound, walkRound]
  split_ifs with hIn
  · simp only [Reading.result_bind, Reading.result_pure, visitSpace_result]
    rfl
  · rfl

/-- The largest end on a walk, or `size` where that is larger. -/
def largestEnd (table : Table) (size : Nat) (way : List Nat) : Nat :=
  way.foldl (fun size offset => max size (endAt table offset)) size

theorem Walk.querySpace (h : Walk table offset way) (size : Nat) {fuel : Nat} (hFuel : way.length < fuel) :
    ∃ last, (Reading.loop (Acpi.acpiQueryPhysSpaceSize table) fuel (offset, size)).result table =
      some (largestEnd table size way, last) := by
  induction h generalizing fuel size with
  | @done offset hOut =>
      obtain ⟨fuel, rfl⟩ := Nat.exists_eq_succ_of_ne_zero (Nat.ne_zero_of_lt hFuel)
      refine ⟨(offset, size), ?_⟩
      rw [Reading.result_loop_succ, querySpace_round, if_neg hOut]
      rfl
  | step hIn rest ih =>
      obtain ⟨fuel, rfl⟩ := Nat.exists_eq_succ_of_ne_zero (Nat.ne_zero_of_lt hFuel)
      rw [List.length_cons] at hFuel
      rw [Reading.result_loop_succ, querySpace_round, if_pos hIn]
      exact ih _ (by omega)

/-- A query that returns has walked to the end of the table. -/
theorem walk_of_querySpace {fuel : Nat} {r : Nat × (Nat × Nat)}
    (hLoop : (Reading.loop (Acpi.acpiQueryPhysSpaceSize table) fuel (offset, size)).result table =
      some r) :
    ∃ way, Walk table offset way ∧ r.1 = largestEnd table size way := by
  induction fuel generalizing offset size with
  | zero => cases hLoop
  | succ fuel ih =>
      rw [Reading.result_loop_succ, querySpace_round] at hLoop
      split_ifs at hLoop with hIn
      · obtain ⟨way, hWay, hResult⟩ := ih hLoop
        exact ⟨offset :: way, .step hIn hWay, hResult⟩
      · cases hLoop
        exact ⟨[], .done hIn, rfl⟩

end Query

section Highest

variable {ι : Type}

/-- The maximum of some values is no smaller than any of them, and it is one of them. -/
theorem foldl_max_spec (f : ι → Nat) (size : Nat) (list : List ι) :
    size ≤ list.foldl (fun size i => max size (f i)) size ∧
      (∀ i ∈ list, f i ≤ list.foldl (fun size i => max size (f i)) size) ∧
      (list.foldl (fun size i => max size (f i)) size = size ∨
        ∃ i ∈ list, list.foldl (fun size i => max size (f i)) size = f i) := by
  induction list generalizing size with
  | nil => exact ⟨Nat.le_refl _, by simp, .inl rfl⟩
  | cons first list ih =>
      obtain ⟨hSize, hAll, hAttained⟩ := ih (max size (f first))
      rw [List.foldl_cons]
      refine ⟨by omega, ?_, ?_⟩
      · intro i hMem
        rcases List.mem_cons.mp hMem with rfl | hMem
        · omega
        · exact hAll i hMem
      · rcases hAttained with hStart | ⟨i, hMem, hEnd⟩
        · rcases Nat.le_total size (f first) with hLe | hLe
          · exact .inr ⟨first, List.mem_cons_self, by omega⟩
          · exact .inl (by omega)
        · exact .inr ⟨i, List.mem_cons_of_mem _ hMem, hEnd⟩

end Highest

section Space

variable {map : List MmapEntry} {srat : Option Table} {fuel border left size : Nat}
  {ranges : List MemoryRange} {range : MemoryRange}

theorem highestEnd_eq (map : List MmapEntry) :
    highestEnd map = map.foldl (fun size entry => max size entry.stop) 0 := by
  rw [highestEnd]
  congr 1
  funext size entry
  split_ifs <;> omega

/-- The ranges that are added are the parts of usable entries from the border on. -/
theorem addRanges_mem (hAdd : addRanges srat fuel border map left = some (some ranges))
    (hMem : range ∈ ranges) :
    ∃ entry ∈ map, entry.usable ∧ border < entry.stop ∧ ∃ parts,
      memoryRanges srat fuel (if entry.base < border then border else entry.base) entry.stop fuel 0 =
        some parts ∧ range ∈ parts := by
  induction map generalizing left ranges with
  | nil =>
      simp only [addRanges, Option.some.injEq] at hAdd
      subst hAdd
      cases hMem
  | cons entry map ih =>
      simp only [addRanges] at hAdd
      split at hAdd
      · obtain ⟨other, hOther, hGiven⟩ := ih hAdd hMem
        exact ⟨other, List.mem_cons_of_mem _ hOther, hGiven⟩
      next hTaken =>
        simp only [not_or, Bool.not_eq_false, not_le] at hTaken
        split at hAdd
        · cases hAdd
        next parts hParts =>
          split_ifs at hAdd
          · simp only [Option.map_eq_some_iff] at hAdd
            obtain ⟨_, hRest, rest, rfl, rfl⟩ := hAdd
            rcases List.mem_append.mp hMem with hMem | hMem
            · exact ⟨entry, List.mem_cons_self .., hTaken.1, hTaken.2, parts, hParts, hMem⟩
            · obtain ⟨other, hOther, hGiven⟩ := ih hRest hMem
              exact ⟨other, List.mem_cons_of_mem _ hOther, hGiven⟩
          · cases hAdd

/-- Memory that is given comes from an entry of the SRAT that ends above it. -/
theorem lt_endAt {table : Table} {rangeStart rangeEnd offset : Nat}
    (hPart : partAt table rangeStart rangeEnd offset = some range) :
    rangeStart < endAt table offset := by
  obtain ⟨⟨base, len⟩, hAt, hClip⟩ := Option.bind_eq_some_iff.mp hPart
  rw [endAt, hAt]
  simp only [clip] at hClip
  split at hClip
  · cases hClip
  next hMeet =>
    simp only [not_or, not_le] at hMeet
    exact hMeet.1

/-- The end of an entry of the SRAT, rounded up to a page, does not wrap around. -/
theorem SratPages.endAt_add_le {table : Table} {way : List Nat} {offset : Nat} (h : SratPages table)
    (hWay : Walk table 0 way) (hMem : offset ∈ way) : endAt table offset + pageSize ≤ 2 ^ 64 := by
  obtain ⟨hVisited, hIn⟩ := hWay.visited .first offset hMem
  rw [endAt]
  split
  · decide
  next base len hAt =>
    obtain ⟨hBase, hLen⟩ := h.aligned offset base len hVisited hIn hAt
    simp only [pageSize] at hBase hLen ⊢
    omega

/-- What the size is when there is an SRAT with memory in it. -/
theorem querySpace_le {table : Table} {way : List Nat} {offset : Nat} (h : SratPages table)
    (hWay : Walk table 0 way) (hMem : offset ∈ way) (hPos : 0 < endAt table offset)
    (hSize : memCalculatePhysSpaceSize map (some table) fuel = some size) :
    endAt table offset ≤ size := by
  simp only [memCalculatePhysSpaceSize, acpiQueryPhysSpaceSize, Option.map_eq_some_iff] at hSize
  obtain ⟨_, ⟨result, hLoop, rfl⟩, rfl⟩ := hSize
  obtain ⟨way', hWay', hResult⟩ := walk_of_querySpace hLoop
  obtain rfl := hWay.unique hWay'
  obtain ⟨-, hAll, hAttained⟩ := foldl_max_spec (endAt table) 0 way
  rw [← largestEnd, ← hResult] at hAll hAttained
  have hLe := hAll offset hMem
  rw [if_neg (by omega)]
  rcases hAttained with hZero | ⟨last, hLast, hEnd⟩
  · omega
  · have hRoof := h.endAt_add_le hWay hLast
    exact hLe.trans (le_alignUp (by omega))

/-- What the size is without an SRAT. -/
theorem stop_le_space {entry : MmapEntry} (hMap : MapPages map) (hEntry : entry ∈ map)
    (hSize : memCalculatePhysSpaceSize map none fuel = some size) : entry.stop ≤ size := by
  simp only [memCalculatePhysSpaceSize, acpiQueryPhysSpaceSize, Option.map_some, if_true,
    Option.some.injEq] at hSize
  subst hSize
  obtain ⟨-, hAll, hAttained⟩ := foldl_max_spec MmapEntry.stop 0 map
  rw [← highestEnd_eq] at hAll hAttained
  apply (hAll entry hEntry).trans
  apply le_alignUp
  rcases hAttained with hZero | ⟨last, hLast, hEnd⟩
  · rw [hZero]
    decide
  · rw [hEnd]
    exact hMap.roof last hLast

/-- A range that is added ends below the size of the physical address space. -/
theorem addRanges_le_space (hMap : MapPages map)
    (hSrat : ∀ table, srat = some table → SratPages table) (hBorder : border % pageSize = 0)
    {fuel' : Nat} (hSize : memCalculatePhysSpaceSize map srat fuel = some size)
    (hAdd : addRanges srat fuel' border map left = some (some ranges)) (hMem : range ∈ ranges) :
    range.start ≤ range.stop ∧ range.stop ≤ size := by
  obtain ⟨entry, hEntry, hUsable, hAbove, parts, hParts, hPart⟩ := addRanges_mem hAdd hMem
  obtain ⟨hBase, hLength⟩ := hMap.aligned entry hEntry hUsable
  obtain ⟨hStop, hLt, hPage, -⟩ :=
    MmapEntry.stop_eq hBase hLength (hMap.range entry hEntry hUsable) hAbove
  have hFrom : (if entry.base < border then border else entry.base) % pageSize = 0 ∧
      (if entry.base < border then border else entry.base) ≤ entry.stop := by
    split_ifs <;> omega
  generalize (if entry.base < border then border else entry.base) = start at hFrom hParts
  cases srat with
  | none =>
      obtain rfl := memoryRanges_none hParts
      obtain rfl := List.mem_singleton.mp hPart
      have hFits : start + pageSize ≤ 2 ^ 64 := by
        simp only [pageSize] at hFrom hPage ⊢
        omega
      simp only
      rw [alignUp_eq (by decide) hFrom.1 hFits, alignDown_eq hPage]
      exact ⟨hFrom.2, stop_le_space hMap hEntry hSize⟩
  | some table =>
      have hPages := hSrat table rfl
      obtain ⟨way, hWay, rfl⟩ := walk_of_memoryRanges hParts
      obtain ⟨offset, hOffset, hSome⟩ := List.mem_filterMap.mp hPart
      obtain ⟨base, len, hAt, -, hOrder, -, -, hLast⟩ :=
        hWay.partAt_spec hPages hFrom.1 hPage hFrom.2 hLt hOffset hSome
      have hPos := lt_endAt hSome
      obtain ⟨hVisited, hIn⟩ := hWay.visited .first offset hOffset
      have hRange := hPages.range offset base len hVisited hIn hAt
      have hEnd : endAt table offset = base + len := by
        rw [endAt, hAt] at hPos ⊢
        simp only at hPos ⊢
        omega
      refine ⟨hOrder, hLast.trans ?_⟩
      rw [← hEnd]
      exact querySpace_le hPages hWay hOffset (by omega) hSize

/-- The table of page allocations covers all memory that is allocated from: every address of a range
that `mem_add_numa_ranges` registers is below `mem_phys_space_size`, and the index of its page is one
of the table. Where the SRAT can be walked through, the size is found. -/
theorem phys_space_covers_ranges (map : List MmapEntry) (srat : Option Table) (hMap : MapPages map)
    (hSrat : ∀ table, srat = some table → SratPages table) :
    (∀ fuel size s fuel' entries ranges, memCalculatePhysSpaceSize map srat fuel = some size →
      memAddNumaRanges map srat fuel' s = some (.added entries ranges) →
      ∀ range ∈ ranges, ∀ addr, range.start ≤ addr →
        addr < range.start + (range.stop + 2 ^ 64 - range.start) % 2 ^ 64 →
        addr < size ∧ addr / pageSize < size / pageSize) ∧
    ((∀ table, srat = some table → SratWellFormed table) →
      ∃ fuel size, memCalculatePhysSpaceSize map srat fuel = some size) := by
  constructor
  · intro fuel size s fuel' entries ranges hSize hAdd range hMem addr hFrom hTo
    simp only [memAddNumaRanges] at hAdd
    split at hAdd
    · cases hAdd
    · split at hAdd
      · cases hAdd
      · split at hAdd
        · cases hAdd
        · cases hAdd
        next hRanges =>
          simp only [Option.some.injEq, AddResult.added.injEq] at hAdd
          obtain ⟨-, rfl⟩ := hAdd
          obtain ⟨hOrder, hStop⟩ :=
            addRanges_le_space hMap hSrat (alignUp_mod _ _) hSize hRanges hMem
          have hPages : size % pageSize = 0 := by
            obtain ⟨_, -, rfl⟩ := Option.map_eq_some_iff.mp hSize
            exact alignUp_mod _ _
          have hBelow : addr < size := by omega
          refine ⟨hBelow, ?_⟩
          simp only [pageSize] at hPages ⊢
          omega
  · intro hWell
    cases srat with
    | none => exact ⟨0, _, rfl⟩
    | some table =>
        obtain ⟨way, hWay⟩ := (hWell table rfl).walk .first
        obtain ⟨last, hLoop⟩ := hWay.querySpace 0 (Nat.lt_succ_self way.length)
        refine ⟨way.length + 1, Option.isSome_iff_exists.mp ?_⟩
        rw [memCalculatePhysSpaceSize, acpiQueryPhysSpaceSize, hLoop]
        rfl

theorem exampleMap_pages : MapPages exampleMap := by
  constructor
  case aligned => exact exampleMap_stivale2.aligned
  case range => exact exampleMap_stivale2.range
  case roof =>
    intro entry hEntry
    simp only [exampleMap, List.mem_cons, List.not_mem_nil, or_false] at hEntry
    rcases hEntry with rfl | rfl | rfl <;> decide

/-- The SRAT tells of more memory than the memory map; all of the range that is given is covered. -/
theorem phys_space_covers_ranges_srat :
    memCalculatePhysSpaceSize exampleMap (some exampleSrat) 2 = some 0x400000 ∧
      ∀ addr, 0x202000 ≤ addr → addr < 0x300000 →
        addr < 0x400000 ∧ addr / pageSize < 0x400000 / pageSize := by
  have hSize : memCalculatePhysSpaceSize exampleMap (some exampleSrat) 2 = some 0x400000 := rfl
  have hAdd : memAddNumaRanges exampleMap (some exampleSrat) 3 ⟨0x201070, 2, true⟩ =
      some (.added ⟨0x201070, 1152⟩ [⟨0x202000, 0x300000, 0⟩]) := rfl
  refine ⟨hSize, ?_⟩
  intro addr hFrom hTo
  refine (phys_space_covers_ranges exampleMap (some exampleSrat) exampleMap_pages ?_).1 2 _ _ 3 _ _
    hSize hAdd ⟨0x202000, 0x300000, 0⟩ (List.mem_singleton_self _) addr hFrom ?_
  · rintro table hTable
    obtain rfl := Option.some.inj hTable
    exact ⟨exampleSrat_memory.aligned, exampleSrat_memory.range⟩
  · simp only
    omega

end Space

end Ricerca.Bootstrap
