import Ricerca.Mem.BootstrapRanges
import Ricerca.Sys.AcpiWalkers

/-! The ranges that `acpi_numa_get_memory_range` gives for a range of physical memory. Both ends of
a part are rounded to pages only after it was checked that the part is not empty. -/
namespace Ricerca.Bootstrap

open Ricerca.Foundation Ricerca.Acpi

/-- The walk over an SRAT ends, and no memory entry wraps around. -/
structure SratWellFormed (table : Table) : Prop where
  header : sizeofAcpiSrat ≤ hdrLength table
  length : ∀ offset, Visited table offset → sratInside table offset →
    (readByte (sizeofAcpiSrat + offset + 1)).result table ≠ 0
  range : ∀ offset base len, Visited table offset → sratInside table offset →
    memoryAt table offset = some (base, len) → base + len < 2 ^ 64

/-- The proximity domain of a memory entry. -/
def domainAt (table : Table) (offset : Nat) : Nat :=
  (readWord (sizeofAcpiSrat + offset + 2)).result table

/-- An iterator over a range comes to its end and has given these ranges. -/
def Enumerated (srat : Option Table) (rangeStart rangeEnd : Nat) (ranges : List MemoryRange) : Prop :=
  ∃ fuel n, memoryRanges srat fuel rangeStart rangeEnd n 0 = some ranges

/-- A range as `mem_phys_slab_init` needs it; its length is an unsigned difference. -/
structure Proper (rangeStart rangeEnd : Nat) (range : MemoryRange) : Prop where
  above : rangeStart ≤ range.start
  order : range.start ≤ range.stop
  below : range.stop ≤ rangeEnd
  first : range.start % pageSize = 0
  last : range.stop % pageSize = 0
  length : (range.stop + 2 ^ 64 - range.start) % 2 ^ 64 ≤ rangeEnd - rangeStart

/-- Memory of a domain, from one address to another, as the firmware tells. -/
def DomainMemory (srat : Option Table) (domain first last : Nat) : Prop :=
  match srat with
  | none => domain = 0
  | some table => ∃ offset base len, Visited table offset ∧ sratInside table offset ∧
      memoryAt table offset = some (base, len) ∧ domainAt table offset = domain ∧
      base ≤ first ∧ last ≤ base + len

/-- The pages of a domain are those of the ranges that are given for it. -/
def PagesOfDomains (srat : Option Table) (rangeStart rangeEnd : Nat) (ranges : List MemoryRange) :
    Prop :=
  ∀ page domain, page % pageSize = 0 →
    ((∃ range ∈ ranges, range.nodeId = domain ∧ range.start ≤ page ∧ page + pageSize ≤ range.stop) ↔
      rangeStart ≤ page ∧ page + pageSize ≤ rangeEnd ∧
        DomainMemory srat domain page (page + pageSize))

/-- What the ranges of an iterator should be. -/
structure WellEnumerated (srat : Option Table) (rangeStart rangeEnd : Nat)
    (ranges : List MemoryRange) : Prop where
  enumerated : Enumerated srat rangeStart rangeEnd ranges
  proper : ∀ range ∈ ranges, Proper rangeStart rangeEnd range
  pages : PagesOfDomains srat rangeStart rangeEnd ranges

/-- A boundary of pages lies in an interval, or at one of its ends. -/
def HasBoundary (first last : Nat) : Prop := ∃ page, page % pageSize = 0 ∧ first ≤ page ∧ page ≤ last

/-- A boundary of pages lies in every part that the memory entries have of the range, or in the range
where there is no SRAT. -/
def Boundaries (srat : Option Table) (rangeStart rangeEnd : Nat) : Prop :=
  match srat with
  | none => HasBoundary rangeStart rangeEnd
  | some table => ∀ offset base len, Visited table offset → sratInside table offset →
      memoryAt table offset = some (base, len) → rangeStart < base + len → base < rangeEnd →
      HasBoundary (max base rangeStart) (min (base + len) rangeEnd)

section Rounding

variable {val page : Nat}

theorem alignUp_mod (val align : Nat) : alignUp val align % align = 0 := Nat.mul_mod_left _ _

theorem alignDown_mod (val align : Nat) : alignDown val align % align = 0 := Nat.mul_mod_left _ _

/-- Rounding up gives the first boundary from an address on. -/
theorem alignUp_le_iff (hVal : val < 2 ^ 63) (hPage : page % pageSize = 0) :
    alignUp val pageSize ≤ page ↔ val ≤ page := by
  simp only [alignUp, alignDown, pageSize] at hPage ⊢
  omega

/-- Rounding down gives the last boundary up to an address. -/
theorem le_alignDown_iff (hPage : page % pageSize = 0) : page ≤ alignDown val pageSize ↔ page ≤ val := by
  simp only [alignDown, pageSize] at hPage ⊢
  omega

theorem le_alignUp (hVal : val + pageSize ≤ 2 ^ 64) : val ≤ alignUp val pageSize := by
  simp only [alignUp, alignDown, pageSize] at hVal ⊢
  omega

theorem alignDown_le (val : Nat) : alignDown val pageSize ≤ val := Nat.div_mul_le_self _ _

/-- Rounding inwards keeps the ends in order just where there is a boundary between them. -/
theorem alignUp_le_alignDown_iff {first last : Nat} (hFirst : first < 2 ^ 63) :
    alignUp first pageSize ≤ alignDown last pageSize ↔ HasBoundary first last := by
  constructor
  · intro h
    have hUp : first ≤ alignUp first pageSize := le_alignUp (by simp only [pageSize]; omega)
    refine ⟨alignUp first pageSize, alignUp_mod _ _, hUp, ?_⟩
    exact (le_alignDown_iff (alignUp_mod _ _)).mp h
  · rintro ⟨page, hPage, hFrom, hTo⟩
    exact ((alignUp_le_iff hFirst hPage).mpr hFrom).trans ((le_alignDown_iff hPage).mpr hTo)

end Rounding

section Parts

variable {rangeStart rangeEnd first last domain : Nat}

/-- A part that is rounded inwards is as it should be just where it has a boundary. -/
theorem proper_iff (hStart : rangeStart ≤ first) (hEnd : last ≤ rangeEnd) (hLt : rangeEnd < 2 ^ 63)
    (hFirst : first ≤ rangeEnd) :
    Proper rangeStart rangeEnd ⟨alignUp first pageSize, alignDown last pageSize, domain⟩ ↔
      HasBoundary first last := by
  have hSmall : first < 2 ^ 63 := hFirst.trans_lt hLt
  have hUp : first ≤ alignUp first pageSize := le_alignUp (by simp only [pageSize]; omega)
  have hDown := alignDown_le last
  rw [← alignUp_le_alignDown_iff hSmall]
  constructor
  · exact fun h => h.order
  · intro h
    constructor
    case above => exact hStart.trans hUp
    case order => exact h
    case below => exact hDown.trans hEnd
    case first => exact alignUp_mod _ _
    case last => exact alignDown_mod _ _
    case length =>
      simp only
      omega

/-- A page is in a part that is rounded inwards if it is in the part. -/
theorem page_in_part_iff {page : Nat} (hFirst : first < 2 ^ 63) (hPage : page % pageSize = 0) :
    alignUp first pageSize ≤ page ∧ page + pageSize ≤ alignDown last pageSize ↔
      first ≤ page ∧ page + pageSize ≤ last := by
  rw [alignUp_le_iff hFirst hPage, le_alignDown_iff (by rw [Nat.add_mod_right]; exact hPage)]

/-- The part of a range that is in an entry which does not wrap around. -/
theorem clip_eq {base len : Nat} (hRange : base + len < 2 ^ 64) :
    clip rangeStart rangeEnd base len domain =
      if rangeStart < base + len ∧ base < rangeEnd then
        some ⟨alignUp (max base rangeStart) pageSize, alignDown (min (base + len) rangeEnd) pageSize,
          domain⟩
      else none := by
  have hMax : (if base < rangeStart then rangeStart else base) = max base rangeStart := by
    split_ifs <;> omega
  have hMin : (if rangeEnd < base + len then rangeEnd else base + len) =
      min (base + len) rangeEnd := by
    split_ifs <;> omega
  simp only [clip]
  rw [Nat.mod_eq_of_lt hRange, hMax, hMin]
  split_ifs with hApart hMeet hMeet
  · omega
  · rfl
  · rfl
  · omega

end Parts

section Walks

variable {table : Table} {offset : Nat} {way : List Nat}

/-- A table that is well formed is walked to its end. -/
theorem SratWellFormed.walk (h : SratWellFormed table) (hVisited : Visited table offset) :
    ∃ way, Walk table offset way := by
  have hLength := hdrLength_lt table
  induction hLeft : hdrLength table - offset using Nat.strong_induction_on generalizing offset with
  | _ left ih =>
      by_cases hIn : sratInside table offset
      · have hNonzero := h.length offset hVisited hIn
        have hByte := UInt8.toNat_lt ((readByte (sizeofAcpiSrat + offset + 1)).result table)
        have hPos : 0 < ((readByte (sizeofAcpiSrat + offset + 1)).result table).toNat := by
          rw [Nat.pos_iff_ne_zero]
          intro hZero
          exact hNonzero (UInt8.toNat_inj.mp hZero)
        have hBelow := (sratInside_iff h.header offset).mp hIn
        simp only [sizeofAcpiSrat] at hBelow
        have hNext : nextOffset table offset =
            offset + ((readByte (sizeofAcpiSrat + offset + 1)).result table).toNat := by
          rw [nextOffset, Nat.mod_eq_of_lt (by omega)]
        obtain ⟨way, hWay⟩ := ih _ (by omega) (.next hVisited hIn) rfl
        exact ⟨_, .step hIn hWay⟩
      · exact ⟨[], .done hIn⟩

/-- The walk from the first entry comes to every entry. -/
theorem Walk.mem_of_visited (h : Walk table 0 way) (hVisited : Visited table offset)
    (hIn : sratInside table offset) : offset ∈ way := by
  have hSuffix : ∃ rest, Walk table offset rest ∧ rest ⊆ way := by
    clear hIn
    induction hVisited with
    | first => exact ⟨way, h, List.Subset.refl _⟩
    | next _ hIn ih =>
        obtain ⟨rest, hRest, hSubset⟩ := ih
        cases hRest with
        | done hOut => exact (hOut hIn).elim
        | step _ rest => exact ⟨_, rest, fun _ hMem => hSubset (List.mem_cons_of_mem _ hMem)⟩
  obtain ⟨rest, hRest, hSubset⟩ := hSuffix
  cases hRest with
  | done hOut => exact (hOut hIn).elim
  | step _ _ => exact hSubset List.mem_cons_self

end Walks

section Ranges

variable {srat : Option Table} {rangeStart rangeEnd : Nat} {ranges : List MemoryRange}

/-- An iterator always comes to its end. -/
theorem exists_enumerated (hWell : ∀ table, srat = some table → SratWellFormed table) :
    ∃ ranges, Enumerated srat rangeStart rangeEnd ranges := by
  cases srat with
  | none => exact ⟨_, 0, 2, rfl⟩
  | some table =>
      obtain ⟨way, hWay⟩ := (hWell table rfl).walk .first
      obtain ⟨ranges, hRanges⟩ := Option.isSome_iff_exists.mp
        (hWay.memoryRanges_returns (Nat.lt_succ_self _) (Nat.lt_succ_self _))
      exact ⟨ranges, _, _, hRanges⟩

theorem Enumerated.eq_of_none (h : Enumerated none rangeStart rangeEnd ranges) :
    ranges = [⟨alignUp rangeStart pageSize, alignDown rangeEnd pageSize, 0⟩] := by
  obtain ⟨fuel, n, hRanges⟩ := h
  exact memoryRanges_none hRanges

/-- The ranges are the parts that memory entries have of the range. -/
theorem Enumerated.mem_iff {table : Table} (hWell : SratWellFormed table)
    (h : Enumerated (some table) rangeStart rangeEnd ranges) {range : MemoryRange} :
    range ∈ ranges ↔ ∃ offset base len, Visited table offset ∧ sratInside table offset ∧
      memoryAt table offset = some (base, len) ∧ rangeStart < base + len ∧ base < rangeEnd ∧
      range = ⟨alignUp (max base rangeStart) pageSize, alignDown (min (base + len) rangeEnd) pageSize,
        domainAt table offset⟩ := by
  obtain ⟨fuel, n, hRanges⟩ := h
  obtain ⟨way, hWay, rfl⟩ := walk_of_memoryRanges hRanges
  rw [List.mem_filterMap]
  constructor
  · rintro ⟨offset, hMem, hPart⟩
    obtain ⟨hVisited, hIn⟩ := hWay.visited .first offset hMem
    obtain ⟨⟨base, len⟩, hAt, hClip⟩ := Option.bind_eq_some_iff.mp hPart
    rw [clip_eq (hWell.range offset base len hVisited hIn hAt)] at hClip
    split_ifs at hClip with hMeet
    exact ⟨offset, base, len, hVisited, hIn, hAt, hMeet.1, hMeet.2, (Option.some.inj hClip).symm⟩
  · rintro ⟨offset, base, len, hVisited, hIn, hAt, hStart, hEnd, rfl⟩
    refine ⟨offset, hWay.mem_of_visited hVisited hIn, ?_⟩
    rw [partAt, hAt, Option.bind_some, clip_eq (hWell.range offset base len hVisited hIn hAt),
      if_pos ⟨hStart, hEnd⟩]
    rfl

/-- The pages of a domain that are in the range are given, and no others. -/
theorem Enumerated.pages (hWell : ∀ table, srat = some table → SratWellFormed table)
    (hLe : rangeStart ≤ rangeEnd) (hLt : rangeEnd < 2 ^ 63)
    (h : Enumerated srat rangeStart rangeEnd ranges) : PagesOfDomains srat rangeStart rangeEnd ranges := by
  intro page domain hPage
  cases srat with
  | none =>
      obtain rfl := h.eq_of_none
      have hPart := @page_in_part_iff rangeStart rangeEnd page (by omega) hPage
      simp only [List.mem_singleton, exists_eq_left, DomainMemory, hPart]
      tauto
  | some table =>
      have hTable := hWell table rfl
      constructor
      · rintro ⟨range, hMem, rfl, hFrom, hTo⟩
        obtain ⟨offset, base, len, hVisited, hIn, hAt, hStart, hEnd, rfl⟩ := (h.mem_iff hTable).mp hMem
        obtain ⟨hFirst, hLast⟩ := (page_in_part_iff (by omega) hPage).mp ⟨hFrom, hTo⟩
        exact ⟨by omega, by omega, offset, base, len, hVisited, hIn, hAt, rfl, by omega, by omega⟩
      · rintro ⟨hFrom, hTo, offset, base, len, hVisited, hIn, hAt, rfl, hBase, hStop⟩
        have hSize : 0 < pageSize := by decide
        refine ⟨_, (h.mem_iff hTable).mpr ⟨offset, base, len, hVisited, hIn, hAt, by omega, by omega,
          rfl⟩, rfl, ?_⟩
        exact (page_in_part_iff (by omega) hPage).mpr ⟨by omega, by omega⟩

/-- The ranges are as they should be just where every part has a boundary of pages. -/
theorem Enumerated.proper_iff (hWell : ∀ table, srat = some table → SratWellFormed table)
    (hLe : rangeStart ≤ rangeEnd) (hLt : rangeEnd < 2 ^ 63)
    (h : Enumerated srat rangeStart rangeEnd ranges) :
    (∀ range ∈ ranges, Proper rangeStart rangeEnd range) ↔ Boundaries srat rangeStart rangeEnd := by
  cases srat with
  | none =>
      obtain rfl := h.eq_of_none
      rw [List.forall_mem_singleton]
      exact Bootstrap.proper_iff (Nat.le_refl _) (Nat.le_refl _) hLt hLe
  | some table =>
      have hTable := hWell table rfl
      constructor
      · intro hProper offset base len hVisited hIn hAt hStart hEnd
        have hMem := (h.mem_iff hTable).mpr ⟨offset, base, len, hVisited, hIn, hAt, hStart, hEnd, rfl⟩
        exact (Bootstrap.proper_iff (by omega) (by omega) hLt (by omega)).mp (hProper _ hMem)
      · intro hBoundaries range hMem
        obtain ⟨offset, base, len, hVisited, hIn, hAt, hStart, hEnd, rfl⟩ := (h.mem_iff hTable).mp hMem
        apply (Bootstrap.proper_iff (by omega) (by omega) hLt (by omega)).mpr
        exact hBoundaries offset base len hVisited hIn hAt hStart hEnd

/-- An iterator gives proper ranges, with exactly the pages of their domains, if and only if every part
of the range that it finds has a boundary of pages in it. -/
theorem numa_ranges_iff (hWell : ∀ table, srat = some table → SratWellFormed table)
    (hLe : rangeStart ≤ rangeEnd) (hLt : rangeEnd < 2 ^ 63) :
    (∃ ranges, WellEnumerated srat rangeStart rangeEnd ranges) ↔ Boundaries srat rangeStart rangeEnd := by
  constructor
  · rintro ⟨ranges, h⟩
    exact (h.enumerated.proper_iff hWell hLe hLt).mp h.proper
  · intro hBoundaries
    obtain ⟨ranges, h⟩ := @exists_enumerated srat rangeStart rangeEnd hWell
    exact ⟨ranges, h, (h.proper_iff hWell hLe hLt).mpr hBoundaries, h.pages hWell hLe hLt⟩

theorem exampleSrat_wellFormed : SratWellFormed exampleSrat := by
  constructor
  case header => decide
  case length =>
    intro offset h hIn
    obtain rfl := exampleSrat_entry h hIn
    decide
  case range =>
    intro offset base len h hIn hAt
    obtain rfl := exampleSrat_entry h hIn
    obtain ⟨rfl, rfl⟩ := Prod.mk.inj (Option.some.inj
      (hAt.symm.trans (show memoryAt exampleSrat 0 = some (0, 0x400000) by rfl)))
    omega

/-- The range begins and ends inside of pages, but there are boundaries in it. -/
theorem numa_ranges_iff_inward : ∃ ranges,
    WellEnumerated (some exampleSrat) 0x1800 0x5800 ranges := by
  apply (numa_ranges_iff (fun table hTable => Option.some.inj hTable ▸ exampleSrat_wellFormed)
    (by omega) (by omega)).mpr
  intro offset base len h hIn hAt _ _
  obtain rfl := exampleSrat_entry h hIn
  obtain ⟨rfl, rfl⟩ := Prod.mk.inj (Option.some.inj
    (hAt.symm.trans (show memoryAt exampleSrat 0 = some (0, 0x400000) by rfl)))
  exact ⟨0x2000, rfl, by omega, by omega⟩

/-- Half a page is given as a range that ends before it starts. -/
theorem numa_range_ends_before_start : Enumerated none 0x1400 0x1c00 [⟨0x2000, 0x1000, 0⟩] ∧
    (0x1000 + 2 ^ 64 - 0x2000) % 2 ^ 64 = 0xfffffffffffff000 ∧
    ¬ ∃ ranges, WellEnumerated none 0x1400 0x1c00 ranges := by
  have hRange : Enumerated none 0x1400 0x1c00 [⟨0x2000, 0x1000, 0⟩] := ⟨0, 2, rfl⟩
  refine ⟨hRange, by omega, ?_⟩
  rintro ⟨ranges, h⟩
  have hSame := h.enumerated.eq_of_none
  have hOrder := (h.proper _ (hSame ▸ List.mem_singleton.mpr rfl)).order
  revert hOrder
  decide

end Ranges

section Pool

variable {map : List MmapEntry} {srat : Option Table} {border left fuel : Nat}

/-- No more ranges are added than there are objects for. -/
theorem addRanges_length_le {ranges : List MemoryRange}
    (hAdd : addRanges srat fuel border map left = some (some ranges)) : ranges.length ≤ left := by
  induction map generalizing left ranges with
  | nil =>
      simp only [addRanges, Option.some.injEq] at hAdd
      rw [← hAdd]
      exact Nat.zero_le _
  | cons entry map ih =>
      simp only [addRanges] at hAdd
      split at hAdd
      · exact ih hAdd
      · split at hAdd
        · cases hAdd
        next here _ =>
          split_ifs at hAdd with hFits
          · simp only [Option.map_eq_some_iff] at hAdd
            obtain ⟨_, hRest, rest, rfl, rfl⟩ := hAdd
            have hLater := ih hRest
            rw [List.length_append]
            omega
          · cases hAdd

/-- The iterators over all entries of a memory map come to their ends. -/
theorem exists_fuel (hWell : ∀ table, srat = some table → SratWellFormed table) :
    ∃ fuel, ∀ rangeStart rangeEnd, (memoryRanges srat fuel rangeStart rangeEnd fuel 0).isSome := by
  cases srat with
  | none => exact ⟨2, fun _ _ => rfl⟩
  | some table =>
      obtain ⟨way, hWay⟩ := (hWell table rfl).walk .first
      exact ⟨way.length + 1, fun _ _ =>
        hWay.memoryRanges_returns (Nat.lt_succ_self _) (Nat.lt_succ_self _)⟩

/-- The second pass over the memory map, from a border on, finds no more ranges than the first pass
has counted; the two passes end, and the assertion on the number of objects holds. -/
theorem boot_ranges_fit (hWell : ∀ table, srat = some table → SratWellFormed table)
    (map : List MmapEntry) (border : Nat) :
    (∃ fuel numEntries ranges, memEstimateBootRangesUpperBound srat fuel map = some numEntries ∧
      addRanges srat fuel border map numEntries = some (some ranges)) ∧
    ∀ fuel fuel' numEntries result, memEstimateBootRangesUpperBound srat fuel map = some numEntries →
      addRanges srat fuel' border map numEntries = some result →
      ∃ ranges, result = some ranges ∧ ranges.length ≤ numEntries := by
  have hFits : ∀ fuel fuel' numEntries result,
      memEstimateBootRangesUpperBound srat fuel map = some numEntries →
      addRanges srat fuel' border map numEntries = some result →
      ∃ ranges, result = some ranges ∧ ranges.length ≤ numEntries := by
    intro fuel fuel' numEntries result hEstimate hAdd
    cases result with
    | none => exact (addRanges_ne_assertFailed hEstimate (Nat.le_refl _) hAdd).elim
    | some ranges => exact ⟨ranges, rfl, addRanges_length_le hAdd⟩
  refine ⟨?_, hFits⟩
  obtain ⟨fuel, hReturn⟩ := exists_fuel hWell
  have hAll : ∀ entry ∈ map, entry.usable → ∀ rangeStart,
      (memoryRanges srat fuel rangeStart entry.stop fuel 0).isSome :=
    fun entry _ _ rangeStart => hReturn rangeStart entry.stop
  obtain ⟨numEntries, hEstimate⟩ := Option.isSome_iff_exists.mp (addRanges_returns border 0 hAll).1
  obtain ⟨result, hAdd⟩ := Option.isSome_iff_exists.mp (addRanges_returns border numEntries hAll).2
  obtain ⟨ranges, rfl, -⟩ := hFits fuel fuel numEntries result hEstimate hAdd
  exact ⟨fuel, numEntries, ranges, hEstimate, hAdd⟩

/-- Of the entries of a memory map, one range is counted in each usable one, and one is left above
the border. -/
theorem boot_ranges_fit_border :
    memEstimateBootRangesUpperBound (some exampleSrat) 3 exampleMap = some 2 ∧
      ∃ ranges : List MemoryRange,
        addRanges (some exampleSrat) 3 0x202000 exampleMap 2 = some (some ranges) ∧
        ranges.length ≤ 2 := by
  have hEstimate : memEstimateBootRangesUpperBound (some exampleSrat) 3 exampleMap = some 2 := rfl
  have hAdd : addRanges (some exampleSrat) 3 0x202000 exampleMap 2 =
      some (some [⟨0x202000, 0x300000, 0⟩]) := rfl
  obtain ⟨ranges, hRanges, hLength⟩ := (boot_ranges_fit (fun table hTable =>
    Option.some.inj hTable ▸ exampleSrat_wellFormed) exampleMap 0x202000).2 3 3 2 _ hEstimate hAdd
  rw [hRanges] at hAdd
  exact ⟨hEstimate, ranges, hAdd, hLength⟩

end Pool

end Ricerca.Bootstrap
