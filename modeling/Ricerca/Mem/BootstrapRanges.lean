import Ricerca.Mem.Bootstrap

/-! Bootstrap memory is never given to the page allocator. The border only moves up, every
allocation ends below it, and every range begins above it. -/
namespace Ricerca.Bootstrap

open Ricerca.Foundation Ricerca.Acpi

theorem alignUp_eq {val align : Nat} (hPos : 0 < align) (hVal : val % align = 0)
    (hLt : val + align ≤ 2 ^ 64) : alignUp val align = val := by
  obtain ⟨k, rfl⟩ := Nat.dvd_of_mod_eq_zero hVal
  have hMod : (align * k + align - 1) % 2 ^ 64 = align * k + (align - 1) := by
    rw [Nat.mod_eq_of_lt (by omega)]
    omega
  rw [alignUp, alignDown, hMod, Nat.mul_add_div hPos, Nat.div_eq_of_lt (by omega), Nat.add_zero,
    Nat.mul_comm]

theorem alignDown_eq {val align : Nat} (hVal : val % align = 0) : alignDown val align = val :=
  Nat.div_mul_cancel (Nat.dvd_of_mod_eq_zero hVal)

section Allocations

variable {map : List MmapEntry}

/-- The border is below some page boundary, so rounding it up does not wrap around. -/
structure State.Valid (s : State) : Prop where
  aligned : s.borderOffset % 16 = 0
  low : physLow ≤ s.borderOffset
  roof : ∃ page, page % pageSize = 0 ∧ page < 2 ^ 64 ∧ s.borderOffset ≤ page

theorem initial_valid : initial.Valid :=
  ⟨rfl, Nat.le_refl _, physLow, rfl, by decide, Nat.le_refl _⟩

/-- An entry that ends above the border does not end at the end of all addresses. -/
theorem MmapEntry.stop_eq {entry : MmapEntry} (hBase : entry.base % pageSize = 0)
    (hLength : entry.length % pageSize = 0) (hRange : entry.base + entry.length ≤ 2 ^ 64) {border : Nat}
    (hAbove : border < entry.stop) :
    entry.stop = entry.base + entry.length ∧ entry.stop < 2 ^ 64 ∧ entry.stop % pageSize = 0 ∧
      entry.base % pageSize = 0 := by
  rw [MmapEntry.stop] at hAbove ⊢
  simp only [pageSize] at hBase hLength ⊢
  omega

theorem Stivale2Map.stop_eq (h : Stivale2Map map) {entry : MmapEntry} (hEntry : entry ∈ map)
    (hUsable : entry.usable) {border : Nat} (hAbove : border < entry.stop) :
    entry.stop = entry.base + entry.length ∧ entry.stop < 2 ^ 64 ∧ entry.stop % pageSize = 0 ∧
      entry.base % pageSize = 0 := by
  obtain ⟨hBase, hLength⟩ := h.aligned entry hEntry hUsable
  exact MmapEntry.stop_eq hBase hLength (h.range entry hEntry hUsable) hAbove

/-- An allocation as it should be. -/
structure Placed (map : List MmapEntry) (a : Allocation) : Prop where
  aligned : a.addr % 16 = 0
  low : physLow ≤ a.addr
  inside : ∃ entry ∈ map, entry.usable ∧ entry.base ≤ a.addr ∧
    a.addr + a.size ≤ entry.base + entry.length

/-- The border moves up to the beginning of an entry, never down. -/
theorem border_eq {entry : MmapEntry} {border : Nat} (hBase : entry.base % pageSize = 0)
    (hLt : entry.base < 2 ^ 64) :
    (if border < entry.base then alignUp entry.base 16 else border) = max border entry.base := by
  simp only [pageSize] at hBase
  split_ifs with hBelow
  · rw [alignUp_eq (by omega) (by omega) (by omega)]
    omega
  · omega

theorem allocFrom_spec (hMap : Stivale2Map map) {realSize left addr : Nat} {s s' : State}
    (hSize : realSize % 16 = 0) (hs : s.Valid)
    (hAlloc : allocFrom map realSize left s = some (addr, s')) :
    s'.Valid ∧ s.borderOffset ≤ addr ∧ s'.borderOffset = addr + realSize ∧
      Placed map ⟨addr, realSize⟩ := by
  induction left generalizing s with
  | zero => cases hAlloc
  | succ left ih =>
      simp only [allocFrom] at hAlloc
      split at hAlloc
      · cases hAlloc
      next entry hEntry =>
        have hMem := List.mem_of_getElem? hEntry
        by_cases hSkip : entry.usable = false ∨ entry.stop ≤ s.borderOffset
        · rw [if_pos hSkip] at hAlloc
          exact ih (s := { s with memmapIndex := s.memmapIndex + 1 })
            ⟨hs.aligned, hs.low, hs.roof⟩ hAlloc
        · rw [if_neg hSkip] at hAlloc
          simp only [not_or, Bool.not_eq_false, not_le] at hSkip
          obtain ⟨hStop, hLt, hPage, hBase⟩ := hMap.stop_eq hMem hSkip.1 hSkip.2
          rw [border_eq hBase (by omega)] at hAlloc
          have hLow := hs.low
          have hAligned := hs.aligned
          have hBaseAligned : entry.base % 16 = 0 := by
            simp only [pageSize] at hBase
            omega
          have hBorder : max s.borderOffset entry.base ≤ entry.stop := by omega
          have hRest : (entry.stop + 2 ^ 64 - max s.borderOffset entry.base) % 2 ^ 64 =
              entry.stop - max s.borderOffset entry.base := by omega
          have hMax : max s.borderOffset entry.base % 16 = 0 := by omega
          rw [hRest] at hAlloc
          split_ifs at hAlloc with hFits
          · simp only [Option.some.injEq, Prod.mk.injEq] at hAlloc
            obtain ⟨rfl, rfl⟩ := hAlloc
            have hEnd : (max s.borderOffset entry.base + realSize) % 2 ^ 64 =
                max s.borderOffset entry.base + realSize := Nat.mod_eq_of_lt (by omega)
            have hEndAligned : (max s.borderOffset entry.base + realSize) % 16 = 0 := by omega
            have hInside : max s.borderOffset entry.base + realSize ≤ entry.stop := by omega
            have hFromLow := hLow.trans (le_max_left s.borderOffset entry.base)
            rw [hEnd]
            exact ⟨⟨hEndAligned, hFromLow.trans (Nat.le_add_right _ _), entry.stop, hPage, hLt, hInside⟩,
              le_max_left _ _, rfl, hMax, hFromLow, entry, hMem, hSkip.1, le_max_right _ _,
              hInside.trans_eq hStop⟩
          · obtain ⟨hValid, hFrom, hRest'⟩ := ih
              (s := ⟨max s.borderOffset entry.base, s.memmapIndex + 1, s.usable⟩)
              ⟨hMax, hLow.trans (le_max_left _ _), entry.stop, hPage, hLt, hBorder⟩ hAlloc
            exact ⟨hValid, (le_max_left _ _).trans hFrom, hRest'⟩

theorem memBootstrapAlloc_spec (hMap : Stivale2Map map) {size : Nat} {s s' : State} {a : Allocation}
    (hSize : size < 2 ^ 63) (hs : s.Valid) (hAlloc : memBootstrapAlloc map s size = some (a, s')) :
    s'.Valid ∧ s.borderOffset ≤ a.addr ∧ a.addr + a.size ≤ s'.borderOffset ∧ a.size = size ∧
      Placed map a := by
  rw [memBootstrapAlloc] at hAlloc
  split_ifs at hAlloc
  simp only [Option.map_eq_some_iff, Prod.mk.injEq] at hAlloc
  obtain ⟨⟨addr, s''⟩, hFrom, rfl, rfl⟩ := hAlloc
  have hReal : size ≤ alignUp size 16 ∧ alignUp size 16 % 16 = 0 := by
    rw [alignUp, alignDown, Nat.mod_eq_of_lt (by omega)]
    omega
  obtain ⟨hValid, hBelow, hBorder, hPlaced⟩ := allocFrom_spec hMap hReal.2 hs hFrom
  refine ⟨hValid, hBelow, ?_, rfl, hPlaced.aligned, hPlaced.low, ?_⟩
  · rw [hBorder]
    simp only
    omega
  · obtain ⟨entry, hMem, hUsable, hFirst, hLast⟩ := hPlaced.inside
    refine ⟨entry, hMem, hUsable, hFirst, ?_⟩
    simp only at hLast ⊢
    omega

/-- Allocations follow on each other upwards. -/
theorem memBootstrapAllocs_spec (hMap : Stivale2Map map) {sizes : List Nat} {s s' : State}
    {allocations : List Allocation} (hSizes : ∀ size ∈ sizes, size < 2 ^ 63) (hs : s.Valid)
    (hAllocs : memBootstrapAllocs map s sizes = some (allocations, s')) :
    s'.Valid ∧ s.borderOffset ≤ s'.borderOffset ∧
      (∀ a ∈ allocations, Placed map a ∧ s.borderOffset ≤ a.addr ∧
        a.addr + a.size ≤ s'.borderOffset) ∧
      allocations.Pairwise fun a b => a.addr + a.size ≤ b.addr := by
  induction sizes generalizing s allocations with
  | nil =>
      simp only [memBootstrapAllocs, Option.some.injEq, Prod.mk.injEq] at hAllocs
      obtain ⟨rfl, rfl⟩ := hAllocs
      exact ⟨hs, Nat.le_refl _, by simp, .nil⟩
  | cons size sizes ih =>
      simp only [memBootstrapAllocs] at hAllocs
      split at hAllocs
      · cases hAllocs
      next a s₁ hFirst =>
        simp only [Option.map_eq_some_iff, Prod.mk.injEq] at hAllocs
        obtain ⟨⟨rest, s₂⟩, hRest, rfl, rfl⟩ := hAllocs
        obtain ⟨hValid, hFrom, hTo, -, hPlaced⟩ :=
          memBootstrapAlloc_spec hMap (hSizes size (by simp)) hs hFirst
        obtain ⟨hEnd, hLater, hAll, hApart⟩ :=
          ih (fun other hOther => hSizes other (by simp [hOther])) hValid hRest
        simp only at hEnd hLater hAll hApart ⊢
        refine ⟨hEnd, by omega, ?_, List.pairwise_cons.mpr ⟨?_, hApart⟩⟩
        · intro b hb
          rcases List.mem_cons.mp hb with rfl | hb
          · exact ⟨hPlaced, hFrom, by omega⟩
          · obtain ⟨hGood, hAbove, hBelow⟩ := hAll b hb
            exact ⟨hGood, by omega, hBelow⟩
        · intro b hb
          exact hTo.trans (hAll b hb).2.1

end Allocations

section Walks

variable {table : Table} {rangeStart rangeEnd offset : Nat} {way : List Nat}

/-- The part of a range that an entry of an SRAT describes. -/
def partAt (table : Table) (rangeStart rangeEnd offset : Nat) : Option MemoryRange :=
  (memoryAt table offset).bind fun memory =>
    clip rangeStart rangeEnd memory.1 memory.2
      ((readWord (sizeofAcpiSrat + offset + 2)).result table)

theorem visitMemory_result :
    (visitMemory rangeStart rangeEnd ((readByte (sizeofAcpiSrat + offset)).result table)
      (sizeofAcpiSrat + offset) ()).result table =
      match partAt table rangeStart rangeEnd offset with
      | none => .again ()
      | some part => .stop (some part, ()) := by
  simp only [visitMemory, partAt, memoryAt, Reading.result_ite, Reading.result_bind,
    Reading.result_pure]
  by_cases hType : (readByte (sizeofAcpiSrat + offset)).result table = acpiSratMemEntry
  · by_cases hFlags :
        (readWord (sizeofAcpiSrat + offset + 28)).result table &&& 1 = 0
    · rw [if_pos hType, if_pos hFlags, if_neg (by tauto)]
      rfl
    · rw [if_pos hType, if_neg hFlags, if_pos ⟨hType, hFlags⟩]
      rfl
  · rw [if_neg hType, if_neg (by tauto)]
    rfl

/-- One round of `acpi_numa_get_memory_range`. -/
theorem getMemoryRange_round :
    (acpiNumaGetMemoryRange table rangeStart rangeEnd (offset, ())).result table =
      if sratInside table offset then
        match partAt table rangeStart rangeEnd offset with
        | none => .again (nextOffset table offset, ())
        | some part => .stop (some part, (nextOffset table offset, ()))
      else .stop (none, (offset, ())) := by
  rw [acpiNumaGetMemoryRange, sratRound, walkRound]
  split_ifs with hIn
  · simp only [Reading.result_bind, Reading.result_pure, visitMemory_result]
    cases partAt table rangeStart rangeEnd offset <;> rfl
  · rfl

/-- The offsets of the entries from one of them on, to the end of the table. -/
inductive Walk (table : Table) : Nat → List Nat → Prop where
  | done {offset : Nat} (hOut : ¬ sratInside table offset) : Walk table offset []
  | step {offset : Nat} {way : List Nat} (hIn : sratInside table offset)
      (rest : Walk table (nextOffset table offset) way) : Walk table offset (offset :: way)

theorem Walk.unique {way' : List Nat} (h : Walk table offset way) (h' : Walk table offset way') :
    way = way' := by
  induction h generalizing way' with
  | done hOut =>
      cases h' with
      | done _ => rfl
      | step hIn _ => exact (hOut hIn).elim
  | step hIn _ ih =>
      cases h' with
      | done hOut => exact (hOut hIn).elim
      | step _ rest => rw [ih rest]

theorem Walk.of_mem {other : Nat} (h : Walk table offset way) (hMem : other ∈ way) :
    ∃ rest, Walk table other rest ∧ rest.length ≤ way.length := by
  induction h with
  | done _ => cases hMem
  | step hIn rest ih =>
      rcases List.mem_cons.mp hMem with rfl | hMem
      · exact ⟨_, .step hIn rest, Nat.le_refl _⟩
      · obtain ⟨way, hWay, hLength⟩ := ih hMem
        exact ⟨way, hWay, hLength.trans (Nat.le_succ _)⟩

/-- A walk that ends comes to no entry twice. -/
theorem Walk.nodup (h : Walk table offset way) : way.Nodup := by
  induction h with
  | done _ => exact .nil
  | @step offset way hIn rest ih =>
      refine List.nodup_cons.mpr ⟨?_, ih⟩
      intro hMem
      obtain ⟨again, hAgain, hLength⟩ := rest.of_mem hMem
      have hSame := hAgain.unique (.step hIn rest)
      rw [hSame, List.length_cons] at hLength
      omega

theorem Walk.visited (h : Walk table offset way) (hStart : Visited table offset) :
    ∀ other ∈ way, Visited table other ∧ sratInside table other := by
  induction h with
  | done _ => simp
  | step hIn _ ih =>
      intro other hMem
      rcases List.mem_cons.mp hMem with rfl | hMem
      · exact ⟨hStart, hIn⟩
      · exact ih (.next hStart hIn) other hMem

/-- A call has walked to the end, or to the first entry that gives a range. -/
theorem walk_of_call {fuel last : Nat} {result : Option MemoryRange}
    (hCall : getMemoryRange (some table) fuel rangeStart rangeEnd offset = some (result, last)) :
    (result = none → Walk table last []) ∧ ∀ rest, Walk table last rest →
      ∃ way, Walk table offset way ∧ way.filterMap (partAt table rangeStart rangeEnd) =
        result.toList ++ rest.filterMap (partAt table rangeStart rangeEnd) := by
  simp only [getMemoryRange, Option.map_eq_some_iff, Prod.mk.injEq] at hCall
  obtain ⟨⟨r, last', u⟩, hLoop, rfl, rfl⟩ := hCall
  induction fuel generalizing offset with
  | zero => cases hLoop
  | succ fuel ih =>
      rw [Reading.result_loop_succ, getMemoryRange_round] at hLoop
      split_ifs at hLoop with hIn
      · cases hPart : partAt table rangeStart rangeEnd offset with
        | none =>
            rw [hPart] at hLoop
            obtain ⟨hEnd, hWalk⟩ := ih hLoop
            refine ⟨hEnd, ?_⟩
            intro rest hRest
            obtain ⟨way, hWay, hParts⟩ := hWalk rest hRest
            exact ⟨offset :: way, .step hIn hWay, by rw [List.filterMap_cons_none hPart, hParts]⟩
        | some part =>
            rw [hPart] at hLoop
            simp only [Option.some.injEq, Prod.mk.injEq] at hLoop
            obtain ⟨rfl, rfl, -⟩ := hLoop
            refine ⟨by simp, ?_⟩
            intro rest hRest
            exact ⟨offset :: rest, .step hIn hRest, List.filterMap_cons_some hPart⟩
      · simp only [Option.some.injEq, Prod.mk.injEq] at hLoop
        obtain ⟨rfl, rfl, -⟩ := hLoop
        exact ⟨fun _ => .done hIn, fun rest hRest => ⟨rest, hRest, rfl⟩⟩

/-- The calls of an iterator give the parts that the entries describe, in their order. -/
theorem walk_of_memoryRanges {fuel n : Nat} {ranges : List MemoryRange}
    (hRanges : memoryRanges (some table) fuel rangeStart rangeEnd n offset = some ranges) :
    ∃ way, Walk table offset way ∧
      ranges = way.filterMap (partAt table rangeStart rangeEnd) := by
  induction n generalizing offset ranges with
  | zero => cases hRanges
  | succ n ih =>
      simp only [memoryRanges] at hRanges
      split at hRanges
      · cases hRanges
      next hCall =>
        obtain ⟨hEnd, hWalk⟩ := walk_of_call hCall
        obtain ⟨way, hWay, hNone⟩ := hWalk [] (hEnd rfl)
        exact ⟨way, hWay, by rw [hNone, ← Option.some.inj hRanges]; rfl⟩
      next part last hCall =>
        rw [Option.map_eq_some_iff] at hRanges
        obtain ⟨rest, hRest, rfl⟩ := hRanges
        obtain ⟨wayRest, hWalk, rfl⟩ := ih hRest
        obtain ⟨way, hWay, hSome⟩ := (walk_of_call hCall).2 wayRest hWalk
        exact ⟨way, hWay, hSome.symm⟩

/-- Enough rounds for the rest of the table are enough for one call. -/
theorem Walk.getMemoryRange_returns (h : Walk table offset way) {fuel : Nat}
    (hFuel : way.length < fuel) :
    (∃ last, getMemoryRange (some table) fuel rangeStart rangeEnd offset = some (none, last)) ∨
    ∃ part last rest, getMemoryRange (some table) fuel rangeStart rangeEnd offset =
      some (some part, last) ∧ Walk table last rest ∧ rest.length < way.length := by
  induction h generalizing fuel with
  | @done offset hOut =>
      obtain ⟨fuel, rfl⟩ := Nat.exists_eq_succ_of_ne_zero (Nat.ne_zero_of_lt hFuel)
      refine .inl ⟨offset, ?_⟩
      rw [getMemoryRange, Reading.result_loop_succ, getMemoryRange_round, if_neg hOut]
      rfl
  | @step offset way hIn rest ih =>
      obtain ⟨fuel, rfl⟩ := Nat.exists_eq_succ_of_ne_zero (Nat.ne_zero_of_lt hFuel)
      rw [List.length_cons] at hFuel
      simp only [getMemoryRange, Reading.result_loop_succ, getMemoryRange_round, if_pos hIn]
        at ih ⊢
      cases hPart : partAt table rangeStart rangeEnd offset with
      | none =>
          rcases ih (show way.length < fuel by omega) with ⟨last, hNone⟩ | ⟨part, last, way', hSome⟩
          · exact .inl ⟨last, hNone⟩
          · refine .inr ⟨part, last, way', hSome.1, hSome.2.1, ?_⟩
            rw [List.length_cons]
            exact hSome.2.2.trans (Nat.lt_succ_self _)
      | some part => exact .inr ⟨part, nextOffset table offset, way, rfl, rest, by simp⟩

theorem Walk.memoryRanges_returns (h : Walk table offset way) {fuel n : Nat}
    (hFuel : way.length < fuel) (hn : way.length < n) :
    (memoryRanges (some table) fuel rangeStart rangeEnd n offset).isSome := by
  induction n generalizing offset way with
  | zero => omega
  | succ n ih =>
      rw [memoryRanges]
      rcases h.getMemoryRange_returns hFuel with ⟨last, hNone⟩ | ⟨part, last, rest, hSome, hRest, hLt⟩
      · rw [hNone]
        rfl
      · rw [hSome]
        simp only [Option.isSome_map]
        exact ih hRest (by omega) (by omega)

end Walks

section Ranges

variable {srat : Option Table} {rangeStart rangeEnd fuel n : Nat} {ranges : List MemoryRange}

/-- A part of a range lies in the range and in the memory of its entry. -/
theorem clip_spec {base len domain : Nat} {part : MemoryRange} (hBase : base % pageSize = 0)
    (hLen : len % pageSize = 0) (hRange : base + len ≤ 2 ^ 64) (hStart : rangeStart % pageSize = 0)
    (hEnd : rangeEnd % pageSize = 0) (hLe : rangeStart ≤ rangeEnd) (hLt : rangeEnd < 2 ^ 64)
    (hPart : clip rangeStart rangeEnd base len domain = some part) :
    rangeStart ≤ part.start ∧ part.start ≤ part.stop ∧ part.stop ≤ rangeEnd ∧
      base ≤ part.start ∧ part.stop ≤ base + len := by
  simp only [clip] at hPart
  split at hPart
  · cases hPart
  next hMeet =>
    simp only [not_or, not_le] at hMeet
    have hStop : (base + len) % 2 ^ 64 = base + len := by
      apply Nat.mod_eq_of_lt
      by_contra hWrap
      have hZero : (base + len) % 2 ^ 64 = 0 := by omega
      omega
    rw [hStop] at hPart hMeet
    have hMax : (if base < rangeStart then rangeStart else base) = max base rangeStart := by
      split_ifs <;> omega
    have hMin : (if rangeEnd < base + len then rangeEnd else base + len) =
        min (base + len) rangeEnd := by
      split_ifs <;> omega
    have hFirst : max base rangeStart % pageSize = 0 ∧ max base rangeStart + pageSize ≤ 2 ^ 64 := by
      simp only [pageSize] at hBase hStart hEnd ⊢
      omega
    have hLast : min (base + len) rangeEnd % pageSize = 0 := by
      simp only [pageSize] at hBase hLen hEnd ⊢
      omega
    rw [hMax, hMin, alignUp_eq (by decide) hFirst.1 hFirst.2, alignDown_eq hLast] at hPart
    obtain rfl := Option.some.inj hPart
    simp only
    omega

/-- The parts that a walk finds lie in the range and in the memory of their entries. -/
theorem Walk.partAt_spec {table : Table} {way : List Nat} {offset : Nat} {part : MemoryRange}
    (hWay : Walk table 0 way) (hMemory : SratPages table) (hStart : rangeStart % pageSize = 0)
    (hEnd : rangeEnd % pageSize = 0) (hLe : rangeStart ≤ rangeEnd) (hLt : rangeEnd < 2 ^ 64)
    (hMem : offset ∈ way) (hSome : partAt table rangeStart rangeEnd offset = some part) :
    ∃ base len, memoryAt table offset = some (base, len) ∧ rangeStart ≤ part.start ∧
      part.start ≤ part.stop ∧ part.stop ≤ rangeEnd ∧ base ≤ part.start ∧
      part.stop ≤ base + len := by
  obtain ⟨⟨base, len⟩, hAt, hClip⟩ := Option.bind_eq_some_iff.mp hSome
  obtain ⟨hSeen, hIn⟩ := hWay.visited .first offset hMem
  obtain ⟨hBase, hLen⟩ := hMemory.aligned offset base len hSeen hIn hAt
  exact ⟨base, len, hAt, clip_spec hBase hLen (hMemory.range offset base len hSeen hIn hAt)
    hStart hEnd hLe hLt hClip⟩

/-- A smaller range gives no more parts. -/
theorem partAt_isSome_of_le {table : Table} {start offset : Nat} (hLe : rangeStart ≤ start)
    (hPart : (partAt table start rangeEnd offset).isSome) :
    (partAt table rangeStart rangeEnd offset).isSome := by
  simp only [partAt, Option.isSome_iff_exists, Option.bind_eq_some_iff] at hPart ⊢
  obtain ⟨part, memory, hMemory, hClip⟩ := hPart
  simp only [clip] at hClip ⊢
  split at hClip
  · cases hClip
  next hMeet =>
    simp only [not_or, not_le] at hMeet
    refine ⟨_, memory, hMemory, if_neg ?_⟩
    omega

/-- Without an SRAT there is one range. -/
theorem memoryRanges_none (hRanges : memoryRanges none fuel rangeStart rangeEnd n 0 = some ranges) :
    ranges = [⟨alignUp rangeStart pageSize, alignDown rangeEnd pageSize, 0⟩] := by
  cases n with
  | zero => cases hRanges
  | succ n =>
      cases n with
      | zero => simp [memoryRanges, getMemoryRange] at hRanges
      | succ n =>
          simp only [memoryRanges, getMemoryRange, if_true, if_neg (show (1 : Nat) ≠ 0 by omega),
            Option.map_some, Option.some.injEq] at hRanges
          exact hRanges.symm

theorem memoryRanges_spec (hSrat : ∀ table, srat = some table → SratMemory table)
    (hStart : rangeStart % pageSize = 0) (hEnd : rangeEnd % pageSize = 0)
    (hLe : rangeStart ≤ rangeEnd) (hLt : rangeEnd < 2 ^ 64)
    (hRanges : memoryRanges srat fuel rangeStart rangeEnd n 0 = some ranges) :
    (∀ range ∈ ranges, rangeStart ≤ range.start ∧ range.start ≤ range.stop ∧
      range.stop ≤ rangeEnd) ∧
    ranges.Pairwise fun r r' => Disjoint (Set.Ico r.start r.stop) (Set.Ico r'.start r'.stop) := by
  cases srat with
  | none =>
      obtain rfl := memoryRanges_none hRanges
      have hFits : rangeStart + pageSize ≤ 2 ^ 64 := by
        simp only [pageSize] at hStart hEnd ⊢
        omega
      rw [alignUp_eq (by decide) hStart hFits, alignDown_eq hEnd]
      refine ⟨?_, List.pairwise_singleton _ _⟩
      intro range hMem
      obtain rfl := List.mem_singleton.mp hMem
      exact ⟨Nat.le_refl _, hLe, Nat.le_refl _⟩
  | some table =>
      have hMemory := hSrat table rfl
      obtain ⟨way, hWay, rfl⟩ := walk_of_memoryRanges hRanges
      have hVisited := hWay.visited .first
      have hPart := fun offset (hMem : offset ∈ way) part hSome =>
        @Walk.partAt_spec rangeStart rangeEnd table way offset part hWay ⟨hMemory.aligned, hMemory.range⟩ hStart hEnd hLe hLt hMem
          hSome
      constructor
      · intro range hMem
        obtain ⟨offset, hOffset, hSome⟩ := List.mem_filterMap.mp hMem
        obtain ⟨_, _, -, hFirst, hOrder, hLast, -, -⟩ := hPart offset hOffset range hSome
        exact ⟨hFirst, hOrder, hLast⟩
      · rw [List.pairwise_filterMap]
        refine hWay.nodup.imp_of_mem ?_
        intro offset offset' hOffset hOffset' hNe r hr r' hr'
        obtain ⟨base, len, hAt, -, -, -, hFirst, hLast⟩ := hPart offset hOffset r hr
        obtain ⟨base', len', hAt', -, -, -, hFirst', hLast'⟩ := hPart offset' hOffset' r' hr'
        obtain ⟨hSeen, hIn⟩ := hVisited offset hOffset
        obtain ⟨hSeen', hIn'⟩ := hVisited offset' hOffset'
        exact (hMemory.apart offset offset' base len base' len' hSeen hIn hSeen' hIn' hNe hAt
          hAt').mono (Set.Ico_subset_Ico hFirst hLast) (Set.Ico_subset_Ico hFirst' hLast')

/-- A smaller range gives no more ranges. -/
theorem memoryRanges_length_le {start fuel' n' : Nat} {ranges' : List MemoryRange}
    (hLe : rangeStart ≤ start)
    (hRanges : memoryRanges srat fuel rangeStart rangeEnd n 0 = some ranges)
    (hRanges' : memoryRanges srat fuel' start rangeEnd n' 0 = some ranges') :
    ranges'.length ≤ ranges.length := by
  cases srat with
  | none =>
      rw [memoryRanges_none hRanges, memoryRanges_none hRanges', List.length_singleton,
        List.length_singleton]
  | some table =>
      obtain ⟨way, hWay, rfl⟩ := walk_of_memoryRanges hRanges
      obtain ⟨way', hWay', rfl⟩ := walk_of_memoryRanges hRanges'
      obtain rfl := hWay.unique hWay'
      rw [List.length_filterMap_eq_countP, List.length_filterMap_eq_countP]
      exact List.countP_mono_left fun offset _ hPart => partAt_isSome_of_le hLe hPart

end Ranges

section Adding

variable {map : List MmapEntry} {srat : Option Table} {fuel border left : Nat}

/-- A range above the border, in a usable entry. -/
structure Given (map : List MmapEntry) (border : Nat) (range : MemoryRange) : Prop where
  above : border ≤ range.start
  order : range.start ≤ range.stop
  inside : ∃ entry ∈ map, entry.usable ∧ entry.base ≤ range.start ∧
    range.stop ≤ entry.base + entry.length

theorem addRanges_spec (hMap : Stivale2Map map)
    (hSrat : ∀ table, srat = some table → SratMemory table) (hBorder : border % pageSize = 0)
    {ranges : List MemoryRange} (hAdd : addRanges srat fuel border map left = some (some ranges)) :
    (∀ range ∈ ranges, Given map border range) ∧
    ranges.Pairwise fun r r' => Disjoint (Set.Ico r.start r.stop) (Set.Ico r'.start r'.stop) := by
  induction map generalizing left ranges with
  | nil =>
      simp only [addRanges, Option.some.injEq] at hAdd
      subst hAdd
      exact ⟨by simp, .nil⟩
  | cons entry map ih =>
      have hTail : Stivale2Map map := ⟨fun e he => hMap.aligned e (List.mem_cons_of_mem _ he),
        fun e he => hMap.range e (List.mem_cons_of_mem _ he), (List.pairwise_cons.mp hMap.apart).2⟩
      have hMore : ∀ range, Given map border range → Given (entry :: map) border range := by
        intro range hGiven
        obtain ⟨e, he, hInside⟩ := hGiven.inside
        exact ⟨hGiven.above, hGiven.order, e, List.mem_cons_of_mem _ he, hInside⟩
      simp only [addRanges] at hAdd
      by_cases hSkip : entry.usable = false ∨ entry.stop ≤ border
      · rw [if_pos hSkip] at hAdd
        obtain ⟨hAll, hApart⟩ := ih hTail hAdd
        exact ⟨fun range hMem => hMore range (hAll range hMem), hApart⟩
      · rw [if_neg hSkip] at hAdd
        simp only [not_or, Bool.not_eq_false, not_le] at hSkip
        obtain ⟨hStop, hLt, hPage, hBase⟩ := hMap.stop_eq (List.mem_cons_self ..) hSkip.1 hSkip.2
        split at hAdd
        · cases hAdd
        next here hHere =>
          split_ifs at hAdd with hLeft
          · simp only [Option.map_eq_some_iff] at hAdd
            obtain ⟨_, hRest, rest, rfl, rfl⟩ := hAdd
            obtain ⟨hAll, hApart⟩ := ih hTail hRest
            have hFrom : (if entry.base < border then border else entry.base) % pageSize = 0 ∧
                (if entry.base < border then border else entry.base) ≤ entry.stop := by
              split_ifs <;> omega
            obtain ⟨hIn, hDisjoint⟩ :=
              memoryRanges_spec hSrat hFrom.1 hPage hFrom.2 hLt hHere
            have hFirst : ∀ range ∈ here, border ≤ range.start ∧ range.start ≤ range.stop ∧
                entry.base ≤ range.start ∧ range.stop ≤ entry.base + entry.length := by
              intro range hMem
              obtain ⟨hStart, hOrder, hEnd⟩ := hIn range hMem
              split_ifs at hStart <;> omega
            refine ⟨?_, List.pairwise_append.mpr ⟨hDisjoint, hApart, ?_⟩⟩
            · intro range hMem
              rcases List.mem_append.mp hMem with hMem | hMem
              · obtain ⟨hAbove, hOrder, hLow, hHigh⟩ := hFirst range hMem
                exact ⟨hAbove, hOrder, entry, List.mem_cons_self .., hSkip.1, hLow, hHigh⟩
              · exact hMore range (hAll range hMem)
            · intro r hr r' hr'
              obtain ⟨-, -, hLow, hHigh⟩ := hFirst r hr
              obtain ⟨other, hOther, hUsable, hLow', hHigh'⟩ := (hAll r' hr').inside
              exact ((List.pairwise_cons.mp hMap.apart).1 other hOther hSkip.1 hUsable).mono
                (Set.Ico_subset_Ico hLow hHigh) (Set.Ico_subset_Ico hLow' hHigh')
          · cases hAdd

/-- There is an object for every range, so the assertion holds. -/
theorem addRanges_ne_assertFailed {fuel' numEntries : Nat}
    (hEstimate : memEstimateBootRangesUpperBound srat fuel map = some numEntries)
    (hLeft : numEntries ≤ left) : addRanges srat fuel' border map left ≠ some none := by
  induction map generalizing numEntries left with
  | nil => simp [addRanges]
  | cons entry map ih =>
      simp only [memEstimateBootRangesUpperBound] at hEstimate
      simp only [addRanges]
      cases hUsable : entry.usable with
      | false =>
          rw [hUsable] at hEstimate
          rw [if_pos (.inl rfl)]
          exact ih hEstimate hLeft
      | true =>
          rw [hUsable, if_pos rfl] at hEstimate
          split at hEstimate
          · cases hEstimate
          next all hAll =>
            rw [Option.map_eq_some_iff] at hEstimate
            obtain ⟨rest, hRest, rfl⟩ := hEstimate
            by_cases hSkip : true = false ∨ entry.stop ≤ border
            · rw [if_pos hSkip]
              exact ih hRest (by omega)
            · rw [if_neg hSkip]
              split
              · simp
              next ranges hRanges =>
                have hLength : ranges.length ≤ all.length := by
                  refine memoryRanges_length_le ?_ hAll hRanges
                  split_ifs <;> omega
                rw [if_pos (by omega)]
                have hLater := @ih (left - ranges.length) _ hRest (by omega)
                simpa using hLater

/-- When the estimate is made, every iterator comes to its end. -/
theorem memoryRanges_return {numEntries : Nat}
    (hEstimate : memEstimateBootRangesUpperBound srat fuel map = some numEntries) :
    ∃ fuel', ∀ entry ∈ map, entry.usable → ∀ rangeStart,
      (memoryRanges srat fuel' rangeStart entry.stop fuel' 0).isSome := by
  cases srat with
  | none =>
      refine ⟨2, ?_⟩
      intro entry _ _ rangeStart
      simp [memoryRanges, getMemoryRange]
  | some table =>
      by_cases hNone : ∀ entry ∈ map, entry.usable = false
      · refine ⟨0, ?_⟩
        intro entry hEntry hUsable
        rw [hNone entry hEntry] at hUsable
        cases hUsable
      · have hWalk : ∃ way, Walk table 0 way := by
          induction map generalizing numEntries with
          | nil => simp at hNone
          | cons entry map ih =>
              simp only [memEstimateBootRangesUpperBound] at hEstimate
              split_ifs at hEstimate with hUsable
              · split at hEstimate
                · cases hEstimate
                next all hAll =>
                  obtain ⟨way, hWay, -⟩ := walk_of_memoryRanges hAll
                  exact ⟨way, hWay⟩
              · refine ih hEstimate ?_
                intro hRest
                apply hNone
                intro other hOther
                rcases List.mem_cons.mp hOther with rfl | hOther
                · exact Bool.not_eq_true _ ▸ hUsable
                · exact hRest other hOther
        obtain ⟨way, hWay⟩ := hWalk
        exact ⟨way.length + 1, fun entry _ _ rangeStart =>
          hWay.memoryRanges_returns (Nat.lt_succ_self _) (Nat.lt_succ_self _)⟩

theorem addRanges_returns (border left : Nat) (hReturn : ∀ entry ∈ map, entry.usable → ∀ rangeStart,
      (memoryRanges srat fuel rangeStart entry.stop fuel 0).isSome) :
    (memEstimateBootRangesUpperBound srat fuel map).isSome ∧
      (addRanges srat fuel border map left).isSome := by
  induction map generalizing left with
  | nil => exact ⟨rfl, rfl⟩
  | cons entry map ih =>
      have hTail := fun left => ih left fun other hOther =>
        hReturn other (List.mem_cons_of_mem _ hOther)
      constructor
      · rw [memEstimateBootRangesUpperBound]
        split_ifs with hUsable
        · obtain ⟨ranges, hRanges⟩ := Option.isSome_iff_exists.mp
            (hReturn entry (List.mem_cons_self ..) hUsable entry.base)
          rw [hRanges]
          simp only [Option.isSome_map]
          exact (hTail left).1
        · exact (hTail left).1
      · simp only [addRanges]
        by_cases hSkip : entry.usable = false ∨ entry.stop ≤ border
        · rw [if_pos hSkip]
          exact (hTail left).2
        · rw [if_neg hSkip]
          simp only [not_or, Bool.not_eq_false, not_le] at hSkip
          obtain ⟨ranges, hRanges⟩ := Option.isSome_iff_exists.mp
            (hReturn entry (List.mem_cons_self ..) hSkip.1
              (if entry.base < border then border else entry.base))
          rw [hRanges]
          simp only
          split_ifs
          · simp only [Option.isSome_map]
            exact (hTail _).2
          · rfl

end Adding

section Boot

variable {map : List MmapEntry} {srat : Option Table} {sizes : List Nat}
  {allocations : List Allocation} {s : State}

/-- The addresses of an allocation. -/
def Allocation.addresses (a : Allocation) : Set Nat := Set.Ico a.addr (a.addr + a.size)

theorem Allocation.disjoint {a b : Allocation} (h : a.addr + a.size ≤ b.addr) :
    Disjoint a.addresses b.addresses := by
  rw [Set.disjoint_left]
  intro addr ha hb
  have hEnd := ha.2
  have hBegin := hb.1
  omega

theorem Placed.pointer {a : Allocation} (h : Placed map a) (fiveLevel : Bool) :
    a.pointer fiveLevel % 16 = 0 := by
  have hAligned := h.aligned
  rw [Allocation.pointer, memWbPhysWinBase]
  split_ifs <;> omega

/-- What is given to the page allocator after some allocations. -/
theorem memAddNumaRanges_spec (hMap : Stivale2Map map)
    (hSrat : ∀ table, srat = some table → SratMemory table) (hs : s.Valid)
    (hBelow : ∀ a ∈ allocations, a.addr + a.size ≤ s.borderOffset) {fuel : Nat}
    {entries : Allocation} {ranges : List MemoryRange} (hSize : entries.size < 2 ^ 63)
    (hAdd : memAddNumaRanges map srat fuel s = some (.added entries ranges)) :
    Placed map entries ∧ (∀ a ∈ allocations, Disjoint a.addresses entries.addresses) ∧
      (∀ range ∈ ranges, range.start ≤ range.stop ∧ (∃ entry ∈ map, entry.usable ∧
        entry.base ≤ range.start ∧ range.stop ≤ entry.base + entry.length) ∧
        ∀ a ∈ entries :: allocations, Disjoint a.addresses (Set.Ico range.start range.stop)) ∧
      ranges.Pairwise fun r r' => Disjoint (Set.Ico r.start r.stop) (Set.Ico r'.start r'.stop) := by
  simp only [memAddNumaRanges] at hAdd
  split at hAdd
  · cases hAdd
  next numEntries hEstimate =>
    split at hAdd
    · cases hAdd
    next pool s' hPool =>
      split at hAdd
      · cases hAdd
      · cases hAdd
      next ranges' hRanges =>
        simp only [Option.some.injEq, AddResult.added.injEq] at hAdd
        obtain ⟨rfl, rfl⟩ := hAdd
        have hPoolSize : sizeofMemRange * numEntries % 2 ^ 64 = pool.size := by
          rw [memBootstrapAlloc] at hPool
          split_ifs at hPool
          simp only [Option.map_eq_some_iff, Prod.mk.injEq] at hPool
          obtain ⟨_, -, rfl, -⟩ := hPool
          rfl
        rw [hPoolSize] at hPool
        obtain ⟨hValid, hFrom, hTo, -, hPlaced⟩ := memBootstrapAlloc_spec hMap hSize hs hPool
        obtain ⟨page, hPage, hLt, hRoof⟩ := hValid.roof
        have hBorder : s'.borderOffset ≤ alignUp s'.borderOffset pageSize ∧
            alignUp s'.borderOffset pageSize % pageSize = 0 := by
          simp only [pageSize] at hPage ⊢
          rw [alignUp, alignDown, Nat.mod_eq_of_lt (by omega)]
          omega
        obtain ⟨hGiven, hApart⟩ := addRanges_spec hMap hSrat hBorder.2 hRanges
        refine ⟨hPlaced, ?_, ?_, hApart⟩
        · intro a ha
          exact Allocation.disjoint ((hBelow a ha).trans hFrom)
        · intro range hRange
          have hRangeGiven := hGiven range hRange
          refine ⟨hRangeGiven.order, hRangeGiven.inside, ?_⟩
          intro a ha
          have hAbove : alignUp s'.borderOffset pageSize ≤ range.start := hRangeGiven.above
          have hEnd : a.addr + a.size ≤ s'.borderOffset := by
            rcases List.mem_cons.mp ha with rfl | ha
            · exact hTo
            · have hEarlier := hBelow a ha
              omega
          rw [Set.disjoint_left]
          intro addr hIn hOut
          have hLast := hIn.2
          have hFirst := hOut.1
          omega

theorem memAddNumaRanges_ne_assertFailed {fuel : Nat} :
    memAddNumaRanges map srat fuel s ≠ some .assertFailed := by
  intro hAdd
  simp only [memAddNumaRanges] at hAdd
  split at hAdd
  · cases hAdd
  next numEntries hEstimate =>
    split at hAdd
    · cases hAdd
    · split at hAdd
      · cases hAdd
      next hFailed => exact addRanges_ne_assertFailed hEstimate (Nat.le_refl _) hFailed
      · cases hAdd

theorem memAddNumaRanges_returns {fuel : Nat}
    (hEstimate : memEstimateBootRangesUpperBound srat fuel map ≠ none) :
    ∃ fuel', memAddNumaRanges map srat fuel' s ≠ none := by
  obtain ⟨numEntries, hSome⟩ := Option.ne_none_iff_exists'.mp hEstimate
  obtain ⟨fuel', hReturn⟩ := memoryRanges_return hSome
  refine ⟨fuel', ?_⟩
  obtain ⟨num, hNum⟩ :=
    Option.isSome_iff_exists.mp (addRanges_returns 0 0 hReturn).1
  simp only [memAddNumaRanges, hNum]
  split
  · simp
  next entries s' _ =>
    obtain ⟨added, hAdded⟩ := Option.isSome_iff_exists.mp (addRanges_returns
      (memBootstrapTerminateAllocator s').1 num hReturn).2
    rw [hAdded]
    cases added <;> simp

/-- Bootstrap memory is never given to the page allocator. -/
theorem bootstrap_memory_not_given (hMap : Stivale2Map map)
    (hSrat : ∀ table, srat = some table → SratMemory table)
    (hSizes : ∀ size ∈ sizes, size < 2 ^ 63)
    (hAllocs : memBootstrapAllocs map initial sizes = some (allocations, s)) :
    (∀ a ∈ allocations, Placed map a ∧ ∀ fiveLevel, a.pointer fiveLevel % 16 = 0) ∧
    (allocations.Pairwise fun a b => Disjoint a.addresses b.addresses) ∧
    (∀ fuel result, memAddNumaRanges map srat fuel s = some result → result ≠ .assertFailed) ∧
    (∀ fuel entries ranges, memAddNumaRanges map srat fuel s = some (.added entries ranges) →
      entries.size < 2 ^ 63 →
      Placed map entries ∧ (∀ a ∈ allocations, Disjoint a.addresses entries.addresses) ∧
      (∀ range ∈ ranges, range.start ≤ range.stop ∧ (∃ entry ∈ map, entry.usable ∧
        entry.base ≤ range.start ∧ range.stop ≤ entry.base + entry.length) ∧
        ∀ a ∈ entries :: allocations, Disjoint a.addresses (Set.Ico range.start range.stop)) ∧
      ranges.Pairwise fun r r' => Disjoint (Set.Ico r.start r.stop) (Set.Ico r'.start r'.stop)) ∧
    ((∃ fuel, memEstimateBootRangesUpperBound srat fuel map ≠ none) →
      ∃ fuel, memAddNumaRanges map srat fuel s ≠ none) := by
  obtain ⟨hValid, -, hAll, hApart⟩ :=
    memBootstrapAllocs_spec hMap hSizes initial_valid hAllocs
  refine ⟨?_, ?_, ?_, ?_, ?_⟩
  · intro a ha
    exact ⟨(hAll a ha).1, (hAll a ha).1.pointer⟩
  · exact hApart.imp fun h => Allocation.disjoint h
  · rintro fuel result hAdd rfl
    exact memAddNumaRanges_ne_assertFailed hAdd
  · intro fuel entries ranges hAdd hSize
    exact memAddNumaRanges_spec hMap hSrat hValid (fun a ha => (hAll a ha).2.2) hSize hAdd
  · rintro ⟨fuel, hEstimate⟩
    exact memAddNumaRanges_returns hEstimate

/-- One megabyte below the low memory, and one above it with a hole in between. -/
def exampleMap : List MmapEntry :=
  [⟨0, 0x100000, 1⟩, ⟨0x100000, 0x100000, 2⟩, ⟨0x200000, 0x100000, 1⟩]

/-- An SRAT with one active memory entry, for the first four megabytes. -/
def exampleSrat : Table := fun addr =>
  if addr = 4 then 88 else if addr = 48 then 1 else if addr = 49 then 40
  else if addr = 66 then 0x40 else if addr = 76 then 1 else 0

theorem exampleMap_stivale2 : Stivale2Map exampleMap := by
  constructor
  case aligned =>
    intro entry hEntry _
    simp only [exampleMap, List.mem_cons, List.not_mem_nil, or_false] at hEntry
    rcases hEntry with rfl | rfl | rfl <;> decide
  case range =>
    intro entry hEntry _
    simp only [exampleMap, List.mem_cons, List.not_mem_nil, or_false] at hEntry
    rcases hEntry with rfl | rfl | rfl <;> decide
  case apart =>
    simp only [exampleMap, List.pairwise_cons, List.mem_cons, List.not_mem_nil, or_false,
      forall_eq_or_imp, forall_eq, Set.Ico_disjoint_Ico]
    simp

/-- It has one entry. -/
theorem exampleSrat_entry {offset : Nat} (h : Visited exampleSrat offset)
    (hIn : sratInside exampleSrat offset) : offset = 0 := by
  have hVisited : ∀ offset, Visited exampleSrat offset → offset = 0 ∨ offset = 40 := by
    intro offset h
    induction h with
    | first => exact .inl rfl
    | next _ hIn ih =>
        rcases ih with rfl | rfl
        · exact .inr rfl
        · exact absurd hIn (by decide)
  rcases hVisited offset h with rfl | rfl
  · rfl
  · exact absurd hIn (by decide)

theorem exampleSrat_memory : SratMemory exampleSrat := by
  have hMemory : memoryAt exampleSrat 0 = some (0, 0x400000) := rfl
  constructor
  case aligned =>
    intro offset base len h hIn hAt
    obtain rfl := exampleSrat_entry h hIn
    rw [hMemory] at hAt
    cases hAt
    decide
  case range =>
    intro offset base len h hIn hAt
    obtain rfl := exampleSrat_entry h hIn
    rw [hMemory] at hAt
    cases hAt
    omega
  case apart =>
    intro offset offset' _ _ _ _ h hIn h' hIn' hNe
    exact absurd ((exampleSrat_entry h hIn).trans (exampleSrat_entry h' hIn').symm) hNe

/-- Two allocations, then the rest of the upper entry is given. -/
theorem bootstrap_memory_not_given_rest :
    (∃ s, memBootstrapAllocs exampleMap initial [100, 4096] =
      some ([⟨0x200000, 100⟩, ⟨0x200070, 4096⟩], s) ∧
      memAddNumaRanges exampleMap (some exampleSrat) 3 s =
        some (.added ⟨0x201070, 1152⟩ [⟨0x202000, 0x300000, 0⟩])) ∧
    Disjoint (Allocation.addresses ⟨0x200070, 4096⟩) (Set.Ico 0x202000 0x300000) := by
  have hAllocs : memBootstrapAllocs exampleMap initial [100, 4096] =
      some ([⟨0x200000, 100⟩, ⟨0x200070, 4096⟩], ⟨0x201070, 2, true⟩) := rfl
  have hAdd : memAddNumaRanges exampleMap (some exampleSrat) 3 ⟨0x201070, 2, true⟩ =
      some (.added ⟨0x201070, 1152⟩ [⟨0x202000, 0x300000, 0⟩]) := rfl
  obtain ⟨-, -, -, hGiven, -⟩ := bootstrap_memory_not_given exampleMap_stivale2
    (fun table hTable => Option.some.inj hTable ▸ exampleSrat_memory)
    (by decide : ∀ size ∈ [100, 4096], size < 2 ^ 63) hAllocs
  obtain ⟨-, -, hRanges, -⟩ := hGiven 3 _ _ hAdd (by decide)
  exact ⟨⟨_, hAllocs, hAdd⟩,
    (hRanges ⟨0x202000, 0x300000, 0⟩ (by simp)).2.2 ⟨0x200070, 4096⟩ (by simp)⟩

end Boot

end Ricerca.Bootstrap
