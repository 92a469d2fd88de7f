import Ricerca.Sys.AcpiWalkers

/-! The walkers of the MADT agree on the processors: how many there are, in which order, and
under which logical ids. -/
namespace Ricerca.Acpi

open Ricerca.Foundation

/-- The smallest length of an entry of its type. -/
def madtMinLength (type : UInt8) : Nat :=
  if type = acpiMadtXapicEntry then 8 else if type = acpiMadtX2apicEntry then 16 else 2

/-- From an offset on, entries that are long enough for their types fill the table. -/
inductive Laid (table : Table) : Nat → List Nat → Prop where
  | done {offset : Nat} (hEnd : sizeofAcpiMadt + offset = hdrLength table) : Laid table offset []
  | entry {offset : Nat} {way : List Nat} (hIn : sizeofAcpiMadt + offset < hdrLength table)
      (hLength : madtMinLength (table (sizeofAcpiMadt + offset)) ≤
        (table (sizeofAcpiMadt + offset + 1)).toNat)
      (rest : Laid table (offset + (table (sizeofAcpiMadt + offset + 1)).toNat) way) :
      Laid table offset (offset :: way)

/-- APIC id and ACPI id of an entry for an enabled or online-capable processor. -/
def cpuAt (table : Table) (offset : Nat) : Option (Nat × Nat) :=
  let entry := sizeofAcpiMadt + offset
  if table entry = acpiMadtXapicEntry then
    if (readWord (entry + 4)).result table &&& 3 = 0 then none
    else some (((readByte (entry + 3)).result table).toNat,
      ((readByte (entry + 2)).result table).toNat)
  else if table entry = acpiMadtX2apicEntry then
    if (readWord (entry + 8)).result table &&& 3 = 0 then none
    else some ((readWord (entry + 4)).result table, (readWord (entry + 12)).result table)
  else none

/-- Processors with the logical ids from `first` on. -/
def numbered (first : Nat) (ids : List (Nat × Nat)) : List SmpCpu :=
  (ids.zipIdx first).map fun cpu => ⟨cpu.1.1, cpu.1.2, cpu.2⟩

/-- The processors of a table with entries at the given offsets. -/
def cpus (table : Table) (way : List Nat) : List SmpCpu :=
  numbered 0 (way.filterMap (cpuAt table))

/-- What calls of `acpi_smp_iterate_over_cpus` give until one returns false, in at most `n`
calls; `none` when one of their loops takes more rounds than `fuel`. -/
def iteratedCpus (table : Table) (fuel : Nat) : Nat → Nat × Nat → Option (List SmpCpu)
  | 0, _ => none
  | n + 1, iter =>
      match (Reading.loop (acpiSmpIterateOverCpus table) fuel iter).result table with
      | none => none
      | some (none, _) => some []
      | some (some cpu, iter) => (iteratedCpus table fuel n iter).map (cpu :: ·)

/-- `acpi_smp_get_max_cpus`. -/
def maxCpus (table : Table) (fuel : Nat) : Option Nat :=
  ((Reading.loop (acpiSmpGetMaxCpus table) fuel (0, 0)).result table).map (·.1)

/-- `acpi_madt_convert_ids`; the inner `none` is its panic. -/
def convertIds (table : Table) (fuel : Nat) (matched returned : LapicEntryProp) (expected : Nat) :
    Option (Option Nat) :=
  ((Reading.loop (acpiMadtConvertIds table matched returned expected) fuel (0, 0)).result
    table).map (·.1)

/-- A property of a processor. -/
def SmpCpu.prop (cpu : SmpCpu) : LapicEntryProp → Nat
  | .logicalId => cpu.logicalId
  | .acpiId => cpu.acpiId
  | .apicId => cpu.apicId

section Visits

variable {table : Table} {offset : Nat}

theorem visitCount_result (count : Nat) :
    (visitCount (table (sizeofAcpiMadt + offset)) (sizeofAcpiMadt + offset) count).result table =
      .again (if (cpuAt table offset).isSome then (count + 1) % 2 ^ 32 else count) := by
  simp only [visitCount, cpuAt, Reading.result_ite, Reading.result_bind, Reading.result_pure]
  split_ifs <;> simp_all

theorem visitCpu_result (logicalId : Nat) :
    (visitCpu (table (sizeofAcpiMadt + offset)) (sizeofAcpiMadt + offset) logicalId).result table =
      match cpuAt table offset with
      | none => .again logicalId
      | some ids => .stop (some ⟨ids.1, ids.2, logicalId⟩, (logicalId + 1) % 2 ^ 32) := by
  simp only [visitCpu, cpuAt, Reading.result_ite, Reading.result_bind, Reading.result_pure]
  split_ifs <;> rfl

theorem xapicLoadProp_result (entry logicalId : Nat) (prop : LapicEntryProp) :
    (acpiMadtXapicLoadProp entry prop logicalId).result table =
      SmpCpu.prop ⟨((readByte (entry + 3)).result table).toNat,
        ((readByte (entry + 2)).result table).toNat, logicalId⟩ prop := by
  cases prop <;> rfl

theorem x2apicLoadProp_result (entry logicalId : Nat) (prop : LapicEntryProp) :
    (acpiMadtX2apicLoadProp entry prop logicalId).result table =
      SmpCpu.prop ⟨(readWord (entry + 4)).result table, (readWord (entry + 12)).result table,
        logicalId⟩ prop := by
  cases prop <;> rfl

theorem visitIds_result (matched returned : LapicEntryProp) (expected logicalId : Nat) :
    (visitIds matched returned expected (table (sizeofAcpiMadt + offset))
      (sizeofAcpiMadt + offset) logicalId).result table =
      match cpuAt table offset with
      | none => .again logicalId
      | some ids =>
          if SmpCpu.prop ⟨ids.1, ids.2, logicalId⟩ matched = expected then
            .stop (some (SmpCpu.prop ⟨ids.1, ids.2, logicalId⟩ returned), logicalId)
          else .again ((logicalId + 1) % 2 ^ 32) := by
  simp only [visitIds, cpuAt, Reading.result_ite, Reading.result_bind, Reading.result_pure,
    xapicLoadProp_result, x2apicLoadProp_result]
  split_ifs <;> first | rfl | simp only [*, if_true, if_false]

end Visits

section Walks

variable {table : Table} {offset : Nat} {way : List Nat}

/-- Every entry takes two bytes at least, so there are not too many of them. -/
theorem Laid.count_le (h : Laid table offset way) :
    sizeofAcpiMadt + offset + 2 * way.length ≤ hdrLength table := by
  induction h with
  | done hEnd => exact Nat.le_of_eq hEnd
  | @entry offset way hIn hLength rest ih =>
      have hTwo : 2 ≤ madtMinLength (table (sizeofAcpiMadt + offset)) := by
        rw [madtMinLength]
        split_ifs <;> omega
      rw [List.length_cons]
      omega

variable {σ ρ : Type} {visit : Visit σ ρ} {finish : σ → ρ}

theorem Laid.round_end (hEnd : sizeofAcpiMadt + offset = hdrLength table) (acc : σ) :
    (madtRound table visit finish (offset, acc)).result table = .stop (finish acc, (offset, acc)) := by
  apply result_walkRound_end
  rw [madtInside]
  omega

theorem Laid.round (hIn : sizeofAcpiMadt + offset < hdrLength table) (acc : σ) :
    (madtRound table visit finish (offset, acc)).result table =
      moveTo (offset + (table (sizeofAcpiMadt + offset + 1)).toNat)
        ((visit (table (sizeofAcpiMadt + offset)) (sizeofAcpiMadt + offset) acc).result table) := by
  have hLimit := hdrLength_lt table
  have hByte := (table (sizeofAcpiMadt + offset + 1)).toNat_lt
  have hMod : (offset + (table (sizeofAcpiMadt + offset + 1)).toNat) % 2 ^ 64 =
      offset + (table (sizeofAcpiMadt + offset + 1)).toNat := Nat.mod_eq_of_lt (by omega)
  have hInside : madtInside table offset := hIn
  rw [madtRound, result_walkRound (by omega) hInside, hMod]

/-- The count of the processors on the way, from one so far. -/
theorem Laid.count (h : Laid table offset way) (fuel count : Nat) (hFuel : way.length < fuel)
    (hCount : count + way.length < 2 ^ 32) :
    ∃ iter, (Reading.loop (acpiSmpGetMaxCpus table) fuel (offset, count)).result table =
      some (count + (way.filterMap (cpuAt table)).length, iter) := by
  induction h generalizing fuel count with
  | done hEnd =>
      obtain ⟨fuel, rfl⟩ := Nat.exists_eq_succ_of_ne_zero (Nat.ne_zero_of_lt hFuel)
      rw [Reading.result_loop_succ, acpiSmpGetMaxCpus, Laid.round_end hEnd]
      exact ⟨_, rfl⟩
  | @entry offset way hIn hLength rest ih =>
      obtain ⟨fuel, rfl⟩ := Nat.exists_eq_succ_of_ne_zero (Nat.ne_zero_of_lt hFuel)
      rw [List.length_cons] at hFuel hCount
      rw [Reading.result_loop_succ, acpiSmpGetMaxCpus, Laid.round hIn, visitCount_result]
      simp only [moveTo]
      cases hCpu : cpuAt table offset with
      | none =>
          rw [List.filterMap_cons_none hCpu]
          exact ih fuel count (by omega) (by omega)
      | some ids =>
          rw [List.filterMap_cons_some hCpu, List.length_cons, Option.isSome_some, if_pos rfl,
            Nat.mod_eq_of_lt (by omega)]
          obtain ⟨iter, hRest⟩ := ih fuel (count + 1) (by omega) (by omega)
          refine ⟨iter, hRest.trans ?_⟩
          rw [Nat.add_assoc, Nat.add_comm 1]

theorem numbered_cons (first : Nat) (ids : Nat × Nat) (rest : List (Nat × Nat)) :
    numbered first (ids :: rest) = ⟨ids.1, ids.2, first⟩ :: numbered (first + 1) rest := rfl

/-- One call gives the next processor on the way. -/
theorem Laid.iterate (h : Laid table offset way) (fuel logicalId : Nat) (hFuel : way.length < fuel)
    (hId : logicalId + way.length < 2 ^ 32) :
    (∃ iter, (Reading.loop (acpiSmpIterateOverCpus table) fuel (offset, logicalId)).result table =
      some (none, iter) ∧ way.filterMap (cpuAt table) = []) ∨
    ∃ ids offset' way',
      (Reading.loop (acpiSmpIterateOverCpus table) fuel (offset, logicalId)).result table =
        some (some ⟨ids.1, ids.2, logicalId⟩, (offset', logicalId + 1)) ∧
      Laid table offset' way' ∧ way'.length < way.length ∧
      way.filterMap (cpuAt table) = ids :: way'.filterMap (cpuAt table) := by
  induction h generalizing fuel with
  | @done offset hEnd =>
      obtain ⟨fuel, rfl⟩ := Nat.exists_eq_succ_of_ne_zero (Nat.ne_zero_of_lt hFuel)
      refine .inl ⟨(offset, logicalId), ?_, rfl⟩
      rw [Reading.result_loop_succ, acpiSmpIterateOverCpus, Laid.round_end hEnd]
  | @entry offset way hIn hLength rest ih =>
      obtain ⟨fuel, rfl⟩ := Nat.exists_eq_succ_of_ne_zero (Nat.ne_zero_of_lt hFuel)
      rw [List.length_cons] at hFuel hId
      rw [Reading.result_loop_succ, acpiSmpIterateOverCpus, Laid.round hIn, visitCpu_result]
      cases hCpu : cpuAt table offset with
      | none =>
          rw [List.filterMap_cons_none hCpu]
          simp only [moveTo]
          rcases ih fuel (by omega) (by omega) with hNone | ⟨ids, offset', way', hCall, hLaid, hLt, hWay⟩
          · exact .inl hNone
          · refine .inr ⟨ids, offset', way', hCall, hLaid, ?_, hWay⟩
            rw [List.length_cons]
            omega
      | some ids =>
          rw [List.filterMap_cons_some hCpu]
          simp only [moveTo]
          rw [Nat.mod_eq_of_lt (by omega)]
          exact .inr ⟨ids, _, way, rfl, rest, by simp, rfl⟩

theorem Laid.iteratedCpus_eq (h : Laid table offset way) {fuel n logicalId : Nat}
    (hFuel : way.length < fuel) (hn : way.length < n) (hId : logicalId + way.length < 2 ^ 32) :
    iteratedCpus table fuel n (offset, logicalId) =
      some (numbered logicalId (way.filterMap (cpuAt table))) := by
  induction n generalizing offset way logicalId with
  | zero => omega
  | succ n ih =>
      rw [iteratedCpus]
      rcases h.iterate fuel logicalId hFuel hId with ⟨iter, hCall, hNone⟩ | ⟨ids, offset', way', hCall, hLaid, hLt, hWay⟩
      · rw [hCall, hNone]
        rfl
      · rw [hCall, hWay, numbered_cons]
        simp only
        rw [ih hLaid (by omega) (by omega) (by omega)]
        rfl

/-- The first processor on the way with a property is the one that is found. -/
theorem Laid.convert (h : Laid table offset way) (fuel logicalId : Nat)
    (matched returned : LapicEntryProp) (expected : Nat) (hFuel : way.length < fuel)
    (hId : logicalId + way.length < 2 ^ 32) :
    ∃ iter, (Reading.loop (acpiMadtConvertIds table matched returned expected) fuel
      (offset, logicalId)).result table =
      some (((numbered logicalId (way.filterMap (cpuAt table))).find?
        fun cpu => cpu.prop matched = expected).map (·.prop returned), iter) := by
  induction h generalizing fuel logicalId with
  | done hEnd =>
      obtain ⟨fuel, rfl⟩ := Nat.exists_eq_succ_of_ne_zero (Nat.ne_zero_of_lt hFuel)
      rw [Reading.result_loop_succ, acpiMadtConvertIds, Laid.round_end hEnd]
      exact ⟨_, rfl⟩
  | @entry offset way hIn hLength rest ih =>
      obtain ⟨fuel, rfl⟩ := Nat.exists_eq_succ_of_ne_zero (Nat.ne_zero_of_lt hFuel)
      rw [List.length_cons] at hFuel hId
      rw [Reading.result_loop_succ, acpiMadtConvertIds, Laid.round hIn, visitIds_result]
      cases hCpu : cpuAt table offset with
      | none =>
          rw [List.filterMap_cons_none hCpu]
          simp only [moveTo]
          exact ih fuel logicalId (by omega) (by omega)
      | some ids =>
          rw [List.filterMap_cons_some hCpu, numbered_cons, List.find?_cons]
          simp only
          by_cases hMatch : SmpCpu.prop ⟨ids.1, ids.2, logicalId⟩ matched = expected
          · rw [if_pos hMatch, decide_eq_true hMatch]
            exact ⟨_, rfl⟩
          · rw [if_neg hMatch, decide_eq_false hMatch, Nat.mod_eq_of_lt (by omega)]
            simp only [moveTo]
            exact ih fuel (logicalId + 1) (by omega) (by omega)

/-- The ids of a processor are those of its entry, and its logical id is its place. -/
theorem cpus_getElem {i : Nat} {cpu : SmpCpu} (h : (cpus table way)[i]? = some cpu) :
    cpu.logicalId = i := by
  rw [cpus, numbered, List.getElem?_map, List.getElem?_zipIdx] at h
  simp only [Option.map_eq_some_iff] at h
  obtain ⟨_, ⟨ids, -, rfl⟩, rfl⟩ := h
  exact Nat.zero_add i

theorem cpus_ids : (cpus table way).map (fun cpu => (cpu.apicId, cpu.acpiId)) =
    way.filterMap (cpuAt table) := by
  rw [cpus, numbered, List.map_map]
  exact List.zipIdx_map_fst 0 _

/-- A logical id is found at its own processor. -/
theorem cpus_find_logicalId {cpu : SmpCpu} (h : cpu ∈ cpus table way) :
    (cpus table way).find? (fun other => other.prop .logicalId = cpu.logicalId) = some cpu := by
  obtain ⟨i, hi⟩ := List.mem_iff_getElem?.mp h
  have hSome : ((cpus table way).find?
      fun other => other.prop .logicalId = cpu.logicalId).isSome :=
    List.find?_isSome.mpr ⟨cpu, h, by simp [SmpCpu.prop]⟩
  obtain ⟨found, hFound⟩ := Option.isSome_iff_exists.mp hSome
  obtain ⟨j, hj⟩ := List.mem_iff_getElem?.mp (List.mem_of_find?_eq_some hFound)
  have hSame : found.logicalId = cpu.logicalId :=
    of_decide_eq_true (List.find?_some
      (p := fun other : SmpCpu => decide (other.prop .logicalId = cpu.logicalId)) hFound)
  rw [cpus_getElem hi, cpus_getElem hj] at hSame
  rw [hFound, ← hj, hSame, hi]

/-- The walkers of a well-formed MADT agree. The processors that are iterated are those of the
enabled or online-capable entries, in the order of the table and with the logical ids 0, 1,
2, ...; they are as many as are counted; and ids are converted to those of the first processor
that has them. -/
theorem madt_walkers_agree (h : Laid table 0 way) {fuel : Nat} (hFuel : way.length < fuel) :
    iteratedCpus table fuel fuel (0, 0) = some (cpus table way) ∧
    (cpus table way).map (fun cpu => (cpu.apicId, cpu.acpiId)) = way.filterMap (cpuAt table) ∧
    (∀ i (cpu : SmpCpu), (cpus table way)[i]? = some cpu → cpu.logicalId = i) ∧
    maxCpus table fuel = some (cpus table way).length ∧
    (∀ id, convertIds table fuel .apicId .logicalId id =
      some (((cpus table way).find? fun cpu => cpu.apicId = id).map (·.logicalId))) ∧
    (∀ cpu ∈ cpus table way,
      convertIds table fuel .logicalId .acpiId cpu.logicalId = some (some cpu.acpiId) ∧
      convertIds table fuel .logicalId .apicId cpu.logicalId = some (some cpu.apicId)) := by
  have hCount := h.count_le
  have hLimit := hdrLength_lt table
  have hConvert : ∀ matched returned expected, convertIds table fuel matched returned expected =
      some (((cpus table way).find? fun cpu => cpu.prop matched = expected).map
        (·.prop returned)) := by
    intro matched returned expected
    obtain ⟨iter, hLoop⟩ := h.convert fuel 0 matched returned expected hFuel (by omega)
    rw [convertIds, hLoop]
    rfl
  refine ⟨h.iteratedCpus_eq hFuel hFuel (by omega), cpus_ids, fun _ _ => cpus_getElem, ?_,
    fun id => hConvert .apicId .logicalId id, ?_⟩
  · obtain ⟨iter, hLoop⟩ := h.count fuel 0 hFuel (by omega)
    rw [maxCpus, hLoop, Nat.zero_add, ← cpus_ids, List.length_map]
    rfl
  · intro cpu hCpu
    constructor
    · rw [hConvert, cpus_find_logicalId hCpu]
      rfl
    · rw [hConvert, cpus_find_logicalId hCpu]
      rfl

/-- Four entries: a disabled processor, an address override, and an enabled processor of either
kind. -/
def exampleMadt : Table := fun addr =>
  if addr = 4 then 88 else if addr = 45 then 8
  else if addr = 52 then 5 else if addr = 53 then 12
  else if addr = 65 then 8 else if addr = 66 then 1 else if addr = 67 then 7
  else if addr = 68 then 1
  else if addr = 72 then 9 else if addr = 73 then 16 else if addr = 76 then 44
  else if addr = 77 then 1 else if addr = 80 then 2 else if addr = 84 then 9
  else 0

theorem exampleMadt_laid : Laid exampleMadt 0 [0, 8, 20, 28] :=
  .entry (by decide) (by decide) <| .entry (by decide) (by decide) <|
    .entry (by decide) (by decide) <| .entry (by decide) (by decide) <| .done rfl

/-- The processor with APIC id 300 is the second one. -/
theorem madt_walkers_agree_mixed : maxCpus exampleMadt 5 = some 2 ∧
    iteratedCpus exampleMadt 5 5 (0, 0) = some [⟨7, 1, 0⟩, ⟨300, 9, 1⟩] ∧
    convertIds exampleMadt 5 .apicId .logicalId 300 = some (some 1) := by
  have hCpus : cpus exampleMadt [0, 8, 20, 28] = [⟨7, 1, 0⟩, ⟨300, 9, 1⟩] := rfl
  obtain ⟨hIterated, -, -, hMax, hConvert, -⟩ :=
    madt_walkers_agree exampleMadt_laid (by decide : [0, 8, 20, 28].length < 5)
  rw [hCpus] at hIterated hMax hConvert
  exact ⟨hMax, hIterated, hConvert 300⟩

end Walks

end Ricerca.Acpi
