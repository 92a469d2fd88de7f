import Ricerca.Sys.Acpi

/-! Which tables the walkers of SRAT and MADT get through. They trust the length byte of every
entry and the length of the table. -/
namespace Ricerca.Acpi

open Ricerca.Foundation

section Bytes

variable {table : Table} {limit addr : Nat}

theorem readWord_lt (table : Table) (addr : Nat) : (readWord addr).result table < 2 ^ 32 := by
  have h₀ := (table (addr % 2 ^ 64)).toNat_lt
  have h₁ := (table ((addr + 1) % 2 ^ 64)).toNat_lt
  have h₂ := (table ((addr + 2) % 2 ^ 64)).toNat_lt
  have h₃ := (table ((addr + 3) % 2 ^ 64)).toNat_lt
  simp only [readWord, readByte, Reading.result_bind, Reading.result_cell, Reading.result_pure]
  omega

theorem hdrLength_lt (table : Table) : hdrLength table < 2 ^ 32 := readWord_lt table 4

theorem result_readByte (h : addr < 2 ^ 64) : (readByte addr).result table = table addr := by
  rw [readByte, Reading.result_cell, Nat.mod_eq_of_lt h]

theorem safe_readByte {Q : UInt8 → Prop} (h : addr < 2 ^ 64) :
    (readByte addr).Safe table (· < limit) Q ↔ addr < limit ∧ Q (table addr) := by
  rw [readByte, Reading.safe_cell, Nat.mod_eq_of_lt h]

/-- A word is read when its last byte is there. -/
theorem safe_readWord {Q : Nat → Prop} (h : addr + 3 < 2 ^ 64) :
    (readWord addr).Safe table (· < limit) Q ↔
      addr + 3 < limit ∧ Q ((readWord addr).result table) := by
  have hResult : (readWord addr).Safe table (· < limit) Q ↔
      (addr < limit ∧ addr + 1 < limit ∧ addr + 2 < limit ∧ addr + 3 < limit) ∧
        Q ((readWord addr).result table) := by
    rw [readWord]
    simp (disch := omega) only [Reading.safe_bind, safe_readByte, Reading.safe_pure,
      Reading.result_bind, Reading.result_pure, result_readByte, and_assoc]
  rw [hResult]
  apply and_congr_left'
  omega

end Bytes

section Entries

variable {table : Table} {header : Nat} {inside : Nat → Prop}

/-- The offsets at which the entries of a table begin, one after the other. -/
inductive EntryAt (header : Nat) (table : Table) : Nat → Prop where
  | first (hIn : header < hdrLength table) : EntryAt header table 0
  | next {offset : Nat} (prior : EntryAt header table offset)
      (hIn : header + (offset + (table (header + offset + 1)).toNat) < hdrLength table) :
      EntryAt header table (offset + (table (header + offset + 1)).toNat)

theorem EntryAt.lt {offset : Nat} (h : EntryAt header table offset) :
    header + offset < hdrLength table := by
  cases h with
  | first hIn => exact hIn
  | next _ hIn => exact hIn

/-- No entry has length zero, and the bytes that are needed of it are in the table. -/
def WellFormed (header : Nat) (needs : Table → Nat → Nat) (table : Table) : Prop :=
  ∀ offset, EntryAt header table offset → table (header + offset + 1) ≠ 0 ∧
    header + offset + needs table (header + offset) ≤ hdrLength table

/-- Where a walk goes on: at an entry, or behind the last one. -/
def Onward (header : Nat) (table : Table) (inside : Nat → Prop) (offset : Nat) : Prop :=
  inside offset → EntryAt header table offset

theorem EntryAt.onward (hInside : ∀ offset, inside offset ↔ header + offset < hdrLength table)
    {offset : Nat} (h : EntryAt header table offset) :
    Onward header table inside
      ((offset + (table (header + offset + 1)).toNat) % 2 ^ 64) := by
  intro hIn
  have hLength := hdrLength_lt table
  have hLt := h.lt
  have hByte := (table (header + offset + 1)).toNat_lt
  have hMod : (offset + (table (header + offset + 1)).toNat) % 2 ^ 64 =
      offset + (table (header + offset + 1)).toNat := Nat.mod_eq_of_lt (by omega)
  rw [hMod] at hIn ⊢
  exact .next h ((hInside _).mp hIn)

theorem onward_zero (hInside : ∀ offset, inside offset ↔ header + offset < hdrLength table) :
    Onward header table inside 0 :=
  fun hIn => .first ((hInside 0).mp hIn)

variable {σ ρ : Type} [DecidablePred inside] {visit : Visit σ ρ} {finish : σ → ρ}

section Rounds

variable {offset : Nat} {acc : σ} (hLt : header + offset + 1 < 2 ^ 64)

include hLt

/-- A round inside the table reads the head of the entry, and visits it. -/
theorem safe_walkRound {limit : Nat} (hIn : inside offset)
    {Q : Outcome (Nat × σ) (ρ × (Nat × σ)) → Prop} :
    (walkRound header inside visit finish (offset, acc)).Safe table (· < limit) Q ↔
      header + offset + 1 < limit ∧ header + offset < limit ∧
        (visit (table (header + offset)) (header + offset) acc).Safe table (· < limit)
          fun outcome =>
            Q (moveTo ((offset + (table (header + offset + 1)).toNat) % 2 ^ 64) outcome) := by
  have hHead : header + offset < 2 ^ 64 := by omega
  rw [walkRound, if_pos hIn, Reading.safe_bind, safe_readByte hLt, Reading.safe_bind,
    safe_readByte hHead, Reading.safe_bind]
  simp only [Reading.safe_pure]

theorem result_walkRound (hIn : inside offset) :
    (walkRound header inside visit finish (offset, acc)).result table =
      moveTo ((offset + (table (header + offset + 1)).toNat) % 2 ^ 64)
        ((visit (table (header + offset)) (header + offset) acc).result table) := by
  have hHead : header + offset < 2 ^ 64 := by omega
  rw [walkRound, if_pos hIn]
  simp only [Reading.result_bind, Reading.result_pure, result_readByte hLt, result_readByte hHead]

end Rounds

theorem result_walkRound_end {offset : Nat} {acc : σ} (hOut : ¬ inside offset) :
    (walkRound header inside visit finish (offset, acc)).result table =
      .stop (finish acc, (offset, acc)) := by
  rw [walkRound, if_neg hOut]
  rfl

section Inside

variable (hInside : ∀ offset, inside offset ↔ header + offset < hdrLength table)

include hInside

/-- The calls of an iterator stay on the entries. -/
theorem onward_calls {acc : σ} {s : Nat × σ}
    (hCalls : Reading.Calls table (walkRound header inside visit finish) (0, acc) s) :
    Onward header table inside s.1 := by
  induction hCalls with
  | start => exact onward_zero hInside
  | call prior last ih =>
      refine Reading.Finishes.invariant (I := fun s => Onward header table inside s.1)
        (Q := fun r => Onward header table inside r.2.1) last ih ?_
      rintro ⟨offset, acc⟩ hs
      by_cases hIn : inside offset
      · have hEntry := hs hIn
        have hLength := hdrLength_lt table
        have hLt := hEntry.lt
        rw [result_walkRound (by omega) hIn]
        cases (visit (table (header + offset)) (header + offset) acc).result table with
        | again acc => exact hEntry.onward hInside
        | stop r => exact hEntry.onward hInside
      · rw [result_walkRound_end hIn]
        exact hs

/-- A table that is well formed is walked to its end. -/
theorem WellFormed.ends {needs : Table → Nat → Nat} (h : WellFormed header needs table)
    (hHead : ∀ entry, 2 ≤ needs table entry)
    (hVisit : ∀ entry acc, entry + needs table entry ≤ hdrLength table →
      (visit (table entry) entry acc).Safe table (· < hdrLength table) fun _ => True)
    {s : Nat × σ} (hs : Onward header table inside s.1) :
    Reading.Ends table (· < hdrLength table) (walkRound header inside visit finish) s := by
  refine Reading.ends_of_measure (I := fun s => Onward header table inside s.1)
    (fun s => hdrLength table - (header + s.1)) ?_ hs
  rintro ⟨offset, acc⟩ hs
  by_cases hIn : inside offset
  · have hEntry := hs hIn
    have hLength := hdrLength_lt table
    have hLt := hEntry.lt
    obtain ⟨hNonzero, hNeeds⟩ := h offset hEntry
    have hTwo := hHead (header + offset)
    have hPos : 0 < (table (header + offset + 1)).toNat := by
      rw [Nat.pos_iff_ne_zero]
      exact fun hZero => hNonzero (UInt8.toNat_inj.mp hZero)
    have hByte := (table (header + offset + 1)).toNat_lt
    have hMod : (offset + (table (header + offset + 1)).toNat) % 2 ^ 64 =
        offset + (table (header + offset + 1)).toNat := Nat.mod_eq_of_lt (by omega)
    rw [safe_walkRound (by omega) hIn]
    refine ⟨by omega, hLt, (hVisit _ acc hNeeds).weaken ?_⟩
    intro _
    cases (visit (table (header + offset)) (header + offset) acc).result table with
    | again next =>
        refine ⟨hEntry.onward hInside, ?_⟩
        simp only [hMod]
        omega
    | stop r => trivial
  · rw [walkRound, if_neg hIn]
    simp

/-- Calls of an iterator come through every entry, if they come to an end. -/
theorem EntryAt.reached {acc : σ} {offset : Nat} (h : EntryAt header table offset)
    (hEnds : ∀ s, Reading.Calls table (walkRound header inside visit finish) (0, acc) s →
      Reading.Ends table (· < hdrLength table) (walkRound header inside visit finish) s) :
    ∃ acc', Reading.Ends table (· < hdrLength table) (walkRound header inside visit finish)
      (offset, acc') := by
  have hStrong : ∃ acc' s,
      Reading.Calls table (walkRound header inside visit finish) (0, acc) s ∧
      Reading.Ends table (· < hdrLength table) (walkRound header inside visit finish)
        (offset, acc') ∧
      ∀ r, Reading.Finishes table (walkRound header inside visit finish) (offset, acc') r →
        Reading.Finishes table (walkRound header inside visit finish) s r := by
    induction h with
    | first hIn => exact ⟨acc, (0, acc), .start, hEnds _ .start, fun _ hRest => hRest⟩
    | @next offset prior hIn ih =>
        obtain ⟨acc', s, hCalls, hEnd, hFinish⟩ := ih
        have hLength := hdrLength_lt table
        have hLt := prior.lt
        have hMod : (offset + (table (header + offset + 1)).toNat) % 2 ^ 64 =
            offset + (table (header + offset + 1)).toNat := Nat.mod_eq_of_lt (by omega)
        have hRound : (walkRound header inside visit finish (offset, acc')).result table =
            moveTo (offset + (table (header + offset + 1)).toNat)
              ((visit (table (header + offset)) (header + offset) acc').result table) := by
          rw [result_walkRound (by omega) ((hInside offset).mpr hLt), hMod]
        cases hCase : (visit (table (header + offset)) (header + offset) acc').result table with
        | again acc'' =>
            rw [hCase] at hRound
            refine ⟨acc'', s, hCalls, hEnd.again hRound, fun r hRest => hFinish r ?_⟩
            rw [Reading.finishes_iff, hRound]
            exact hRest
        | stop r =>
            rw [hCase] at hRound
            have hNext : Reading.Calls table (walkRound header inside visit finish) (0, acc) (_, r.2) :=
              .call hCalls (hFinish (r.1, (_, r.2)) (by
                rw [Reading.finishes_iff, hRound]
                rfl))
            exact ⟨r.2, _, hNext, hEnds _ hNext, fun _ hRest => hRest⟩
  obtain ⟨acc', -, -, hEnd, -⟩ := hStrong
  exact ⟨acc', hEnd⟩

section Again

variable {acc : σ} {offset : Nat} (hAgain : ∀ type entry acc, ∃ acc',
    (visit type entry acc).result table = .again acc')

include hAgain

/-- A walk that is never left early comes through every entry. -/
theorem EntryAt.passed (h : EntryAt header table offset)
    (hEnds : Reading.Ends table (· < hdrLength table) (walkRound header inside visit finish) (0, acc)) :
    ∃ acc', Reading.Ends table (· < hdrLength table) (walkRound header inside visit finish)
      (offset, acc') := by
  induction h with
  | first hIn => exact ⟨acc, hEnds⟩
  | @next offset prior hIn ih =>
      obtain ⟨acc', hEnd⟩ := ih
      have hLength := hdrLength_lt table
      have hLt := prior.lt
      obtain ⟨acc'', hVisit⟩ := hAgain (table (header + offset)) (header + offset) acc'
      refine ⟨acc'', hEnd.again ?_⟩
      rw [result_walkRound (by omega) ((hInside offset).mpr hLt), hVisit, moveTo,
        Nat.mod_eq_of_lt (by omega)]

/-- Such a walk does not get past an entry of length zero. -/
theorem EntryAt.length_ne_zero (h : EntryAt header table offset)
    (hEnds : Reading.Ends table (· < hdrLength table) (walkRound header inside visit finish)
      (offset, acc)) : table (header + offset + 1) ≠ 0 := by
  intro hZero
  have hLength := hdrLength_lt table
  have hLt := h.lt
  refine Reading.not_ends (I := fun s => s.1 = offset) ?_ rfl hEnds
  rintro ⟨offset', acc'⟩ rfl
  obtain ⟨acc'', hVisit⟩ := hAgain (table (header + offset')) (header + offset') acc'
  refine ⟨(offset', acc''), ?_, rfl⟩
  rw [result_walkRound (by omega) ((hInside offset').mpr hLt), hVisit, moveTo, hZero,
    UInt8.toNat_zero, Nat.add_zero, Nat.mod_eq_of_lt (by omega)]

end Again

end Inside

end Entries

section Needs

/-- The number of bytes that are read of an entry of an SRAT. -/
def sratNeeds (table : Table) (entry : Nat) : Nat :=
  if table entry = acpiSratXapicEntry then
    if (readWord (entry + 4)).result table &&& 1 = 0 then 8 else 12
  else if table entry = acpiSratX2apicEntry then 16
  else if table entry = acpiSratMemEntry then 32
  else 2

/-- The number of bytes that are read of an entry of an MADT. -/
def madtNeeds (table : Table) (entry : Nat) : Nat :=
  if table entry = acpiMadtXapicEntry then 8
  else if table entry = acpiMadtX2apicEntry then
    if (readWord (entry + 8)).result table &&& 3 = 0 then 12 else 16
  else 2

theorem two_le_sratNeeds (table : Table) (entry : Nat) : 2 ≤ sratNeeds table entry := by
  rw [sratNeeds]
  split_ifs <;> omega

theorem two_le_madtNeeds (table : Table) (entry : Nat) : 2 ≤ madtNeeds table entry := by
  rw [madtNeeds]
  split_ifs <;> omega

variable {table : Table} {entry limit : Nat}

theorem safe_visitProximity (hLimit : limit < 2 ^ 32) (hHead : entry + 2 ≤ limit) :
    ((visitProximity (table entry) entry ()).Safe table (· < limit) fun _ => True) ↔
      entry + sratNeeds table entry ≤ limit := by
  rw [visitProximity, sratNeeds]
  split_ifs <;>
    simp (disch := omega) only [readXapicDomain, Reading.safe_bind, Reading.safe_ite,
      Reading.safe_pure, safe_readWord, safe_readByte, *] <;>
    simp <;> omega

theorem safe_visitMemory (hLimit : limit < 2 ^ 32) (rangeStart rangeEnd : Nat)
    (hNeeds : entry + sratNeeds table entry ≤ limit) :
    (visitMemory rangeStart rangeEnd (table entry) entry ()).Safe table (· < limit)
      fun _ => True := by
  rw [visitMemory]
  split_ifs with hType
  · rw [sratNeeds, hType, if_neg (by decide), if_neg (by decide), if_pos rfl] at hNeeds
    simp (disch := omega) only [readRange, Reading.safe_bind, Reading.safe_ite,
      Reading.safe_pure, safe_readWord]
    simp
    omega
  · simp

theorem safe_visitApic (hLimit : limit < 2 ^ 32) (apicId : Nat)
    (hNeeds : entry + sratNeeds table entry ≤ limit) :
    (visitApic apicId (table entry) entry ()).Safe table (· < limit) fun _ => True := by
  rw [visitApic]
  rw [sratNeeds] at hNeeds
  split_ifs at hNeeds ⊢ <;>
    simp (disch := omega) only [readXapicDomain, Reading.safe_bind, Reading.safe_ite,
      Reading.safe_pure, safe_readWord, safe_readByte, *] <;>
    simp <;> omega

theorem safe_visitSpace (hLimit : limit < 2 ^ 32) (size : Nat)
    (hNeeds : entry + sratNeeds table entry ≤ limit) :
    (visitSpace (table entry) entry size).Safe table (· < limit) fun _ => True := by
  rw [visitSpace]
  split_ifs with hType
  · rw [sratNeeds, hType, if_neg (by decide), if_neg (by decide), if_pos rfl] at hNeeds
    simp (disch := omega) only [readRange, Reading.safe_bind, Reading.safe_ite,
      Reading.safe_pure, safe_readWord]
    simp
    omega
  · simp

theorem safe_visitCount (hLimit : limit < 2 ^ 32) (count : Nat)
    (hNeeds : entry + madtNeeds table entry ≤ limit) :
    (visitCount (table entry) entry count).Safe table (· < limit) fun _ => True := by
  rw [visitCount]
  rw [madtNeeds] at hNeeds
  split_ifs at hNeeds ⊢ <;>
    simp (disch := omega) only [Reading.safe_bind, Reading.safe_pure, safe_readWord] <;>
    simp <;> omega

theorem safe_visitIds (hLimit : limit < 2 ^ 32) (matched returned : LapicEntryProp)
    (expected logicalId : Nat) (hNeeds : entry + madtNeeds table entry ≤ limit) :
    (visitIds matched returned expected (table entry) entry logicalId).Safe table (· < limit)
      fun _ => True := by
  rw [visitIds]
  rw [madtNeeds] at hNeeds
  split_ifs at hNeeds ⊢ <;> cases matched <;> cases returned <;>
    simp (disch := omega) only [acpiMadtXapicLoadProp, acpiMadtX2apicLoadProp, Reading.safe_bind,
      Reading.safe_ite, Reading.safe_pure, safe_readWord, safe_readByte, *] <;>
    simp <;> omega

theorem safe_visitCpu (hLimit : limit < 2 ^ 32) (hHead : entry + 2 ≤ limit) (logicalId : Nat) :
    ((visitCpu (table entry) entry logicalId).Safe table (· < limit) fun _ => True) ↔
      entry + madtNeeds table entry ≤ limit := by
  rw [visitCpu, madtNeeds]
  split_ifs <;>
    simp (disch := omega) only [Reading.safe_bind, Reading.safe_ite, Reading.safe_pure,
      safe_readWord, safe_readByte, *] <;>
    simp <;> omega

theorem visitSpace_again (type : UInt8) (entry size : Nat) :
    ∃ size', (visitSpace type entry size).result table = .again size' := by
  simp only [visitSpace, Reading.result_ite, Reading.result_bind, Reading.result_pure]
  split_ifs <;> exact ⟨_, rfl⟩

theorem visitCount_again (type : UInt8) (entry count : Nat) :
    ∃ count', (visitCount type entry count).result table = .again count' := by
  simp only [visitCount, Reading.result_ite, Reading.result_bind, Reading.result_pure]
  split_ifs <;> exact ⟨_, rfl⟩

end Needs

section Walkers

variable {σ ρ : Type} (table : Table)

/-- From a state on, a loop ends and reads no byte behind the table. -/
def StaysInside (body : σ → TableReading (Outcome σ ρ)) (s : σ) : Prop :=
  Reading.Ends table (· < hdrLength table) body s

/-- The loops over an SRAT, with every iterator that calls come to and all arguments. -/
structure SratWalkersSafe : Prop where
  enumerateAtBoot : ∀ iter, Reading.Calls table (acpiNumaEnumerateAtBoot table) (0, ()) iter →
    StaysInside table (acpiNumaEnumerateAtBoot table) iter
  getMemoryRange : ∀ rangeStart rangeEnd iter,
    Reading.Calls table (acpiNumaGetMemoryRange table rangeStart rangeEnd) (0, ()) iter →
      StaysInside table (acpiNumaGetMemoryRange table rangeStart rangeEnd) iter
  apic2numaId : ∀ apicId, StaysInside table (acpiNumaApic2numaId table apicId) (0, ())
  queryPhysSpaceSize : StaysInside table (acpiQueryPhysSpaceSize table) (0, 0)

/-- The loops over an MADT. -/
structure MadtWalkersSafe : Prop where
  getMaxCpus : StaysInside table (acpiSmpGetMaxCpus table) (0, 0)
  iterateOverCpus : ∀ iter, Reading.Calls table (acpiSmpIterateOverCpus table) (0, 0) iter →
    StaysInside table (acpiSmpIterateOverCpus table) iter
  convertIds : ∀ matched returned expected,
    StaysInside table (acpiMadtConvertIds table matched returned expected) (0, 0)

variable {table}

theorem sratInside_iff (h : sizeofAcpiSrat ≤ hdrLength table) (offset : Nat) :
    sratInside table offset ↔ sizeofAcpiSrat + offset < hdrLength table := by
  have hLength := hdrLength_lt table
  simp only [sratInside, sizeofAcpiSrat] at h ⊢
  omega

/-- A header length below that of the header itself is subtracted from, and wraps around. -/
theorem StaysInside.header {visit : Visit σ ρ} {finish : σ → ρ} {acc : σ}
    (h : StaysInside table (sratRound table visit finish) (0, acc)) :
    sizeofAcpiSrat ≤ hdrLength table := by
  by_contra hShort
  have hIn : sratInside table 0 := by
    simp only [sratInside, sizeofAcpiSrat] at hShort ⊢
    omega
  have hRound := Reading.ends_iff.mp h
  rw [sratRound, safe_walkRound (by decide) hIn] at hRound
  have hHead := hRound.2.1
  omega

theorem sratWalkersSafe_iff : SratWalkersSafe table ↔
    sizeofAcpiSrat ≤ hdrLength table ∧ WellFormed sizeofAcpiSrat sratNeeds table := by
  have hLimit := hdrLength_lt table
  constructor
  · rintro ⟨hEnumerate, -, -, hSpace⟩
    have hHeader := StaysInside.header hSpace
    have hInside := sratInside_iff hHeader
    simp only [StaysInside, acpiNumaEnumerateAtBoot, acpiQueryPhysSpaceSize, sratRound]
      at hEnumerate hSpace
    refine ⟨hHeader, ?_⟩
    intro offset hEntry
    obtain ⟨size, hPassed⟩ := hEntry.passed hInside visitSpace_again hSpace
    refine ⟨hEntry.length_ne_zero hInside visitSpace_again hPassed, ?_⟩
    obtain ⟨acc, hEnds⟩ := hEntry.reached hInside hEnumerate
    have hLt := hEntry.lt
    have hRound := Reading.ends_iff.mp hEnds
    rw [safe_walkRound (by omega) ((hInside offset).mpr hLt)] at hRound
    obtain ⟨hHead, -, hVisit⟩ := hRound
    exact (safe_visitProximity hLimit hHead).mp (hVisit.weaken fun _ => trivial)
  · rintro ⟨hHeader, hWell⟩
    have hInside := sratInside_iff hHeader
    have hTwo := two_le_sratNeeds table
    constructor <;>
      simp only [StaysInside, acpiNumaEnumerateAtBoot, acpiNumaGetMemoryRange, acpiNumaApic2numaId,
        acpiQueryPhysSpaceSize, sratRound]
    case enumerateAtBoot =>
      intro iter hCalls
      refine hWell.ends hInside hTwo (fun entry acc hNeeds => ?_)
        (onward_calls hInside hCalls)
      have hHead := hTwo entry
      exact (safe_visitProximity hLimit (by omega)).mpr hNeeds
    case getMemoryRange =>
      intro rangeStart rangeEnd iter hCalls
      refine hWell.ends hInside hTwo (fun entry acc hNeeds => ?_)
        (onward_calls hInside hCalls)
      exact safe_visitMemory hLimit rangeStart rangeEnd hNeeds
    case apic2numaId =>
      intro apicId
      refine hWell.ends hInside hTwo (fun entry acc hNeeds => ?_) (onward_zero hInside)
      exact safe_visitApic hLimit apicId hNeeds
    case queryPhysSpaceSize =>
      refine hWell.ends hInside hTwo (fun entry acc hNeeds => ?_) (onward_zero hInside)
      exact safe_visitSpace hLimit acc hNeeds

theorem madtWalkersSafe_iff : MadtWalkersSafe table ↔
    WellFormed sizeofAcpiMadt madtNeeds table := by
  have hLimit := hdrLength_lt table
  have hInside : ∀ offset, madtInside table offset ↔ sizeofAcpiMadt + offset < hdrLength table :=
    fun _ => Iff.rfl
  constructor
  · rintro ⟨hCount, hIterate, -⟩
    simp only [StaysInside, acpiSmpGetMaxCpus, acpiSmpIterateOverCpus, madtRound] at hCount hIterate
    intro offset hEntry
    obtain ⟨count, hPassed⟩ := hEntry.passed hInside visitCount_again hCount
    refine ⟨hEntry.length_ne_zero hInside visitCount_again hPassed, ?_⟩
    obtain ⟨acc, hEnds⟩ := hEntry.reached hInside hIterate
    have hLt := hEntry.lt
    have hRound := Reading.ends_iff.mp hEnds
    rw [safe_walkRound (by omega) ((hInside offset).mpr hLt)] at hRound
    obtain ⟨hHead, -, hVisit⟩ := hRound
    exact (safe_visitCpu hLimit hHead acc).mp (hVisit.weaken fun _ => trivial)
  · intro hWell
    have hTwo := two_le_madtNeeds table
    constructor <;>
      simp only [StaysInside, acpiSmpGetMaxCpus, acpiSmpIterateOverCpus, acpiMadtConvertIds,
        madtRound]
    case getMaxCpus =>
      refine hWell.ends hInside hTwo (fun entry acc hNeeds => ?_) (onward_zero hInside)
      exact safe_visitCount hLimit acc hNeeds
    case iterateOverCpus =>
      intro iter hCalls
      refine hWell.ends hInside hTwo (fun entry acc hNeeds => ?_)
        (onward_calls hInside hCalls)
      have hHead := hTwo entry
      exact (safe_visitCpu hLimit (by omega) acc).mpr hNeeds
    case convertIds =>
      intro matched returned expected
      refine hWell.ends hInside hTwo (fun entry acc hNeeds => ?_) (onward_zero hInside)
      exact safe_visitIds hLimit matched returned expected acc hNeeds

/-- The walkers get through a table when the header length is not below that of the header, no
entry has length zero and the bytes that are read of every entry are in the table; and through
no other. -/
theorem walkers_safe_iff (srat madt : Table) :
    (SratWalkersSafe srat ↔
      sizeofAcpiSrat ≤ hdrLength srat ∧ WellFormed sizeofAcpiSrat sratNeeds srat) ∧
    (MadtWalkersSafe madt ↔ WellFormed sizeofAcpiMadt madtNeeds madt) :=
  ⟨sratWalkersSafe_iff, madtWalkersSafe_iff⟩

/-- An SRAT of 50 bytes with one entry, of an unknown type and of length zero. -/
def zeroLengthSrat : Table := fun addr =>
  if addr = 4 then 50 else if addr = 48 then 5 else 0

/-- An MADT of 46 bytes with one xAPIC entry that is cut off after two of its eight bytes. -/
def cutOffMadt : Table := fun addr =>
  if addr = 4 then 46 else if addr = 45 then 8 else 0

/-- The search for a size does not end in the first table, and the processors are counted
with bytes behind the second one. -/
theorem walkers_not_safe : ¬ (∀ srat, SratWalkersSafe srat) ∧ ¬ (∀ madt, MadtWalkersSafe madt) := by
  constructor
  · intro h
    have hSpace := (h zeroLengthSrat).queryPhysSpaceSize
    refine Reading.not_ends (I := fun s => s = (0, 0)) ?_ rfl hSpace
    rintro s rfl
    exact ⟨(0, 0), rfl, rfl⟩
  · intro h
    have hCount := Reading.ends_iff.mp (h cutOffMadt).getMaxCpus
    have hRead := hCount.1 48 (by decide)
    revert hRead
    decide

end Walkers

end Ricerca.Acpi
