import Ricerca.Mem.PagingMap

/-! Sequences of calls of `mem_paging_map_at`, by any tasks and for any roots. What the
processor finds is a finite map from pages to translations; a call that returns true is an
update of it, one that returns false is none. -/
namespace Ricerca.Paging

open Ricerca.Foundation

variable {Task : Type} {lvls : Nat}

/-- The translation that a call asks for. -/
def requested (call : Call Task) : Translation where
  frame := call.paddr
  writable := decide (call.perms &&& memPagingWritable ≠ 0)
  user := decide (call.perms &&& memPagingUser ≠ 0)
  noexec := decide (call.perms &&& memPagingExecutable = 0)
  large := false

/-- What a call does to the map. -/
def perform (mapped : Word × Word → Option Translation) (call : Call Task) :
    Word × Word → Option Translation :=
  if call.result then Function.update mapped (call.cr3, call.vaddr) (some (requested call))
  else mapped

/-- The map after the calls of a trace, from roots and pages to translations. -/
def mappings (trace : List (Call Task)) : Word × Word → Option Translation :=
  trace.foldl perform fun _ => none

/-- An entry of the lower half leads from a table to a table. -/
def Refers (lvls : Nat) (s : State Task) (entry : Word × Nat) (page : Word) : Prop :=
  ∃ cr3 path, Path lvls s.roots cr3 (path ++ [entry.2]) ∧
    descend (next s.memory) cr3 path = some entry.1 ∧ next s.memory entry.1 entry.2 = some page

/-- The flags of a page say what was asked for. -/
theorem permsMask_flags (perms : BitVec 32) :
    permsMask perms &&& ~~~flagsMask = 0 ∧ permsMask perms &&& flagPresent ≠ 0 ∧
      (permsMask perms &&& flagWritable ≠ 0 ↔ perms &&& memPagingWritable ≠ 0) ∧
      (permsMask perms &&& flagsUser ≠ 0 ↔ perms &&& memPagingUser ≠ 0) ∧
      (permsMask perms &&& flagsNoexec ≠ 0 ↔ perms &&& memPagingExecutable = 0) := by
  rw [permsMask]
  by_cases hWritable : perms &&& memPagingWritable = 0 <;>
    by_cases hExecutable : perms &&& memPagingExecutable = 0 <;>
      by_cases hUser : perms &&& memPagingUser = 0 <;>
        simp only [hWritable, hExecutable, hUser, ne_eq, not_true_eq_false, not_false_eq_true,
          if_true, if_false, iff_true, iff_false] <;>
        decide

theorem decode_permsMask {call : Call Task} (h : PageFrame call.paddr) :
    decode (call.paddr ||| permsMask call.perms) = some (requested call) := by
  obtain ⟨hMask, hPresent, hWritable, hUser, hNoexec⟩ := permsMask_flags call.perms
  rw [decode, Translation.below, h.or_flags hMask, h.or_and rfl, h.or_and rfl,
    h.or_and rfl, h.or_and rfl, if_neg hPresent]
  simp only [hWritable, hUser, hNoexec, Bool.true_and, Bool.false_or]
  rfl

section Calls

variable [DecidableEq Task] {memory memory' : Memory} {roots : List Word}
  {zeroedPages : Task → Nat → Word} {pages pages' : Nat → Word} {alloc : Nat → Word}

/-- What a call that returns true does. -/
structure Mapped (lvls : Nat) (roots : List Word) (call : Call Task) (memory memory' : Memory) :
    Prop where
  translations : ∀ cr3 ∈ roots, ∀ vaddr, LowerPage lvls vaddr →
    translate lvls memory' cr3 vaddr =
      if cr3 = call.cr3 ∧ vaddr = call.vaddr then some (requested call)
      else translate lvls memory cr3 vaddr
  upper : ∀ cr3 ∈ roots, ∀ index, 256 ≤ index → index < 512 →
    memory' (entryAt cr3 index) = memory (entryAt cr3 index)

/-- A call fails after refilling the mapper, or it makes the tables on the way and writes the
entry of level 1. -/
theorem memPagingMapAt_cases {cr3 vaddr paddr : Word} {perms : BitVec 32} {result : Bool}
    (hMap : memPagingMapAt lvls alloc memory pages cr3 vaddr paddr perms = (result, memory', pages')) :
    (result = false ∧ memPagingRegenCache alloc 0 (lvls - 1) memory pages = (false, memory', pages')) ∨
      (result = true ∧ ∃ memory₁ pages₁ memory₂ table,
        memPagingRegenCache alloc 0 (lvls - 1) memory pages = (true, memory₁, pages₁) ∧
        mapIntermediate vaddr lvls memory₁ pages₁ cr3 = (memory₂, pages', table) ∧
        memory' = Function.update memory₂ (entryAt table (memPagingGetLvlIndex vaddr 1))
          (paddr ||| permsMask perms)) := by
  rw [memPagingMapAt] at hMap
  split at hMap
  next memory₁ pages₁ hRegen =>
    simp only [Prod.mk.injEq] at hMap
    obtain ⟨rfl, rfl, rfl⟩ := hMap
    exact .inl ⟨rfl, hRegen⟩
  next memory₁ pages₁ hRegen =>
    rcases hInner : mapIntermediate vaddr lvls memory₁ pages₁ cr3 with ⟨memory₂, pages₂, table⟩
    rw [hInner] at hMap
    simp only [Prod.mk.injEq] at hMap
    obtain ⟨rfl, rfl, rfl⟩ := hMap
    exact .inr ⟨rfl, memory₁, pages₁, memory₂, table, hRegen, hInner, rfl⟩

/-- At the root, the path of every address has just begun. -/
theorem descend_top (memory : Memory) (cr3 vaddr : Word) (i : Nat) :
    descend (next memory) cr3 (indices (i + 1) vaddr (i + 1 - (i + 1))) = some cr3 := by
  simp [indices]

theorem memPagingMapAt_spec (call : Call Task) (hLvls : 2 ≤ lvls) (hRoot : call.cr3 ∈ roots)
    (hVaddr : LowerPage lvls call.vaddr) (hPaddr : PageFrame call.paddr)
    (h : Valid lvls memory roots (cacheOf lvls (Function.update zeroedPages call.task pages)))
    (hFree : ∀ j < lvls - 1, alloc j ≠ physNull → Free lvls memory roots
      (cacheOf lvls (Function.update zeroedPages call.task pages)) (alloc j))
    (hOnce : ∀ j < lvls - 1, ∀ j' < lvls - 1, alloc j ≠ physNull → alloc j = alloc j' → j = j')
    (hMap : memPagingMapAt lvls alloc memory pages call.cr3 call.vaddr call.paddr call.perms =
      (call.result, memory', pages')) :
    Valid lvls memory' roots (cacheOf lvls (Function.update zeroedPages call.task pages')) ∧
      (call.result = true → Mapped lvls roots call memory memory') ∧
      (call.result = false → Refilled lvls roots memory memory') := by
  have hRefill : KeptByZeroing lvls roots fun memory' (_ : Task × Nat → Word) =>
      Refilled lvls roots memory memory' := keptByZeroing_refilled hLvls memory
  have hStart : Refilled lvls roots memory memory := ⟨fun _ _ _ => rfl, fun _ _ _ _ => rfl⟩
  rcases memPagingMapAt_cases hMap with ⟨hResult, hRegen⟩ |
    ⟨hResult, memory₁, pages₁, memory₂, table, hRegen, hInner, rfl⟩
  · obtain ⟨hValid, hRefilled⟩ := memPagingRegenCache_spec hRefill (Nat.zero_add _) h
      (fun j _ hj => hFree j hj) hOnce hStart hRegen
    exact ⟨hValid, by simp [hResult], fun _ => hRefilled⟩
  · obtain ⟨hValid, hRefilled⟩ := memPagingRegenCache_spec hRefill (Nat.zero_add _) h
      (fun j _ hj => hFree j hj) hOnce hStart hRegen
    obtain ⟨i, rfl⟩ : ∃ i, lvls = i + 1 := ⟨lvls - 1, by omega⟩
    obtain ⟨hTables, hKeeps, hLeaf⟩ := mapIntermediate_spec (keptByTables_keeps memory₁)
      (Nat.le_refl _) hRoot hVaddr hValid (descend_top memory₁ call.cr3 call.vaddr i)
      (fun j hj => memPagingRegenCache_filled hRegen j (Nat.zero_le _) (by omega)) Keeps.refl hInner
    have hEnd := hTables.write hRoot hVaddr hLeaf (call.paddr ||| permsMask call.perms) hLvls
    refine ⟨hEnd, fun _ => ⟨?_, ?_⟩, by simp [hResult]⟩
    · intro cr3 hRoot' vaddr hVaddr'
      rw [hEnd.translate_eq hLvls hRoot' hVaddr',
        hTables.write_lookup hRoot hVaddr hLeaf _ hLvls hRoot' hVaddr', decode_permsMask hPaddr,
        hKeeps.lookups cr3 hRoot' vaddr hVaddr', ← hValid.translate_eq hLvls hRoot' hVaddr',
        hRefilled.translations cr3 hRoot' vaddr]
    · intro cr3 hRoot' index hUpper hIndex
      rw [hTables.write_upper hRoot hVaddr hLeaf _ hLvls hRoot' hIndex,
        hKeeps.upper cr3 hRoot' index hUpper hIndex, hRefilled.rootEntries cr3 hRoot' index hIndex]

/-- Writing an entry of level 1 of a root that maps a page keeps a property. -/
def KeptByMapping (lvls : Nat) (roots : List Word) (cr3 : Word)
    (P : Memory → (Task × Nat → Word) → Prop) : Prop :=
  ∀ memory cache vaddr table paddr perms, Valid lvls memory roots cache → cr3 ∈ roots →
    LowerPage lvls vaddr → descend (next memory) cr3 (indices lvls vaddr (lvls - 1)) = some table →
    PageFrame paddr → P memory cache →
    P (Function.update memory (entryAt table (memPagingGetLvlIndex vaddr 1))
      (paddr ||| permsMask perms)) cache

/-- A call keeps what the three kinds of writes in it keep. -/
theorem memPagingMapAt_keeps {P : Memory → (Task × Nat → Word) → Prop} (call : Call Task)
    (hZeroing : KeptByZeroing lvls roots P) (hTables : KeptByTables lvls roots call.cr3 P)
    (hMapping : KeptByMapping lvls roots call.cr3 P) (hLvls : 2 ≤ lvls) (hRoot : call.cr3 ∈ roots)
    (hVaddr : LowerPage lvls call.vaddr) (hPaddr : PageFrame call.paddr)
    (h : Valid lvls memory roots (cacheOf lvls (Function.update zeroedPages call.task pages)))
    (hFree : ∀ j < lvls - 1, alloc j ≠ physNull → Free lvls memory roots
      (cacheOf lvls (Function.update zeroedPages call.task pages)) (alloc j))
    (hOnce : ∀ j < lvls - 1, ∀ j' < lvls - 1, alloc j ≠ physNull → alloc j = alloc j' → j = j')
    (hStart : P memory (cacheOf lvls (Function.update zeroedPages call.task pages)))
    (hMap : memPagingMapAt lvls alloc memory pages call.cr3 call.vaddr call.paddr call.perms =
      (call.result, memory', pages')) :
    P memory' (cacheOf lvls (Function.update zeroedPages call.task pages')) := by
  rcases memPagingMapAt_cases hMap with ⟨-, hRegen⟩ |
    ⟨-, memory₁, pages₁, memory₂, table, hRegen, hInner, rfl⟩
  · exact (memPagingRegenCache_spec hZeroing (Nat.zero_add _) h (fun j _ hj => hFree j hj) hOnce
      hStart hRegen).2
  · obtain ⟨hValid, hNext⟩ := memPagingRegenCache_spec hZeroing (Nat.zero_add _) h
      (fun j _ hj => hFree j hj) hOnce hStart hRegen
    obtain ⟨i, rfl⟩ : ∃ i, lvls = i + 1 := ⟨lvls - 1, by omega⟩
    obtain ⟨hEnd, hLast, hLeaf⟩ := mapIntermediate_spec hTables (Nat.le_refl _) hRoot hVaddr hValid
      (descend_top memory₁ call.cr3 call.vaddr i) (fun j hj => memPagingRegenCache_filled hRegen j (Nat.zero_le _) (by omega))
      hNext hInner
    exact hMapping memory₂ _ call.vaddr table call.paddr call.perms hEnd hRoot hVaddr hLeaf
      hPaddr hLast

end Calls

section Runs

variable {s s' : State Task} {call : Call Task}

/-- The tables of a state. -/
def State.Valid (lvls : Nat) (s : State Task) : Prop :=
  Paging.Valid lvls s.memory s.roots (cacheOf lvls s.zeroedPages)

/-- In a fresh state the roots are the only tables. -/
theorem Fresh.descend_eq (h : Fresh lvls s) {cr3 page : Word} {path : List Nat}
    (hPath : Path lvls s.roots cr3 path) (hTable : descend (next s.memory) cr3 path = some page) :
    path = [] ∧ page = cr3 := by
  cases path with
  | nil => exact ⟨rfl, (Option.some.inj hTable).symm⟩
  | cons index path =>
      have hEmpty := h.empty cr3 hPath.root index (hPath.lower index rfl)
      simp [descend, next, hEmpty] at hTable

theorem Fresh.valid (h : Fresh lvls s) : s.Valid lvls := by
  have hCached : ∀ k : Task × Nat, cacheOf lvls s.zeroedPages k ≠ physNull →
      k.2 < lvls - 1 ∧ cacheOf lvls s.zeroedPages k = s.zeroedPages k.1 k.2 := by
    intro k hSome
    by_cases hk : k.2 < lvls - 1
    · exact ⟨hk, if_pos hk⟩
    · exact (hSome (if_neg hk)).elim
  constructor
  case rootFrame => exact h.roots
  case unshared =>
    refine ⟨fun cr3 path rest hPath => hPath.before, ?_⟩
    intro cr3 path cr3' path' page hPath hPath' hTable hTable'
    obtain ⟨rfl, rfl⟩ := h.descend_eq hPath hTable
    obtain ⟨rfl, rfl⟩ := h.descend_eq hPath' hTable'
    exact ⟨rfl, rfl⟩
  case entries =>
    intro cr3 path index table hPath hTable
    obtain ⟨rfl, rfl⟩ := h.descend_eq hPath.before hTable
    exact .inl (h.empty table hPath.root index (hPath.lower index rfl))
  case cached =>
    intro k hSome
    obtain ⟨hk, hPage⟩ := hCached k hSome
    rw [hPage] at hSome ⊢
    obtain ⟨hFrame, hRoots, hZero⟩ := h.cached k.1 k.2 hk hSome
    refine ⟨hFrame, hZero, ?_⟩
    intro cr3 path hPath hTable
    obtain ⟨-, hSame⟩ := h.descend_eq hPath hTable
    exact hRoots (hSame ▸ hPath.root)
  case once =>
    intro k k' hSome hSame
    obtain ⟨hk, hPage⟩ := hCached k hSome
    obtain ⟨hk', hPage'⟩ := hCached k' (hSame ▸ hSome)
    rw [hPage] at hSome
    rw [hPage, hPage'] at hSame
    obtain ⟨hTask, hIndex⟩ := h.once k.1 k'.1 k.2 hk k'.2 hk' hSome hSame
    exact Prod.ext hTask hIndex

/-- A page that is allocated is not in use. -/
theorem Allocates.free {alloc : Nat → Word} (h : Allocates lvls s alloc) {i : Nat}
    (hi : i < lvls - 1) (hSome : alloc i ≠ physNull) :
    Free lvls s.memory s.roots (cacheOf lvls s.zeroedPages) (alloc i) := by
  have hUnused := h.unused i hi hSome
  constructor
  case frame => exact h.frame i hi hSome
  case table =>
    intro cr3 path hPath hTable
    exact hUnused (.inl ⟨cr3, path, hPath, hTable⟩)
  case unread =>
    intro cr3 hRoot vaddr addr hRead hIn
    exact hUnused (.inr (.inl ⟨cr3, hRoot, vaddr, addr, hRead, hIn⟩))
  case mapper =>
    intro k hSame
    rw [cacheOf] at hSame
    split_ifs at hSame with hk
    · exact hUnused (.inr (.inr ⟨k.1, k.2, hk, hSame⟩))
    · exact hSome hSame.symm

/-- A table behind a root is behind one entry, and in no mapper. -/
theorem State.Valid.table_once (h : s.Valid lvls) {cr3 page : Word} {path : List Nat}
    (hPath : Path lvls s.roots cr3 path) (hInner : path ≠ [])
    (hTable : descend (next s.memory) cr3 path = some page) :
    (∃! entry, Refers lvls s entry page) ∧ ∀ task, ∀ i < lvls - 1, s.zeroedPages task i ≠ page := by
  obtain ⟨before, index, rfl⟩ : ∃ before index, path = before ++ [index] :=
    ⟨path.dropLast, path.getLast hInner, (List.dropLast_concat_getLast hInner).symm⟩
  have hLast := hTable
  rw [descend_snoc] at hLast
  obtain ⟨table, hParent, hNext⟩ := Option.bind_eq_some_iff.mp hLast
  constructor
  · refine ⟨(table, index), ⟨cr3, before, hPath, hParent, hNext⟩, ?_⟩
    rintro ⟨table', index'⟩ ⟨cr3', before', hPath', hParent', hNext'⟩
    have hTable' : descend (next s.memory) cr3' (before' ++ [index']) = some page := by
      rw [descend_snoc, hParent']
      exact hNext'
    obtain ⟨rfl, hSame⟩ := h.unshared.once cr3' _ cr3 _ page hPath' hPath hTable' hTable
    obtain ⟨rfl, hIndex⟩ := List.append_inj' hSame rfl
    have hTables : table = table' := Option.some.inj (hParent.symm.trans hParent')
    exact Prod.ext hTables.symm (List.singleton_inj.mp hIndex)
  · intro task i hi hSame
    have hCache : cacheOf lvls s.zeroedPages (task, i) = page := by
      rw [cacheOf, if_pos hi, hSame]
    have hSome : page ≠ physNull := by
      rcases h.entries cr3 before index table hPath hParent with hZero | ⟨other, hFrame, hOther, hEntry⟩
      · simp [next, hZero] at hNext
      · rw [next_of_entry hFrame hEntry] at hNext
        rwa [← Option.some.inj hNext]
    obtain ⟨-, -, hUnused⟩ := h.cached (task, i) (by rwa [hCache])
    rw [hCache] at hUnused
    exact hUnused cr3 _ hPath hTable

variable [DecidableEq Task]

/-- One call keeps the trees apart, and does what its result says. -/
theorem Step.spec (hLvls : 2 ≤ lvls) (h : s.Valid lvls) (hStep : Step lvls s call s') :
    s'.roots = s.roots ∧ call.cr3 ∈ s.roots ∧ LowerPage lvls call.vaddr ∧ s'.Valid lvls ∧
      (call.result = true → Mapped lvls s.roots call s.memory s'.memory) ∧
      (call.result = false → Refilled lvls s.roots s.memory s'.memory) := by
  cases hStep with
  | @map task cr3 vaddr paddr perms alloc result memory pages hRoot hVaddr hPaddr hAlloc hMap =>
      refine ⟨rfl, hRoot, hVaddr, ?_⟩
      have hSelf : Function.update s.zeroedPages task (s.zeroedPages task) = s.zeroedPages :=
        Function.update_eq_self task s.zeroedPages
      refine memPagingMapAt_spec ⟨task, cr3, vaddr, paddr, perms, result⟩ hLvls hRoot hVaddr
        hPaddr ?_ ?_ hAlloc.once hMap
      · rw [hSelf]
        exact h
      · intro j hj hSome
        rw [hSelf]
        exact hAlloc.free hj hSome

/-- One call keeps what the three kinds of writes in it keep. -/
theorem Step.keeps {P : Memory → (Task × Nat → Word) → Prop} (hZeroing : KeptByZeroing lvls s.roots P)
    (hTables : KeptByTables lvls s.roots call.cr3 P) (hMapping : KeptByMapping lvls s.roots call.cr3 P)
    (hLvls : 2 ≤ lvls) (h : s.Valid lvls) (hStart : P s.memory (cacheOf lvls s.zeroedPages))
    (hStep : Step lvls s call s') : P s'.memory (cacheOf lvls s'.zeroedPages) := by
  cases hStep with
  | @map task cr3 vaddr paddr perms alloc result memory pages hRoot hVaddr hPaddr hAlloc hMap =>
      have hSelf : Function.update s.zeroedPages task (s.zeroedPages task) = s.zeroedPages :=
        Function.update_eq_self task s.zeroedPages
      rw [State.Valid, ← hSelf] at h
      rw [← hSelf] at hStart
      refine memPagingMapAt_keeps ⟨task, cr3, vaddr, paddr, perms, result⟩ hZeroing hTables hMapping
        hLvls hRoot hVaddr hPaddr h ?_ hAlloc.once hStart hMap
      intro j hj hSome
      rw [hSelf]
      exact hAlloc.free hj hSome

theorem valid_run (hLvls : 2 ≤ lvls) {trace : List (Call Task)} (run : (system lvls).Execution trace s) :
    s.Valid lvls := by
  induction run with
  | start hInit => exact Fresh.valid hInit
  | step prior last ih => exact (Step.spec hLvls ih last).2.2.2.1

/-- The translations are those of the map. -/
theorem translate_run (hLvls : 2 ≤ lvls) {trace : List (Call Task)}
    (run : (system lvls).Execution trace s) :
    ∀ cr3 ∈ s.roots, ∀ vaddr, LowerPage lvls vaddr →
      translate lvls s.memory cr3 vaddr = mappings trace (cr3, vaddr) := by
  induction run with
  | @start s hInit =>
      intro cr3 hRoot vaddr hVaddr
      rw [hInit.valid.translate_eq hLvls hRoot hVaddr, lookup]
      cases hLeaf : descend (next s.memory) cr3 (indices lvls vaddr (lvls - 1)) with
      | none => rfl
      | some leaf =>
          have hNone := (hInit.descend_eq (hVaddr.path hRoot (by omega)) hLeaf).1
          have hLength := congrArg List.length hNone
          rw [indices_length, List.length_nil] at hLength
          omega
  | @step trace s s' call prior last ih =>
      obtain ⟨hRoots, -, -, -, hTrue, hFalse⟩ := Step.spec hLvls (valid_run hLvls prior) last
      intro cr3 hRoot vaddr hVaddr
      rw [hRoots] at hRoot
      rw [mappings, List.foldl_append, List.foldl_cons, List.foldl_nil, perform]
      cases hResult : call.result with
      | true =>
          rw [(hTrue hResult).translations cr3 hRoot vaddr hVaddr, if_pos rfl,
            Function.update_apply, ih cr3 hRoot vaddr hVaddr]
          simp only [Prod.mk.injEq]
          rfl
      | false =>
          rw [(hFalse hResult).translations cr3 hRoot vaddr, if_neg (by simp)]
          exact ih cr3 hRoot vaddr hVaddr

/-- Page tables refine a finite map. After every sequence of calls the processor finds what the
calls that returned true have asked for last. Every table behind a root is behind one entry
and in no mapper. The next call changes the translation of its own page and the upper half of
no root when it returns true, and no translation at all when it returns false. -/
theorem paging_refines_map (hLvls : lvls = 4 ∨ lvls = 5) {trace : List (Call Task)}
    (run : (system lvls).Execution trace s) :
    (∀ cr3 ∈ s.roots, ∀ vaddr, LowerPage lvls vaddr →
      translate lvls s.memory cr3 vaddr = mappings trace (cr3, vaddr)) ∧
    (∀ cr3 path page, Path lvls s.roots cr3 path → path ≠ [] →
      descend (next s.memory) cr3 path = some page →
      (∃! entry, Refers lvls s entry page) ∧
        ∀ task, ∀ i < lvls - 1, s.zeroedPages task i ≠ page) ∧
    ∀ call s', Step lvls s call s' → s'.roots = s.roots ∧
      (call.result = true →
        translate lvls s'.memory call.cr3 call.vaddr = some (requested call) ∧
        (∀ cr3 ∈ s.roots, ∀ vaddr, LowerPage lvls vaddr → (cr3, vaddr) ≠ (call.cr3, call.vaddr) →
          translate lvls s'.memory cr3 vaddr = translate lvls s.memory cr3 vaddr) ∧
        ∀ cr3 ∈ s.roots, ∀ index, 256 ≤ index → index < 512 →
          s'.memory (entryAt cr3 index) = s.memory (entryAt cr3 index)) ∧
      (call.result = false → ∀ cr3 ∈ s.roots, ∀ vaddr,
        translate lvls s'.memory cr3 vaddr = translate lvls s.memory cr3 vaddr) := by
  have hTwo : 2 ≤ lvls := by omega
  have hValid := valid_run hTwo run
  refine ⟨translate_run hTwo run, fun _ _ _ hPath hInner hTable =>
    hValid.table_once hPath hInner hTable, ?_⟩
  intro call s' hStep
  obtain ⟨hRoots, hRoot, hVaddr, -, hTrue, hFalse⟩ := Step.spec hTwo hValid hStep
  refine ⟨hRoots, ?_, fun hResult => (hFalse hResult).translations⟩
  intro hResult
  have hMapped := hTrue hResult
  refine ⟨?_, ?_, hMapped.upper⟩
  · rw [hMapped.translations call.cr3 hRoot call.vaddr hVaddr, if_pos ⟨rfl, rfl⟩]
  · intro cr3 hRoot' vaddr hVaddr' hOther
    rw [hMapped.translations cr3 hRoot' vaddr hVaddr', if_neg]
    rintro ⟨rfl, rfl⟩
    exact hOther rfl

end Runs

section Example

/-- One root with nothing mapped, and a task without pages in its mapper. -/
def emptyState : State Unit where
  memory := fun _ => 0
  roots := [0x1000]
  zeroedPages := fun _ _ => physNull

/-- The pages after the root. -/
def allocNext (i : Nat) : Word := BitVec.ofNat 64 (0x2000 + 0x1000 * i)

/-- The first page of the program, writable and for user code. -/
def mapFirst : Call Unit := ⟨(), 0x1000, 0x400000, 0x9000, 0b1010, true⟩

theorem rooted_fresh {roots : List Word} (hRoots : ∀ cr3 ∈ roots, PageFrame cr3) :
    Fresh 4 { emptyState with roots } := by
  constructor
  case roots => exact hRoots
  case empty => exact fun _ _ _ _ => rfl
  case cached =>
    intro task i _ hSome
    exact (hSome rfl).elim
  case once =>
    intro task task' i _ j _ hSome
    exact (hSome rfl).elim

theorem rooted_allocates {roots : List Word} (hRoots : ∀ cr3 ∈ roots, PageFrame cr3)
    (hApart : ∀ cr3 ∈ roots, cr3.toNat = 0x1000 ∨ 0x8000 ≤ cr3.toNat) :
    Allocates 4 { emptyState with roots } allocNext := by
  constructor
  case frame =>
    intro i hi _
    have hCases : i = 0 ∨ i = 1 ∨ i = 2 := by omega
    rcases hCases with rfl | rfl | rfl <;> exact ⟨by decide, by decide⟩
  case unused =>
    intro i hi hSome hUse
    have hNat : (allocNext i).toNat = 0x2000 + 0x1000 * i := by
      rw [allocNext, BitVec.toNat_ofNat]
      omega
    rcases hUse with ⟨cr3, path, hPath, hTable⟩ | ⟨cr3, hRoot, vaddr, addr, hRead, hIn⟩ |
      ⟨task, j, -, hSame⟩
    · obtain ⟨rfl, hPage⟩ := (rooted_fresh hRoots).descend_eq hPath hTable
      have hFar := hApart cr3 hPath.root
      have hWord := congrArg BitVec.toNat hPage
      rw [hNat] at hWord
      omega
    · have hAddr : addr = entryAt cr3 (memPagingGetLvlIndex vaddr 4) := by
        simpa [reads, emptyState] using hRead
      have hLt := memPagingGetLvlIndex_lt vaddr 4
      have hFar := hApart cr3 hRoot
      have hWord := congrArg BitVec.toNat hAddr
      rw [entryAt_toNat (hRoots cr3 hRoot).1 hLt] at hWord
      obtain ⟨hLow, hHigh⟩ := hIn
      omega
    · exact hSome hSame.symm
  case once =>
    intro i hi j hj _ hSame
    have hNat := congrArg BitVec.toNat hSame
    rw [allocNext, allocNext, BitVec.toNat_ofNat, BitVec.toNat_ofNat] at hNat
    omega

theorem emptyState_fresh : Fresh 4 emptyState :=
  rooted_fresh fun _ hRoot => List.mem_singleton.mp hRoot ▸ ⟨rfl, rfl⟩

theorem emptyState_allocates : Allocates 4 emptyState allocNext :=
  rooted_allocates emptyState_fresh.roots fun _ hRoot => .inl (List.mem_singleton.mp hRoot ▸ rfl)

/-- The state after it. -/
def afterFirst : State Unit :=
  let after := memPagingMapAt 4 allocNext emptyState.memory (emptyState.zeroedPages ()) 0x1000
    0x400000 0x9000 0b1010
  { emptyState with
    memory := after.2.1
    zeroedPages := Function.update emptyState.zeroedPages () after.2.2 }

theorem mapFirst_step : Step 4 emptyState mapFirst afterFirst :=
  .map (List.mem_singleton.mpr rfl) ⟨rfl, by decide⟩ ⟨rfl, rfl⟩
    emptyState_allocates (Prod.ext rfl rfl)

/-- The first call of a task makes all tables on the way to its page. -/
theorem paging_refines_map_first : ∃ s, (system 4).Execution [mapFirst] s ∧
    translate 4 s.memory 0x1000 0x400000 = some ⟨0x9000, true, true, true, false⟩ ∧
    translate 4 s.memory 0x1000 0x401000 = none := by
  have hRun : (system 4).Execution [mapFirst] afterFirst :=
    .step (.start emptyState_fresh) mapFirst_step
  obtain ⟨hMap, -, -⟩ := paging_refines_map (.inl rfl) hRun
  refine ⟨_, hRun, ?_, ?_⟩
  · rw [hMap 0x1000 (List.mem_singleton.mpr rfl) 0x400000 ⟨rfl, by decide⟩]
    rfl
  · rw [hMap 0x1000 (List.mem_singleton.mpr rfl) 0x401000 ⟨rfl, by decide⟩]
    rfl

end Example

end Ricerca.Paging
