import Ricerca.Mem.PagingRefinement

/-! `mem_paging_dispose_root`. The recursion goes on below level 0, into the pages that are
mapped, and it frees nothing above level 0. -/
namespace Ricerca.Paging

open Ricerca.Foundation

variable {Task : Type} {lvls : Nat}

/-- What disposing has done so far: the memory, the pages freed, and the pages whose entries
were read, with the level they were read for. -/
structure Disposal where
  memory : Memory
  freed : List Word
  read : List (Word × BitVec 8)

/-- `mem_phys_free`. What it does to the memory is left to `release`. -/
def Disposal.free (release : Memory → Word → Memory) (d : Disposal) (page : Word) : Disposal :=
  { d with
    memory := release d.memory page
    freed := d.freed ++ [page] }

/-- A loop over entries of a table; `dispose` is called for what is behind them. -/
def disposeEntries (dispose : Disposal → Word → Option Disposal) (table : Word) (level : BitVec 8) :
    List Nat → Disposal → Option Disposal
  | [], d => some d
  | i :: rest, d =>
      let entry := d.memory (entryAt table i)
      let d := { d with read := d.read ++ [(table, level)] }
      if entry = 0 then disposeEntries dispose table level rest d
      else (dispose d (entry &&& ~~~flagsMask)).bind (disposeEntries dispose table level rest)

/-- `mem_paging_dispose_at_level`, with `fuel` for the depth of the recursion. -/
def memPagingDisposeAtLevel (release : Memory → Word → Memory) :
    Nat → Disposal → Word → BitVec 8 → Option Disposal
  | 0, _, _, _ => none
  | fuel + 1, d, addr, level =>
      disposeEntries (fun d table => memPagingDisposeAtLevel release fuel d table (level - 1)) addr
        level (List.range 512) (if level = 0 then d.free release addr else d)

/-- `mem_paging_dispose_root`, without the record of the root that it frees at the end. -/
def memPagingDisposeRoot (release : Memory → Word → Memory) (lvls fuel : Nat) (memory : Memory)
    (cr3 : Word) : Option Disposal :=
  (disposeEntries (fun d table =>
      memPagingDisposeAtLevel release fuel d table (BitVec.ofNat 8 (lvls - 1)))
    cr3 (BitVec.ofNat 8 lvls) (List.range 256) ⟨memory, [], []⟩).map fun d => d.free release cr3

/-- A page that is mapped: an entry of level 1 leads to it. -/
def DataPage (lvls : Nat) (s : State Task) (cr3 page : Word) : Prop :=
  ∃ path table index, Path lvls s.roots cr3 path ∧ path.length + 1 = lvls ∧ index < 512 ∧
    descend (next s.memory) cr3 path = some table ∧ next s.memory table index = some page

/-- What disposing a root is for. A mapped page may be a table as well; then its entries are read
for its level as a table. -/
structure DisposedOnce (lvls : Nat) (s : State Task) (cr3 : Word) (d : Disposal) : Prop where
  tables : ∀ path table, Path lvls s.roots cr3 path → descend (next s.memory) cr3 path = some table →
    d.freed.count table = 1
  once : d.freed.Nodup
  data : ∀ page level, (page, level) ∈ d.read → DataPage lvls s cr3 page →
    ∃ path, Path lvls s.roots cr3 path ∧ descend (next s.memory) cr3 path = some page ∧
      path.length + level.toNat = lvls

/-- Disposing ends, and does what it is for. -/
def Disposes (release : Memory → Word → Memory) (lvls : Nat) (s : State Task) (cr3 : Word) : Prop :=
  ∃ fuel d, memPagingDisposeRoot release lvls fuel s.memory cr3 = some d ∧ DisposedOnce lvls s cr3 d

section Reading

variable {release : Memory → Word → Memory} {dispose : Disposal → Word → Option Disposal}
  {table addr : Word} {level : BitVec 8} {d d' : Disposal}

/-- What was read stays noted. -/
theorem disposeEntries_read (hDispose : ∀ d table d', dispose d table = some d' → d.read ⊆ d'.read)
    {entries : List Nat} (h : disposeEntries dispose table level entries d = some d') :
    d.read ⊆ d'.read := by
  induction entries generalizing d with
  | nil =>
      obtain rfl := Option.some.inj h
      exact List.Subset.refl _
  | cons i rest ih =>
      have hNoted : d.read ⊆ d.read ++ [(table, level)] := List.subset_append_left _ _
      simp only [disposeEntries] at h
      split_ifs at h with hEmpty
      · exact List.Subset.trans hNoted (ih h)
      · obtain ⟨inner, hInner, hRest⟩ := Option.bind_eq_some_iff.mp h
        exact List.Subset.trans hNoted (List.Subset.trans (hDispose _ _ _ hInner) (ih hRest))

theorem disposeEntries_self (hDispose : ∀ d table d', dispose d table = some d' → d.read ⊆ d'.read)
    {i : Nat} {rest : List Nat} (h : disposeEntries dispose table level (i :: rest) d = some d') :
    (table, level) ∈ d'.read := by
  have hNoted : (table, level) ∈ d.read ++ [(table, level)] :=
    List.mem_append_right _ (List.mem_singleton.mpr rfl)
  simp only [disposeEntries] at h
  split_ifs at h with hEmpty
  · exact disposeEntries_read hDispose h hNoted
  · obtain ⟨inner, hInner, hRest⟩ := Option.bind_eq_some_iff.mp h
    exact disposeEntries_read hDispose hRest (hDispose _ _ _ hInner hNoted)

theorem memPagingDisposeAtLevel_read {fuel : Nat}
    (h : memPagingDisposeAtLevel release fuel d addr level = some d') : d.read ⊆ d'.read := by
  induction fuel generalizing d d' addr level with
  | zero => cases h
  | succ fuel ih =>
      have hLoop := disposeEntries_read (fun _ _ _ hInner => ih hInner) h
      split_ifs at hLoop with hLevel
      · exact hLoop
      · exact hLoop

/-- The entries of the page that the function is called for are read. -/
theorem memPagingDisposeAtLevel_self {fuel : Nat}
    (h : memPagingDisposeAtLevel release fuel d addr level = some d') : (addr, level) ∈ d'.read := by
  cases fuel with
  | zero => cases h
  | succ fuel =>
      rw [memPagingDisposeAtLevel, List.range_succ_eq_map] at h
      exact disposeEntries_self (fun _ _ _ hInner => memPagingDisposeAtLevel_read hInner) h

/-- A table without entries is read, and nothing else happens. -/
theorem disposeEntries_empty {entries : List Nat}
    (hEmpty : ∀ i ∈ entries, d.memory (entryAt table i) = 0) :
    ∃ noted, (∀ read ∈ noted, read = (table, level)) ∧
      disposeEntries dispose table level entries d = some ⟨d.memory, d.freed, d.read ++ noted⟩ := by
  induction entries generalizing d with
  | nil => exact ⟨[], by simp, by simp [disposeEntries]⟩
  | cons i rest ih =>
      have hRest : ∀ j ∈ rest, d.memory (entryAt table j) = 0 := fun j hj =>
        hEmpty j (List.mem_cons_of_mem _ hj)
      obtain ⟨noted, hNoted, hLoop⟩ :=
        @ih ⟨d.memory, d.freed, d.read ++ [(table, level)]⟩ hRest
      refine ⟨(table, level) :: noted, by simpa using hNoted, ?_⟩
      simp only [disposeEntries]
      rw [if_pos (hEmpty i List.mem_cons_self), hLoop]
      simp

end Reading

section Leaves

variable {release : Memory → Word → Memory} {s : State Task} {cr3 table : Word} {path : List Nat}
  {d d' : Disposal}

/-- The contents of a mapped page have been read as those of a table below level 1. -/
def ReadsData (lvls : Nat) (s : State Task) (cr3 : Word) (d : Disposal) : Prop :=
  ∃ page, DataPage lvls s cr3 page ∧ (page, 0) ∈ d.read

/-- No page is mapped behind the table at the end of a path. -/
def NoLeaf (lvls : Nat) (s : State Task) (cr3 : Word) (path : List Nat) : Prop :=
  ∀ rest leaf index, Path lvls s.roots cr3 (path ++ rest) → (path ++ rest).length + 1 = lvls →
    index < 512 → descend (next s.memory) cr3 (path ++ rest) = some leaf →
    next s.memory leaf index = none

theorem noLeaf_of_entries (hTable : descend (next s.memory) cr3 path = some table)
    (hInner : path.length + 1 < lvls)
    (hEntries : ∀ i, Path lvls s.roots cr3 (path ++ [i]) → next s.memory table i ≠ none →
      NoLeaf lvls s cr3 (path ++ [i])) : NoLeaf lvls s cr3 path := by
  intro rest leaf index hPath hLength hIndex hLeaf
  cases rest with
  | nil =>
      rw [List.append_nil] at hLength
      omega
  | cons i rest =>
      have hSplit : path ++ i :: rest = path ++ [i] ++ rest := by simp
      rw [hSplit] at hPath hLength hLeaf
      apply hEntries i hPath.before _ rest leaf index hPath hLength hIndex hLeaf
      intro hNone
      rw [descend_append, descend_snoc, hTable, Option.bind_some, hNone] at hLeaf
      cases hLeaf

/-- As long as nothing has been freed, a loop finds the entries that were there at first. -/
theorem disposeEntries_spec {dispose : Disposal → Word → Option Disposal} {level : BitVec 8}
    {Q : Nat → Prop} {entries : List Nat}
    (hRead : ∀ d table d', dispose d table = some d' → d.read ⊆ d'.read)
    (hEach : ∀ i ∈ entries, ∀ page, next s.memory table i = some page → ∀ d d',
      d.memory = s.memory → dispose d page = some d' →
      ReadsData lvls s cr3 d' ∨ (d'.memory = s.memory ∧ Q i))
    (hMemory : d.memory = s.memory) (h : disposeEntries dispose table level entries d = some d') :
    ReadsData lvls s cr3 d' ∨
      (d'.memory = s.memory ∧ ∀ i ∈ entries, next s.memory table i ≠ none → Q i) := by
  induction entries generalizing d with
  | nil =>
      obtain rfl := Option.some.inj h
      exact .inr ⟨hMemory, by simp⟩
  | cons i rest ih =>
      have hLater := fun j hj => hEach j (List.mem_cons_of_mem _ hj)
      simp only [disposeEntries] at h
      split_ifs at h with hEmpty
      · rcases ih hLater (by exact hMemory) h with hData | ⟨hKept, hRest⟩
        · exact .inl hData
        · refine .inr ⟨hKept, ?_⟩
          intro j hj hSome
          rcases List.mem_cons.mp hj with rfl | hj
          · rw [hMemory] at hEmpty
            exact (hSome (if_pos hEmpty)).elim
          · exact hRest j hj hSome
      · obtain ⟨inner, hInner, hLoop⟩ := Option.bind_eq_some_iff.mp h
        rw [hMemory] at hEmpty
        have hPage : next s.memory table i =
            some (d.memory (entryAt table i) &&& ~~~flagsMask) := by
          rw [next, if_neg hEmpty, hMemory]
        rcases hEach i List.mem_cons_self _ hPage _ inner (by exact hMemory) hInner with
          ⟨page, hData, hPages⟩ | ⟨hKept, hFirst⟩
        · exact .inl ⟨page, hData, disposeEntries_read hRead hLoop hPages⟩
        · rcases ih hLater hKept hLoop with hData | ⟨hEnd, hRest⟩
          · exact .inl hData
          · refine .inr ⟨hEnd, ?_⟩
            intro j hj hSome
            rcases List.mem_cons.mp hj with rfl | hj
            · exact hFirst
            · exact hRest j hj hSome

/-- The levels of tables are counted down without wrapping. -/
theorem level_pred {n : Nat} (h : n + 1 < 256) :
    BitVec.ofNat 8 (n + 1) - 1 = BitVec.ofNat 8 n ∧ BitVec.ofNat 8 (n + 1) ≠ 0 := by
  constructor
  · apply BitVec.eq_of_toNat_eq
    simp only [BitVec.toNat_sub, BitVec.ofNat_eq_ofNat, BitVec.toNat_ofNat]
    omega
  · intro hZero
    have hNat := congrArg BitVec.toNat hZero
    simp only [BitVec.ofNat_eq_ofNat, BitVec.toNat_ofNat] at hNat
    omega

theorem Path.snoc (h : Path lvls s.roots cr3 path) (hInner : path ≠ []) (hShort : path.length + 1 < lvls)
    {i : Nat} (hi : i < 512) : Path lvls s.roots cr3 (path ++ [i]) := by
  constructor
  case root => exact h.root
  case short =>
    rw [List.length_append, List.length_singleton]
    exact hShort
  case bound =>
    intro index hIndex
    rcases List.mem_append.mp hIndex with hIndex | hIndex
    · exact h.bound index hIndex
    · rw [List.mem_singleton.mp hIndex]
      exact hi
  case lower =>
    intro index hIndex
    apply h.lower
    cases path with
    | nil => exact (hInner rfl).elim
    | cons j path => simpa using hIndex

/-- From a table of level `n + 1` down, the recursion reads the contents of a mapped page, unless
there is none. -/
theorem memPagingDisposeAtLevel_spec {n fuel : Nat} (hLvls : lvls < 256)
    (hPath : Path lvls s.roots cr3 path) (hInner : path ≠ []) (hLength : path.length + (n + 1) = lvls)
    (hTable : descend (next s.memory) cr3 path = some table) (hMemory : d.memory = s.memory)
    (h : memPagingDisposeAtLevel release fuel d table (BitVec.ofNat 8 (n + 1)) = some d') :
    ReadsData lvls s cr3 d' ∨ (d'.memory = s.memory ∧ NoLeaf lvls s cr3 path) := by
  obtain ⟨hLevel, hPositive⟩ := level_pred (n := n) (by omega)
  induction n generalizing path table d d' fuel with
  | zero =>
      cases fuel with
      | zero => cases h
      | succ fuel =>
          rw [memPagingDisposeAtLevel, if_neg hPositive, hLevel] at h
          have hEach : ∀ i ∈ List.range 512, ∀ page, next s.memory table i = some page → ∀ d d',
              d.memory = s.memory →
              memPagingDisposeAtLevel release fuel d page (BitVec.ofNat 8 0) = some d' →
              ReadsData lvls s cr3 d' ∨ (d'.memory = s.memory ∧ False) := by
            intro i hi page hPage d d' _ hRun
            exact .inl ⟨page, ⟨path, table, i, hPath, hLength, List.mem_range.mp hi, hTable, hPage⟩,
              memPagingDisposeAtLevel_self hRun⟩
          rcases disposeEntries_spec (fun _ _ _ hRun => memPagingDisposeAtLevel_read hRun) hEach hMemory
            h with hData | ⟨hKept, hNone⟩
          · exact .inl hData
          · refine .inr ⟨hKept, ?_⟩
            intro rest leaf index _ hLast hIndex hLeaf
            have hRest : rest = [] := by
              rw [List.length_append] at hLast
              exact List.eq_nil_of_length_eq_zero (by omega)
            subst hRest
            rw [List.append_nil, hTable] at hLeaf
            obtain rfl := Option.some.inj hLeaf
            by_contra hSome
            exact hNone index (List.mem_range.mpr hIndex) hSome
  | succ n ih =>
      cases fuel with
      | zero => cases h
      | succ fuel =>
          rw [memPagingDisposeAtLevel, if_neg hPositive, hLevel] at h
          obtain ⟨hBelow, hNext⟩ := level_pred (n := n) (by omega)
          have hShort : path.length + 1 < lvls := by omega
          have hEach : ∀ i ∈ List.range 512, ∀ page, next s.memory table i = some page → ∀ d d',
              d.memory = s.memory →
              memPagingDisposeAtLevel release fuel d page (BitVec.ofNat 8 (n + 1)) = some d' →
              ReadsData lvls s cr3 d' ∨ (d'.memory = s.memory ∧ NoLeaf lvls s cr3 (path ++ [i])) := by
            intro i hi page hPage d d' hSame hRun
            apply ih (hPath.snoc hInner hShort (List.mem_range.mp hi)) (by simp) _ _ hSame hRun hBelow
              hNext
            · rw [List.length_append, List.length_singleton]
              omega
            · rw [descend_snoc, hTable]
              exact hPage
          rcases disposeEntries_spec (fun _ _ _ hRun => memPagingDisposeAtLevel_read hRun) hEach hMemory
            h with hData | ⟨hKept, hNone⟩
          · exact .inl hData
          · refine .inr ⟨hKept, noLeaf_of_entries hTable hShort ?_⟩
            intro i hWay hSome
            exact hNone i (List.mem_range.mpr (hWay.bound i (by simp))) hSome

/-- Disposing a root reads the contents of a mapped page, unless there is none. -/
theorem memPagingDisposeRoot_spec {fuel : Nat} (hLvls : lvls = 4 ∨ lvls = 5) (hRoot : cr3 ∈ s.roots)
    (h : memPagingDisposeRoot release lvls fuel s.memory cr3 = some d') :
    ReadsData lvls s cr3 d' ∨ NoLeaf lvls s cr3 [] := by
  obtain ⟨d, hLoop, rfl⟩ := Option.map_eq_some_iff.mp h
  obtain ⟨n, hn⟩ : ∃ n, lvls - 1 = n + 1 := ⟨lvls - 2, by omega⟩
  rw [hn] at hLoop
  have hEach : ∀ i ∈ List.range 256, ∀ page, next s.memory cr3 i = some page → ∀ d d',
      d.memory = s.memory →
      memPagingDisposeAtLevel release fuel d page (BitVec.ofNat 8 (n + 1)) = some d' →
      ReadsData lvls s cr3 d' ∨ (d'.memory = s.memory ∧ NoLeaf lvls s cr3 [i]) := by
    intro i hi page hPage d d' hSame hRun
    have hLower := List.mem_range.mp hi
    have hPath : Path lvls s.roots cr3 [i] := by
      refine ⟨hRoot, by simp; omega, ?_, ?_⟩
      · intro index hIndex
        rw [List.mem_singleton.mp hIndex]
        omega
      · intro index hIndex
        obtain rfl := Option.some.inj hIndex
        exact hLower
    apply memPagingDisposeAtLevel_spec (by omega) hPath (by simp) _ _ hSame hRun
    · rw [List.length_singleton]
      omega
    · simp [descend, hPage]
  rcases disposeEntries_spec (fun _ _ _ hRun => memPagingDisposeAtLevel_read hRun) hEach rfl hLoop with
    hData | ⟨-, hNone⟩
  · exact .inl hData
  · refine .inr (noLeaf_of_entries rfl (by simp; omega) ?_)
    intro i hWay hSome
    exact hNone i (List.mem_range.mpr (hWay.lower i rfl)) hSome

/-- Where a page is mapped, disposing does not what it is for. -/
theorem DisposedOnce.not_readsData {d : Disposal} (h : DisposedOnce lvls s cr3 d) :
    ¬ ReadsData lvls s cr3 d := by
  rintro ⟨page, hPage, hRead⟩
  obtain ⟨path, hPath, -, hLevel⟩ := h.data page 0 hRead hPage
  have hShort := hPath.short
  simp at hLevel
  omega

/-- An empty root is disposed as it should. -/
theorem disposes_of_empty (hLvls : lvls = 4 ∨ lvls = 5) (hRoot : cr3 ∈ s.roots)
    (hEmpty : ∀ index < 256, s.memory (entryAt cr3 index) = 0) : Disposes release lvls s cr3 := by
  have hNone : ∀ path table, Path lvls s.roots cr3 path →
      descend (next s.memory) cr3 path = some table → path = [] ∧ table = cr3 := by
    intro path table hPath hTable
    cases path with
    | nil => exact ⟨rfl, (Option.some.inj hTable).symm⟩
    | cons index path =>
        have hZero := hEmpty index (hPath.lower index rfl)
        simp [descend, next, hZero] at hTable
  obtain ⟨noted, hNoted, hLoop⟩ := @disposeEntries_empty (fun d table =>
      memPagingDisposeAtLevel release 0 d table (BitVec.ofNat 8 (lvls - 1))) cr3 (BitVec.ofNat 8 lvls)
    ⟨s.memory, [], []⟩ (List.range 256) fun i hi => hEmpty i (List.mem_range.mp hi)
  refine ⟨0, ⟨release s.memory cr3, [cr3], noted⟩, ?_, ?_⟩
  · rw [memPagingDisposeRoot, hLoop]
    rfl
  constructor
  case tables =>
    intro path table hPath hTable
    obtain ⟨-, rfl⟩ := hNone path table hPath hTable
    exact List.count_singleton_self ..
  case once => simp
  case data =>
    rintro page level hRead -
    obtain ⟨rfl, rfl⟩ := Prod.mk.inj (hNoted _ hRead)
    refine ⟨[], Path.nil hRoot (by omega), rfl, ?_⟩
    rw [List.length_nil, BitVec.toNat_ofNat]
    omega

end Leaves

section Empty

variable {roots : List Word} {cr3 cr3' : Word}

/-- The lower half of a root is empty. -/
def EmptyRoot (cr3 : Word) (memory : Memory) : Prop := ∀ index < 256, memory (entryAt cr3 index) = 0

theorem keptByMapping_empty (hLvls : 2 ≤ lvls) (hRoot : cr3 ∈ roots) :
    KeptByMapping lvls roots cr3' fun memory (_ : Task × Nat → Word) => EmptyRoot cr3 memory := by
  intro memory cache vaddr table paddr perms hValid hRoot' hVaddr hTable _ h index hIndex
  rw [hValid.write_upper hRoot' hVaddr hTable _ hLvls hRoot (by omega)]
  exact h index hIndex

variable [DecidableEq Task]

theorem keptByZeroing_empty (hLvls : 2 ≤ lvls) (hRoot : cr3 ∈ roots) :
    KeptByZeroing lvls roots fun memory (_ : Task × Nat → Word) => EmptyRoot cr3 memory := by
  intro memory cache page k hValid hFree h index hIndex
  rw [hFree.zeroed_root hValid hLvls hRoot (by omega)]
  exact h index hIndex

/-- Tables of other roots do not go into this one. -/
theorem keptByTables_empty (hLvls : 2 ≤ lvls) (hRoot : cr3 ∈ roots) (hOther : cr3' ≠ cr3) :
    KeptByTables lvls roots cr3' fun memory (_ : Task × Nat → Word) => EmptyRoot cr3 memory := by
  intro memory cache path index table k hValid hStep hTable hEmpty hSome h index' hIndex'
  rw [hValid.attach_other hStep hTable (hValid.rootFrame cr3 hRoot) (by omega)]
  · exact h index' hIndex'
  · rintro ⟨rfl, -⟩
    exact hOther (hValid.unshared.once cr3' path cr3 [] cr3 hStep.before (Path.nil hRoot (by omega))
      hTable rfl).1

end Empty

section Runs

variable {release : Memory → Word → Memory} {s : State Task} {cr3 : Word} {trace : List (Call Task)}

/-- What was mapped once is mapped. -/
theorem mappings_ne_none {call : Call Task} (hCall : call ∈ trace) (hResult : call.result = true) :
    mappings trace (call.cr3, call.vaddr) ≠ none := by
  induction trace using List.reverseRecOn with
  | nil => cases hCall
  | append_singleton trace last ih =>
      rw [mappings, List.foldl_append, List.foldl_cons, List.foldl_nil, perform]
      rcases List.mem_append.mp hCall with hCall | hCall
      · split_ifs
        · rw [Function.update_apply]
          split_ifs
          · exact Option.some_ne_none _
          · exact ih hCall
        · exact ih hCall
      · obtain rfl := List.mem_singleton.mp hCall
        rw [if_pos hResult, Function.update_self]
        exact Option.some_ne_none _

variable [DecidableEq Task]

theorem roots_run (hLvls : 2 ≤ lvls) (run : (system lvls).Execution trace s) :
    ∀ call ∈ trace, call.cr3 ∈ s.roots ∧ LowerPage lvls call.vaddr := by
  induction run with
  | start => simp
  | step prior last ih =>
      obtain ⟨hRoots, hRoot, hVaddr, -, -, -⟩ := Step.spec hLvls (valid_run hLvls prior) last
      intro call hCall
      rw [hRoots]
      rcases List.mem_append.mp hCall with hCall | hCall
      · exact ih call hCall
      · rw [List.mem_singleton.mp hCall]
        exact ⟨hRoot, hVaddr⟩

/-- A root stays empty as long as nothing is mapped in it. -/
theorem empty_run (hLvls : 2 ≤ lvls) (run : (system lvls).Execution trace s) (hRoot : cr3 ∈ s.roots)
    (hOther : ∀ call ∈ trace, call.cr3 ≠ cr3) : EmptyRoot cr3 s.memory := by
  induction run with
  | start hInit => exact hInit.empty cr3 hRoot
  | @step trace s s' call prior last ih =>
      rw [(Step.spec hLvls (valid_run hLvls prior) last).1] at hRoot
      have hBefore := ih hRoot fun call hCall => hOther call (List.mem_append_left _ hCall)
      have hCall := hOther call (List.mem_append_right _ (List.mem_singleton.mpr rfl))
      exact last.keeps (keptByZeroing_empty hLvls hRoot) (keptByTables_empty hLvls hRoot hCall)
        (keptByMapping_empty hLvls hRoot) hLvls (valid_run hLvls prior) hBefore

/-- Behind a root in which a page was mapped, an entry of level 1 leads to a page. -/
theorem not_noLeaf_of_call (hLvls : 2 ≤ lvls) (run : (system lvls).Execution trace s) {call : Call Task}
    (hCall : call ∈ trace) (hResult : call.result = true) : ¬ NoLeaf lvls s call.cr3 [] := by
  intro hNone
  obtain ⟨hRoot, hVaddr⟩ := roots_run hLvls run call hCall
  have hMapped := mappings_ne_none hCall hResult
  rw [← translate_run hLvls run call.cr3 hRoot call.vaddr hVaddr,
    (valid_run hLvls run).translate_eq hLvls hRoot hVaddr, lookup] at hMapped
  cases hLeaf : descend (next s.memory) call.cr3 (indices lvls call.vaddr (lvls - 1)) with
  | none => exact hMapped (by rw [hLeaf]; rfl)
  | some leaf =>
      have hGone := hNone (indices lvls call.vaddr (lvls - 1)) leaf _ (hVaddr.path hRoot (by omega)) (by
        rw [List.nil_append, indices_length]
        omega) (memPagingGetLvlIndex_lt call.vaddr 1) hLeaf
      rw [next] at hGone
      split_ifs at hGone with hEmpty
      rw [hLeaf, Option.bind_some, hEmpty] at hMapped
      exact hMapped rfl

/-- Disposing a root frees its tables once and reads no mapped page if and only if nothing was ever
mapped in it. -/
theorem dispose_once_iff (hLvls : lvls = 4 ∨ lvls = 5) (run : (system lvls).Execution trace s)
    (hSuccess : ∀ call ∈ trace, call.result = true) (hRoot : cr3 ∈ s.roots) :
    Disposes release lvls s cr3 ↔ ∀ call ∈ trace, call.cr3 ≠ cr3 := by
  have hTwo : 2 ≤ lvls := by omega
  constructor
  · rintro ⟨fuel, d, hRun, hOnce⟩ call hCall rfl
    rcases memPagingDisposeRoot_spec hLvls hRoot hRun with hData | hNone
    · exact hOnce.not_readsData hData
    · exact not_noLeaf_of_call hTwo run hCall (hSuccess call hCall) hNone
  · intro hOther
    exact disposes_of_empty hLvls hRoot (empty_run hTwo run hRoot hOther)

end Runs

section Example

/-- A root next to another one, in which a page is mapped. -/
theorem dispose_once_iff_elsewhere :
    ∃ s, (system 4).Execution [mapFirst] s ∧ Disposes (fun memory _ => memory) 4 s 0x8000 := by
  have hRoots : ∀ cr3 ∈ ([0x1000, 0x8000] : List Word), PageFrame cr3 := by
    simp only [List.forall_mem_cons]
    exact ⟨⟨rfl, rfl⟩, ⟨rfl, rfl⟩, by simp⟩
  have hAllocates : Allocates 4 { emptyState with roots := [0x1000, 0x8000] } allocNext := by
    refine rooted_allocates hRoots ?_
    simp only [List.forall_mem_cons]
    exact ⟨.inl rfl, .inr (by simp), by simp⟩
  have run : (system 4).Execution [mapFirst] { afterFirst with roots := [0x1000, 0x8000] } :=
    .step (.start (rooted_fresh hRoots)) (.map (List.mem_cons_self ..) ⟨rfl, by decide⟩ ⟨rfl, rfl⟩
      hAllocates (Prod.ext rfl rfl))
  refine ⟨_, run, (dispose_once_iff (.inl rfl) run ?_ (by simp)).mpr ?_⟩
  · simp [mapFirst]
  · simp [mapFirst]

/-- One page is mapped. Whenever disposing the root ends, it has read the contents of the page. -/
theorem dispose_reads_page : (system 4).Execution [mapFirst] afterFirst ∧ ∀ release,
    (∀ fuel d, memPagingDisposeRoot release 4 fuel afterFirst.memory 0x1000 = some d →
      ReadsData 4 afterFirst 0x1000 d) ∧ ¬ Disposes release 4 afterFirst 0x1000 := by
  have hRun : (system 4).Execution [mapFirst] afterFirst :=
    .step (.start emptyState_fresh) mapFirst_step
  refine ⟨hRun, ?_⟩
  intro release
  have hData : ∀ fuel d, memPagingDisposeRoot release 4 fuel afterFirst.memory 0x1000 = some d →
      ReadsData 4 afterFirst 0x1000 d := by
    intro fuel d hDispose
    rcases memPagingDisposeRoot_spec (.inl rfl) (List.mem_singleton.mpr rfl) hDispose with hData | hNone
    · exact hData
    · exact (not_noLeaf_of_call (by decide) hRun (List.mem_singleton.mpr rfl) rfl hNone).elim
  refine ⟨hData, ?_⟩
  rintro ⟨fuel, d, hDispose, hOnce⟩
  exact hOnce.not_readsData (hData fuel d hDispose)

end Example

end Ricerca.Paging
