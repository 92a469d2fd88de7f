import Ricerca.Mem.PagingLookup

/-! `mem_paging_map_at`. Refilling the mapper changes no translation, making the tables on
the way changes no lookup, and the write at level 1 changes the one lookup it is for. -/
namespace Ricerca.Paging

open Ricerca.Foundation

variable {Task : Type} {lvls : Nat} {memory memory' : Memory} {roots : List Word}

/-- The pages of all mappers; a mapper has one for each level above the first. -/
def cacheOf (lvls : Nat) (zeroedPages : Task → Nat → Word) : Task × Nat → Word := fun k =>
  if k.2 < lvls - 1 then zeroedPages k.1 k.2 else physNull

section Mapper

variable [DecidableEq Task] {zeroedPages : Task → Nat → Word} {task : Task} {pages : Nat → Word}
  {i : Nat}

theorem cacheOf_self (hi : i < lvls - 1) :
    cacheOf lvls (Function.update zeroedPages task pages) (task, i) = pages i := by
  simp [cacheOf, hi]

theorem cacheOf_update (hi : i < lvls - 1) (page : Word) :
    cacheOf lvls (Function.update zeroedPages task (Function.update pages i page)) =
      Function.update (cacheOf lvls (Function.update zeroedPages task pages)) (task, i) page := by
  funext ⟨t, j⟩
  by_cases ht : t = task
  · subst ht
    by_cases hj : j = i
    · subst hj
      simp [cacheOf, hi]
    · simp [cacheOf, hj]
  · simp [cacheOf, ht]

end Mapper

/-- A page that is not in use. -/
structure Free {κ : Type} (lvls : Nat) (memory : Memory) (roots : List Word) (cache : κ → Word)
    (page : Word) : Prop where
  frame : PageFrame page
  table : ∀ cr3 path, Path lvls roots cr3 path → descend (next memory) cr3 path ≠ some page
  unread : ∀ cr3 ∈ roots, ∀ vaddr, ∀ addr ∈ reads memory vaddr lvls cr3, ¬ InPage page addr
  mapper : ∀ k, cache k ≠ page

section Zeroed

variable {κ : Type} {cache : κ → Word} {page : Word}

/-- Zeroing a page that is not in use leaves all paths as they are. -/
theorem Valid.zeroed_descend (h : Valid lvls memory roots cache) (hFree : Free lvls memory roots cache page)
    {cr3 : Word} {path : List Nat} (hPath : Path lvls roots cr3 path) :
    descend (next (memsetPage memory page)) cr3 path = descend (next memory) cr3 path := by
  refine h.congr ?_ hPath
  intro r way table hWay hTable index hIndex _
  apply memsetPage_of_ne hFree.frame.aligned (h.frame hWay hTable).aligned _ hIndex
  rintro rfl
  exact hFree.table r way hWay hTable

theorem Free.zeroed_reads (hFree : Free lvls memory roots cache page) {cr3 : Word} (hRoot : cr3 ∈ roots)
    (vaddr : Word) : reads (memsetPage memory page) vaddr lvls cr3 = reads memory vaddr lvls cr3 := by
  apply reads_congr
  intro addr hRead
  exact memsetPage_of_not_inPage (hFree.unread cr3 hRoot vaddr addr hRead)

theorem Free.zeroed_translate (hFree : Free lvls memory roots cache page) {cr3 : Word}
    (hRoot : cr3 ∈ roots) (vaddr : Word) :
    translate lvls (memsetPage memory page) cr3 vaddr = translate lvls memory cr3 vaddr := by
  apply walk_congr
  intro addr hRead
  exact memsetPage_of_not_inPage (hFree.unread cr3 hRoot vaddr addr hRead)

/-- A root is in use. -/
theorem Free.zeroed_root (hFree : Free lvls memory roots cache page)
    (h : Valid lvls memory roots cache) (hLvls : 2 ≤ lvls) {cr3 : Word} (hRoot : cr3 ∈ roots)
    {index : Nat} (hIndex : index < 512) :
    memsetPage memory page (entryAt cr3 index) = memory (entryAt cr3 index) := by
  apply memsetPage_of_ne hFree.frame.aligned (h.rootFrame cr3 hRoot).aligned _ hIndex
  rintro rfl
  exact hFree.table cr3 [] (Path.nil hRoot (by omega)) rfl

/-- The other pages that are not in use stay so. -/
theorem Free.zeroed [DecidableEq κ] {other : Word} (hFree : Free lvls memory roots cache page)
    (hOther : Free lvls memory roots cache other) (hNe : page ≠ other)
    (h : Valid lvls memory roots cache) (k : κ) :
    Free lvls (memsetPage memory page) roots (Function.update cache k page) other := by
  constructor
  case frame => exact hOther.frame
  case table =>
    intro cr3 path hPath
    rw [h.zeroed_descend hFree hPath]
    exact hOther.table cr3 path hPath
  case unread =>
    intro cr3 hRoot vaddr
    rw [hFree.zeroed_reads hRoot vaddr]
    exact hOther.unread cr3 hRoot vaddr
  case mapper =>
    intro k'
    by_cases hk : k' = k
    · rw [hk, Function.update_self]
      exact hNe
    · rw [Function.update_of_ne hk]
      exact hOther.mapper k'

end Zeroed

section Calls

variable [DecidableEq Task] {zeroedPages : Task → Nat → Word} {task : Task} {pages pages' : Nat → Word}
  {alloc : Nat → Word} {result : Bool}

/-- What refilling a mapper does. -/
structure Refilled (lvls : Nat) (roots : List Word) (memory memory' : Memory) : Prop where
  translations : ∀ cr3 ∈ roots, ∀ vaddr,
    translate lvls memory' cr3 vaddr = translate lvls memory cr3 vaddr
  rootEntries : ∀ cr3 ∈ roots, ∀ index < 512,
    memory' (entryAt cr3 index) = memory (entryAt cr3 index)

/-- Zeroing pages that are not in use keeps a property of the memory and the mappers. -/
def KeptByZeroing (lvls : Nat) (roots : List Word) (P : Memory → (Task × Nat → Word) → Prop) : Prop :=
  ∀ memory cache page k, Valid lvls memory roots cache → Free lvls memory roots cache page →
    P memory cache → P (memsetPage memory page) (Function.update cache k page)

/-- Making tables for a root from the pages of mappers keeps a property. -/
def KeptByTables (lvls : Nat) (roots : List Word) (cr3 : Word)
    (P : Memory → (Task × Nat → Word) → Prop) : Prop :=
  ∀ memory cache path index table k, Valid lvls memory roots cache →
    Path lvls roots cr3 (path ++ [index]) → descend (next memory) cr3 path = some table →
    memory (entryAt table index) = 0 → cache k ≠ physNull → P memory cache →
    P (attached memory table index (cache k)) (Function.update cache k physNull)

/-- Refilling a mapper keeps what zeroing one page keeps. -/
theorem memPagingRegenCache_spec {P : Memory → (Task × Nat → Word) → Prop} {i left : Nat}
    (hP : KeptByZeroing lvls roots P) (hLeft : i + left = lvls - 1)
    (h : Valid lvls memory roots (cacheOf lvls (Function.update zeroedPages task pages)))
    (hFree : ∀ j, i ≤ j → j < lvls - 1 → alloc j ≠ physNull →
      Free lvls memory roots (cacheOf lvls (Function.update zeroedPages task pages)) (alloc j))
    (hOnce : ∀ j < lvls - 1, ∀ j' < lvls - 1, alloc j ≠ physNull → alloc j = alloc j' → j = j')
    (hStart : P memory (cacheOf lvls (Function.update zeroedPages task pages)))
    (hRegen : memPagingRegenCache alloc i left memory pages = (result, memory', pages')) :
    Valid lvls memory' roots (cacheOf lvls (Function.update zeroedPages task pages')) ∧
      P memory' (cacheOf lvls (Function.update zeroedPages task pages')) := by
  induction left generalizing i memory pages with
  | zero =>
      simp only [memPagingRegenCache, Prod.mk.injEq] at hRegen
      obtain ⟨rfl, rfl, rfl⟩ := hRegen
      exact ⟨h, hStart⟩
  | succ left ih =>
      simp only [memPagingRegenCache] at hRegen
      split_ifs at hRegen with hNull hFailed
      · simp only [Prod.mk.injEq] at hRegen
        obtain ⟨rfl, rfl, rfl⟩ := hRegen
        exact ⟨h, hStart⟩
      · have hi : i < lvls - 1 := by omega
        have hPage := hFree i (Nat.le_refl _) hi hFailed
        have hValid : Valid lvls (memsetPage memory (alloc i)) roots
            (cacheOf lvls (Function.update zeroedPages task
              (Function.update pages i (alloc i)))) := by
          rw [cacheOf_update hi]
          exact h.zeroed hPage.frame hPage.table hPage.mapper
        have hNext : P (memsetPage memory (alloc i))
            (cacheOf lvls (Function.update zeroedPages task
              (Function.update pages i (alloc i)))) := by
          rw [cacheOf_update hi]
          exact hP memory _ (alloc i) (task, i) h hPage hStart
        refine ih (by omega) hValid ?_ hNext hRegen
        intro j hFrom hTo hSome
        rw [cacheOf_update hi]
        refine hPage.zeroed (hFree j (by omega) hTo hSome) ?_ h (task, i)
        intro hSame
        have hIndex := hOnce i hi j hTo hFailed hSame
        omega
      · exact ih (by omega) h (fun j hFrom hTo hSome => hFree j (by omega) hTo hSome) hStart hRegen

/-- No translation and no root entry depends on a page that is not in use. -/
theorem keptByZeroing_refilled (hLvls : 2 ≤ lvls) (before : Memory) :
    KeptByZeroing lvls roots fun memory (_ : Task × Nat → Word) =>
      Refilled lvls roots before memory := by
  intro memory cache page k h hFree hRefilled
  constructor
  case translations =>
    intro cr3 hRoot vaddr
    rw [hFree.zeroed_translate hRoot vaddr, hRefilled.translations cr3 hRoot vaddr]
  case rootEntries =>
    intro cr3 hRoot index hIndex
    rw [hFree.zeroed_root h hLvls hRoot hIndex, hRefilled.rootEntries cr3 hRoot index hIndex]

variable {cr3 vaddr table table' : Word}

/-- From a table on the path of an address, with a page in the mapper for each level below:
the tables on the way are made, and this keeps what making one table keeps. -/
theorem mapIntermediate_spec {P : Memory → (Task × Nat → Word) → Prop} {i : Nat}
    (hP : KeptByTables lvls roots cr3 P) (hi : i + 1 ≤ lvls) (hRoot : cr3 ∈ roots)
    (hVaddr : LowerPage lvls vaddr)
    (h : Valid lvls memory roots (cacheOf lvls (Function.update zeroedPages task pages)))
    (hTable : descend (next memory) cr3 (indices lvls vaddr (lvls - (i + 1))) = some table)
    (hPages : ∀ j < i, pages j ≠ physNull)
    (hStart : P memory (cacheOf lvls (Function.update zeroedPages task pages)))
    (hMap : mapIntermediate vaddr (i + 1) memory pages table = (memory', pages', table')) :
    Valid lvls memory' roots (cacheOf lvls (Function.update zeroedPages task pages')) ∧
      P memory' (cacheOf lvls (Function.update zeroedPages task pages')) ∧
      descend (next memory') cr3 (indices lvls vaddr (lvls - 1)) = some table' := by
  induction i generalizing memory pages table with
  | zero =>
      simp only [mapIntermediate, Prod.mk.injEq] at hMap
      obtain ⟨rfl, rfl, rfl⟩ := hMap
      exact ⟨h, hStart, hTable⟩
  | succ i ih =>
      have hLonger := indices_level vaddr hi
      have hStep : Path lvls roots cr3 (indices lvls vaddr (lvls - (i + 1 + 1)) ++
          [memPagingGetLvlIndex vaddr (i + 2)]) := by
        rw [← hLonger]
        exact hVaddr.path hRoot (by omega)
      simp only [mapIntermediate] at hMap
      split_ifs at hMap with hEmpty
      · have hCache : cacheOf lvls (Function.update zeroedPages task pages) (task, i) = pages i :=
          cacheOf_self (by omega)
        have hSome : cacheOf lvls (Function.update zeroedPages task pages) (task, i) ≠ physNull := by
          rw [hCache]
          exact hPages i (by omega)
        have hValid := h.attach hStep hTable hEmpty hSome
        have hNext := hP memory _ _ _ table (task, i) h hStep hTable hEmpty hSome hStart
        have hDescend := h.attach_descend hStep hTable hEmpty hSome hStep
        rw [if_pos ⟨rfl, rfl⟩] at hDescend
        rw [hCache] at hValid hNext hDescend
        rw [← cacheOf_update (by omega)] at hValid hNext
        refine ih (by omega) hValid (by rw [hLonger, hDescend]) ?_ hNext hMap
        intro j hj
        rw [Function.update_of_ne (by omega)]
        exact hPages j (by omega)
      · refine ih (by omega) h ?_ (fun j hj => hPages j (by omega)) hStart hMap
        rw [hLonger, descend_snoc, hTable]
        exact if_neg hEmpty

theorem keptByTables_keeps (before : Memory) :
    KeptByTables lvls roots cr3 fun memory (_ : Task × Nat → Word) =>
      Keeps lvls roots before memory := by
  intro memory cache path index table k h hStep hTable hEmpty hSome hKeeps
  exact hKeeps.trans (h.attach_keeps hStep hTable hEmpty hSome)

end Calls

end Ricerca.Paging
