import Ricerca.Thread.Task

/-! What tasks leave behind. The pages of the mapper are in its custody until they become tables
or are freed; the `memset` of `thread_task_create_call` forgets those that it has just got. -/
namespace Ricerca.Task

open Ricerca.Foundation Ricerca.Paging

variable {lvls : Nat} {k k' : Kernel} {alloc slots slots' : Nat → Word} {given pages : Finset Word}
  {result : Bool}

/-- The slots of a mapper with `n` pages hold what is allocated and not given away. -/
abbrev Holds (n : Nat) (slots : Nat → Word) (given pages : Finset Word) : Prop :=
  Custody physNull (· < n) slots given pages

/-- The first slots, up to `i`. -/
def firstSlots (i : Nat) (slots : Nat → Word) : Nat → Word := fun j => if j < i then slots j else physNull

theorem firstSlots_succ (i : Nat) (slots : Nat → Word) (page : Word) :
    firstSlots (i + 1) (Function.update slots i page) = Function.update (firstSlots i slots) i page := by
  funext j
  rw [Function.update_apply, firstSlots]
  split_ifs with hSucc hSame hSame
  · rw [hSame, Function.update_self]
  · rw [Function.update_of_ne hSame, firstSlots, if_pos (by omega)]
  · omega
  · rw [firstSlots, if_neg (by omega)]

theorem foldl_memPhysFree (l : List Nat) (slots : Nat → Word) (k : Kernel) :
    l.foldl (fun k j => k.memPhysFree (slots j)) k =
      { k with pages := l.foldl (fun left j => left.erase (slots j)) k.pages } := by
  induction l generalizing k with
  | nil => rfl
  | cons i l ih => exact ih (k.memPhysFree (slots i))

/-- Pages that are not allocated stay so when another one is. -/
theorem fresh_insert {n i : Nat} (hi : i < n)
    (hFresh : ∀ j, i ≤ j → j < n → alloc j ≠ physNull → alloc j ∉ pages)
    (hOnce : ∀ j < n, ∀ j' < n, alloc j ≠ physNull → alloc j = alloc j' → j = j') :
    ∀ j, i + 1 ≤ j → j < n → alloc j ≠ physNull → alloc j ∉ insert (alloc i) pages := by
  intro j hFrom hTo hPage
  rw [Finset.mem_insert, not_or]
  refine ⟨?_, hFresh j (by omega) hTo hPage⟩
  intro hSame
  have hIndex := hOnce j hTo i hi hPage hSame
  omega

/-- Initialising a mapper fills its slots, or leaves no page allocated. -/
theorem memPagingInitMapper_spec {n i left : Nat} (hLeft : i + left = n)
    (hFresh : ∀ j, i ≤ j → j < n → alloc j ≠ physNull → alloc j ∉ k.pages)
    (hOnce : ∀ j < n, ∀ j' < n, alloc j ≠ physNull → alloc j = alloc j' → j = j')
    (hFull : ∀ j < i, slots j ≠ physNull) (hStart : Holds n (firstSlots i slots) given k.pages)
    (hInit : memPagingInitMapper alloc i left k slots = (result, k', slots')) :
    k'.heap = k.heap ∧
      (result = true → (∀ j, i ≤ j → j < n → alloc j ≠ physNull ∧ alloc j ∈ k'.pages) ∧
        k.pages ⊆ k'.pages) ∧
      (result = false → k'.pages = given ∧ ∃ j < n, alloc j = physNull) := by
  induction left generalizing i k slots with
  | zero =>
      simp only [memPagingInitMapper, Prod.mk.injEq] at hInit
      obtain ⟨rfl, rfl, rfl⟩ := hInit
      refine ⟨rfl, fun _ => ⟨?_, Finset.Subset.refl _⟩, by simp⟩
      intro j hFrom hTo
      omega
  | succ left ih =>
      have hi : i < n := by omega
      simp only [memPagingInitMapper] at hInit
      split_ifs at hInit with hNone
      · simp only [Prod.mk.injEq] at hInit
        obtain ⟨rfl, rfl, rfl⟩ := hInit
        rw [foldl_memPhysFree, Kernel.memPagingNewZeroed, if_pos hNone]
        refine ⟨rfl, by simp, fun _ => ⟨?_, i, hi, hNone⟩⟩
        apply hStart.releaseAll
        · intro j _ hSome
          rw [List.mem_range]
          by_contra hj
          exact hSome (if_neg hj)
        · intro j hj
          have hj := List.mem_range.mp hj
          rw [firstSlots, if_pos hj, Function.update_of_ne (by omega)]
          exact ⟨by omega, hFull j hj, rfl⟩
      · have hZeroed : k.memPagingNewZeroed (alloc i) =
            { k with memory := memsetPage k.memory (alloc i), pages := insert (alloc i) k.pages } :=
          if_neg hNone
        rw [hZeroed] at hInit
        have hNext : Holds n (firstSlots (i + 1) (Function.update slots i (alloc i))) given
            (insert (alloc i) k.pages) := by
          rw [firstSlots_succ]
          exact hStart.fill hi (if_neg (by omega)) hNone (hFresh i (Nat.le_refl _) hi hNone)
        obtain ⟨hHeap, hTrue, hFalse⟩ := ih (by omega) (fresh_insert hi hFresh hOnce) (by
          intro j hj
          rw [Function.update_apply]
          split_ifs with hSame
          · exact hNone
          · exact hFull j (by omega)) hNext hInit
        refine ⟨hHeap, ?_, hFalse⟩
        intro hResult
        obtain ⟨hPages, hKept⟩ := hTrue hResult
        refine ⟨?_, (Finset.subset_insert _ _).trans hKept⟩
        intro j hFrom hTo
        rcases Nat.eq_or_lt_of_le hFrom with rfl | hLater
        · exact ⟨hNone, hKept (Finset.mem_insert_self _ _)⟩
        · exact hPages j hLater hTo

/-- Refilling a mapper puts all pages that it allocates into its slots. -/
theorem memPagingRegenCache_holds {n i left : Nat} {memory memory' : Memory} (hLeft : i + left = n)
    (hFresh : ∀ j, i ≤ j → j < n → alloc j ≠ physNull → alloc j ∉ pages)
    (hOnce : ∀ j < n, ∀ j' < n, alloc j ≠ physNull → alloc j = alloc j' → j = j')
    (hStart : Holds n slots given pages)
    (hRegen : memPagingRegenCache alloc i left memory slots = (result, memory', slots')) :
    Holds n slots' given (pages ∪ (regenPages alloc i left slots).toFinset) := by
  induction left generalizing i memory slots pages with
  | zero =>
      simp only [memPagingRegenCache, Prod.mk.injEq] at hRegen
      obtain ⟨rfl, rfl, rfl⟩ := hRegen
      simpa [regenPages] using hStart
  | succ left ih =>
      have hi : i < n := by omega
      simp only [memPagingRegenCache] at hRegen
      rw [regenPages]
      split_ifs at hRegen with hNull hFailed
      · simp only [Prod.mk.injEq] at hRegen
        obtain ⟨rfl, rfl, rfl⟩ := hRegen
        rw [if_pos hNull, if_pos hFailed]
        simpa using hStart
      · have hNext := hStart.fill hi hNull hFailed (hFresh i (Nat.le_refl _) hi hFailed)
        rw [if_pos hNull, if_neg hFailed, List.toFinset_cons, Finset.union_insert, ← Finset.insert_union]
        exact ih (by omega) (fresh_insert hi hFresh hOnce) hNext hRegen
      · rw [if_neg hNull]
        exact ih (by omega) (fun j hFrom hTo => hFresh j (by omega) hTo) hStart hRegen

/-- Pages that become tables leave the mapper. -/
theorem mapIntermediate_holds {n i : Nat} {memory memory' : Memory} {vaddr table table' : Word}
    (hi : i ≤ n) (hFull : ∀ j < i, slots j ≠ physNull) (hStart : Holds n slots given pages)
    (hMap : mapIntermediate vaddr (i + 1) memory slots table = (memory', slots', table')) :
    Holds n slots' (given ∪ (madeTables vaddr (i + 1) memory slots table).toFinset) pages ∧
      ∀ page ∈ madeTables vaddr (i + 1) memory slots table, page ∉ given := by
  induction i generalizing memory slots table given with
  | zero =>
      simp only [mapIntermediate, Prod.mk.injEq] at hMap
      obtain ⟨rfl, rfl, rfl⟩ := hMap
      exact ⟨by simpa [madeTables] using hStart, by simp [madeTables]⟩
  | succ i ih =>
      simp only [mapIntermediate] at hMap
      simp only [madeTables]
      split_ifs at hMap ⊢ with hEmpty
      · have hSome := hFull i (by omega)
        have hFull' : ∀ j < i, Function.update slots i physNull j ≠ physNull := by
          intro j hj
          rw [Function.update_of_ne (by omega)]
          exact hFull j (by omega)
        obtain ⟨hEnd, hApart⟩ := ih (by omega) hFull' (hStart.give (by omega) hSome) hMap
        constructor
        · rwa [List.toFinset_cons, Finset.union_insert, ← Finset.insert_union]
        · intro page hPage
          rcases List.mem_cons.mp hPage with rfl | hPage
          · exact hStart.apart i (by omega) hSome
          · exact fun hGiven => hApart page hPage (Finset.mem_insert_of_mem hGiven)
      · exact ih (by omega) (fun j hj => hFull j (by omega)) hStart hMap

section Creation

variable {a : Allocation} {callback : CallbackVoid} {rdcr3 : Word} {task : ThreadTask}

/-- What the mapper of a new task starts from. -/
theorem memPagingInitMapper_start (hFresh : a.Fresh lvls k) {heap : Finset (Word × Nat)}
    (hInit : memPagingInitMapper a.pages 0 (lvls - 1) { k with heap := heap } a.stale =
      (result, k', slots')) :
    k'.heap = heap ∧
      (result = true → (∀ j, 0 ≤ j → j < lvls - 1 → a.pages j ≠ physNull ∧ a.pages j ∈ k'.pages) ∧
        k.pages ⊆ k'.pages) ∧
      (result = false → k'.pages = k.pages ∧ ∃ j < lvls - 1, a.pages j = physNull) := by
  apply memPagingInitMapper_spec (Nat.zero_add _) _ hFresh.pages.once (by simp) _ hInit
  · intro j _ hj
    exact hFresh.pages.unused j hj
  · apply Custody.empty
    intro i _
    exact if_neg (Nat.not_lt_zero i)

/-- Freeing the stack and the block of a task. -/
theorem Allocation.Fresh.erase_both (h : a.Fresh lvls k) :
    ((insert (a.stack, threadTaskStackSize) (insert (a.task, sizeofThreadTask) k.heap)).erase
      (a.stack, threadTaskStackSize)).erase (a.task, sizeofThreadTask) = k.heap := by
  have hStack : (a.stack, threadTaskStackSize) ∉ insert (a.task, sizeofThreadTask) k.heap := by
    rw [Finset.mem_insert, not_or]
    refine ⟨?_, h.stack⟩
    intro hSame
    cases (Prod.mk.inj hSame).2
  rw [Finset.erase_insert hStack, Finset.erase_insert h.task]

/-- Creation fails if an allocation does, and leaves everything as it was. -/
theorem threadTaskCreateCall_failed (hFresh : a.Fresh lvls k)
    (hCreate : threadTaskCreateCall lvls a callback rdcr3 k = (none, k')) :
    a.Fails lvls ∧ k'.heap = k.heap ∧ k'.pages = k.pages := by
  rw [threadTaskCreateCall] at hCreate
  split_ifs at hCreate with hNoTask hNoStack
  · obtain ⟨-, rfl⟩ := Prod.mk.inj hCreate
    exact ⟨.inl hNoTask, rfl, rfl⟩
  · obtain ⟨-, rfl⟩ := Prod.mk.inj hCreate
    refine ⟨.inr (.inl hNoStack), ?_, rfl⟩
    exact Finset.erase_insert hFresh.task
  · dsimp only at hCreate
    split at hCreate
    next k₁ slots hInit =>
      obtain ⟨hHeap, -, hFalse⟩ := memPagingInitMapper_start hFresh hInit
      obtain ⟨hPages, hFails⟩ := hFalse rfl
      obtain ⟨-, rfl⟩ := Prod.mk.inj hCreate
      refine ⟨.inr (.inr hFails), ?_, hPages⟩
      change (k₁.heap.erase (a.task, sizeofThreadTask)).erase (a.stack, threadTaskStackSize) = k.heap
      rw [hHeap, Finset.erase_right_comm]
      exact hFresh.erase_both
    next => cases (Prod.mk.inj hCreate).1

/-- Creation succeeds if all allocations do. The mapper is empty then. -/
theorem threadTaskCreateCall_created (hFresh : a.Fresh lvls k)
    (hCreate : threadTaskCreateCall lvls a callback rdcr3 k = (some task, k')) :
    ¬ a.Fails lvls ∧
      k'.heap = insert (a.stack, threadTaskStackSize) (insert (a.task, sizeofThreadTask) k.heap) ∧
      (∀ i < lvls - 1, a.pages i ∈ k'.pages) ∧ k.pages ⊆ k'.pages ∧
      task.stack = a.stack + BitVec.ofNat 64 threadTaskStackSize ∧
      ∀ i, task.zeroedPages i = physNull := by
  rw [threadTaskCreateCall] at hCreate
  split_ifs at hCreate with hNoTask hNoStack
  · cases (Prod.mk.inj hCreate).1
  · cases (Prod.mk.inj hCreate).1
  · dsimp only at hCreate
    split at hCreate
    next => cases (Prod.mk.inj hCreate).1
    next k₁ slots hInit =>
      obtain ⟨hHeap, hTrue, -⟩ := memPagingInitMapper_start hFresh hInit
      obtain ⟨hPages, hKept⟩ := hTrue rfl
      obtain ⟨hSome, rfl⟩ := Prod.mk.inj hCreate
      obtain rfl := Option.some.inj hSome
      refine ⟨?_, hHeap, fun i hi => (hPages i (Nat.zero_le _) hi).2, hKept, rfl, fun _ => rfl⟩
      rintro (hTask | hStack | ⟨i, hi, hPage⟩)
      · exact hNoTask hTask
      · exact hNoStack hStack
      · exact (hPages i (Nat.zero_le _) hi).1 hPage

end Creation

section Lives

variable {s s' : Alive} {base : Finset Word} {call : MapCall}

/-- What is allocated is in the mapper, or has become a table, or was there before. -/
structure Accounted (lvls : Nat) (base : Finset Word) (s : Alive) : Prop where
  holds : Holds (lvls - 1) s.task.zeroedPages (base ∪ s.tables) s.kernel.pages
  apart : ∀ page ∈ s.tables, page ∉ base

theorem Accounted.mapAt (hLvls : 2 ≤ lvls) (h : Accounted lvls base s)
    (hFresh : FreshPages lvls s.kernel call.alloc) : Accounted lvls base (s.mapAt lvls call) := by
  rcases hRegen : memPagingRegenCache call.alloc 0 (lvls - 1) s.kernel.memory s.task.zeroedPages with
    ⟨result, memory, slots⟩
  have hHolds := memPagingRegenCache_holds (Nat.zero_add _)
    (fun j _ hj => hFresh.unused j hj) hFresh.once h.holds hRegen
  cases result with
  | false =>
      constructor
      case holds => simpa [Alive.mapAt, memPagingMapAt, hRegen] using hHolds
      case apart => simpa [Alive.mapAt, hRegen] using h.apart
  | true =>
      rcases hMap : mapIntermediate call.vaddr lvls memory slots call.cr3 with ⟨memory', slots', table⟩
      obtain ⟨i, rfl⟩ : ∃ i, lvls = i + 1 := ⟨lvls - 1, by omega⟩
      rw [Nat.add_sub_cancel] at hRegen
      obtain ⟨hEnd, hApart⟩ := mapIntermediate_holds (Nat.le_refl _)
        (fun j hj => memPagingRegenCache_filled hRegen j (Nat.zero_le _) (by omega)) hHolds hMap
      constructor
      case holds =>
        simpa [Alive.mapAt, memPagingMapAt, hRegen, hMap, Finset.union_assoc] using hEnd
      case apart =>
        intro page hPage
        simp only [Alive.mapAt, Nat.add_sub_cancel, hRegen, if_true, Finset.mem_union,
          List.mem_toFinset] at hPage
        rcases hPage with hPage | hPage
        · exact h.apart page hPage
        · exact fun hBase => hApart page hPage (Finset.mem_union_left _ hBase)

/-- Disposing frees what is left in the mapper. -/
theorem memPagingDeinitMapper_eq (hHolds : Holds (lvls - 1) slots given k.pages) :
    memPagingDeinitMapper lvls slots k = { k with pages := given } := by
  have hFilter : memPagingDeinitMapper lvls slots k =
      ((List.range (lvls - 1)).filter fun i => decide (slots i ≠ physNull)).foldl
        (fun k i => k.memPhysFree (slots i)) k := by
    rw [memPagingDeinitMapper, List.foldl_filter]
    simp only [decide_eq_true_eq]
  rw [hFilter, foldl_memPhysFree, hHolds.releaseAll]
  · intro i hi hSome
    rw [List.mem_filter, List.mem_range]
    exact ⟨hi, decide_eq_true hSome⟩
  · intro i hi
    rw [List.mem_filter, List.mem_range] at hi
    exact ⟨hi.1, of_decide_eq_true hi.2, rfl⟩

theorem accounted_run (hLvls : 2 ≤ lvls) {task : ThreadTask} {trace : List MapCall}
    (hEmpty : ∀ i, task.zeroedPages i = physNull) (run : (mapping lvls k task).Execution trace s) :
    Accounted lvls k.pages s ∧ s.kernel.heap = k.heap ∧ s.task.stack = task.stack := by
  induction run with
  | start hInit =>
      obtain rfl := hInit
      refine ⟨⟨?_, by simp⟩, rfl, rfl⟩
      rw [Finset.union_empty]
      exact Custody.empty (fun i _ => hEmpty i) k.pages
  | step prior last ih =>
      obtain ⟨hFresh, rfl⟩ := last
      obtain ⟨hAccounted, hHeap, hStack⟩ := ih
      exact ⟨hAccounted.mapAt hLvls hFresh, hHeap, hStack⟩

/-- A task that was created and disposed leaves its tables, and the pages that its mapper had when
the task was cleared. -/
theorem threadTaskDispose_spec (hLvls : 2 ≤ lvls) {a : Allocation} {callback : CallbackVoid}
    {rdcr3 : Word} {task : ThreadTask} {trace : List MapCall} (hFresh : a.Fresh lvls k)
    (hCreate : threadTaskCreateCall lvls a callback rdcr3 k = (some task, k'))
    (run : (mapping lvls k' task).Execution trace s) :
    (threadTaskDispose lvls a.task s.task s.kernel).heap = k.heap ∧
      (threadTaskDispose lvls a.task s.task s.kernel).pages = k'.pages ∪ s.tables ∧
      ∀ page ∈ s.tables, page ∉ k'.pages := by
  obtain ⟨-, hHeap, -, -, hStack, hEmpty⟩ := threadTaskCreateCall_created hFresh hCreate
  obtain ⟨hAccounted, hKept, hSame⟩ := accounted_run hLvls hEmpty run
  rw [threadTaskDispose, memPagingDeinitMapper_eq hAccounted.holds]
  refine ⟨?_, rfl, hAccounted.apart⟩
  simp only [Kernel.memHeapFree]
  rw [hKept, hHeap, hSame, hStack, BitVec.add_sub_cancel]
  exact hFresh.erase_both

end Lives

/-- Creating a task and disposing it returns every block, and every page that did not become a
table, if and only if an allocation failed. -/
theorem task_neutral_iff (hLvls : lvls = 4 ∨ lvls = 5) {a : Allocation} {callback : CallbackVoid}
    {rdcr3 : Word} {tables : Finset Word} (hFresh : a.Fresh lvls k)
    (life : Life lvls a callback rdcr3 k k' tables) :
    (k'.heap = k.heap ∧ k'.pages = k.pages ∪ tables) ↔ a.Fails lvls := by
  cases life with
  | failed hCreate =>
      obtain ⟨hFails, hHeap, hPages⟩ := threadTaskCreateCall_failed hFresh hCreate
      rw [Finset.union_empty]
      exact ⟨fun _ => hFails, fun _ => ⟨hHeap, hPages⟩⟩
  | @disposed task k₁ trace s hCreate run =>
      obtain ⟨hFails, -, hPages, -, -, -⟩ := threadTaskCreateCall_created hFresh hCreate
      obtain ⟨-, hLeft, hApart⟩ := threadTaskDispose_spec (by omega) hFresh hCreate run
      refine ⟨?_, fun h => (hFails h).elim⟩
      rintro ⟨-, hSame⟩
      -- The first page that the mapper got is still allocated.
      have hFirst : 0 < lvls - 1 := by omega
      have hKept : a.pages 0 ∈ k.pages ∪ s.tables := by
        rw [← hSame, hLeft]
        exact Finset.mem_union_left _ (hPages 0 hFirst)
      have hSome : a.pages 0 ≠ physNull := fun hNone => hFails (.inr (.inr ⟨0, hFirst, hNone⟩))
      rcases Finset.mem_union.mp hKept with hBefore | hTable
      · exact (hFresh.pages.unused 0 hFirst hSome hBefore).elim
      · exact (hApart _ hTable (hPages 0 hFirst)).elim

section Example

/-- Nothing is allocated yet. -/
def emptyKernel : Kernel := ⟨fun _ => 0, ∅, ∅⟩

/-- The second page of the mapper cannot be allocated. -/
def noSecondPage : Allocation where
  task := 0x100000
  stack := 0x200000
  pages := fun i => if i = 0 then 0x1000 else physNull
  stale := fun _ => 0

/-- Every allocation succeeds. -/
def allPages : Allocation where
  task := 0x100000
  stack := 0x200000
  pages := fun i => BitVec.ofNat 64 (0x1000 * (i + 1))
  stale := fun _ => 0

theorem emptyKernel_fresh {a : Allocation}
    (hOnce : ∀ i < 3, ∀ j < 3, a.pages i ≠ physNull → a.pages i = a.pages j → i = j) :
    a.Fresh 4 emptyKernel :=
  ⟨Finset.notMem_empty _, Finset.notMem_empty _, ⟨fun _ _ _ => Finset.notMem_empty _, hOnce⟩⟩

theorem task_neutral_iff_failed : ∃ k', Life 4 noSecondPage ⟨0, 0⟩ 0 emptyKernel k' ∅ ∧
    k'.heap = ∅ ∧ k'.pages = ∅ := by
  have hFresh : noSecondPage.Fresh 4 emptyKernel := emptyKernel_fresh (by decide)
  have hLife : Life 4 noSecondPage ⟨0, 0⟩ 0 emptyKernel _ ∅ := .failed rfl
  obtain ⟨hHeap, hPages⟩ := (task_neutral_iff (.inl rfl) hFresh hLife).mpr
    (.inr (.inr ⟨1, by decide, rfl⟩))
  exact ⟨_, hLife, hHeap, hPages⟩

/-- The three pages of the mapper stay allocated although the task never mapped anything. -/
theorem task_leaks_pages : allPages.Fresh 4 emptyKernel ∧ ∃ k',
    Life 4 allPages ⟨0, 0⟩ 0 emptyKernel k' ∅ ∧ k'.pages = {0x1000, 0x2000, 0x3000} ∧
      k'.pages ≠ emptyKernel.pages ∪ ∅ :=
  ⟨emptyKernel_fresh (by decide), _, .disposed rfl (.start rfl), by decide, by decide⟩

end Example

end Ricerca.Task
