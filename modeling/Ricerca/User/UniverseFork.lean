import Ricerca.Foundation.Accesses
import Ricerca.Mem.Heap
import Ricerca.User.UniverseTable

/-! `user_universe_fork` with its three allocations, each of which can fail. The array of the
new universe is made by `DYNARRAY_NEW` and then resized; the field `cells` is written after
that. Calls also list the blocks that they take from the heap and give back, and the fields
that they look at and write. -/
namespace Ricerca.Universe

open Ricerca.Foundation Ricerca.Cookie

/-- A dynarray: the array that the pointer points to, and the metadata in front of it. -/
structure Dynarray where
  array : Nat
  count : Nat
  capacity : Nat
  deriving DecidableEq

/-- `dynarray_new`. -/
def dynarrayNew (array : Nat) : Dynarray := ⟨array, 0, 0⟩

/-- `dynarray_change_cap`; `answer` comes from `mem_heap_realloc`. -/
def dynarrayChangeCap (d : Dynarray) (newcap : Nat) (answer : Option Placement) :
    Option Dynarray :=
  match answer with
  | none => if newcap ≤ d.capacity then some d else none
  | some .inPlace => some { d with capacity := newcap }
  | some (.moved array) => some { d with array := array, capacity := newcap }

/-- `dynarray_resize`. -/
def dynarrayResize (d : Dynarray) (newsize : Nat) (answer : Option Placement) : Option Dynarray :=
  let newcap := Heap.alignUp newsize dynarrayGrowthDelta
  if newcap = d.capacity then some { d with count := newsize }
  else (dynarrayChangeCap d newcap answer).map fun resized => { resized with count := newsize }

/-- Blocks of the heap that universes are made of. -/
inductive HeapBlock where
  | universe (obj : Nat)
  | array (array : Nat)
  deriving DecidableEq

inductive HeapCall where
  | alloc (block : HeapBlock)
  | free (block : HeapBlock)
  deriving DecidableEq

/-- What `mem_heap_realloc` does to the blocks when the array moved. -/
def reallocCalls (old : Nat) : Option Placement → List HeapCall
  | some (.moved array) => [.alloc (.array array), .free (.array old)]
  | _ => []

/-- Fields whose values calls look at. `universe` stands for the lock, the free list and the id
of a universe, which are written together, `length` for the metadata of a dynarray, and `cookie`
for the keys of an entry. -/
inductive Field where
  | universe (u : Nat)
  | cells (u : Nat)
  | length (array : Nat)
  | node (a : CellAddr)
  | inUse (a : CellAddr)
  | ref (a : CellAddr)
  | counter (obj : Nat)
  | cookie (entry : Nat)
  deriving DecidableEq

/-- What a call returns and leaves behind, and what it did on the way. -/
structure Effect where
  outcome : Outcome
  state : State
  heap : List HeapCall
  accesses : List (Access Field)

/-- What the heap contributes to a fork: whether there is memory for the universe, the
dynarray, what `mem_heap_realloc` answers, the contents of the new array, and what the
bytes of the new block where `cells` stands point to. -/
structure ForkMemory where
  forked : Bool
  array : Option Nat
  resized : Option Placement
  junk : Memory
  stale : Dynarray

/-- The heap never returns memory that is in use. -/
def ForkMemory.valid (s : State) (memory : ForkMemory) : Bool :=
  memory.array.all (fun a => s.arrayUnused a) && s.answerValid ⟨memory.resized, memory.junk⟩

section Accesses

variable (s : State) (u : Nat) (uni : UserUniverse)

/-- `LIST_APPEND_TAIL` to the free list. -/
def appendAccesses (freeList : DList CellAddr) (a : CellAddr) : List (Access Field) :=
  [.read (.universe u), .write (.node a)] ++
    freeList.tail.toList.map (fun tail => .write (.node tail)) ++ [.write (.universe u)]

/-- One iteration of the loop of `user_universe_fork`. -/
def forkCellAccesses (dst array entry : Nat) (cookie : UserEntryCookie) (f : Forked) (i : Nat) :
    List (Access Field) :=
  let ref := s.refs (uni.cell i)
  [.read (.cells u), .read (.inUse (uni.cell i))] ++
    (if s.inUse (uni.cell i) then [.read (.ref (uni.cell i)), .read (.cookie entry)] else []) ++
    if s.inUse (uni.cell i) && userUnpinnedFor ref cookie then
      [.read (.counter ref.ref), .write (.counter ref.ref), .write (.ref ⟨array, i⟩),
        .write (.inUse ⟨array, i⟩)]
    else .write (.inUse ⟨array, i⟩) :: appendAccesses dst f.freeList ⟨array, i⟩

/-- `user_universe_destroy`, with the array that `cells` points to. -/
def destroyAccesses (cells : Dynarray) : List (Access Field) :=
  [.read (.cells u), .read (.length cells.array)] ++ (List.range cells.count).flatMap fun i =>
    .read (.inUse ⟨cells.array, i⟩) ::
      if s.inUse ⟨cells.array, i⟩ then [.read (.ref ⟨cells.array, i⟩)] else []

end Accesses

section Fork

variable (s : State) (src : Nat) (uni : UserUniverse) (entry : Nat) (cookie : UserEntryCookie)

/-- The accesses up to the resize. -/
def forkStartAccesses (array : Nat) : List (Access Field) :=
  [.write (.length array), .write (.universe s.objectsCount), .write (.counter s.objectsCount),
    .read (.universe src), .read (.cells src), .read (.length uni.cells), .read (.length array)]

/-- There is no memory for the cells. The new universe is dropped with `cells` unwritten, and
its destructor takes what stands there for the array. -/
def forkUndone (array : Nat) (stale : Dynarray) : Effect :=
  let obj := s.objectsCount
  let forked : UserUniverse :=
    ⟨DList.empty, s.universeLastId, stale.array, stale.count, stale.capacity⟩
  let s' : State :=
    { s.newObject with
      universes := Function.update s.universes obj (some forked)
      universeLastId := s.universeLastId + 1 }
  ⟨.failed .outOfMemory, (s'.takeHeld obj).memRefDrop obj,
    [.alloc (.universe obj), .alloc (.array array), .free (.array stale.array),
      .free (.universe obj)],
    forkStartAccesses s src uni array ++ [.read (.counter obj), .write (.counter obj)] ++
      destroyAccesses s obj stale⟩

/-- The loop runs over the resized array. -/
def forkDone (array : Nat) (memory : ForkMemory) (resized : Dynarray) : Effect :=
  let obj := s.objectsCount
  let result := userUniverseFork s uni cookie (some resized.array) memory.junk
  let forkedUpTo (i : Nat) : Forked :=
    (List.range i).foldl (forkCell uni.cells resized.array cookie)
      ⟨s.moveArray memory.junk resized.array resized.array 0, DList.empty, s.newObject.refcount⟩
  ⟨result.1, result.2,
    [.alloc (.universe obj), .alloc (.array array)] ++
      if resized.capacity = 0 then [] else reallocCalls array memory.resized,
    forkStartAccesses s src uni array ++ [.write (.length resized.array), .write (.cells obj)] ++
      (List.range uni.count).flatMap fun i =>
        forkCellAccesses s src uni obj resized.array entry cookie (forkedUpTo i) i⟩

/-- `user_universe_fork` of universe `src`. -/
def userUniverseForkCall (memory : ForkMemory) : Effect :=
  let obj := s.objectsCount
  if !memory.forked then ⟨.failed .outOfMemory, s, [], []⟩
  else
    match memory.array with
    | none => ⟨.failed .outOfMemory, s, [.alloc (.universe obj), .free (.universe obj)], []⟩
    | some array =>
        match dynarrayResize (dynarrayNew array) uni.count memory.resized with
        | none => forkUndone s src uni array memory.stale
        | some resized => forkDone s src uni entry cookie array memory resized

end Fork

section Resize

variable {s : State} {uni : UserUniverse} {array n : Nat} {answer : Option Placement}

/-- The new dynarray has no room for the cells of the source unless there are none. -/
theorem alignUp_eq_zero_iff : Heap.alignUp n dynarrayGrowthDelta = 0 ↔ n = 0 := by
  simp only [Heap.alignUp, alignDown, dynarrayGrowthDelta]
  omega

/-- What a resize makes of a new dynarray. It asks the heap unless there is nothing to store. -/
theorem dynarrayResize_new (array n : Nat) (answer : Option Placement) :
    dynarrayResize (dynarrayNew array) n answer =
      if n = 0 then some (dynarrayNew array)
      else answer.map fun
        | .inPlace => ⟨array, n, Heap.alignUp n dynarrayGrowthDelta⟩
        | .moved new => ⟨new, n, Heap.alignUp n dynarrayGrowthDelta⟩ := by
  by_cases hEmpty : n = 0
  · subst hEmpty
    rfl
  · have hGrow : Heap.alignUp n dynarrayGrowthDelta ≠ 0 := fun hZero =>
      hEmpty (alignUp_eq_zero_iff.mp hZero)
    rw [if_neg hEmpty]
    refine (if_neg hGrow).trans ?_
    cases answer with
    | none =>
        have hNot : ¬Heap.alignUp n dynarrayGrowthDelta ≤ (dynarrayNew array).capacity := fun hLe =>
          hGrow (Nat.le_zero.mp hLe)
        rw [dynarrayChangeCap, if_neg hNot]
        rfl
    | some placement => cases placement <;> rfl

/-- A new dynarray can be resized when it does not have to grow or there is memory. -/
theorem dynarrayResize_eq_none_iff :
    dynarrayResize (dynarrayNew array) n answer = none ↔ n ≠ 0 ∧ answer = none := by
  rw [dynarrayResize_new]
  split_ifs with hEmpty <;> simp [hEmpty]

/-- The resized array is the one of the dynarray or the one that the heap answered. -/
theorem dynarrayResize_spec {resized : Dynarray}
    (h : dynarrayResize (dynarrayNew array) n answer = some resized) :
    resized.count = n ∧ resized.capacity = Heap.alignUp n dynarrayGrowthDelta ∧
      (resized.array = array ∨ answer = some (.moved resized.array)) := by
  rw [dynarrayResize_new] at h
  split_ifs at h with hEmpty
  · cases h
    exact ⟨hEmpty.symm, (alignUp_eq_zero_iff.mpr hEmpty).symm, Or.inl rfl⟩
  · obtain ⟨placement, rfl, rfl⟩ := Option.map_eq_some_iff.mp h
    cases placement with
    | inPlace => exact ⟨rfl, rfl, Or.inl rfl⟩
    | moved new => exact ⟨rfl, rfl, Or.inr rfl⟩

/-- No live universe has the resized array. -/
theorem valid_resized {memory : ForkMemory} {resized : Dynarray}
    (h : memory.valid s = true) (hArray : memory.array = some array)
    (hResized : dynarrayResize (dynarrayNew array) n memory.resized = some resized) :
    s.arrayUnused resized.array := by
  simp only [ForkMemory.valid, Bool.and_eq_true, hArray, Option.all_some, decide_eq_true_eq,
    State.answerValid] at h
  rcases (dynarrayResize_spec hResized).2.2 with hSame | hMoved
  · exact hSame ▸ h.1
  · simpa [hMoved] using h.2

end Resize

section Fork

variable {s : State} {src entry : Nat} {uni : UserUniverse} {cookie : UserEntryCookie}
  {memory : ForkMemory}

/-- A fork fails when one of its three allocations does. Only the last one leaves something
behind. -/
theorem forkCall_failed {status : Status}
    (h : (userUniverseForkCall s src uni entry cookie memory).outcome = .failed status) :
    ((memory.forked = false ∨ memory.array = none) ∧
      ∃ calls, (calls = [] ∨
          calls = [.alloc (.universe s.objectsCount), .free (.universe s.objectsCount)]) ∧
        userUniverseForkCall s src uni entry cookie memory = ⟨.failed .outOfMemory, s, calls, []⟩) ∨
    ∃ array, memory.forked = true ∧ memory.array = some array ∧ uni.count ≠ 0 ∧
      memory.resized = none ∧
      userUniverseForkCall s src uni entry cookie memory = forkUndone s src uni array memory.stale := by
  rw [userUniverseForkCall] at h ⊢
  cases hForked : memory.forked with
  | false => exact Or.inl ⟨Or.inl rfl, [], Or.inl rfl, rfl⟩
  | true =>
      cases hArray : memory.array with
      | none => exact Or.inl ⟨Or.inr rfl, _, Or.inr rfl, rfl⟩
      | some array =>
          right
          cases hResized : dynarrayResize (dynarrayNew array) uni.count memory.resized with
          | none =>
              obtain ⟨hCount, hAnswer⟩ := dynarrayResize_eq_none_iff.mp hResized
              exact ⟨array, rfl, rfl, hCount, hAnswer, by simp [hResized]⟩
          | some resized =>
              simp only [hForked, hArray, hResized] at h
              cases h

/-- A fork that succeeds fills the resized array. -/
theorem forkCall_created {obj : Nat} (hValid : memory.valid s = true)
    (h : (userUniverseForkCall s src uni entry cookie memory).outcome = .created obj) :
    ∃ array, s.arrayUnused array ∧ obj = s.objectsCount ∧
      (userUniverseForkCall s src uni entry cookie memory).state =
        (userUniverseFork s uni cookie (some array) memory.junk).2 := by
  rw [userUniverseForkCall] at h ⊢
  cases hForked : memory.forked with
  | false =>
      simp only [hForked] at h
      cases h
  | true =>
      cases hArray : memory.array with
      | none =>
          simp only [hForked, hArray] at h
          cases h
      | some array =>
          cases hResized : dynarrayResize (dynarrayNew array) uni.count memory.resized with
          | none =>
              simp only [hForked, hArray, hResized] at h
              cases h
          | some resized =>
              simp only [hForked, hArray, hResized] at h
              refine ⟨resized.array, valid_resized hValid hArray hResized, ?_, ?_⟩
              · exact (Outcome.created.inj h).symm
              · simp only [hResized]
                rfl

end Fork

end Ricerca.Universe
