import Ricerca.User.UniverseBalance
import Ricerca.User.UniverseFork

/-! Calls that fail. The five calls below can run out of memory or be refused half way, after
a cell was taken, a reference was borrowed or blocks were allocated. A failed call leaves no
trace, unless the resize of a fork fails, the handle is the one past the end, or the borrowed
object is a group cookie. -/
namespace Ricerca.Universe

open Ricerca.Foundation Ricerca.Cookie

section Accesses

variable (st : Store) (u : Nat) (uni : UserUniverse) (cell : Nat)

/-- The check for cyclical dependencies. -/
def orderAccesses (ref : UserRef) : List (Access Field) :=
  if ref.isUniverse then [.read (.universe ref.ref), .read (.universe u)] else []

/-- Take a free cell or push a new one. -/
def takeCellAccesses (ref : UserRef) (heap : HeapAnswer) : List (Access Field) :=
  .read (.universe u) ::
    match uni.freeList.head with
    | some a =>
        .read (.node a) :: (st.links.next a).toList.map (fun next => .write (.node next)) ++
          [.write (.universe u), .read (.inUse a), .write (.inUse a), .write (.ref a),
            .read (.cells u)]
    | none =>
        [.read (.cells u), .read (.length uni.cells)] ++
          match dynarrayPush st.toMemory uni ref heap with
          | none => []
          | some (_, uni') =>
              [.write (.length uni'.cells), .write (.inUse (uni'.cell uni.count)),
                .write (.ref (uni'.cell uni.count)), .write (.cells u)]

/-- `user_universe_move_in_nolock`. -/
def moveInAccesses (ref : UserRef) (heap : HeapAnswer) : List (Access Field) :=
  orderAccesses u ref ++
    if violatesOrder st uni ref then [] else takeCellAccesses st u uni ref heap

/-- The heap is asked when the array is full. -/
def moveInHeap (ref : UserRef) (heap : HeapAnswer) : List HeapCall :=
  if violatesOrder st uni ref then []
  else
    match uni.freeList.head with
    | some _ => []
    | none => if uni.count < uni.capacity then [] else reallocCalls uni.cells heap.placement

/-- Set `in_use` to false and append the cell to the free list. -/
def freeCellAccesses : List (Access Field) :=
  .read (.cells u) :: .write (.inUse (uni.cell cell)) ::
    appendAccesses u uni.freeList (uni.cell cell)

/-- `user_universe_check_ref_nolock`. -/
def checkRefAccesses : List (Access Field) :=
  [.read (.cells u), .read (.length uni.cells)] ++
    (checkRefReads uni cell).map fun a => .read (.inUse a)

end Accesses

section Calls

variable (s : State)

/-- `user_universe_move_in_pair`. -/
def moveInPairAccesses (u : Nat) (uni : UserUniverse) (first second : UserRef)
    (heap heap' : HeapAnswer) : List (Access Field) :=
  moveInAccesses s.toStore u uni first heap ++
    match userUniverseMoveInNolock s.toStore uni first heap with
    | .error _ => []
    | .ok (cell, m, uni') =>
        let st := s.toStore.put u m uni'
        moveInAccesses st u uni' second heap' ++
          match userUniverseMoveInNolock st uni' second heap' with
          | .error _ => freeCellAccesses u uni' cell
          | .ok _ => []

def moveInPairHeap (u : Nat) (uni : UserUniverse) (first second : UserRef)
    (heap heap' : HeapAnswer) : List HeapCall :=
  moveInHeap s.toStore uni first heap ++
    match userUniverseMoveInNolock s.toStore uni first heap with
    | .error _ => []
    | .ok (_, m, uni') => moveInHeap (s.toStore.put u m uni') uni' second heap'

variable (src : Nat) (uni : UserUniverse) (cell dst : Nat) (dstUni : UserUniverse) (entry : Nat)
  (cookie : UserEntryCookie) (heap : HeapAnswer)

/-- `user_universe_lock_pair` and the check of the handle. -/
def acrossAccesses : List (Access Field) :=
  [.read (.universe src), .read (.universe dst)] ++ checkRefAccesses src uni cell

/-- `user_universe_move_across`. -/
def moveAcrossAccesses : List (Access Field) :=
  acrossAccesses src uni cell dst ++
    if !userUniverseCheckRefNolock s.toStore uni cell then []
    else
      let ref := s.refs (uni.cell cell)
      [.read (.cells src), .read (.ref (uni.cell cell)), .read (.cookie entry)] ++
        if !userUnpinnedFor ref cookie then []
        else
          moveInAccesses s.toStore dst dstUni ref heap ++
            match userUniverseMoveInNolock s.toStore dstUni ref heap with
            | .error _ => []
            | .ok _ => freeCellAccesses src uni cell

/-- `MEM_REF_BORROW` and `MEM_REF_DROP` change the counter that they find. -/
def countAccesses (obj : Nat) : List (Access Field) :=
  [.read (.counter obj), .write (.counter obj)]

/-- `user_universe_borrow_across`. -/
def borrowAcrossAccesses : List (Access Field) :=
  acrossAccesses src uni cell dst ++
    if !userUniverseCheckRefNolock s.toStore uni cell then []
    else
      let ref := s.refs (uni.cell cell)
      [.read (.cells src), .read (.ref (uni.cell cell))] ++ countAccesses ref.ref ++
        .read (.cookie entry) ::
          if !userUnpinnedFor ref cookie then countAccesses ref.ref
          else
            moveInAccesses s.toStore dst dstUni ref heap ++
              match userUniverseMoveInNolock s.toStore dstUni ref heap with
              | .error _ => countAccesses ref.ref
              | .ok _ => []

/-- The heap calls of a reference that goes from one universe to another one. -/
def acrossHeap : List HeapCall :=
  let ref := s.refs (uni.cell cell)
  if userUniverseCheckRefNolock s.toStore uni cell && userUnpinnedFor ref cookie then
    moveInHeap s.toStore dstUni ref heap
  else []

end Calls

/-- The calls that store references in a universe, with the answers of the heap. -/
inductive Call where
  | moveIn (u : Nat) (ref : UserRef) (heap : HeapAnswer)
  | moveInPair (u : Nat) (first second : UserRef) (heap heap' : HeapAnswer)
  | moveAcross (src dst cell entry : Nat) (heap : HeapAnswer)
  | borrowAcross (src dst cell entry : Nat) (heap : HeapAnswer)
  | fork (src entry : Nat) (memory : ForkMemory)

/-- A call together with what it did on the way. -/
def traced (s : State) (op : Op) (heap : List HeapCall) (accesses : List (Access Field)) :
    Option Effect :=
  (exec s op).map fun result => ⟨result.1, result.2, heap, accesses⟩

/-- One completed call. -/
def Call.run (s : State) : Call → Option Effect
  | .moveIn u ref heap => do
      let uni ← s.universes u
      traced s (.moveIn u ref heap) (moveInHeap s.toStore uni ref heap)
        (moveInAccesses s.toStore u uni ref heap)
  | .moveInPair u first second heap heap' => do
      let uni ← s.universes u
      traced s (.moveInPair u first second heap heap')
        (moveInPairHeap s u uni first second heap heap')
        (moveInPairAccesses s u uni first second heap heap')
  | .moveAcross src dst cell entry heap => do
      let uni ← s.universes src
      let dstUni ← s.universes dst
      let e ← s.entries entry
      traced s (.moveAcross src dst cell entry heap) (acrossHeap s uni cell dstUni e heap)
        (moveAcrossAccesses s src uni cell dst dstUni entry e heap)
  | .borrowAcross src dst cell entry heap => do
      let uni ← s.universes src
      let dstUni ← s.universes dst
      let e ← s.entries entry
      traced s (.borrowAcross src dst cell entry heap) (acrossHeap s uni cell dstUni e heap)
        (borrowAcrossAccesses s src uni cell dst dstUni entry e heap)
  | .fork src entry memory => do
      let uni ← s.universes src
      let e ← s.entries entry
      if memory.valid s then some (userUniverseForkCall s src uni entry e memory) else none

/-- Somebody wrote the field before: a universe that is there was filled in, and the cells of
its array were pushed or forked, the free ones without a reference. Counters are written by
`MEM_REF_INIT`, except those of the `exempt` objects. -/
def Initialised (exempt : Nat → Prop) (s : State) : Field → Prop
  | .universe u | .cells u => s.universes u ≠ none
  | .length array => ∃ u uni, s.universes u = some uni ∧ array = uni.cells
  | .node a => ∃ u uni nodes, s.universes u = some uni ∧ Represents s.links uni.freeList nodes ∧
      a ∈ nodes
  | .inUse a => ∃ u uni i, s.universes u = some uni ∧ i < uni.count ∧ a = uni.cell i
  | .ref a => ∃ u uni i, s.universes u = some uni ∧ i < uni.count ∧ a = uni.cell i ∧
      s.inUse a = true
  | .counter obj => obj < s.objectsCount ∧ ¬exempt obj
  | .cookie entry => s.entries entry ≠ none

/-- The live blocks after a call to the heap. -/
def HeapCall.apply (blocks : Set HeapBlock) : HeapCall → Set HeapBlock
  | .alloc block => insert block blocks
  | .free block => blocks \ {block}

/-- The block is the cell array of a universe. -/
def OwnArray (s : State) (block : HeapBlock) : Prop :=
  ∃ u uni, s.universes u = some uni ∧ block = .array uni.cells

/-- The call left no trace, apart from growth of the cell arrays, and looked at nothing that
was never initialised. -/
structure Unchanged (exempt : Nat → Prop) (s : State) (blocks : Set HeapBlock) (effect : Effect) :
    Prop where
  handles : ∀ u i, view effect.state.toStore u i = view s.toStore u i
  live : ∀ u, effect.state.universes u = none ↔ s.universes u = none
  counters : effect.state.refcount = s.refcount
  heap : ∀ b, ¬OwnArray s b → ¬OwnArray effect.state b →
    (b ∈ effect.heap.foldl HeapCall.apply blocks ↔ b ∈ blocks)
  reads : Access.InOrder (Initialised exempt s) effect.accesses

/-- The handle is not the one past the end, the object to be borrowed has a counter that was
initialised, and the allocation of a fork that fails is not the resize. -/
def Call.Careful (exempt : Nat → Prop) (s : State) : Call → Prop
  | .moveIn .. | .moveInPair .. => True
  | .moveAcross src _ cell _ _ => ∀ uni, s.universes src = some uni → cell ≠ uni.count
  | .borrowAcross src _ cell _ _ =>
      (∀ uni, s.universes src = some uni → cell ≠ uni.count) ∧
      ∀ ref, view s.toStore src cell = some ref → ¬exempt ref.ref
  | .fork src _ memory =>
      memory.forked = true → memory.array ≠ none → memory.resized = none →
        ∀ uni, s.universes src = some uni → uni.count = 0

section MoveIn

variable {exempt : Nat → Prop} {s : State} {st : Store} {u cell : Nat} {uni uni' : UserUniverse}
  {ref : UserRef} {heap : HeapAnswer} {m : Memory} {status : Status}

/-- A reference is refused for the order, or there is neither a free cell nor memory. -/
theorem moveIn_error (h : userUniverseMoveInNolock st uni ref heap = .error status) :
    violatesOrder st uni ref = true ∨
      uni.freeList.head = none ∧ dynarrayPush st.toMemory uni ref heap = none := by
  cases hOrder : violatesOrder st uni ref with
  | true => exact Or.inl rfl
  | false =>
      right
      simp only [userUniverseMoveInNolock, hOrder, Bool.false_eq_true, if_false,
        DList.removeHead] at h
      cases hHead : uni.freeList.head with
      | some a =>
          simp only [hHead] at h
          cases hNext : st.links.next a <;> simp only [hNext] at h <;> cases h
      | none =>
          simp only [hHead] at h
          cases hPush : dynarrayPush st.toMemory uni ref heap with
          | none => exact ⟨rfl, rfl⟩
          | some pushed =>
              simp only [hPush] at h
              cases h

/-- A full array without memory does not grow. -/
theorem dynarrayPush_none (h : dynarrayPush st.toMemory uni ref heap = none) :
    ¬uni.count < uni.capacity ∧ heap.placement = none := by
  simp only [dynarrayPush] at h
  split_ifs at h with hRoom
  refine ⟨hRoom, ?_⟩
  cases hAnswer : heap.placement with
  | none => rfl
  | some placement =>
      cases placement <;> simp only [hAnswer] at h <;> cases h

theorem moveInHeap_error (h : userUniverseMoveInNolock st uni ref heap = .error status) :
    moveInHeap st uni ref heap = [] := by
  rw [moveInHeap]
  rcases moveIn_error h with hOrder | ⟨hHead, hPush⟩
  · rw [if_pos hOrder]
  · obtain ⟨hFull, hAnswer⟩ := dynarrayPush_none hPush
    rw [hHead, hAnswer]
    simp [reallocCalls]

/-- A reference moved in finds a free cell or makes the array longer, which may move it. -/
theorem moveIn_grows (h : userUniverseMoveInNolock st uni ref heap = .ok (cell, m, uni')) :
    (uni'.cells = uni.cells ∨ .write (.length uni'.cells) ∈ moveInAccesses st u uni ref heap) ∧
    (moveInHeap st uni ref heap = [] ∨
      moveInHeap st uni ref heap = [.alloc (.array uni'.cells), .free (.array uni.cells)]) := by
  rw [userUniverseMoveInNolock] at h
  split_ifs at h with hOrder
  simp only [DList.removeHead] at h
  cases hHead : uni.freeList.head with
  | some a =>
      rw [moveInHeap, if_neg hOrder, hHead]
      cases hNext : st.links.next a <;> simp only [hHead, hNext] at h <;> cases h <;>
        exact ⟨Or.inl rfl, Or.inl rfl⟩
  | none =>
      simp only [hHead] at h
      cases hPush : dynarrayPush st.toMemory uni ref heap with
      | none =>
          simp only [hPush] at h
          cases h
      | some pushed =>
          simp only [hPush] at h
          cases h
          refine ⟨Or.inr (by simp [moveInAccesses, takeCellAccesses, hOrder, hHead, hPush]), ?_⟩
          rw [moveInHeap, if_neg hOrder, hHead]
          simp only [dynarrayPush] at hPush
          split_ifs at hPush ⊢ with hRoom
          · exact Or.inl rfl
          · cases hAnswer : heap.placement with
            | none =>
                simp only [hAnswer] at hPush
                cases hPush
            | some placement =>
                cases placement with
                | inPlace => exact Or.inl rfl
                | moved array =>
                    simp only [hAnswer] at hPush
                    cases hPush
                    exact Or.inr rfl

/-- Without a free cell and without memory, only the length of the array is looked at. -/
theorem moveIn_error_reads (h : userUniverseMoveInNolock st uni ref heap = .error status)
    (hType : ref.isUniverse = false) {f : Field}
    (hf : .read f ∈ moveInAccesses st u uni ref heap) :
    f = .universe u ∨ f = .cells u ∨ f = .length uni.cells := by
  have hOrder : violatesOrder st uni ref = false := by simp [violatesOrder, hType]
  obtain ⟨hHead, hPush⟩ := (moveIn_error h).resolve_left (by simp [hOrder])
  simpa [moveInAccesses, orderAccesses, takeCellAccesses, hType, hOrder, hHead, hPush] using hf

theorem freeCell_reads {f : Field} (hf : .read f ∈ freeCellAccesses u uni cell) :
    f = .cells u ∨ f = .universe u := by
  simpa [freeCellAccesses, appendAccesses] using hf

/-- The free cell at the head of the list is initialised, and so is the length of the array. -/
theorem takeCell_reads (hTable : Table True s.toStore s.objectsCount)
    (hUni : s.universes u = some uni) :
    ∀ f, .read f ∈ takeCellAccesses s.toStore u uni ref heap → Initialised exempt s f := by
  have hLive : s.universes u ≠ none := by simp [hUni]
  intro f hf
  rcases List.mem_cons.mp hf with hf | hf
  · cases hf
    exact hLive
  · cases hHead : uni.freeList.head with
    | none =>
        rw [hHead] at hf
        cases hPush : dynarrayPush s.toMemory uni ref heap <;> rw [hPush] at hf <;>
          simp only [List.mem_append, List.mem_cons, List.not_mem_nil, Access.read.injEq,
            reduceCtorEq, or_false] at hf <;> rcases hf with rfl | rfl
        · exact hLive
        · exact ⟨u, uni, hUni, rfl⟩
        · exact hLive
        · exact ⟨u, uni, hUni, rfl⟩
    | some a =>
        obtain ⟨nodes, hShape, hComplete⟩ := hTable.shape u uni hUni
        have hFirst : a ∈ nodes := List.mem_of_mem_head? (hShape.list.head_eq.symm.trans hHead)
        rw [hHead] at hf
        simp only [List.mem_append, List.mem_cons, List.mem_map, List.not_mem_nil,
          Access.read.injEq, reduceCtorEq, or_false, false_or, and_false, exists_false] at hf
        rcases hf with rfl | rfl | rfl
        · exact ⟨u, uni, nodes, hUni, hShape.list, hFirst⟩
        · refine ⟨u, uni, a.index, hUni, (hComplete trivial).1 a hFirst, ?_⟩
          rw [UserUniverse.cell, ← (hShape.own a hFirst).1]
        · exact hLive

/-- Moving a reference in looks at the universe, at the universe referred to, and at the free
cell that it takes. -/
theorem moveIn_reads (hTable : Table True s.toStore s.objectsCount)
    (hUni : s.universes u = some uni)
    (hType : ref.isUniverse = true → s.universes ref.ref ≠ none) :
    ∀ f, .read f ∈ moveInAccesses s.toStore u uni ref heap → Initialised exempt s f := by
  intro f hf
  rcases List.mem_append.mp hf with hf | hf
  · rw [orderAccesses] at hf
    split_ifs at hf with hUniverse
    · rcases List.mem_cons.mp hf with hf | hf
      · cases hf
        exact hType hUniverse
      · cases List.mem_singleton.mp hf
        simp [Initialised, hUni]
    · cases hf
  · split_ifs at hf
    · cases hf
    · exact takeCell_reads hTable hUni f hf

end MoveIn

section Calls

variable {exempt : Nat → Prop} {s : State} {blocks : Set HeapBlock} {effect : Effect}
  {status : Status}

/-- A call that came to nothing before it changed anything. -/
theorem Unchanged.of_same (hState : effect.state = s) (hHeap : effect.heap = [])
    (hReads : Access.InOrder (Initialised exempt s) effect.accesses) :
    Unchanged exempt s blocks effect := by
  refine ⟨?_, ?_, ?_, ?_, hReads⟩
  all_goals simp [hState, hHeap]

/-- A borrowed reference that is dropped again. -/
theorem memRefBorrow_drop {obj : Nat} (hPos : 0 < s.refcount obj) :
    (s.memRefBorrow obj).memRefDrop obj = s := by
  have hMore : s.refcount obj + 1 ≠ 1 := by omega
  simp only [State.memRefDrop, State.memRefBorrow, Function.update_self, if_neg hMore,
    Function.update_idem, Nat.add_sub_cancel, Function.update_eq_self]

theorem moveIn_unchanged (hTable : Table True s.toStore s.objectsCount) {u : Nat} {ref : UserRef}
    {heap : HeapAnswer} (hRun : (Call.moveIn u ref heap).run s = some effect)
    (hFailed : effect.outcome = .failed status) : Unchanged exempt s blocks effect := by
  simp only [Call.run, traced, Option.bind_eq_bind, Option.bind_eq_some_iff,
    Option.map_eq_some_iff] at hRun
  obtain ⟨uni, hUni, ⟨outcome, s'⟩, hExec, rfl⟩ := hRun
  simp only [exec, hUni, Option.bind_eq_bind, Option.bind_some] at hExec
  split_ifs at hExec with hPre
  rw [Bool.and_eq_true] at hPre
  have hType : ref.isUniverse = true → s.universes ref.ref ≠ none := fun hUniverse =>
    graph_ids_isSome.mp ((ownsRef_spec hPre.1).2.mp hUniverse)
  rw [userUniverseMoveIn] at hExec
  cases hMove : userUniverseMoveInNolock s.toStore uni ref heap with
  | error status =>
      rw [hMove] at hExec
      cases hExec
      exact .of_same rfl (moveInHeap_error hMove) (.of_reads (moveIn_reads hTable hUni hType))
  | ok result =>
      rw [hMove] at hExec
      cases hExec
      cases hFailed

/-- The cell of the first reference is reclaimed. Its array may have grown. -/
theorem moveInPair_unchanged (hTable : Table True s.toStore s.objectsCount) {u : Nat}
    {first second : UserRef} {heap heap' : HeapAnswer}
    (hRun : (Call.moveInPair u first second heap heap').run s = some effect)
    (hFailed : effect.outcome = .failed status) : Unchanged exempt s blocks effect := by
  simp only [Call.run, traced, Option.bind_eq_bind, Option.bind_eq_some_iff,
    Option.map_eq_some_iff] at hRun
  obtain ⟨uni, hUni, ⟨outcome, s'⟩, hExec, rfl⟩ := hRun
  simp only [exec, hUni, Option.bind_eq_bind, Option.bind_some] at hExec
  split_ifs at hExec with hPre
  simp only [Bool.and_eq_true, Bool.not_eq_true'] at hPre
  obtain ⟨⟨⟨⟨⟨-, -⟩, hFirst⟩, hSecond⟩, hValid⟩, -⟩ := hPre
  have hReads : ∀ f, .read f ∈ moveInAccesses s.toStore u uni first heap →
      Initialised exempt s f := moveIn_reads hTable hUni (by simp [hFirst])
  rw [userUniverseMoveInPair] at hExec
  cases hMove : userUniverseMoveInNolock s.toStore uni first heap with
  | error status =>
      rw [hMove] at hExec
      cases hExec
      refine .of_same rfl ?_ ?_
      · simp [moveInPairHeap, hMove, moveInHeap_error hMove]
      · simpa [moveInPairAccesses, hMove] using Access.InOrder.of_reads hReads
  | ok result =>
      obtain ⟨cell, m, uni'⟩ := result
      simp only [hMove] at hExec
      cases hMove' : userUniverseMoveInNolock (s.toStore.put u m uni') uni' second heap' with
      | ok result =>
          rw [hMove'] at hExec
          cases hExec
          cases hFailed
      | error status =>
          rw [hMove'] at hExec
          cases hExec
          obtain ⟨-, -, hView⟩ := pairUndone_table hTable hUni hValid hMove
          obtain ⟨hCells, hHeap⟩ := moveIn_grows (u := u) hMove
          have hLive : s.universes u ≠ none := by simp [hUni]
          refine ⟨hView, fun v => ?_, rfl, fun b hBefore hAfter => ?_, ?_⟩
          · by_cases hEq : v = u
            · subst hEq
              simp [Store.freeCell, hUni]
            · simp [Store.freeCell, put_of_ne hEq]
          · have hOld : b ≠ .array uni.cells := fun hEq => hBefore ⟨u, uni, hUni, hEq⟩
            have hNew : b ≠ .array uni'.cells := fun hEq =>
              hAfter ⟨u, _, put_self .., hEq⟩
            simp only [moveInPairHeap, hMove, moveInHeap_error hMove', List.append_nil]
            rcases hHeap with hNone | hMoved
            · rw [hNone]
              rfl
            · rw [hMoved]
              simp [HeapCall.apply, hOld, hNew]
          · simp only [moveInPairAccesses, hMove, hMove']
            rw [Access.inOrder_append]
            refine ⟨.of_reads hReads, .of_reads fun f hf => ?_⟩
            rcases List.mem_append.mp hf with hf | hf
            · rcases moveIn_error_reads hMove' hSecond hf with rfl | rfl | rfl
              · exact Or.inr hLive
              · exact Or.inr hLive
              · exact hCells.symm.imp_right fun hSame => ⟨u, uni, hUni, hSame⟩
            · rcases freeCell_reads hf with rfl | rfl
              · exact Or.inr hLive
              · exact Or.inr hLive

variable {src dst cell entry : Nat} {uni dstUni : UserUniverse} {e : UserEntryCookie}
  {heap : HeapAnswer}

/-- The handle that was checked is looked at unless it is out of bounds. -/
theorem across_reads (hUni : s.universes src = some uni) (hDst : s.universes dst = some dstUni)
    (hNe : cell ≠ uni.count) :
    ∀ f, .read f ∈ acrossAccesses src uni cell dst → Initialised exempt s f := by
  intro f hf
  simp only [acrossAccesses, checkRefAccesses, checkRefReads, List.mem_append, List.mem_cons,
    List.mem_map, Access.read.injEq, List.not_mem_nil, or_false] at hf
  rcases hf with (rfl | rfl) | (rfl | rfl) | ⟨a, ha, rfl⟩
  · simp [Initialised, hUni]
  · simp [Initialised, hDst]
  · simp [Initialised, hUni]
  · exact ⟨src, uni, hUni, rfl⟩
  · split_ifs at ha with hOut
    · cases ha
    · exact ⟨src, uni, cell, hUni, by omega, List.mem_singleton.mp ha⟩

/-- The cell one past the end was never written. -/
theorem across_inOrder (hTable : Table True s.toStore s.objectsCount)
    (hUni : s.universes src = some uni) {rest : List (Access Field)}
    (h : Access.InOrder (Initialised exempt s) (acrossAccesses src uni cell dst ++ rest)) :
    cell ≠ uni.count := by
  rintro rfl
  have hSplit : acrossAccesses src uni uni.count dst ++ rest =
      [.read (.universe src), .read (.universe dst), .read (.cells src),
        .read (.length uni.cells)] ++ .read (.inUse (uni.cell uni.count)) :: rest := by
    simp [acrossAccesses, checkRefAccesses, checkRefReads]
  rw [hSplit] at h
  obtain ⟨v, own, i, hOwn, hLt, hCell⟩ := h.read_defined (by simp)
  simp only [UserUniverse.cell, CellAddr.mk.injEq] at hCell
  obtain rfl := hTable.arrays src v uni own hUni hOwn hCell.1
  obtain rfl := Option.some.inj (hUni.symm.trans hOwn)
  omega

theorem moveAcross_unchanged_iff (hTable : Table True s.toStore s.objectsCount)
    (hCounts : Counted exempt (graph s))
    (hRun : (Call.moveAcross src dst cell entry heap).run s = some effect)
    (hFailed : effect.outcome = .failed status) :
    Unchanged exempt s blocks effect ↔ (Call.moveAcross src dst cell entry heap).Careful exempt s := by
  simp only [Call.run, traced, Option.bind_eq_bind, Option.bind_eq_some_iff,
    Option.map_eq_some_iff] at hRun
  obtain ⟨uni, hUni, dstUni, hDst, e, hEntry, ⟨outcome, s'⟩, hExec, rfl⟩ := hRun
  simp only [exec, hUni, hDst, hEntry, Option.bind_eq_bind, Option.bind_some] at hExec
  split_ifs at hExec with hPre
  constructor
  · intro h own hOwn
    obtain rfl := Option.some.inj (hUni.symm.trans hOwn)
    exact across_inOrder hTable hUni h.reads
  · intro hCareful
    have hNe : cell ≠ uni.count := hCareful uni hUni
    have hAcross : ∀ f, .read f ∈ acrossAccesses src uni cell dst → Initialised exempt s f :=
      across_reads hUni hDst hNe
    rw [userUniverseMoveAcross] at hExec
    cases hCheck : userUniverseCheckRefNolock s.toStore uni cell with
    | false =>
        rw [hCheck] at hExec
        cases hExec
        refine .of_same rfl (by simp [acrossHeap, hCheck]) (.of_reads fun f hf => hAcross f ?_)
        simpa [moveAcrossAccesses, hCheck] using hf
    | true =>
        obtain ⟨hLt, hView⟩ := checkRef_view hUni hNe hCheck
        have hUse := (checkRef_iff.mp hCheck).2
        have hCell : ∀ f, .read f ∈ acrossAccesses src uni cell dst ++ [.read (.cells src),
            .read (.ref (uni.cell cell)), .read (.cookie entry)] → Initialised exempt s f := by
          intro f hf
          rcases List.mem_append.mp hf with hf | hf
          · exact hAcross f hf
          · simp only [List.mem_cons, Access.read.injEq, List.not_mem_nil, or_false] at hf
            rcases hf with rfl | rfl | rfl
            · simp [Initialised, hUni]
            · exact ⟨src, uni, cell, hUni, hLt, rfl, hUse⟩
            · simp [Initialised, hEntry]
        cases hAuth : userUnpinnedFor (s.refs (uni.cell cell)) e with
        | false =>
            simp only [hCheck, hAuth] at hExec
            cases hExec
            refine .of_same rfl (by simp [acrossHeap, hAuth]) (.of_reads fun f hf => hCell f ?_)
            simpa [moveAcrossAccesses, hCheck, hAuth] using hf
        | true =>
            cases hMove : userUniverseMoveInNolock s.toStore dstUni (s.refs (uni.cell cell)) heap with
            | ok result =>
                simp only [hCheck, hAuth, hMove] at hExec
                cases hExec
                cases hFailed
            | error status =>
                simp only [hCheck, hAuth, hMove] at hExec
                cases hExec
                refine .of_same rfl ?_ (.of_reads fun f hf => ?_)
                · simp [acrossHeap, hCheck, hAuth, moveInHeap_error hMove]
                · have hParts : .read f ∈ (acrossAccesses src uni cell dst ++ [.read (.cells src),
                      .read (.ref (uni.cell cell)), .read (.cookie entry)]) ++
                      moveInAccesses s.toStore dst dstUni (s.refs (uni.cell cell)) heap := by
                    simpa [moveAcrossAccesses, hCheck, hAuth, hMove] using hf
                  rcases List.mem_append.mp hParts with hf | hf
                  · exact hCell f hf
                  · refine moveIn_reads hTable hDst (fun hUniverse => ?_) f hf
                    exact graph_ids_isSome.mp (hCounts.typed _ _ _ hView hUniverse)

/-- A borrow looks at the counter of the object before it writes it. -/
theorem borrowAcross_counter
    (hCheck : userUniverseCheckRefNolock s.toStore uni cell = true)
    (h : Access.InOrder (Initialised exempt s)
      (borrowAcrossAccesses s src uni cell dst dstUni entry e heap)) :
    ¬exempt (s.refs (uni.cell cell)).ref := by
  simp only [borrowAcrossAccesses, hCheck, Bool.not_true, Bool.false_eq_true, if_false,
    countAccesses, List.append_assoc] at h
  rw [← List.append_assoc] at h
  have hCounter : Initialised exempt s (.counter (s.refs (uni.cell cell)).ref) :=
    h.read_defined (by simp [acrossAccesses, checkRefAccesses])
  exact hCounter.2

/-- All that a borrow looks at. -/
theorem borrowAcross_reads (hTable : Table True s.toStore s.objectsCount)
    (hCounts : Counted exempt (graph s)) (hUni : s.universes src = some uni)
    (hDst : s.universes dst = some dstUni) (hEntry : s.entries entry = some e)
    (hNe : cell ≠ uni.count)
    (hObj : ∀ ref, view s.toStore src cell = some ref → ¬exempt ref.ref) :
    ∀ f, .read f ∈ borrowAcrossAccesses s src uni cell dst dstUni entry e heap →
      Initialised exempt s f := by
  intro f hf
  rcases List.mem_append.mp hf with hf | hf
  · exact across_reads hUni hDst hNe f hf
  · cases hCheck : userUniverseCheckRefNolock s.toStore uni cell with
    | false => simp [hCheck] at hf
    | true =>
        obtain ⟨hLt, hView⟩ := checkRef_view hUni hNe hCheck
        have hCounter : Initialised exempt s (.counter (s.refs (uni.cell cell)).ref) :=
          ⟨hCounts.target _ _ _ hView, hObj _ hView⟩
        have hMoved : ∀ f, .read f ∈
            moveInAccesses s.toStore dst dstUni (s.refs (uni.cell cell)) heap →
            Initialised exempt s f :=
          moveIn_reads hTable hDst fun hUniverse =>
            graph_ids_isSome.mp (hCounts.typed _ _ _ hView hUniverse)
        have hDrop : ∀ f, .read f ∈ countAccesses (s.refs (uni.cell cell)).ref →
            Initialised exempt s f := by
          intro f hf
          simp only [countAccesses, List.mem_cons, Access.read.injEq, reduceCtorEq,
            List.not_mem_nil, or_false] at hf
          exact hf ▸ hCounter
        simp only [hCheck, Bool.not_true, Bool.false_eq_true, if_false, List.mem_append,
          List.mem_cons, Access.read.injEq, List.not_mem_nil, or_false] at hf
        rcases hf with ((rfl | rfl) | hf) | rfl | hf
        · simp [Initialised, hUni]
        · exact ⟨src, uni, cell, hUni, hLt, rfl, (checkRef_iff.mp hCheck).2⟩
        · exact hDrop f hf
        · simp [Initialised, hEntry]
        · split_ifs at hf
          · exact hDrop f hf
          · rcases List.mem_append.mp hf with hf | hf
            · exact hMoved f hf
            · split at hf
              · exact hDrop f hf
              · cases hf

theorem borrowAcross_unchanged_iff (hTable : Table True s.toStore s.objectsCount)
    (hCounts : Counted exempt (graph s))
    (hRun : (Call.borrowAcross src dst cell entry heap).run s = some effect)
    (hFailed : effect.outcome = .failed status) :
    Unchanged exempt s blocks effect ↔
      (Call.borrowAcross src dst cell entry heap).Careful exempt s := by
  simp only [Call.run, traced, Option.bind_eq_bind, Option.bind_eq_some_iff,
    Option.map_eq_some_iff] at hRun
  obtain ⟨uni, hUni, dstUni, hDst, e, hEntry, ⟨outcome, s'⟩, hExec, rfl⟩ := hRun
  simp only [exec, hUni, hDst, hEntry, Option.bind_eq_bind, Option.bind_some] at hExec
  split_ifs at hExec with hPre
  constructor
  · intro h
    have hNe : cell ≠ uni.count := across_inOrder hTable hUni h.reads
    refine ⟨fun own hOwn => ?_, fun ref hView => ?_⟩
    · obtain rfl := Option.some.inj (hUni.symm.trans hOwn)
      exact hNe
    · obtain ⟨own, hOwn, hLookup⟩ := view_eq_some_iff.mp hView
      obtain rfl := Option.some.inj (hUni.symm.trans hOwn)
      obtain ⟨hLt, hUse, rfl⟩ := lookup_eq_some_iff.mp hLookup
      exact borrowAcross_counter (checkRef_iff.mpr ⟨Nat.le_of_lt hLt, hUse⟩) h.reads
  · rintro ⟨hRange, hObj⟩
    have hNe : cell ≠ uni.count := hRange uni hUni
    have hReads : Access.InOrder (Initialised exempt s)
        (borrowAcrossAccesses s src uni cell dst dstUni entry e heap) :=
      .of_reads (borrowAcross_reads hTable hCounts hUni hDst hEntry hNe hObj)
    rw [userUniverseBorrowAcross] at hExec
    cases hCheck : userUniverseCheckRefNolock s.toStore uni cell with
    | false =>
        rw [hCheck] at hExec
        cases hExec
        exact .of_same rfl (by simp [acrossHeap, hCheck]) hReads
    | true =>
        obtain ⟨-, hView⟩ := checkRef_view hUni hNe hCheck
        have hBack : (s.memRefBorrow (s.refs (uni.cell cell)).ref).memRefDrop
            (s.refs (uni.cell cell)).ref = s :=
          memRefBorrow_drop (hCounts.refcount_pos hView (hObj _ hView))
        cases hAuth : userUnpinnedFor (s.refs (uni.cell cell)) e with
        | false =>
            simp only [hCheck, hAuth] at hExec
            cases hExec
            exact .of_same hBack (by simp [acrossHeap, hAuth]) hReads
        | true =>
            cases hMove : userUniverseMoveInNolock s.toStore dstUni (s.refs (uni.cell cell)) heap with
            | ok result =>
                have hMove' : userUniverseMoveInNolock
                    (s.memRefBorrow (s.refs (uni.cell cell)).ref).toStore dstUni
                    (s.refs (uni.cell cell)) heap = .ok result := hMove
                simp only [hCheck, hAuth, hMove'] at hExec
                cases hExec
                cases hFailed
            | error status =>
                have hMove' : userUniverseMoveInNolock
                    (s.memRefBorrow (s.refs (uni.cell cell)).ref).toStore dstUni
                    (s.refs (uni.cell cell)) heap = .error status := hMove
                simp only [hCheck, hAuth, hMove'] at hExec
                cases hExec
                refine .of_same hBack ?_ hReads
                simp [acrossHeap, hCheck, hAuth, moveInHeap_error hMove]

/-- The destructor of the new universe looks at `cells`, which nobody wrote. -/
theorem fork_unchanged_iff (hTable : Table True s.toStore s.objectsCount) (src entry : Nat)
    (memory : ForkMemory)
    (hRun : (Call.fork src entry memory).run s = some effect)
    (hHeap : ∀ b, .alloc b ∈ effect.heap → b ∉ blocks)
    (hFailed : effect.outcome = .failed status) :
    Unchanged exempt s blocks effect ↔ (Call.fork src entry memory).Careful exempt s := by
  simp only [Call.run, Option.bind_eq_bind, Option.bind_eq_some_iff] at hRun
  obtain ⟨uni, hUni, e, hEntry, hCall⟩ := hRun
  split_ifs at hCall with hValid
  cases hCall
  rcases forkCall_failed hFailed with ⟨hEarly, calls, hCalls, hEffect⟩ |
      ⟨array, hForked, hArray, hCount, hResized, hEffect⟩
  · rw [hEffect] at hHeap ⊢
    refine iff_of_true ⟨fun _ _ => rfl, fun _ => Iff.rfl, rfl, fun b _ _ => ?_, trivial⟩ ?_
    · rcases hCalls with rfl | rfl
      · rfl
      · have hNew := hHeap _ (List.mem_cons_self ..)
        simp only [List.foldl_cons, List.foldl_nil, HeapCall.apply]
        by_cases hEq : b = .universe s.objectsCount
        · subst hEq
          simp [hNew]
        · simp [hEq]
    · intro hForked hArray
      rcases hEarly with hNone | hNone
      · rw [hNone] at hForked
        cases hForked
      · exact (hArray hNone).elim
  · rw [hEffect]
    refine iff_of_false (fun h => ?_) fun hCareful => ?_
    · have hReads := h.reads
      simp only [forkUndone, destroyAccesses, List.cons_append] at hReads
      have hCells := hReads.read_defined (by simp [forkStartAccesses])
      obtain ⟨new, hNew⟩ := Option.ne_none_iff_exists'.mp hCells
      exact absurd (hTable.below _ new hNew) (Nat.lt_irrefl _)
    · exact hCount (hCareful hForked (by simp [hArray]) hResized uni hUni)

end Calls

/-- After any calls whose handles are not one past the end, a call that fails changes no handle,
no counter and no block of the heap apart from cell arrays that grow, and looks at no field that
was never initialised, if and only if it was careful. -/
theorem failed_calls_unchanged_iff {m : Memory} {trace : List (Op × Outcome)} {s : State}
    (run : (inRange m).Execution trace s) (call : Call) {effect : Effect} {status : Status}
    {blocks : Set HeapBlock} (hRun : call.run s = some effect)
    (hHeap : ∀ b, .alloc b ∈ effect.heap → b ∉ blocks)
    (hFailed : effect.outcome = .failed status) :
    Unchanged (GroupCookie trace) s blocks effect ↔ call.Careful (GroupCookie trace) s := by
  have hTable := (inRange_invariant run).1
  have hCounts := (counted_run run).1
  cases call with
  | moveIn u ref heap => exact iff_of_true (moveIn_unchanged hTable hRun hFailed) trivial
  | moveInPair u first second heap heap' =>
      exact iff_of_true (moveInPair_unchanged hTable hRun hFailed) trivial
  | moveAcross src dst cell entry heap => exact moveAcross_unchanged_iff hTable hCounts hRun hFailed
  | borrowAcross src dst cell entry heap =>
      exact borrowAcross_unchanged_iff hTable hCounts hRun hFailed
  | fork src entry memory => exact fork_unchanged_iff hTable src entry memory hRun hHeap hFailed

section Runs

/-- Memory that holds nothing. -/
def blankMemory : Memory :=
  ⟨⟨fun _ => none, fun _ => none⟩, fun _ => false, fun _ => ⟨0, .none, 0⟩⟩

/-- Two universes, an entry cookie, and an object that universe 0 refers to. -/
def oneStored : List Op :=
  [.createUniverse (some 0) blankMemory, .createUniverse (some 1) blankMemory, .createEntryCookie,
    .createObject, .moveIn 0 ⟨3, .mailbox, 1⟩ ⟨some (.moved 2), blankMemory⟩]

/-- Universe 1 has no room for the borrowed reference, and the heap has no memory. -/
theorem failed_borrow_unchanged :
    ∃ trace s effect, (inRange blankMemory).Execution trace s ∧
      (Call.borrowAcross 0 1 0 2 ⟨none, blankMemory⟩).run s = some effect ∧
      effect.outcome = .failed .outOfMemory ∧
      Unchanged (GroupCookie trace) s {.universe 0, .universe 1, .array 1, .array 2} effect := by
  have run : (inRange blankMemory).Execution _ _ :=
    inRange_of_replay oneStored rfl (by decide)
  have noHeap : ∀ b, HeapCall.alloc b ∈ ([] : List HeapCall) →
      b ∉ ({.universe 0, .universe 1, .array 1, .array 2} : Set HeapBlock) := by simp
  refine ⟨_, _, _, run, rfl, rfl, (failed_calls_unchanged_iff run (.borrowAcross 0 1 0 2
    ⟨none, blankMemory⟩) rfl noHeap rfl).mpr ?_⟩
  refine ⟨fun uni hUni => ?_, fun ref hView hGroup => ?_⟩
  · cases hUni
    decide
  · obtain ⟨refcount, hMem⟩ := hGroup
    simp at hMem

/-- There is memory for a forked universe and its dynarray, but not for the cells. The array is
lost, and the destructor reads the pointer to it from a field that nobody wrote. -/
theorem failed_fork_leaks :
    ∃ trace s effect, (inRange blankMemory).Execution trace s ∧
      (Call.fork 0 2 ⟨true, some 3, none, blankMemory, ⟨9, 0, 0⟩⟩).run s = some effect ∧
      effect.outcome = .failed .outOfMemory ∧
      effect.heap =
        [.alloc (.universe 4), .alloc (.array 3), .free (.array 9), .free (.universe 4)] ∧
      ¬Unchanged (GroupCookie trace) s {.universe 0, .universe 1, .array 1, .array 2} effect := by
  have run : (inRange blankMemory).Execution _ _ := inRange_of_replay oneStored rfl (by decide)
  have hFresh : ∀ b, HeapCall.alloc b ∈ ([.alloc (.universe 4), .alloc (.array 3),
      .free (.array 9), .free (.universe 4)] : List HeapCall) →
      b ∉ ({.universe 0, .universe 1, .array 1, .array 2} : Set HeapBlock) := by
    intro b hb
    simp only [List.mem_cons, HeapCall.alloc.injEq, reduceCtorEq, List.not_mem_nil, or_false]
      at hb
    rcases hb with rfl | rfl <;> simp
  refine ⟨_, _, _, run, rfl, rfl, rfl, fun h => ?_⟩
  have hCareful := (fork_unchanged_iff (inRange_invariant run).1 0 2
    ⟨true, some 3, none, blankMemory, ⟨9, 0, 0⟩⟩ rfl hFresh rfl).mp h
  exact absurd (hCareful rfl (by simp) rfl _ rfl) (by decide)

end Runs

end Ricerca.Universe
