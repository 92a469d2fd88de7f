import Ricerca.User.Callee
import Ricerca.User.EntryFork

/-! Callees are created with all that belongs to them or not at all, as long as the buckets of
the intmap are found when they are asked for. -/
namespace Ricerca.Callee

open Ricerca.Foundation Ricerca.Cookie Ricerca.Universe
open Ricerca.Notifications (UserNotification)
open Ricerca.RpcNotifications (userNoteTypeRpcIncoming)
open Ricerca.Entry (UserApiEntry pinnedRef Accounted)

/-- Every block that was allocated was freed again, and none of them twice. -/
def Released (heap : List HeapCall) : Prop :=
  ∀ block, heap.count (.free block) = heap.count (.alloc block) ∧ heap.count (.alloc block) ≤ 1

/-- There is memory for everything that a raiser for the mailbox needs. -/
def CalleeMemory.forRaiser (memory : CalleeMemory) (m : UserMailbox) : Bool :=
  memory.raiser && (!m.isPerCpu || memory.localChannels)

/-- The blocks of a raiser. -/
def raiserBlocks (m : UserMailbox) (raiser : Nat) : List Block :=
  .raiser raiser :: if m.isPerCpu then [.localChannels raiser] else []

/-- A callee with its token and its raiser that nobody has used yet. -/
structure Fresh (k : State) (callee raiser mailbox : Nat) (opaqueValue buckets : UInt64) : Prop where
  shutdown : k.refcount callee = 1
  shutdownDispose : k.dispose callee = .userRpcShutdownCallee
  token : k.refcount (callee + 1) = 1
  tokenDispose : k.dispose (callee + 1) = .userRpcNotifyCalleeUndiscoverable
  fields : k.callees callee =
    some ⟨⟨[], Lib.intmapInit (bucketsCount buckets).toNat, 0, false⟩, 2, raiser⟩
  raiserFields : k.raisers raiser =
    some ⟨⟨1, ⟨userNoteTypeRpcIncoming, opaqueValue⟩, fun _ => 0⟩, mailbox⟩

section Ledger

/-- Blocks that were allocated and freed, in any order. -/
theorem released_of_perm {blocks : List Block} {heap : List HeapCall} (hNodup : blocks.Nodup)
    (hPerm : heap.Perm (blocks.map .alloc ++ blocks.map .free)) : Released heap := by
  intro block
  have hAlloc : (blocks.map HeapCall.alloc).count (.alloc block) = blocks.count block :=
    List.count_map_of_injective _ _ (fun _ _ h => HeapCall.alloc.inj h) _
  have hFree : (blocks.map HeapCall.free).count (.free block) = blocks.count block :=
    List.count_map_of_injective _ _ (fun _ _ h => HeapCall.free.inj h) _
  have hNone : (blocks.map HeapCall.free).count (.alloc block) = 0 :=
    List.count_eq_zero.mpr (by simp)
  have hNone' : (blocks.map HeapCall.alloc).count (.free block) = 0 :=
    List.count_eq_zero.mpr (by simp)
  have hOnce := List.nodup_iff_count_le_one.mp hNodup block
  rw [hPerm.count_eq, hPerm.count_eq, List.count_append, List.count_append, hAlloc, hFree, hNone,
    hNone']
  omega

end Ledger

section Raisers

variable {k : State} {mailbox raiser : Nat} {n : UserNotification} {m : UserMailbox}
  {memory : CalleeMemory}

theorem UserMailbox.drop_borrow (m : UserMailbox) : m.borrow.drop = some m := by
  have hAlive := m.alive
  simp [UserMailbox.borrow, UserMailbox.drop, hAlive]

/-- The state with a new raiser. -/
def State.withRaiser (k : State) (mailbox : Nat) (n : UserNotification) (m : UserMailbox) :
    State :=
  { k with
    mailboxes := Function.update k.mailboxes mailbox (some m.borrow)
    raisers := Function.update k.raisers k.raisersCount (some ⟨⟨1, n, fun _ => 0⟩, mailbox⟩)
    raisersCount := k.raisersCount + 1
    heap := k.heap ++ (raiserBlocks m k.raisersCount).map .alloc }

theorem createRaiser_ok (hMailbox : k.mailboxes mailbox = some m)
    (hMemory : memory.forRaiser m = true) :
    userCreateRaiser mailbox n memory k = some (.ok k.raisersCount, k.withRaiser mailbox n m) := by
  simp only [CalleeMemory.forRaiser, Bool.and_eq_true, Bool.or_eq_true, Bool.not_eq_true'] at hMemory
  obtain ⟨hRaiser, hChannels⟩ := hMemory
  cases hCpu : m.isPerCpu with
  | false =>
      simp [userCreateRaiser, hMailbox, memHeapAlloc, hRaiser, hCpu, addRaiser, State.withRaiser,
        raiserBlocks]
  | true =>
      have hLocal : memory.localChannels = true := hChannels.resolve_left (by simp [hCpu])
      simp [userCreateRaiser, hMailbox, memHeapAlloc, hRaiser, hCpu, hLocal, addRaiser,
        State.withRaiser, raiserBlocks]

/-- Without memory for the channels, the raiser is freed again. -/
theorem createRaiser_failed (hMailbox : k.mailboxes mailbox = some m)
    (hMemory : memory.forRaiser m = false) : ∃ blocks : List Block,
    userCreateRaiser mailbox n memory k = some (.error .outOfMemory,
      { k with heap := k.heap ++ (blocks.map .alloc ++ blocks.map .free) }) ∧
    blocks.Sublist [.raiser k.raisersCount] := by
  cases hRaiser : memory.raiser with
  | false => exact ⟨[], by simp [userCreateRaiser, hMailbox, memHeapAlloc, hRaiser], by simp⟩
  | true =>
      simp only [CalleeMemory.forRaiser, hRaiser, Bool.true_and, Bool.or_eq_false_iff,
        Bool.not_eq_false'] at hMemory
      refine ⟨[.raiser k.raisersCount], ?_, List.Sublist.refl _⟩
      simp [userCreateRaiser, hMailbox, memHeapAlloc, memHeapFree, heapCall, hRaiser, hMemory.1,
        hMemory.2]

/-- The last reference to a raiser is dropped. -/
theorem dropRaiser_last (hRaiser : k.raisers raiser = some ⟨⟨1, n, fun _ => 0⟩, mailbox⟩)
    (hMailbox : k.mailboxes mailbox = some m.borrow) :
    dropRaiser raiser k = some ((), { k with
      mailboxes := Function.update k.mailboxes mailbox (some m)
      raisers := Function.update k.raisers raiser none
      heap := k.heap ++ (raiserBlocks m raiser).reverse.map .free }) := by
  have hCpu : m.borrow.isPerCpu = m.isPerCpu := rfl
  cases hCase : m.isPerCpu <;>
    simp [dropRaiser, userDestroyRaiser, hRaiser, hMailbox, hCpu, hCase, UserMailbox.drop_borrow,
      setMailbox, setRaiser, memHeapFree, heapCall, raiserBlocks]

end Raisers

section Callees

variable {k : State} {mailbox : Nat} (opaqueValue buckets : UInt64) {m : UserMailbox}
  {memory : CalleeMemory}

/-- The blocks of a callee. -/
def calleeBlocks (m : UserMailbox) (callee raiser : Nat) : List Block :=
  .callee callee :: (raiserBlocks m raiser ++ [.nodes callee])

theorem nodup_calleeBlocks (m : UserMailbox) (callee raiser : Nat) :
    (calleeBlocks m callee raiser).Nodup := by
  simp only [calleeBlocks, raiserBlocks]
  split_ifs <;> simp

/-- The state with a new callee. -/
def State.withCallee (k : State) (mailbox : Nat) (opaqueValue buckets : UInt64) (m : UserMailbox) :
    State :=
  { k with
    toKernel := (k.addObject .userRpcShutdownCallee).addObject .userRpcNotifyCalleeUndiscoverable
    mailboxes := Function.update k.mailboxes mailbox (some m.borrow)
    raisers := Function.update k.raisers k.raisersCount
      (some ⟨⟨1, ⟨userNoteTypeRpcIncoming, opaqueValue⟩, fun _ => 0⟩, mailbox⟩)
    raisersCount := k.raisersCount + 1
    callees := Function.update k.callees k.objectsCount
      (some (newCallee k.raisersCount (Lib.intmapInit (bucketsCount buckets).toNat)))
    heap := k.heap ++ (calleeBlocks m k.objectsCount k.raisersCount).map .alloc }

/-- Too little memory for the callee or its raiser. -/
theorem createCallee_failed (hMailbox : k.mailboxes mailbox = some m)
    (hMemory : (memory.callee && memory.forRaiser m) = false) : ∃ calls,
    userRpcCreateCallee mailbox opaqueValue buckets memory k =
      some ((.outOfMemory, none), { k with heap := k.heap ++ calls }) ∧ Released calls := by
  cases hCallee : memory.callee with
  | false =>
      refine ⟨[], ?_, released_of_perm List.nodup_nil (List.Perm.refl _)⟩
      simp [userRpcCreateCallee, memHeapAlloc, hCallee]
  | true =>
      rw [hCallee, Bool.true_and] at hMemory
      obtain ⟨blocks, hRun, hSub⟩ := createRaiser_failed
        (k := { k with heap := k.heap ++ [.alloc (.callee k.objectsCount)] })
        (n := ⟨userNoteTypeRpcIncoming, opaqueValue⟩) hMailbox hMemory
      refine ⟨.alloc (.callee k.objectsCount) ::
        (blocks.map .alloc ++ blocks.map .free ++ [.free (.callee k.objectsCount)]), ?_, ?_⟩
      · simp [userRpcCreateCallee, memHeapAlloc, memHeapFree, heapCall, hCallee, hRun]
      · have hNodup : (Block.callee k.objectsCount :: blocks).Nodup :=
          List.nodup_cons.mpr ⟨fun hMem => by simpa using hSub.subset hMem,
            hSub.nodup (List.nodup_singleton _)⟩
        refine released_of_perm hNodup ?_
        simp only [List.map_cons, List.cons_append, List.append_assoc]
        exact ((List.perm_append_singleton ..).append_left _).cons _

/-- The buckets are not found. The status says that they are, and nothing was written to the out
parameters. -/
theorem createCallee_noNodes (hMailbox : k.mailboxes mailbox = some m)
    (hMemory : (memory.callee && memory.forRaiser m) = true) (hNodes : memory.nodes = false) :
    ∃ k', userRpcCreateCallee mailbox opaqueValue buckets memory k =
      some ((.success, none), k') ∧ k'.toKernel = k.toKernel ∧ k'.accesses = k.accesses := by
  obtain ⟨hCallee, hRaiser⟩ := Bool.and_eq_true_iff.mp hMemory
  have hRun := createRaiser_ok (k := { k with heap := k.heap ++ [.alloc (.callee k.objectsCount)] })
    (n := ⟨userNoteTypeRpcIncoming, opaqueValue⟩) hMailbox hRaiser
  have hDrop := dropRaiser_last (m := m)
    (k := State.withRaiser { k with heap := k.heap ++ [.alloc (.callee k.objectsCount)] } mailbox
      ⟨userNoteTypeRpcIncoming, opaqueValue⟩ m)
    (Function.update_self ..) (Function.update_self ..)
  simp only [userRpcCreateCallee, memHeapAlloc, memHeapFree, heapCall, hCallee, hRun, intmapInit,
    hNodes, hDrop, Prog.bind_apply, Prog.get_apply, Prog.pure_apply, Option.bind_some, if_true,
    Bool.not_true, Bool.false_eq_true, if_false, Bool.not_false, Option.some.injEq, Prod.mk.injEq,
    true_and, exists_eq_left']
  exact ⟨rfl, rfl⟩

/-- The size of the buckets wraps. -/
theorem createCallee_overrun (hMailbox : k.mailboxes mailbox = some m)
    (hMemory : (memory.callee && memory.forRaiser m) = true) (hNodes : memory.nodes = true)
    (hFit : nodesFit (bucketsCount buckets) = false) :
    userRpcCreateCallee mailbox opaqueValue buckets memory k = none := by
  obtain ⟨hCallee, hRaiser⟩ := Bool.and_eq_true_iff.mp hMemory
  have hRun := createRaiser_ok (k := { k with heap := k.heap ++ [.alloc (.callee k.objectsCount)] })
    (n := ⟨userNoteTypeRpcIncoming, opaqueValue⟩) hMailbox hRaiser
  simp [userRpcCreateCallee, memHeapAlloc, hCallee, hRun, intmapInit, hNodes, hFit]

theorem createCallee_ok (hMailbox : k.mailboxes mailbox = some m)
    (hMemory : (memory.callee && memory.forRaiser m) = true) (hNodes : memory.nodes = true)
    (hFit : nodesFit (bucketsCount buckets) = true) :
    userRpcCreateCallee mailbox opaqueValue buckets memory k =
      some ((.success, some (k.objectsCount, k.objectsCount + 1)),
        k.withCallee mailbox opaqueValue buckets m) := by
  obtain ⟨hCallee, hRaiser⟩ := Bool.and_eq_true_iff.mp hMemory
  have hRun := createRaiser_ok (k := { k with heap := k.heap ++ [.alloc (.callee k.objectsCount)] })
    (n := ⟨userNoteTypeRpcIncoming, opaqueValue⟩) hMailbox hRaiser
  simp [userRpcCreateCallee, memHeapAlloc, hCallee, hRun, intmapInit, hNodes, hFit, addCallee,
    State.withRaiser, State.withCallee, calleeBlocks]

end Callees

section Drops

variable {k : State} {obj mailbox callee raiser : Nat} {opaqueValue buckets : UInt64} {m : UserMailbox}

/-- The objects after one reference to an object is dropped. -/
def dropped (k : Entry.State) (obj : Nat) : Entry.State :=
  { k with toState := (k.takeHeld obj).memRefDrop obj }

theorem refcount_dropped (k : Entry.State) {o : Nat} (hNe : o ≠ obj) :
    (dropped k obj).refcount o = k.refcount o := by
  simp only [dropped, State.memRefDrop]
  split_ifs <;> exact Function.update_of_ne hNe ..

/-- A universe does not notice that another object is dropped. -/
theorem view_dropped (k : Entry.State) {u : Nat} (hNe : u ≠ obj) (i : Nat) :
    view (dropped k obj).toStore u i = view k.toStore u i := by
  have hStore : (dropped k obj).toStore = _ := memRefDrop_store (k.takeHeld obj) obj
  rw [hStore]
  split_ifs
  · simp [view, Function.update_of_ne hNe, State.takeHeld]
  · rfl

/-- One of several references is dropped. -/
theorem dropRef_more (hMore : k.refcount obj ≠ 1) :
    userDropRef obj k = some ((), { k with toKernel := dropped k.toKernel obj }) := by
  have hDrop : Entry.userDropRef obj k.toKernel = some ((), dropped k.toKernel obj) :=
    Entry.dropRef_quiet fun hLast => (hMore hLast).elim
  simp [userDropRef, liftEntry, hDrop, hMore]

/-- The callee is shut down; its token keeps the memory. -/
theorem dropRef_callee (hFresh : Fresh k callee raiser mailbox opaqueValue buckets)
    (hMailbox : k.mailboxes mailbox = some m.borrow) : ∃ k' c,
    userDropRef callee k = some ((), k') ∧ k'.toKernel = dropped k.toKernel callee ∧
    k'.callees callee = some c ∧ c.deallocRefcount = 1 ∧ k'.accesses = k.accesses ∧
    k'.heap = k.heap ++ (.nodes callee :: (raiserBlocks m raiser).reverse).map .free := by
  have hDrop : Entry.userDropRef callee k.toKernel = some ((), dropped k.toKernel callee) :=
    Entry.dropRef_quiet fun _ => by simp [hFresh.shutdownDispose]
  have hLast : ∀ k' : State, k'.raisers = k.raisers → k'.mailboxes = k.mailboxes →
      dropRaiser raiser k' = some ((), { k' with
        mailboxes := Function.update k'.mailboxes mailbox (some m)
        raisers := Function.update k'.raisers raiser none
        heap := k'.heap ++ (raiserBlocks m raiser).reverse.map .free }) := fun k' hSame hSame' =>
    dropRaiser_last ((congrFun hSame raiser).trans hFresh.raiserFields)
      ((congrFun hSame' mailbox).trans hMailbox)
  simp [userDropRef, liftEntry, hDrop, hFresh.shutdown, hFresh.shutdownDispose,
    userRpcShutdownCallee, hFresh.fields, Lib.all_init, setCallee, memHeapFree, heapCall, hLast,
    dropCalleeDealloc]

/-- The last reference to the memory of a callee. -/
theorem dropRef_token {c : UserRpcCallee} (hToken : k.refcount (callee + 1) = 1)
    (hDispose : k.dispose (callee + 1) = .userRpcNotifyCalleeUndiscoverable)
    (hCallee : k.callees callee = some c) (hLast : c.deallocRefcount = 1) : ∃ k',
    userDropRef (callee + 1) k = some ((), k') ∧ k'.toKernel = dropped k.toKernel (callee + 1) ∧
    k'.accesses = k.accesses ∧ k'.heap = k.heap ++ [.free (.callee callee)] := by
  have hDrop : Entry.userDropRef (callee + 1) k.toKernel =
      some ((), dropped k.toKernel (callee + 1)) :=
    Entry.dropRef_quiet fun _ => by simp [hDispose]
  simp [userDropRef, liftEntry, hDrop, hToken, hDispose, dropCalleeDealloc, hCallee, hLast, setCallee,
    memHeapFree, heapCall]

end Drops

section Universes

variable {k : Entry.State} {u : Nat} {uni : UserUniverse} {heap heap' : HeapAnswer}

theorem moveInNolock_status {st : Store} {ref : UserRef} {status : Status}
    (h : userUniverseMoveInNolock st uni ref heap = .error status) : status ≠ .success := by
  simp only [userUniverseMoveInNolock] at h
  split_ifs at h
  · cases h
    simp
  · split at h
    · cases h
    · split at h
      · cases h
        simp
      · cases h

/-- Both references are stored at handles of their own, or the universe holds what it held. -/
theorem moveInPair_eq (hTable : Table True k.toStore k.objectsCount) (hUni : k.universes u = some uni)
    (hValid : k.answerValid heap = true) (hValid' : k.answerValid heap' = true)
    (first second : UserRef) : ∃ result k',
    Entry.userUniverseMoveInPair u first second heap heap' k = some (result, k') ∧
    k'.refcount = k.refcount ∧ k'.dispose = k.dispose ∧
    match result with
    | .ok (cell, cell') => cell ≠ cell' ∧ view k'.toStore u cell = some first ∧
        view k'.toStore u cell' = some second
    | .error status => status ≠ .success ∧ ∀ v i, view k'.toStore v i = view k.toStore v i := by
  have hRead : Entry.userUniverse u k = some (uni, k) := by
    simp [Entry.userUniverse, hUni]
  have hGuard : Entry.heapAnswers (fun k => k.answerValid heap && k.answerValid heap') k =
      some ((), k) := by
    simp [Entry.heapAnswers, hValid, hValid']
  simp only [Entry.userUniverseMoveInPair, Prog.bind_apply, hRead, hGuard, Option.bind_some,
    Entry.liftUniverse, Universe.userUniverseMoveInPair]
  cases hFirst : userUniverseMoveInNolock k.toStore uni first heap with
  | error status =>
      exact ⟨.error status, k, rfl, rfl, rfl, moveInNolock_status hFirst, fun _ _ => rfl⟩
  | ok result =>
      obtain ⟨cell, m, uni'⟩ := result
      cases hSecond : userUniverseMoveInNolock (k.toStore.put u m uni') uni' second heap' with
      | error status =>
          obtain ⟨-, -, hView⟩ := pairUndone_table hTable hUni hValid hFirst
          simp only [hSecond]
          exact ⟨.error status, _, rfl, rfl, rfl, moveInNolock_status hSecond, hView⟩
      | ok result =>
          obtain ⟨cell', m', uni''⟩ := result
          obtain ⟨hStored, hStored', -⟩ := pair_table hTable hUni hValid hValid' hFirst hSecond
          have hNe : cell ≠ cell' := by
            rintro rfl
            cases hStored.view_self.symm.trans hStored'.fresh
          have hKept := hStored'.view_eq u cell
          rw [if_neg fun hEq => hNe hEq.2.1] at hKept
          simp only [hSecond]
          exact ⟨.ok (cell, cell'), _, rfl, rfl, rfl, hNe, hKept.trans hStored.view_self,
            hStored'.view_self⟩

end Universes

section Storing

variable {k k' : State} {entry : UserApiEntry} {stale : Nat × Nat} {heap heap' : HeapAnswer}
  {e : UserEntryCookie} {uni : UserUniverse} {callee raiser mailbox : Nat} {opaqueValue buckets : UInt64}
  {m : UserMailbox}

/-- The pointers are looked at although nobody wrote them. -/
theorem storeCallee_stale {result : Except Status (Nat × Nat)}
    (h : storeCallee entry none stale heap heap' k = some (result, k')) :
    k'.accesses = k.accesses ++ [.read .callee, .read .token] := by
  obtain ⟨callee, t, hCallee, hRest⟩ := Prog.bind_eq_some.mp h
  cases hCallee
  obtain ⟨calleeRef, t, hRef, hRest⟩ := Prog.bind_eq_some.mp hRest
  simp only [liftEntry, Option.map_eq_some_iff, Prod.mk.injEq] at hRef
  obtain ⟨_, -, -, rfl⟩ := hRef
  obtain ⟨token, t, hToken, hRest⟩ := Prog.bind_eq_some.mp hRest
  cases hToken
  obtain ⟨tokenRef, t, hRef, hRest⟩ := Prog.bind_eq_some.mp hRest
  simp only [liftEntry, Option.map_eq_some_iff, Prod.mk.injEq] at hRef
  obtain ⟨_, -, -, rfl⟩ := hRef
  obtain ⟨moved, t, hMove, hRest⟩ := Prog.bind_eq_some.mp hRest
  simp only [liftEntry, Option.map_eq_some_iff, Prod.mk.injEq] at hMove
  obtain ⟨_, -, -, rfl⟩ := hMove
  cases moved with
  | ok handles =>
      cases hRest
      simp
  | error status =>
      obtain ⟨_, t, hDrop, -⟩ := Prog.bind_eq_some.mp hRest
      obtain ⟨_, t, -, hRead⟩ := Prog.bind_eq_some.mp hDrop
      obtain ⟨obj, t, hNone, -⟩ := Prog.bind_eq_some.mp hRead
      cases hNone

theorem dropLocal_eq (var : Local) (obj : Nat) :
    dropLocal var (some obj) k = userDropRef obj { k with accesses := k.accesses ++ [.read var] } :=
  rfl

/-- Undoing leaves the universe as it was and frees the blocks of the callee. -/
theorem moveCallee_undone {status : Status} {calleeRef tokenRef : UserRef} {k₀ : State}
    (hMove : liftEntry
      (Entry.userUniverseMoveInPair entry.universeRef calleeRef tokenRef heap heap') k₀ =
        some (.error status, k))
    (hFresh : Fresh k callee raiser mailbox opaqueValue buckets)
    (hMailbox : k.mailboxes mailbox = some m.borrow) : ∃ k',
    moveCallee entry (some (callee, callee + 1)) calleeRef tokenRef heap heap' k₀ =
      some (.error status, k') ∧
    k'.accesses = k.accesses ++ [.read .callee, .read .token] ∧
    k'.heap = k.heap ++ (calleeBlocks m callee raiser).reverse.map .free ∧
    ∀ u i, u ≠ callee → u ≠ callee + 1 → view k'.toStore u i = view k.toStore u i := by
  obtain ⟨k₁, c, hShut, hKernel, hCallee, hOne, hAccesses, hHeap⟩ :=
    dropRef_callee (k := { k with accesses := k.accesses ++ [.read .callee] })
      ⟨hFresh.shutdown, hFresh.shutdownDispose, hFresh.token, hFresh.tokenDispose, hFresh.fields,
        hFresh.raiserFields⟩ hMailbox
  have hToken : k₁.refcount (callee + 1) = 1 := by
    rw [hKernel]
    exact (refcount_dropped _ (by omega)).trans hFresh.token
  have hDispose : k₁.dispose (callee + 1) = .userRpcNotifyCalleeUndiscoverable := by
    rw [hKernel]
    exact hFresh.tokenDispose
  obtain ⟨k₂, hFree, hKernel', hAccesses', hHeap'⟩ :=
    dropRef_token (k := { k₁ with accesses := k₁.accesses ++ [.read .token] }) hToken hDispose
      hCallee hOne
  refine ⟨k₂, ?_, ?_, ?_, fun u i hNe hNe' => ?_⟩
  · have hCalleeVar := dropLocal_eq (k := k) .callee callee
    have hTokenVar := dropLocal_eq (k := k₁) .token (callee + 1)
    simp [moveCallee, hMove, hCalleeVar, hTokenVar, hShut, hFree]
  · simp [hAccesses', hAccesses]
  · simp [hHeap', hHeap, calleeBlocks]
  · rw [hKernel', view_dropped _ hNe', hKernel, view_dropped _ hNe]

/-- What the end of a call leaves of a callee that was created. -/
def Stored (k k' : State) (entry : UserApiEntry) (e : UserEntryCookie)
    (callee raiser mailbox : Nat) (opaqueValue buckets : UInt64) (m : UserMailbox) :
    Except Status (Nat × Nat) → Prop
  | .ok (hcallee, htoken) => hcallee ≠ htoken ∧
      view k'.toStore entry.universeRef hcallee =
        some ⟨callee, .callee, userEntryCookieGetKey e⟩ ∧
      view k'.toStore entry.universeRef htoken =
        some ⟨callee + 1, .token, userEntryCookieGetKey e⟩ ∧
      Fresh k' callee raiser mailbox opaqueValue buckets ∧ k'.heap = k.heap
  | .error status => status ≠ .success ∧
      (∀ i, view k'.toStore entry.universeRef i = view k.toStore entry.universeRef i) ∧
      k'.heap = k.heap ++ (calleeBlocks m callee raiser).reverse.map .free

/-- The callee and its token are stored, or undone. -/
theorem storeCallee_fresh (stale : Nat × Nat) (hTable : Table True k.toStore k.objectsCount)
    (hUni : k.universes entry.universeRef = some uni)
    (hValid : k.answerValid heap = true) (hValid' : k.answerValid heap' = true)
    (hEntry : k.entries entry.cookieRef = some e)
    (hFresh : Fresh k callee raiser mailbox opaqueValue buckets)
    (hMailbox : k.mailboxes mailbox = some m.borrow) (hNe : entry.universeRef ≠ callee)
    (hNe' : entry.universeRef ≠ callee + 1) : ∃ result k',
    storeCallee entry (some (callee, callee + 1)) stale heap heap' k = some (result, k') ∧
    (∃ accesses, k'.accesses = k.accesses ++ accesses) ∧
    Stored k k' entry e callee raiser mailbox opaqueValue buckets m result := by
  have hPinned : ∀ obj type, pinnedRef entry obj type k.toKernel =
      some (⟨obj, type, userEntryCookieGetKey e⟩, k.toKernel) := by
    intro obj type
    simp [pinnedRef, Entry.userEntryCookie, hEntry]
  have hStore : storeCallee entry (some (callee, callee + 1)) stale heap heap' k =
      moveCallee entry (some (callee, callee + 1)) ⟨callee, .callee, userEntryCookieGetKey e⟩
        ⟨callee + 1, .token, userEntryCookieGetKey e⟩ heap heap'
        { k with accesses := k.accesses ++ [.read .callee, .read .token] } := by
    simp [storeCallee, readLocal, access, liftEntry, hPinned]
  rw [hStore]
  obtain ⟨result, kernel, hMove, hCount, hDispose, hResult⟩ := moveInPair_eq hTable hUni hValid
    hValid' ⟨callee, .callee, userEntryCookieGetKey e⟩ ⟨callee + 1, .token, userEntryCookieGetKey e⟩
  let moved : State :=
    { k with toKernel := kernel, accesses := k.accesses ++ [.read .callee, .read .token] }
  have hMoved : Fresh moved callee raiser mailbox opaqueValue buckets :=
    ⟨(congrFun hCount callee).trans hFresh.shutdown,
      (congrFun hDispose callee).trans hFresh.shutdownDispose,
      (congrFun hCount _).trans hFresh.token, (congrFun hDispose _).trans hFresh.tokenDispose,
      hFresh.fields, hFresh.raiserFields⟩
  cases result with
  | ok cells =>
      refine ⟨.ok cells, moved, ?_, ⟨[.read .callee, .read .token], rfl⟩,
        hResult.1, hResult.2.1, hResult.2.2, hMoved, rfl⟩
      simp [moveCallee, liftEntry, hMove, moved]
  | error status =>
      have hFailed : liftEntry (Entry.userUniverseMoveInPair entry.universeRef
          ⟨callee, .callee, userEntryCookieGetKey e⟩ ⟨callee + 1, .token, userEntryCookieGetKey e⟩
          heap heap') { k with accesses := k.accesses ++ [.read .callee, .read .token] } =
            some (.error status, moved) := by
        simp [liftEntry, hMove, moved]
      obtain ⟨k', hRun, hAccesses, hHeap, hView⟩ := moveCallee_undone hFailed hMoved hMailbox
      refine ⟨.error status, k', hRun, ⟨_, hAccesses.trans (List.append_assoc ..)⟩,
        hResult.1, fun i => ?_, hHeap⟩
      exact (hView _ i hNe hNe').trans (hResult.2 _ i)

end Storing

section SystemCall

/-- A call either succeeds with handles of its own to a callee and a token that are in their
first state, or fails, leaves the universe as it was and frees what it allocated. It only
looks at pointers that were written. -/
def AllOrNothing (k : State) (entry : UserApiEntry) (mailbox : Nat) (opaqueValue buckets : UInt64) :
    Option (Except Status (Nat × Nat) × State) → Prop
  | none => False
  | some (.ok (hcallee, htoken), k') => Access.InOrder (fun _ => False) k'.accesses ∧ hcallee ≠ htoken ∧
      ∃ callee raiser key,
        view k'.toStore entry.universeRef hcallee = some ⟨callee, .callee, key⟩ ∧
        view k'.toStore entry.universeRef htoken = some ⟨callee + 1, .token, key⟩ ∧
        Fresh k' callee raiser mailbox opaqueValue buckets ∧ ∀ block, .free block ∉ k'.heap
  | some (.error status, k') => Access.InOrder (fun _ => False) k'.accesses ∧ status ≠ .success ∧
      (∀ i, view k'.toStore entry.universeRef i = view k.toStore entry.universeRef i) ∧
      Released k'.heap

/-- Where `intmap_init` is reached, it gets the memory that it writes. -/
def NodesFound (m : UserMailbox) (buckets : UInt64) (memory : CalleeMemory) : Prop :=
  (memory.callee && memory.forRaiser m) = true →
    memory.nodes = true ∧ nodesFit (bucketsCount buckets) = true

section Outcomes

variable {k : State} {entry : UserApiEntry} {hmailbox mailbox pin : Nat}
  {opaqueValue buckets : UInt64} {memory : CalleeMemory} {stale : Nat × Nat}
  {heap heap' : HeapAnswer} {m : UserMailbox} {e : UserEntryCookie}

/-- The state in which the call holds a reference to the mailbox. -/
def State.borrowed (k : State) (obj : Nat) : State :=
  { k with toState := (k.memRefBorrow obj).addHeld obj }

/-- The handle keeps the mailbox alive. -/
theorem borrowed_more (hk : Accounted [] k.toKernel)
    (hView : view k.toStore entry.universeRef hmailbox = some ⟨mailbox, .mailbox, pin⟩)
    (hObj : k.dispose mailbox = .userShutdownMailbox) : (k.borrowed mailbox).refcount mailbox ≠ 1 := by
  have hPos : 0 < k.refcount mailbox :=
    hk.refcount_pos hView (by simp [Entry.State.isGroupCookie, hObj])
  have hCount : (k.borrowed mailbox).refcount mailbox = k.refcount mailbox + 1 :=
    Function.update_self ..
  omega

theorem universe_ne_mailbox (hk : Accounted [] k.toKernel)
    (hView : view k.toStore entry.universeRef hmailbox = some ⟨mailbox, .mailbox, pin⟩)
    (hObj : k.dispose mailbox = .userShutdownMailbox) : entry.universeRef ≠ mailbox := by
  rintro hEq
  obtain ⟨uni, hUni, -⟩ := view_eq_some_iff.mp hView
  have hDispose := hk.universes _ (Option.ne_none_iff_exists'.mpr ⟨uni, hUni⟩)
  rw [hEq, hObj] at hDispose
  cases hDispose

/-- The accesses that write the out parameters. -/
def writes (written : Option (Nat × Nat)) : List (Access Local) :=
  if written.isSome then [.write .callee, .write .token] else []

theorem writeLocals_eq (written : Option (Nat × Nat)) :
    writeLocals written k = some ((), { k with accesses := k.accesses ++ writes written }) := by
  cases written <;> simp [writeLocals, writes, access]

theorem dropped_more {k : Entry.State} {obj : Nat} (hMore : k.refcount obj ≠ 1) :
    dropped k obj = { k with toState := { k.takeHeld obj with
      refcount := Function.update k.refcount obj (k.refcount obj - 1) } } := by
  simp [dropped, State.memRefDrop, State.takeHeld, hMore]

section Borrowed

variable {k₁ : State} {status : Status} {written : Option (Nat × Nat)}

theorem systemCall_none
    (hView : view k.toStore entry.universeRef hmailbox = some ⟨mailbox, .mailbox, pin⟩)
    (hCreate : userRpcCreateCallee mailbox opaqueValue buckets memory (k.borrowed mailbox) = none) :
    userSysCreateCallee entry hmailbox opaqueValue buckets memory stale heap heap' k = none := by
  have hBorrow := Entry.borrowOut_eq hView
  change userRpcCreateCallee _ _ _ _ { k with toKernel := _ } = none at hCreate
  simp [userSysCreateCallee, liftEntry, hBorrow, hCreate]

/-- The rest of a call after `user_rpc_create_callee`. -/
theorem systemCall_created
    (hView : view k.toStore entry.universeRef hmailbox = some ⟨mailbox, .mailbox, pin⟩)
    (hCreate : userRpcCreateCallee mailbox opaqueValue buckets memory (k.borrowed mailbox) =
      some ((status, written), k₁))
    (hMore : k₁.refcount mailbox ≠ 1) :
    userSysCreateCallee entry hmailbox opaqueValue buckets memory stale heap heap' k =
      (if status ≠ .success then return .error status
        else storeCallee entry written stale heap heap')
        { k₁ with
          toKernel := dropped k₁.toKernel mailbox, accesses := k₁.accesses ++ writes written } := by
  have hBorrow := Entry.borrowOut_eq hView
  change userRpcCreateCallee _ _ _ _ { k with toKernel := _ } = _ at hCreate
  have hDrop : userDropRef mailbox { k₁ with accesses := k₁.accesses ++ writes written } = _ :=
    dropRef_more hMore
  simp only [userSysCreateCallee, liftEntry, hBorrow, hCreate, writeLocals_eq, hDrop,
    Prog.bind_apply, Option.map_some, Option.bind_some, ne_eq, not_true_eq_false, if_false]

end Borrowed

section Kept

variable {s s' : Universe.State} {st : Store} {bound bound' : Nat}

theorem table_mono (hTable : Table True st bound) (hLe : bound ≤ bound') : Table True st bound' :=
  ⟨hTable.arrays, hTable.shape, fun u uni hUni => (hTable.below u uni hUni).trans_le hLe⟩

/-- Objects that are no universes do not change what the heap may return. -/
theorem answerValid_same (hTable : Table True s.toStore s.objectsCount)
    (hSame : s'.universes = s.universes) (hValid : s.answerValid heap = true) :
    s'.answerValid heap = true := by
  unfold Universe.State.answerValid at hValid ⊢
  split at hValid
  · rename_i array hMoved
    have hUnused : s.arrayUnused array := of_decide_eq_true hValid
    refine decide_eq_true fun u _ => ?_
    rw [hSame]
    cases hUni : s.universes u with
    | none => rfl
    | some uni => simpa using hUnused.ne hTable u uni hUni
  · rfl

end Kept

theorem AllOrNothing.inOrder {outcome : Option (Except Status (Nat × Nat) × State)}
    (h : AllOrNothing k entry mailbox opaqueValue buckets outcome) :
    ∃ result k', outcome = some (result, k') ∧ Access.InOrder (fun _ => False) k'.accesses := by
  match outcome, h with
  | some (.ok _, k'), h => exact ⟨_, k', rfl, h.1⟩
  | some (.error _, k'), h => exact ⟨_, k', rfl, h.1⟩

/-- Too little memory, and nothing stays behind. -/
theorem systemCall_failed (hk : Accounted [] k.toKernel) (hHeap : k.heap = [])
    (hAccesses : k.accesses = [])
    (hView : view k.toStore entry.universeRef hmailbox = some ⟨mailbox, .mailbox, pin⟩)
    (hObj : k.dispose mailbox = .userShutdownMailbox) (hMailbox : k.mailboxes mailbox = some m)
    (hMemory : (memory.callee && memory.forRaiser m) = false) :
    AllOrNothing k entry mailbox opaqueValue buckets
      (userSysCreateCallee entry hmailbox opaqueValue buckets memory stale heap heap' k) := by
  obtain ⟨calls, hCreate, hReleased⟩ := createCallee_failed (k := k.borrowed mailbox)
    opaqueValue buckets hMailbox hMemory
  have hMore : (k.borrowed mailbox).refcount mailbox ≠ 1 := borrowed_more hk hView hObj
  rw [systemCall_created hView hCreate hMore]
  refine ⟨?_, by simp, fun i => view_dropped _ (universe_ne_mailbox hk hView hObj) i, ?_⟩
  · simp [State.borrowed, hAccesses, writes, Access.InOrder]
  · simpa [State.borrowed, hHeap] using hReleased

/-- Without the buckets, the call goes on with pointers that nobody wrote. -/
theorem systemCall_noNodes (hk : Accounted [] k.toKernel) (hAccesses : k.accesses = [])
    (hView : view k.toStore entry.universeRef hmailbox = some ⟨mailbox, .mailbox, pin⟩)
    (hObj : k.dispose mailbox = .userShutdownMailbox) (hMailbox : k.mailboxes mailbox = some m)
    (hMemory : (memory.callee && memory.forRaiser m) = true) (hNodes : memory.nodes = false) :
    ¬AllOrNothing k entry mailbox opaqueValue buckets
      (userSysCreateCallee entry hmailbox opaqueValue buckets memory stale heap heap' k) := by
  obtain ⟨k₁, hCreate, hKernel, hSame⟩ := createCallee_noNodes (k := k.borrowed mailbox)
    opaqueValue buckets hMailbox hMemory hNodes
  have hMore : k₁.refcount mailbox ≠ 1 := by
    rw [hKernel]
    exact borrowed_more hk hView hObj
  rw [systemCall_created hView hCreate hMore]
  simp only [ne_eq, not_true_eq_false, if_false]
  intro h
  obtain ⟨result, k', hRun, hOrder⟩ := h.inOrder
  refine absurd hOrder ?_
  rw [storeCallee_stale hRun]
  simp [hSame, State.borrowed, hAccesses, writes, Access.InOrder]

section Created

/-- The state in which a callee was created and the mailbox is no longer needed. -/
def State.created (k : State) (mailbox : Nat) (opaqueValue buckets : UInt64) (m : UserMailbox) :
    State :=
  { (k.borrowed mailbox).withCallee mailbox opaqueValue buckets m with
    toKernel := dropped ((k.borrowed mailbox).withCallee mailbox opaqueValue buckets m).toKernel
      mailbox
    accesses := k.accesses ++ writes (some (k.objectsCount, k.objectsCount + 1)) }

theorem created_more (opaqueValue buckets : UInt64) (m : UserMailbox) (hk : Accounted [] k.toKernel)
    (hView : view k.toStore entry.universeRef hmailbox = some ⟨mailbox, .mailbox, pin⟩)
    (hObj : k.dispose mailbox = .userShutdownMailbox) (hOld : mailbox < k.objectsCount) :
    ((k.borrowed mailbox).withCallee mailbox opaqueValue buckets m).refcount mailbox ≠ 1 := by
  have hFirst : mailbox ≠ k.objectsCount := Nat.ne_of_lt hOld
  have hSecond : mailbox ≠ k.objectsCount + 1 := Nat.ne_of_lt (Nat.lt_succ_of_lt hOld)
  have hCount : ((k.borrowed mailbox).withCallee mailbox opaqueValue buckets m).refcount mailbox =
      (k.borrowed mailbox).refcount mailbox :=
    (Function.update_of_ne hSecond ..).trans (Function.update_of_ne hFirst ..)
  exact hCount.trans_ne (borrowed_more hk hView hObj)

section Parts

variable (hMore : ((k.borrowed mailbox).withCallee mailbox opaqueValue buckets m).refcount mailbox ≠ 1)

include hMore

theorem created_store : (k.created mailbox opaqueValue buckets m).toStore = k.toStore := by
  simp only [State.created, dropped_more hMore]
  rfl

theorem created_entries : (k.created mailbox opaqueValue buckets m).entries = k.entries := by
  simp only [State.created, dropped_more hMore]
  rfl

theorem created_table (hTable : Table True k.toStore k.objectsCount) :
    Table True (k.created mailbox opaqueValue buckets m).toStore
      (k.created mailbox opaqueValue buckets m).objectsCount := by
  have hCount : (k.created mailbox opaqueValue buckets m).objectsCount = k.objectsCount + 2 := by
    simp only [State.created, dropped_more hMore]
    rfl
  rw [created_store hMore, hCount]
  exact table_mono hTable (Nat.le_add_right ..)

end Parts

theorem created_fresh (hOld : mailbox < k.objectsCount) :
    Fresh (k.created mailbox opaqueValue buckets m) k.objectsCount k.raisersCount mailbox opaqueValue
      buckets := by
  have hNe : k.objectsCount ≠ k.objectsCount + 1 := Nat.ne_of_lt (Nat.lt_succ_self _)
  exact {
    shutdown := (refcount_dropped _ (Nat.ne_of_gt hOld)).trans
      ((Function.update_of_ne hNe ..).trans (Function.update_self ..))
    shutdownDispose := (Function.update_of_ne hNe ..).trans (Function.update_self ..)
    token := (refcount_dropped _ (Nat.ne_of_gt (Nat.lt_succ_of_lt hOld))).trans
      (Function.update_self ..)
    tokenDispose := Function.update_self ..
    fields := Function.update_self ..
    raiserFields := Function.update_self .. }

end Created

/-- With memory for everything, the callee and its token are stored or undone. -/
theorem systemCall_stored (hk : Accounted [] k.toKernel) (hHeap : k.heap = [])
    (hAccesses : k.accesses = [])
    (hView : view k.toStore entry.universeRef hmailbox = some ⟨mailbox, .mailbox, pin⟩)
    (hObj : k.dispose mailbox = .userShutdownMailbox) (hMailbox : k.mailboxes mailbox = some m)
    (hEntry : k.entries entry.cookieRef = some e)
    (hValid : k.answerValid heap = true) (hValid' : k.answerValid heap' = true)
    (hMemory : (memory.callee && memory.forRaiser m) = true) (hNodes : memory.nodes = true)
    (hFit : nodesFit (bucketsCount buckets) = true) :
    AllOrNothing k entry mailbox opaqueValue buckets
      (userSysCreateCallee entry hmailbox opaqueValue buckets memory stale heap heap' k) := by
  have hCreate := createCallee_ok (k := k.borrowed mailbox) opaqueValue buckets hMailbox hMemory
    hNodes hFit
  have hOld : mailbox < k.objectsCount := hk.balanced.target _ _ _ hView
  obtain ⟨uni, hUni, -⟩ := view_eq_some_iff.mp hView
  have hBelow : entry.universeRef < k.objectsCount := hk.table.below _ uni hUni
  have hMore := created_more opaqueValue buckets m hk hView hObj hOld
  obtain ⟨result, k', hRun, ⟨accesses, hAll⟩, hStored⟩ :=
    storeCallee_fresh (k := k.created mailbox opaqueValue buckets m) stale
      (created_table hMore hk.table) ((congrArg (·.universes entry.universeRef) (created_store hMore)).trans hUni)
      (answerValid_same hk.table (congrArg Store.universes (created_store hMore)) hValid)
      (answerValid_same hk.table (congrArg Store.universes (created_store hMore)) hValid')
      ((congrFun (created_entries hMore) _).trans hEntry) (created_fresh hOld) (Function.update_self ..)
      (Nat.ne_of_lt hBelow) (Nat.ne_of_lt (Nat.lt_succ_of_lt hBelow))
  have hCall : userSysCreateCallee entry hmailbox opaqueValue buckets memory stale heap heap' k =
      some (result, k') := by
    rw [systemCall_created hView hCreate hMore]
    simp only [ne_eq, not_true_eq_false, if_false]
    exact hRun
  have hOrder : Access.InOrder (fun _ => False) k'.accesses := by
    rw [hAll, State.created, hAccesses, List.nil_append]
    exact Access.inOrder_append.mpr ⟨trivial, Access.InOrder.of_reads fun var _ => by
      cases var <;> simp [writes]⟩
  have hAlloc : (k.created mailbox opaqueValue buckets m).heap =
      (calleeBlocks m k.objectsCount k.raisersCount).map .alloc := by
    show k.heap ++ _ = _
    rw [hHeap, List.nil_append]
    rfl
  rw [hCall]
  cases result with
  | ok handles =>
      obtain ⟨hNe, hCallee, hToken, hFresh, hSame⟩ := hStored
      refine ⟨hOrder, hNe, _, _, _, hCallee, hToken, hFresh, fun block => ?_⟩
      simp [hSame, hAlloc]
  | error status =>
      obtain ⟨hStatus, hKept, hFreed⟩ := hStored
      refine ⟨hOrder, hStatus, fun i => (hKept i).trans ?_, ?_⟩
      · rw [created_store hMore]
      · rw [hFreed, hAlloc]
        exact released_of_perm (nodup_calleeBlocks ..)
          (((List.reverse_perm _).map _).append_left _)

/-- After any requests, a call on any mailbox is all or nothing if and only if the buckets are
found where they are asked for. -/
theorem create_callee_all_or_nothing_iff {start : Memory}
    {trace : List (Entry.Request × Entry.Reply)}
    (run : (Entry.system start).Execution trace k.toKernel) (hHeap : k.heap = [])
    (hAccesses : k.accesses = []) (entry : UserApiEntry) (hmailbox : Nat)
    (opaqueValue buckets : UInt64) (memory : CalleeMemory) (stale : Nat × Nat)
    (heap heap' : HeapAnswer)
    (hView : view k.toStore entry.universeRef hmailbox = some ⟨mailbox, .mailbox, pin⟩)
    (hObj : k.dispose mailbox = .userShutdownMailbox) (hMailbox : k.mailboxes mailbox = some m)
    (hEntry : k.entries entry.cookieRef = some e)
    (hValid : k.answerValid heap = true) (hValid' : k.answerValid heap' = true) :
    AllOrNothing k entry mailbox opaqueValue buckets
        (userSysCreateCallee entry hmailbox opaqueValue buckets memory stale heap heap' k) ↔
      NodesFound m buckets memory := by
  have hk := Entry.run_accounted run
  cases hMemory : memory.callee && memory.forRaiser m with
  | false =>
      exact iff_of_true (systemCall_failed hk hHeap hAccesses hView hObj hMailbox hMemory)
        fun hReached => by simp [hMemory] at hReached
  | true =>
      cases hNodes : memory.nodes with
      | false =>
          exact iff_of_false (systemCall_noNodes hk hAccesses hView hObj hMailbox hMemory hNodes)
            fun hFound => by simpa [hNodes] using (hFound hMemory).1
      | true =>
          cases hFit : nodesFit (bucketsCount buckets) with
          | false =>
              have hCreate := createCallee_overrun (k := k.borrowed mailbox) opaqueValue
                buckets hMailbox hMemory hNodes hFit
              rw [systemCall_none hView hCreate]
              exact iff_of_false id fun hFound => by simpa [hFit] using (hFound hMemory).2
          | true =>
              exact iff_of_true (systemCall_stored hk hHeap hAccesses hView hObj hMailbox hEntry
                hValid hValid' hMemory hNodes hFit) fun _ => ⟨hNodes, hFit⟩

/-- A per-CPU mailbox and nothing that was made for it yet. -/
def withMailbox (k : Entry.State) (mailbox : Nat) : State where
  toKernel := k
  mailboxes := Function.update (fun _ => none) mailbox (some ⟨1, true, Nat.one_pos⟩)
  raisers := fun _ => none
  raisersCount := 0
  callees := fun _ => none
  heap := []
  accesses := []

/-- The call of an entry with a mailbox at handle 0, and memory for everything. -/
theorem create_callee_all_or_nothing_stored :
    ∃ trace k k', (Entry.system staleMemory).Execution trace k ∧
      userSysCreateCallee ⟨0, 1, fun _ => none⟩ 0 7 4 ⟨true, true, true, true⟩ (0, 0)
        ⟨some (.moved 3), staleMemory⟩ ⟨some (.moved 4), staleMemory⟩ (withMailbox k 2) =
          some (.ok (1, 2), k') ∧
      AllOrNothing (withMailbox k 2) ⟨0, 1, fun _ => none⟩ 2 7 4 (some (.ok (1, 2), k')) := by
  have run : (Entry.system staleMemory).Execution _ _ := System.Execution.of_replay
    [.entryInit (some 0) staleMemory true true,
      .sys 0 (.createMailbox true ⟨some (.moved 1), staleMemory⟩)] rfl
  refine ⟨_, _, _, run, rfl, ?_⟩
  exact (create_callee_all_or_nothing_iff (k := withMailbox _ 2) run rfl rfl ⟨0, 1, fun _ => none⟩ 0
    7 4 ⟨true, true, true, true⟩ (0, 0) ⟨some (.moved 3), staleMemory⟩
    ⟨some (.moved 4), staleMemory⟩ rfl rfl rfl rfl (by decide) (by decide)).mpr
      fun _ => ⟨rfl, by decide⟩

/-- No memory for the buckets alone: the call succeeds, and its handles refer to what the stack
held. -/
theorem create_callee_without_nodes :
    ∃ trace k k', (Entry.system staleMemory).Execution trace k ∧
      userSysCreateCallee ⟨0, 1, fun _ => none⟩ 0 7 4 ⟨true, true, true, false⟩ (0, 0)
        ⟨some (.moved 3), staleMemory⟩ ⟨some (.moved 4), staleMemory⟩ (withMailbox k 2) =
          some (.ok (1, 2), k') ∧
      view k'.toStore 0 1 = some ⟨0, .callee, 2⟩ ∧ view k'.toStore 0 2 = some ⟨0, .token, 2⟩ ∧
      k'.callees 0 = none ∧
      ¬AllOrNothing (withMailbox k 2) ⟨0, 1, fun _ => none⟩ 2 7 4 (some (.ok (1, 2), k')) := by
  have run : (Entry.system staleMemory).Execution _ _ := System.Execution.of_replay
    [.entryInit (some 0) staleMemory true true,
      .sys 0 (.createMailbox true ⟨some (.moved 1), staleMemory⟩)] rfl
  refine ⟨_, _, _, run, rfl, rfl, rfl, rfl, fun h => ?_⟩
  exact h.1.1

end Outcomes

end SystemCall

end Ricerca.Callee
