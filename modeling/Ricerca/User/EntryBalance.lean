import Ricerca.User.EntryOperations
import Ricerca.User.UniverseHandles

/-! Balance of reference counts. Every system call gives back what it borrowed on every
path, so that the counter of an object is the number of references to it whenever no
call is under way. -/
namespace Ricerca.Entry

open Ricerca.Foundation Ricerca.Cookie Ricerca.Universe

/-- A call that owns the same references before and after. -/
def Neutral {α : Type} (call : Call α) : Prop :=
  ∀ owned, Triple (Accounted owned) call fun _ => Accounted owned

/-- A call whose result comes with references that its caller owns. -/
def Produces {α : Type} (call : Call (Except Status α)) (refs : α → List Nat) : Prop :=
  ∀ owned, Triple (Accounted owned) call (Gives owned refs)

section Shapes

variable {α : Type} {entry : UserApiEntry}

theorem Neutral.produces {call : Call (Except Status α)} (h : Neutral call) :
    Produces call fun _ => [] := by
  intro owned
  refine (h owned).weaken fun r k hk => ?_
  cases r <;> exact hk

theorem Produces.neutral {call : Call (Except Status α)} (h : Produces call fun _ => []) :
    Neutral call := by
  intro owned
  refine (h owned).weaken fun r k hk => ?_
  cases r <;> exact hk

theorem neutral_pure (a : α) : Neutral (pure a) := fun _ => Triple.pure fun _ hk => hk

theorem neutral_read (f : State → Option α) : Neutral (Prog.read f) := by
  intro owned k hk a k' hRun
  simp only [Prog.read, Option.map_eq_some_iff] at hRun
  obtain ⟨a', -, hEq⟩ := hRun
  cases hEq
  exact hk

theorem Neutral.bind {β : Type} {x : Call α} {f : α → Call β} (hx : Neutral x)
    (hf : ∀ a, Neutral (f a)) : Neutral (x >>= f) := fun owned =>
  Triple.bind (hx owned) fun a => hf a owned

theorem Neutral.map {β : Type} {x : Call α} (f : α → β) (hx : Neutral x) : Neutral (f <$> x) :=
  fun owned => Triple.map (hx owned)

/-- The borrowed reference is dropped on every path. -/
theorem withHandle_spec {handle : Nat} {accepts : UserObjType → Bool} {refs : α → List Nat}
    {use : Nat → Call (Except Status α)} (hUse : ∀ obj, Produces (use obj) refs) :
    Produces (withHandle entry handle accepts use) refs := by
  intro owned
  refine Triple.bind (userUniverseBorrowOut_spec entry.universeRef handle owned) fun r => ?_
  cases r with
  | error status => exact Triple.pure fun k hk => hk
  | ok borrowed =>
      obtain ⟨obj, type⟩ := borrowed
      dsimp only
      split_ifs with hAccepts
      · exact Triple.bind (userDropRef_spec obj owned) fun _ => Triple.pure fun k hk => hk
      · refine Triple.bind (hUse obj (obj :: owned)) fun r => ?_
        cases r with
        | error status =>
            exact Triple.bind (userDropRef_spec obj owned) fun _ => Triple.pure fun k hk => hk
        | ok a =>
            refine Triple.bind ((userDropRef_spec obj (refs a ++ owned)).strengthen fun k hk => ?_)
              fun _ => Triple.pure fun k hk => hk
            exact hk.perm List.perm_middle

theorem withHandlePair_spec {first second : Nat} {firstType secondType : UserObjType}
    {use : Nat → Nat → Call (Except Status α)} (hUse : ∀ obj obj', Neutral (use obj obj')) :
    Neutral (withHandlePair entry first firstType second secondType use) := by
  intro owned
  refine Triple.bind (userUniverseBorrowOut_spec entry.universeRef first owned) fun r => ?_
  cases r with
  | error status => exact Triple.pure fun k hk => hk
  | ok borrowed =>
      obtain ⟨obj, type⟩ := borrowed
      dsimp only
      split_ifs with hType
      · exact Triple.bind (userDropRef_spec obj owned) fun _ => Triple.pure fun k hk => hk
      · refine Triple.bind (userUniverseBorrowOut_spec entry.universeRef second (obj :: owned))
          fun r => ?_
        cases r with
        | error status =>
            exact Triple.bind (userDropRef_spec obj owned) fun _ => Triple.pure fun k hk => hk
        | ok borrowed =>
            obtain ⟨obj', type'⟩ := borrowed
            have hDrops : ∀ r : Except Status α, Triple (Accounted (obj' :: obj :: owned))
                (do userDropRef obj; userDropRef obj'; return r) fun _ => Accounted owned := by
              intro r
              refine Triple.bind ((userDropRef_spec obj (obj' :: owned)).strengthen fun k hk => ?_)
                fun _ => Triple.bind (userDropRef_spec obj' owned) fun _ => Triple.pure fun k hk => hk
              exact hk.perm (List.Perm.swap ..)
            dsimp only
            split_ifs with hType'
            · exact hDrops _
            · exact Triple.bind (hUse obj obj' _) fun r => hDrops r

/-- A reference that was created is stored or dropped. -/
theorem storeRef_spec (obj : Nat) (type : UserObjType) (heap : HeapAnswer) (owned : List Nat) :
    Triple (Accounted (obj :: owned)) (storeRef entry obj type heap) fun _ => Accounted owned := by
  refine Triple.bind (Q := fun ref k => ref.ref = obj ∧ Accounted (obj :: owned) k) ?_ fun ref => ?_
  · exact Triple.read_bind fun e => Triple.pure fun k hk => ⟨rfl, hk.1⟩
  · rintro k ⟨hRef, hk⟩
    subst hRef
    refine Triple.bind (userUniverseMoveIn_spec entry.universeRef ref heap owned) (fun r => ?_) k hk
    cases r with
    | ok handle => exact Triple.pure fun k hk => hk
    | error status =>
        exact Triple.bind (userDropRef_spec ref.ref owned) fun _ => Triple.pure fun k hk => hk

theorem storeNew_spec {create : Call (Except Status Nat)} {type : UserObjType} {heap : HeapAnswer}
    (hCreate : Produces create fun obj => [obj]) : Neutral (storeNew entry create type heap) := by
  intro owned
  refine Triple.bind (hCreate owned) fun r => ?_
  cases r with
  | error status => exact Triple.pure fun k hk => hk
  | ok obj => exact storeRef_spec obj type heap owned

/-- The calls that work on one object and own nothing afterwards. -/
theorem withHandle_neutral {handle : Nat} {accepts : UserObjType → Bool}
    {use : Nat → Call (Except Status α)} (hUse : ∀ obj, Neutral (use obj)) :
    Neutral (withHandle entry handle accepts use) :=
  (withHandle_spec fun obj => (hUse obj).produces).neutral

end Shapes

section Calls

variable {entry : UserApiEntry}

theorem userSysCreateCallee_neutral (hmailbox : Nat) (memory : Bool) (heap heap' : HeapAnswer) :
    Neutral (userSysCreateCallee entry hmailbox memory heap heap') := by
  intro owned
  have hCreate : Produces (withHandle entry hmailbox (· = .mailbox) fun _ => userRpcCreateCallee memory)
      fun p => [p.1, p.2] := withHandle_spec fun _ => userRpcCreateCallee_spec memory
  refine Triple.bind (hCreate owned) fun r => ?_
  cases r with
  | error status => exact Triple.pure fun k hk => hk
  | ok created =>
      obtain ⟨callee, token⟩ := created
      have hPinned : ∀ obj type, Triple (Accounted ([callee, token] ++ owned)) (pinnedRef entry obj type)
          fun ref k => ref.ref = obj ∧ Accounted ([callee, token] ++ owned) k := fun obj type =>
        Triple.read_bind fun e => Triple.pure fun k hk => ⟨rfl, hk.1⟩
      refine Triple.bind (hPinned callee .callee) fun calleeRef k ⟨hCallee, hk⟩ => ?_
      subst hCallee
      refine Triple.bind (hPinned token .token) (fun tokenRef k ⟨hToken, hk⟩ => ?_) k hk
      subst hToken
      refine Triple.bind (userUniverseMoveInPair_spec entry.universeRef calleeRef tokenRef heap heap'
        owned) (fun r => ?_) k hk
      cases r with
      | ok handles => exact Triple.pure fun k hk => hk
      | error status =>
          exact Triple.bind (userDropRef_spec _ _) fun _ =>
            Triple.bind (userDropRef_spec _ owned) fun _ => Triple.pure fun k hk => hk

theorem userSysCreateShmOwned_neutral (size : UInt64) (memory : Bool) (heap : HeapAnswer) :
    Neutral (userSysCreateShmOwned entry size memory heap) := by
  intro owned
  refine Triple.bind (userShmCreate_spec size entry.cookieRef memory owned) fun r => ?_
  cases r with
  | error status => exact Triple.pure fun k hk => hk
  | ok created =>
      refine Triple.bind (storeRef_spec created.1 .shmOwner heap owned) fun r => ?_
      cases r <;> exact Triple.pure fun k hk => hk

theorem borrowShm_neutral (hshm : Nat) (type : UserObjType) (heap : HeapAnswer) :
    Neutral (borrowShm entry hshm type heap) := by
  refine storeNew_spec (withHandle_spec fun owner owned => Triple.map ?_)
  exact (userShmCreateRef_spec owner owned).weaken fun ref k ⟨hRef, hk⟩ => hRef ▸ hk

/-- An object that is found by its id stays borrowed. -/
theorem userShmFindById_spec (id : Nat) (owned : List Nat) :
    Triple (Accounted owned) (userShmFindById id) fun found =>
      Accounted ((found.map (· + 1)).toList ++ owned) := by
  refine Triple.get_bind fun k hk => ?_
  cases hFound : k.shmIntmap id with
  | none => exact Triple.pure fun s hs => hs ▸ hk
  | some owner =>
      refine Triple.bind ((userShmCreateRef_spec owner owned).strengthen fun s hs => hs ▸ hk) fun ref => ?_
      exact Triple.pure fun s hs => hs.2

theorem userShmWriteById_neutral (id : Nat) (offset len : UInt64) (data : Nat → UInt8)
    (cookie : Nat) : Neutral (userShmWriteById id offset len data cookie) := by
  intro owned
  refine Triple.bind (userShmFindById_spec id owned) fun found => ?_
  cases found with
  | none => exact Triple.pure fun k hk => hk
  | some owner =>
      have hDrop : ∀ r : Except Status Unit, Triple (Accounted ((owner + 1) :: owned))
          (do userDropRef (owner + 1); return r) fun _ => Accounted owned := fun r =>
        Triple.bind (userDropRef_spec _ owned) fun _ => Triple.pure fun k hk => hk
      refine Triple.read_bind fun shm => Triple.read_bind fun e => Triple.strengthen ?_ fun k hk => hk.1.1
      split_ifs
      · exact hDrop _
      · exact hDrop _
      · refine Triple.bind (modifyShm_spec owner ?_ _) fun _ => hDrop _
        intro shm
        rfl

theorem userShmReadById_neutral (id : Nat) (offset len : UInt64) (buf : Nat → UInt8)
    (cookie : Nat) : Neutral (userShmReadById id offset len buf cookie) := by
  intro owned
  refine Triple.bind (userShmFindById_spec id owned) fun found => ?_
  cases found with
  | none => exact Triple.pure fun k hk => hk
  | some owner =>
      have hDrop : ∀ r : Except Status (Nat → UInt8), Triple (Accounted ((owner + 1) :: owned))
          (do userDropRef (owner + 1); return r) fun _ => Accounted owned := fun r =>
        Triple.bind (userDropRef_spec _ owned) fun _ => Triple.pure fun k hk => hk
      refine Triple.read_bind fun shm => Triple.read_bind fun e => Triple.strengthen ?_ fun k hk => hk.1.1
      split_ifs <;> exact hDrop _

theorem userShmWriteByRef_neutral (ref : Nat) (offset len : UInt64) (data : Nat → UInt8) :
    Neutral (userShmWriteByRef ref offset len data) := by
  refine (neutral_read _).bind fun shm => ?_
  split_ifs
  · exact neutral_pure _
  · exact Neutral.bind (modifyShm_spec _ fun _ => rfl) fun _ => neutral_pure _

theorem userShmReadByRef_neutral (ref : Nat) (offset len : UInt64) (buf : Nat → UInt8) :
    Neutral (userShmReadByRef ref offset len buf) := by
  refine (neutral_read _).bind fun shm => ?_
  split_ifs <;> exact neutral_pure _

/-- Whoever is named, giving rights away keeps the object listed. -/
theorem userShmModifyPerms_listed (shm : Shm.UserShmOwner) (key : Nat) (rw : Bool) :
    (Shm.userShmModifyPerms shm key rw).listed = shm.listed := by
  cases rw <;> rfl

theorem forEntry_neutral {α : Type} (i : Nat) (reply : α → Reply) {call : UserApiEntry → Call α}
    (h : ∀ entry, Neutral (call entry)) : Neutral (forEntry i reply call) :=
  (neutral_read _).bind fun entry => (h entry).map reply

end Calls

section Entries

variable {k : State} {owned owned' : List Nat}

/-- References that pass between the call and the entries. -/
theorem Accounted.setEntries {entries : List UserApiEntry} (h : Accounted owned k)
    (hRefs : ∀ o, (entries.map (·.universeRef)).count o + (entries.map (·.cookieRef)).count o +
      owned'.count o = k.entryRefs o + owned.count o) :
    Accounted owned' { k with apiEntries := entries } := by
  refine ⟨h.table, h.balanced, fun o => ?_, h.universes, h.shmLive, h.shmKnown⟩
  have hOld := h.holders o
  have hNew := hRefs o
  show k.held o = (entries.map (·.universeRef)).count o + (entries.map (·.cookieRef)).count o +
    k.shmOwnerRef o + owned'.count o
  omega

/-- The entry at a place and the others. -/
theorem count_eraseIdx {α : Type} {xs : List α} {i : Nat} {x : α} (h : xs[i]? = some x) (f : α → Nat)
    (o : Nat) : (xs.map f).count o = ((xs.eraseIdx i).map f).count o + [f x].count o := by
  obtain ⟨hLt, rfl⟩ := List.getElem?_eq_some_iff.mp h
  have hPerm : (xs[i] :: xs.eraseIdx i).Perm xs := List.getElem_cons_eraseIdx_perm hLt
  rw [← (hPerm.map f).count_eq o, List.map_cons, ← List.singleton_append, List.count_append, Nat.add_comm]

theorem userSysSetTlsKey_neutral (i key value : Nat) (memory : Bool) :
    Neutral (userSysSetTlsKey i key value memory) := by
  intro owned
  refine Triple.read_bind fun entry => ?_
  cases hSet : userTlsTableSetKey entry.tls key value memory with
  | error status => exact Triple.pure fun k hk => hk.1
  | ok tls =>
      refine Triple.bind (Q := fun _ => Accounted owned) ?_ fun _ => Triple.pure fun k hk => hk
      rintro k ⟨hk, hEntry⟩ r k' hRun
      cases hRun
      refine hk.setEntries fun o => ?_
      have hSame : ∀ f : UserApiEntry → Nat, f { entry with tls := tls } = f entry →
          (k.apiEntries.set i { entry with tls := tls }).map f = k.apiEntries.map f := by
        intro f hf
        rw [List.map_set, hf]
        obtain ⟨hLt, rfl⟩ := List.getElem?_eq_some_iff.mp hEntry
        rw [← List.map_set, List.set_getElem_self]
      rw [hSame _ rfl, hSame _ rfl]
      rfl

theorem userApiEntryInit_neutral (array : Option Nat) (junk : Memory) (cookieMemory tlsMemory : Bool) :
    Neutral (userApiEntryInit array junk cookieMemory tlsMemory) := by
  intro owned
  refine Triple.bind (userUniverseCreate_spec array junk owned) fun r => ?_
  cases r with
  | error status => exact Triple.pure fun k hk => hk
  | ok u =>
      refine Triple.bind (userEntryCookieCreate_spec cookieMemory (u :: owned)) fun r => ?_
      cases r with
      | error status =>
          exact Triple.bind (userDropRef_spec u owned) fun _ => Triple.pure fun k hk => hk
      | ok cookie =>
          dsimp only
          split_ifs with hMemory
          · exact Triple.bind (userDropRef_spec cookie _) fun _ =>
              Triple.bind (userDropRef_spec u owned) fun _ => Triple.pure fun k hk => hk
          · refine Triple.bind (Q := fun _ => Accounted owned) ?_ fun _ => Triple.pure fun k hk => hk
            intro k hk r k' hRun
            cases hRun
            refine Accounted.setEntries hk fun o => ?_
            simp only [State.entryRefs, List.map_append, List.map_singleton, List.count_append,
              List.count_cons, List.count_nil]
            omega

theorem userApiEntryDeinit_neutral (i : Nat) : Neutral (userApiEntryDeinit i) := by
  intro owned
  refine Triple.read_bind fun entry => ?_
  refine Triple.bind (Q := fun _ => Accounted (entry.universeRef :: entry.cookieRef :: owned)) ?_
    fun _ => Triple.bind (userDropRef_spec _ _) fun _ => userDropRef_spec _ owned
  rintro k ⟨hk, hEntry⟩ r k' hRun
  cases hRun
  refine hk.setEntries fun o => ?_
  rw [State.entryRefs, count_eraseIdx hEntry (·.universeRef), count_eraseIdx hEntry (·.cookieRef)]
  simp only [List.count_cons, List.count_nil]
  omega

theorem handOver_neutral (src dst handle : Nat) (heap : HeapAnswer) :
    Neutral (Entry.handOver src dst handle heap) := by
  intro owned
  refine Triple.read_bind fun srcEntry => Triple.read_bind fun dstEntry =>
    Triple.strengthen ?_ fun k hk => hk.1.1
  refine Triple.bind (Q := fun ref => Accounted (ref.ref :: owned)) ?_ fun ref => ?_
  · refine Triple.read_bind fun uni => Triple.get_bind fun k hk => ?_
    obtain ⟨hk, hLookup⟩ := hk
    obtain ⟨hUni, hNe⟩ := userUniverseWithHandle_some hLookup
    split_ifs with hCheck
    · intro s hs r s' hRun
      cases hRun
    · intro s hs r s' hRun
      cases hRun
      subst hs
      exact hk.take hUni hNe (by simpa using hCheck)
  · refine Triple.bind (userUniverseMoveIn_spec dstEntry.universeRef ref heap owned) fun r => ?_
    cases r with
    | ok handle => exact Triple.pure fun k hk => hk
    | error status =>
        intro k hk r k' hRun
        cases hRun

end Entries

/-- No system call changes what is owned outside of the universes. -/
theorem Op.neutral (i : Nat) (op : Op) : Neutral (op.call i) := by
  cases op with
  | createMailbox memory heap =>
      exact forEntry_neutral i _ fun _ => storeNew_spec fun owned => createObject_spec memory owned (by simp)
  | getNotification hmailbox status =>
      exact forEntry_neutral i _ fun _ => withHandle_neutral fun _ => neutral_pure _
  | createGroupCookie refcount memory heap =>
      exact forEntry_neutral i _ fun _ => storeNew_spec (userGroupCookieCreate_spec refcount memory)
  | createEntryCookie memory heap =>
      exact forEntry_neutral i _ fun _ => storeNew_spec (userEntryCookieCreate_spec memory)
  | joinGroup hgrp memory =>
      exact forEntry_neutral i _ fun _ =>
        withHandle_neutral fun group => userEntryCookieAddToGrp_spec _ group memory
  | leaveGroup hgrp =>
      exact forEntry_neutral i _ fun _ =>
        withHandle_neutral fun group => userEntryCookieRemoveFromGrp_spec _ group
  | addEntryToGroup hentry hgrp memory =>
      exact forEntry_neutral i _ fun _ =>
        withHandlePair_spec fun cookie group => userEntryCookieAddToGrp_spec cookie group memory
  | removeEntryFromGroup hentry hgrp =>
      exact forEntry_neutral i _ fun _ =>
        withHandlePair_spec fun cookie group => userEntryCookieRemoveFromGrp_spec cookie group
  | createCaller hmailbox memory heap =>
      exact forEntry_neutral i _ fun _ => storeNew_spec <| withHandle_spec fun _ owned =>
        createObject_spec memory owned (by simp)
  | createCallee hmailbox memory heap heap' =>
      exact forEntry_neutral i _ fun _ => userSysCreateCallee_neutral hmailbox memory heap heap'
  | rpcCall hcaller htoken status =>
      exact forEntry_neutral i _ fun _ => withHandle_neutral fun _ =>
        withHandle_neutral fun _ => neutral_pure _
  | rpcAccept hcallee status =>
      exact forEntry_neutral i _ fun _ => withHandle_neutral fun _ => neutral_pure _
  | rpcReturn hcallee status =>
      exact forEntry_neutral i _ fun _ => withHandle_neutral fun _ => neutral_pure _
  | rpcRecvReply hcaller status =>
      exact forEntry_neutral i _ fun _ => withHandle_neutral fun _ => neutral_pure _
  | createUniverse array junk heap =>
      exact forEntry_neutral i _ fun _ => storeNew_spec (userUniverseCreate_spec array junk)
  | moveAcrossUniverses hsrc hdst hsrci heap =>
      exact forEntry_neutral i _ fun _ => withHandlePair_spec fun src dst =>
        userUniverseMoveAcross_spec src dst hsrci _ heap
  | borrowAcrossUniverses hsrc hdst hsrci heap =>
      exact forEntry_neutral i _ fun _ => withHandlePair_spec fun src dst =>
        userUniverseBorrowAcross_spec src dst hsrci _ heap
  | moveIn huniverse outer heap =>
      exact forEntry_neutral i _ fun _ => withHandle_neutral fun u =>
        userUniverseMoveAcross_spec _ u outer _ heap
  | moveOut huniverse inner heap =>
      exact forEntry_neutral i _ fun _ => withHandle_neutral fun u =>
        userUniverseMoveAcross_spec u _ inner _ heap
  | borrowIn huniverse outer heap =>
      exact forEntry_neutral i _ fun _ => withHandle_neutral fun u =>
        userUniverseBorrowAcross_spec _ u outer _ heap
  | borrowOut huniverse inner heap =>
      exact forEntry_neutral i _ fun _ => withHandle_neutral fun u =>
        userUniverseBorrowAcross_spec u _ inner _ heap
  | unpin handle => exact forEntry_neutral i _ fun _ => userUniverseUnpin_spec _ handle _
  | pin handle => exact forEntry_neutral i _ fun _ => userUniversePin_spec _ handle _
  | unpinFromGroup handle hgrp =>
      exact forEntry_neutral i _ fun _ => withHandle_neutral fun group =>
        userUniverseUnpinFromGroup_spec _ handle _ group
  | pinToGroup handle hgrp =>
      exact forEntry_neutral i _ fun _ => withHandle_neutral fun group =>
        userUniversePinToGroup_spec _ handle _ group
  | forkUniverse hsrc array junk heap =>
      exact forEntry_neutral i _ fun _ => storeNew_spec <| withHandle_spec fun _ =>
        userUniverseFork_spec _ _ array junk
  | dropIn huniverse inner =>
      exact forEntry_neutral i _ fun _ => withHandle_neutral fun u =>
        userUniverseDropCell_spec u inner _
  | createShmOwned size memory heap =>
      exact forEntry_neutral i _ fun _ => userSysCreateShmOwned_neutral size memory heap
  | borrowShmRw hshm heap => exact forEntry_neutral i _ fun _ => borrowShm_neutral hshm _ heap
  | borrowShmRo hshm heap => exact forEntry_neutral i _ fun _ => borrowShm_neutral hshm _ heap
  | readFromShmRef hshmref offset len buf =>
      refine forEntry_neutral i _ fun _ => withHandle_neutral fun ref =>
        (userShmReadByRef_neutral ref offset len buf).bind fun r => ?_
      cases r <;> exact neutral_pure _
  | writeToShmRef hshmref offset len data =>
      exact forEntry_neutral i _ fun _ => withHandle_neutral fun ref =>
        (userShmWriteByRef_neutral ref offset len data).bind fun _ => neutral_pure _
  | readFromShmId id offset len buf =>
      exact forEntry_neutral i _ fun _ => userShmReadById_neutral id offset len buf _
  | writeToShmId id offset len data =>
      exact forEntry_neutral i _ fun _ => userShmWriteById_neutral id offset len data _
  | unrestrictShm hshm rw =>
      exact forEntry_neutral i _ fun _ => withHandle_neutral fun owner =>
        Neutral.bind (modifyShm_spec owner fun shm => userShmModifyPerms_listed shm _ rw) fun _ =>
          neutral_pure _
  | restrictShm hshm rw =>
      exact forEntry_neutral i _ fun _ => withHandle_neutral fun owner =>
        (neutral_read _).bind fun _ =>
          Neutral.bind (modifyShm_spec owner fun shm => userShmModifyPerms_listed shm _ rw) fun _ =>
            neutral_pure _
  | restrictShmToGroup hshm hgrp rw =>
      exact forEntry_neutral i _ fun _ => withHandlePair_spec fun owner _ =>
        (neutral_read _).bind fun _ =>
          Neutral.bind (modifyShm_spec owner fun shm => userShmModifyPerms_listed shm _ rw) fun _ =>
            neutral_pure _
  | drop handle => exact forEntry_neutral i _ fun _ => userUniverseDropCell_spec _ handle _
  | setTlsKey key value memory => exact (userSysSetTlsKey_neutral i key value memory).map _
  | getTlsKey key => exact ((neutral_read _).bind fun _ => neutral_pure _).map _

theorem Request.neutral (request : Request) : Neutral request.call := by
  cases request with
  | entryInit array junk cookieMemory tlsMemory =>
      exact (userApiEntryInit_neutral array junk cookieMemory tlsMemory).map _
  | entryDeinit i => exact (userApiEntryDeinit_neutral i).map _
  | handOver src dst handle heap => exact (handOver_neutral src dst handle heap).map _
  | sys i op => exact op.neutral i

theorem initial_accounted (m : Memory) : Accounted [] (initial m) := by
  have hNone : ∀ u i, view (initial m).toStore u i = none := fun u i => view_of_dead rfl i
  have hInbound : ∀ obj, (graph (initial m).toState).inbound obj = ∅ := by
    intro obj
    ext ⟨u, i⟩
    simp [Graph.inbound, graph, hNone]
  refine ⟨initial_table True m, ⟨?_, ?_, ?_, ?_, ?_, ?_, ?_⟩, fun o => ?_, ?_, ?_, ?_⟩
  · intro u i ref hSome
    rw [show (graph (initial m).toState).refs u i = none from hNone u i] at hSome
    cases hSome
  · intro u i ref hSome
    rw [show (graph (initial m).toState).refs u i = none from hNone u i] at hSome
    cases hSome
  · intro u hu
    cases hu
  · intro obj hObj
    cases hObj
  · intro obj
    rw [hInbound]
    exact Set.finite_empty
  · intro obj hObj
    exact (hObj rfl).elim
  · intro u hu
    cases hu
  · cases o <;> rfl
  · intro u hu
    exact (hu rfl).elim
  · intro o hType
    cases hType
  · intro o ho
    exact (ho rfl).elim

/-- Nothing is in the hands of a call when none is running. -/
theorem run_accounted {m : Memory} {trace : List (Request × Reply)} {k : State}
    (run : (system m).Execution trace k) : Accounted [] k := by
  refine run.stateInvariant ?_ ?_
  · intro k hk
    exact hk ▸ initial_accounted m
  · intro k label k' hk last
    exact label.1.neutral [] k hk label.2 k' last

/-- The in-use cells of live universes that refer to an object. -/
def State.cellsWith (k : State) (obj : Nat) : Set (Nat × Nat) :=
  {p | ∃ ref, view k.toStore p.1 p.2 = some ref ∧ ref.ref = obj}

/-- After every call of every run, the counter of an object that is no group cookie is
the number of in-use cells of live universes that refer to it, and one for each entry
that has it as its universe or as its cookie, and one if it is a `user_shm_ref` whose
owner object has not been shut down. -/
theorem system_calls_balance_references {m : Memory} {trace : List (Request × Reply)} {k : State}
    (run : (system m).Execution trace k) {obj : Nat} (hObj : ¬k.isGroupCookie obj) :
    (k.cellsWith obj).Finite ∧
    k.refcount obj = (k.cellsWith obj).ncard + k.entryRefs obj + k.shmOwnerRef obj := by
  have hAccounted := run_accounted run
  have hCounted : k.refcount obj = k.held obj + (k.cellsWith obj).ncard :=
    hAccounted.balanced.counted obj hObj
  have hHolders := hAccounted.holders obj
  rw [List.count_nil] at hHolders
  exact ⟨hAccounted.balanced.finite obj, by omega⟩

/-- An entry creates a mailbox and a universe, and borrows the mailbox into the
universe. -/
def mailboxBorrowedIn : List Request :=
  [.entryInit (some 0) staleMemory true true,
    .sys 0 (.createMailbox true ⟨some (.moved 1), staleMemory⟩),
    .sys 0 (.createUniverse (some 2) staleMemory ⟨none, staleMemory⟩),
    .sys 0 (.borrowIn 1 0 ⟨some (.moved 3), staleMemory⟩)]

theorem system_calls_balance_references_mailbox :
    ∃ trace k, (system staleMemory).Execution trace k ∧ trace.map Prod.fst = mailboxBorrowedIn ∧
      k.refcount 2 = 2 ∧
      k.refcount 2 = (k.cellsWith 2).ncard + k.entryRefs 2 + k.shmOwnerRef 2 := by
  have run : (system staleMemory).Execution _ _ := System.Execution.of_replay mailboxBorrowedIn rfl
  refine ⟨_, _, run, rfl, rfl, ?_⟩
  exact (system_calls_balance_references run (by decide)).2

end Ricerca.Entry
