import Ricerca.User.EntryFork

/-! Ids of shared memory objects. Whatever the system calls do, different objects have
different ids, and an id leads to no object but the one that it was given to. -/
namespace Ricerca.Entry

open Ricerca.Foundation Ricerca.Cookie Ricerca.Universe
open Ricerca.Shm (UserShmOwner)

/-- Objects have different ids, and an id leads to the object that has it. -/
structure ShmIds (k : State) : Prop where
  issued : ∀ o shm, k.shms o = some shm → shm.key < k.shmLastAllocatedId
  distinct : ∀ o o' shm shm', k.shms o = some shm → k.shms o' = some shm' →
    shm.key = shm'.key → o = o'
  found : ∀ id o, k.shmIntmap id = some o → ∃ shm, k.shms o = some shm ∧ shm.key = id

/-- A call after which the objects still have different ids. -/
def Keeps {α : Type} (call : Call α) : Prop := Triple ShmIds call fun _ => ShmIds

section Primitives

variable {α β : Type} {k k' : State}

theorem ShmIds.congr (h : ShmIds k) (hShms : k'.shms = k.shms) (hMap : k'.shmIntmap = k.shmIntmap)
    (hLast : k'.shmLastAllocatedId = k.shmLastAllocatedId) : ShmIds k' := by
  constructor
  case issued => rw [hShms, hLast]; exact h.issued
  case distinct => rw [hShms]; exact h.distinct
  case found => rw [hShms, hMap]; exact h.found

/-- An object whose bytes, keys or place in the map change keeps its id. -/
theorem ShmIds.update (h : ShmIds k) {owner : Nat} {shm : UserShm} (shm' : UserShm)
    (hOwner : k.shms owner = some shm) (hKey : shm'.key = shm.key)
    (hShms : k'.shms = Function.update k.shms owner (some shm'))
    (hMap : ∀ id o, k'.shmIntmap id = some o → k.shmIntmap id = some o)
    (hLast : k'.shmLastAllocatedId = k.shmLastAllocatedId) : ShmIds k' := by
  have hOld : ∀ o s, k'.shms o = some s → ∃ s₀, k.shms o = some s₀ ∧ s₀.key = s.key := by
    intro o s hs
    rw [hShms] at hs
    by_cases ho : o = owner
    · subst ho
      obtain rfl : shm' = s := by simpa using hs
      exact ⟨shm, hOwner, hKey.symm⟩
    · rw [Function.update_of_ne ho] at hs
      exact ⟨s, hs, rfl⟩
  constructor
  case issued =>
    intro o s hs
    obtain ⟨s₀, hs₀, hEq⟩ := hOld o s hs
    rw [hLast, ← hEq]
    exact h.issued o s₀ hs₀
  case distinct =>
    intro o o' s s' hs hs' hSame
    obtain ⟨s₀, hs₀, hEq⟩ := hOld o s hs
    obtain ⟨s₀', hs₀', hEq'⟩ := hOld o' s' hs'
    exact h.distinct o o' s₀ s₀' hs₀ hs₀' (by rw [hEq, hEq', hSame])
  case found =>
    intro id o hId
    obtain ⟨s, hs, hEq⟩ := h.found id o (hMap id o hId)
    by_cases ho : o = owner
    · subst ho
      obtain rfl : shm = s := Option.some.inj (hOwner.symm.trans hs)
      exact ⟨shm', by rw [hShms, Function.update_self], hKey.trans hEq⟩
    · exact ⟨s, by rw [hShms, Function.update_of_ne ho, hs], hEq⟩

theorem ShmIds.shutdown (h : ShmIds k) (owner : Nat) : ShmIds (k.userShmShutdown owner) := by
  cases hShm : k.shms owner with
  | none => simpa [State.userShmShutdown, hShm] using h
  | some shm =>
      have hState : k.userShmShutdown owner = { k with
          shms := Function.update k.shms owner
            (some { shm with toUserShmOwner := { shm.toUserShmOwner with listed := false } })
          shmIntmap := Function.update k.shmIntmap shm.key none } := by
        simp [State.userShmShutdown, hShm]
      apply h.update { shm with
        toUserShmOwner := { shm.toUserShmOwner with listed := false } } hShm rfl
      · rw [hState]
      · intro id o hId
        rw [hState] at hId
        by_cases hKey : id = shm.key
        · simp [hKey] at hId
        · simpa [hKey] using hId
      · rw [hState]

theorem keeps_pure (a : α) : Keeps (pure a) := Triple.pure fun _ hk => hk

theorem Keeps.bind {x : Call α} {f : α → Call β} (hx : Keeps x) (hf : ∀ a, Keeps (f a)) :
    Keeps (x >>= f) := Triple.bind hx hf

theorem Keeps.map {x : Call α} (f : α → β) (hx : Keeps x) : Keeps (f <$> x) := Triple.map hx

/-- A call that does not touch shared memory. -/
theorem keeps_of_same {call : Call α} (h : ∀ k a k', call k = some (a, k') → k'.shms = k.shms ∧
    k'.shmIntmap = k.shmIntmap ∧ k'.shmLastAllocatedId = k.shmLastAllocatedId) : Keeps call := by
  intro k hk a k' hRun
  obtain ⟨hShms, hMap, hLast⟩ := h k a k' hRun
  exact hk.congr hShms hMap hLast

theorem keeps_read (f : State → Option α) : Keeps (Prog.read f) := by
  apply keeps_of_same
  intro k a k' hRun
  obtain ⟨-, rfl⟩ := Prog.read_eq_some.mp hRun
  exact ⟨rfl, rfl, rfl⟩

theorem keeps_guard (p : State → Bool) : Keeps (Prog.guard p) := by
  apply keeps_of_same
  intro k a k' hRun
  obtain ⟨-, rfl⟩ := Prog.guard_eq_some.mp hRun
  exact ⟨rfl, rfl, rfl⟩

theorem keeps_get : Keeps get := by
  apply keeps_of_same
  intro k a k' hRun
  cases hRun
  exact ⟨rfl, rfl, rfl⟩

theorem keeps_liftUniverse (result : Outcome → Option (Except Status α))
    (call : Universe.State → Outcome × Universe.State) : Keeps (liftUniverse result call) := by
  apply keeps_of_same
  intro k a k' hRun
  obtain ⟨r, -, hEq⟩ := Option.map_eq_some_iff.mp hRun
  cases hEq
  exact ⟨rfl, rfl, rfl⟩

theorem keeps_createUniverse (call : Universe.State → Outcome × Universe.State) :
    Keeps (createUniverse call) := by
  apply keeps_of_same
  intro k a k' hRun
  simp only [createUniverse] at hRun
  split at hRun
  · cases hRun
    exact ⟨rfl, rfl, rfl⟩
  · cases hRun
    exact ⟨rfl, rfl, rfl⟩
  · cases hRun

theorem keeps_dropRef (obj : Nat) : Keeps (userDropRef obj) := by
  have hDrops : ∀ steps work k, ShmIds k → ShmIds (k.dropAll steps work) := by
    intro steps
    induction steps with
    | zero =>
        intro work k hk
        cases work <;> exact hk
    | succ steps ih =>
        intro work k hk
        cases work with
        | nil => exact hk
        | cons obj work =>
            apply ih
            have hDropped : ShmIds { k with toState := (k.takeHeld obj).memRefDrop obj } :=
              hk.congr rfl rfl rfl
            simp only [State.memRcDrop]
            split_ifs
            · split
              · exact hDropped
              · exact hDropped.shutdown obj
              · exact hDropped
            · exact hDropped
  intro k hk a k' hRun
  cases hRun
  exact hDrops _ _ k hk

/-- A call whose new state is a given one. -/
theorem keeps_modify {call : Call α} {f : State → α} {g : State → State}
    (h : ∀ k, call k = some (f k, g k)) (hSame : ∀ k, (g k).shms = k.shms ∧
      (g k).shmIntmap = k.shmIntmap ∧ (g k).shmLastAllocatedId = k.shmLastAllocatedId) :
    Keeps call := by
  apply keeps_of_same
  intro k a k' hRun
  rw [h k] at hRun
  cases hRun
  exact hSame k

theorem keeps_setEntries (entries : State → List UserApiEntry) :
    Keeps (modify fun k => { k with apiEntries := entries k } : Call PUnit) :=
  keeps_modify (fun _ => rfl) fun _ => ⟨rfl, rfl, rfl⟩

theorem keeps_borrowRef (obj : Nat) : Keeps (userBorrowRef obj) :=
  keeps_modify (fun _ => rfl) fun _ => ⟨rfl, rfl, rfl⟩

theorem keeps_takeCell (u cell : Nat) (uni : UserUniverse) : Keeps (takeCell u cell uni) :=
  keeps_modify (fun _ => rfl) fun _ => ⟨rfl, rfl, rfl⟩

theorem keeps_setEntryCookie (cookie : Nat) (e : UserEntryCookie) :
    Keeps (setEntryCookie cookie e) :=
  keeps_modify (fun _ => rfl) fun _ => ⟨rfl, rfl, rfl⟩

theorem keeps_modifyShm (owner : Nat) (change : UserShmOwner → UserShmOwner) :
    Keeps (modifyShm owner change) := by
  intro k hk a k' hRun
  cases hRun
  cases hShm : k.shms owner with
  | none =>
      apply hk.congr
      · funext o
        by_cases ho : o = owner
        · simp [ho, hShm]
        · simp [ho]
      · rfl
      · rfl
  | some shm =>
      apply hk.update { shm with toUserShmOwner := change shm.toUserShmOwner } hShm rfl
      · rfl
      · exact fun _ _ hId => hId
      · rfl

/-- A new object gets an id that no other one has. -/
theorem userShmCreate_keeps {size : UInt64} {cookie : Nat} {memory : Bool} (hk : ShmIds k)
    (hFresh : k.shms k.objectsCount = none) {result : Except Status (Nat × Nat)}
    (hRun : userShmCreate size cookie memory k = some (result, k')) : ShmIds k' := by
  obtain ⟨e, t, hRead, hCreate⟩ := Prog.bind_eq_some.mp hRun
  obtain rfl : k = t := (Prog.read_eq_some.mp hRead).2.symm
  cases memory with
  | false =>
      cases hCreate
      exact hk
  | true =>
      cases hCreate
      have hOld : ∀ o shm, Function.update k.shms k.objectsCount
          (some ⟨⟨fun _ => 0, size.toNat, userEntryCookieGetKey e, userEntryCookieGetKey e, true⟩,
            k.shmLastAllocatedId⟩) o = some shm →
          o = k.objectsCount ∧ shm.key = k.shmLastAllocatedId ∨
            k.shms o = some shm ∧ shm.key < k.shmLastAllocatedId := by
        intro o shm hShm
        by_cases ho : o = k.objectsCount
        · subst ho
          rw [Function.update_self] at hShm
          cases hShm
          exact .inl ⟨rfl, rfl⟩
        · rw [Function.update_of_ne ho] at hShm
          exact .inr ⟨hShm, hk.issued o shm hShm⟩
      constructor
      case issued =>
        intro o shm hShm
        show shm.key < k.shmLastAllocatedId + 1
        rcases hOld o shm hShm with ⟨-, hKey⟩ | ⟨-, hKey⟩ <;> omega
      case distinct =>
        intro o o' shm shm' hShm hShm' hSame
        rcases hOld o shm hShm with ⟨ho, hKey⟩ | ⟨ho, hKey⟩
        · rcases hOld o' shm' hShm' with ⟨ho', -⟩ | ⟨-, hKey'⟩
          · rw [ho, ho']
          · omega
        · rcases hOld o' shm' hShm' with ⟨-, hKey'⟩ | ⟨ho', -⟩
          · omega
          · exact hk.distinct o o' shm shm' ho ho' hSame
      case found =>
        intro id o hId
        dsimp only at hId ⊢
        by_cases hNew : id = k.shmLastAllocatedId
        · subst hNew
          obtain rfl : k.objectsCount = o := by simpa using hId
          exact ⟨_, Function.update_self .., rfl⟩
        · rw [Function.update_of_ne hNew] at hId
          obtain ⟨shm, hShm, hKey⟩ := hk.found id o hId
          have ho : o ≠ k.objectsCount := by
            rintro rfl
            rw [hFresh] at hShm
            cases hShm
          exact ⟨shm, by rw [Function.update_of_ne ho, hShm], hKey⟩

end Primitives

section Shapes

variable {α : Type} {entry : UserApiEntry}

theorem keeps_withHandle {handle : Nat} {accepts : UserObjType → Bool}
    {use : Nat → Call (Except Status α)} (hUse : ∀ obj, Keeps (use obj)) :
    Keeps (withHandle entry handle accepts use) := by
  apply Keeps.bind ((keeps_read _).bind fun _ => keeps_liftUniverse _ _)
  rintro (status | ⟨obj, type⟩)
  · exact keeps_pure _
  · dsimp only
    split_ifs
    · exact (keeps_dropRef obj).bind fun _ => keeps_pure _
    · exact (hUse obj).bind fun _ => (keeps_dropRef obj).bind fun _ => keeps_pure _

theorem keeps_withHandlePair {first second : Nat} {firstType secondType : UserObjType}
    {use : Nat → Nat → Call (Except Status α)} (hUse : ∀ obj obj', Keeps (use obj obj')) :
    Keeps (withHandlePair entry first firstType second secondType use) := by
  have hDrops : ∀ obj obj' (r : Except Status α),
      Keeps (do userDropRef obj; userDropRef obj'; return r) := fun obj obj' r =>
    (keeps_dropRef obj).bind fun _ => (keeps_dropRef obj').bind fun _ => keeps_pure r
  apply Keeps.bind ((keeps_read _).bind fun _ => keeps_liftUniverse _ _)
  rintro (status | ⟨obj, type⟩)
  · exact keeps_pure _
  · dsimp only
    split_ifs
    · exact (keeps_dropRef obj).bind fun _ => keeps_pure _
    · apply Keeps.bind ((keeps_read _).bind fun _ => keeps_liftUniverse _ _)
      rintro (status | ⟨obj', type'⟩)
      · exact (keeps_dropRef obj).bind fun _ => keeps_pure _
      · dsimp only
        split_ifs
        · exact hDrops obj obj' _
        · exact (hUse obj obj').bind fun r => hDrops obj obj' r

theorem keeps_moveIn (u : Nat) (ref : UserRef) (heap : HeapAnswer) :
    Keeps (userUniverseMoveIn u ref heap) :=
  (keeps_read _).bind fun _ => (keeps_guard _).bind fun _ => keeps_liftUniverse _ _

theorem keeps_storeRef (obj : Nat) (type : UserObjType) (heap : HeapAnswer) :
    Keeps (storeRef entry obj type heap) := by
  apply Keeps.bind ((keeps_read _).bind fun _ => keeps_pure _)
  intro ref
  apply Keeps.bind (keeps_moveIn _ ref heap)
  rintro (status | handle)
  · exact (keeps_dropRef obj).bind fun _ => keeps_pure _
  · exact keeps_pure _

theorem keeps_storeNew {create : Call (Except Status Nat)} {type : UserObjType} {heap : HeapAnswer}
    (hCreate : Keeps create) : Keeps (storeNew entry create type heap) := by
  apply Keeps.bind hCreate
  rintro (status | obj)
  · exact keeps_pure _
  · exact keeps_storeRef obj type heap

theorem keeps_dropCell (u cell cookie : Nat) : Keeps (userUniverseDropCell u cell cookie) := by
  apply (keeps_read _).bind fun uni => (keeps_read _).bind fun e => keeps_get.bind fun k => ?_
  dsimp only
  split_ifs
  · exact keeps_pure _
  · exact keeps_pure _
  · exact (keeps_takeCell u cell uni).bind fun _ => (keeps_dropRef _).bind fun _ => keeps_pure _

theorem keeps_moveAcross (src dst hsrc cookie : Nat) (heap : HeapAnswer) :
    Keeps (userUniverseMoveAcross src dst hsrc cookie heap) :=
  (keeps_guard _).bind fun _ => (keeps_read _).bind fun _ => (keeps_read _).bind fun _ =>
    (keeps_read _).bind fun _ => (keeps_guard _).bind fun _ => keeps_liftUniverse _ _

theorem keeps_borrowAcross (src dst hsrc cookie : Nat) (heap : HeapAnswer) :
    Keeps (userUniverseBorrowAcross src dst hsrc cookie heap) := by
  apply (keeps_guard _).bind fun _ => (keeps_read _).bind fun uni =>
    (keeps_read _).bind fun e => keeps_get.bind fun k => ?_
  dsimp only
  split_ifs
  · exact keeps_pure _
  · exact (keeps_borrowRef _).bind fun _ => (keeps_dropRef _).bind fun _ => keeps_pure _
  · apply (keeps_borrowRef _).bind fun _ => (keeps_moveIn dst _ heap).bind fun r => ?_
    cases r with
    | ok hdst => exact keeps_pure _
    | error status => exact (keeps_dropRef _).bind fun _ => keeps_pure _

/-- The calls that look a cell and the cookie of the entry up. -/
theorem keeps_pin {β : Type} {cell : Nat} {u cookie : Nat}
    (call : UserUniverse → UserEntryCookie → Universe.State → Outcome × Universe.State)
    (result : Outcome → Option (Except Status β)) : Keeps (do
      let uni ← userUniverseWithHandle u cell
      let e ← userEntryCookie cookie
      liftUniverse result (call uni e)) :=
  (keeps_read _).bind fun _ => (keeps_read _).bind fun _ => keeps_liftUniverse _ _

theorem keeps_createObject (dispose : MemRcDispose) (memory : Bool) :
    Keeps (createObject dispose memory) := by
  cases memory with
  | false => exact keeps_pure _
  | true => exact keeps_modify (fun _ => rfl) fun _ => ⟨rfl, rfl, rfl⟩

theorem keeps_addToGrp (cookie group : Nat) (memory : Bool) :
    Keeps (userEntryCookieAddToGrp cookie group memory) :=
  (keeps_read _).bind fun _ => (keeps_read _).bind fun _ =>
    (keeps_setEntryCookie cookie _).bind fun _ => keeps_pure _

theorem keeps_removeFromGrp (cookie group : Nat) :
    Keeps (userEntryCookieRemoveFromGrp cookie group) :=
  (keeps_read _).bind fun _ => (keeps_read _).bind fun _ =>
    (keeps_setEntryCookie cookie _).bind fun _ => keeps_pure _

theorem keeps_findById (id : Nat) : Keeps (userShmFindById id) := by
  apply keeps_get.bind fun k => ?_
  split
  · exact keeps_pure _
  · exact Keeps.bind ((keeps_read _).bind fun _ => (keeps_borrowRef _).bind fun _ => keeps_pure _)
      fun _ => keeps_pure _

theorem keeps_writeById (id : Nat) (offset len : UInt64) (data : Nat → UInt8) (cookie : Nat) :
    Keeps (userShmWriteById id offset len data cookie) := by
  apply Keeps.bind (keeps_findById id)
  rintro (- | owner)
  · exact keeps_pure _
  · apply (keeps_read _).bind fun shm => (keeps_read _).bind fun e => ?_
    split_ifs
    · exact (keeps_dropRef _).bind fun _ => keeps_pure _
    · exact (keeps_dropRef _).bind fun _ => keeps_pure _
    · exact (keeps_modifyShm owner _).bind fun _ => (keeps_dropRef _).bind fun _ => keeps_pure _

theorem keeps_readById (id : Nat) (offset len : UInt64) (buf : Nat → UInt8) (cookie : Nat) :
    Keeps (userShmReadById id offset len buf cookie) := by
  apply Keeps.bind (keeps_findById id)
  rintro (- | owner)
  · exact keeps_pure _
  · apply (keeps_read _).bind fun shm => (keeps_read _).bind fun e => ?_
    split_ifs
    · exact (keeps_dropRef _).bind fun _ => keeps_pure _
    · exact (keeps_dropRef _).bind fun _ => keeps_pure _
    · exact (keeps_dropRef _).bind fun _ => keeps_pure _

theorem keeps_writeByRef (ref : Nat) (offset len : UInt64) (data : Nat → UInt8) :
    Keeps (userShmWriteByRef ref offset len data) := by
  apply (keeps_read _).bind fun shm => ?_
  split_ifs
  · exact keeps_pure _
  · exact (keeps_modifyShm _ _).bind fun _ => keeps_pure _

theorem keeps_readByRef (ref : Nat) (offset len : UInt64) (buf : Nat → UInt8) :
    Keeps (userShmReadByRef ref offset len buf) := by
  apply (keeps_read _).bind fun shm => ?_
  split_ifs
  · exact keeps_pure _
  · exact keeps_pure _

theorem keeps_createCallee (hmailbox : Nat) (memory : Bool) (heap heap' : HeapAnswer) :
    Keeps (userSysCreateCallee entry hmailbox memory heap heap') := by
  have hCreate : Keeps (userRpcCreateCallee memory) := by
    cases memory with
    | false => exact keeps_pure _
    | true => exact keeps_modify (fun _ => rfl) fun _ => ⟨rfl, rfl, rfl⟩
  have hPinned : ∀ obj type, Keeps (pinnedRef entry obj type) := fun _ _ =>
    (keeps_read _).bind fun _ => keeps_pure _
  apply Keeps.bind (keeps_withHandle fun _ => hCreate)
  rintro (status | ⟨callee, token⟩)
  · exact keeps_pure _
  · apply (hPinned callee _).bind fun calleeRef => (hPinned token _).bind fun tokenRef => ?_
    apply Keeps.bind ((keeps_read _).bind fun _ => (keeps_guard _).bind fun _ =>
      keeps_liftUniverse _ _)
    rintro (status | handles)
    · exact (keeps_dropRef _).bind fun _ => (keeps_dropRef _).bind fun _ => keeps_pure _
    · exact keeps_pure _

theorem keeps_borrowShm (hshm : Nat) (type : UserObjType) (heap : HeapAnswer) :
    Keeps (borrowShm entry hshm type heap) :=
  keeps_storeNew <| keeps_withHandle fun _ => Keeps.map _ <|
    (keeps_read _).bind fun _ => (keeps_borrowRef _).bind fun _ => keeps_pure _

theorem keeps_entryInit (array : Option Nat) (junk : Memory) (cookieMemory tlsMemory : Bool) :
    Keeps (userApiEntryInit array junk cookieMemory tlsMemory) := by
  have hCookie : Keeps (userEntryCookieCreate cookieMemory) := by
    cases cookieMemory with
    | false => exact keeps_pure _
    | true => exact keeps_modify (fun _ => rfl) fun _ => ⟨rfl, rfl, rfl⟩
  apply Keeps.bind ((keeps_guard _).bind fun _ => keeps_createUniverse _)
  rintro (status | u)
  · exact keeps_pure _
  · apply Keeps.bind hCookie
    rintro (status | cookie)
    · exact (keeps_dropRef u).bind fun _ => keeps_pure _
    · dsimp only
      split_ifs
      · exact (keeps_dropRef cookie).bind fun _ => (keeps_dropRef u).bind fun _ => keeps_pure _
      · exact (keeps_setEntries _).bind fun _ => keeps_pure _

theorem keeps_entryDeinit (i : Nat) : Keeps (userApiEntryDeinit i) :=
  (keeps_read _).bind fun _ => (keeps_setEntries _).bind fun _ =>
    (keeps_dropRef _).bind fun _ => keeps_dropRef _

theorem keeps_failure {α : Type} : Keeps (failure : Call α) := by
  intro k hk a k' hRun
  cases hRun

theorem keeps_handOver (src dst handle : Nat) (heap : HeapAnswer) :
    Keeps (handOver src dst handle heap) := by
  apply (keeps_read _).bind fun srcEntry => (keeps_read _).bind fun dstEntry => ?_
  have hOut : Keeps (userApiEntryMoveHandleOut srcEntry handle) := by
    apply (keeps_read _).bind fun uni => keeps_get.bind fun k => ?_
    split_ifs
    · exact keeps_failure
    · exact (keeps_takeCell _ _ uni).bind fun _ => keeps_pure _
  apply hOut.bind fun ref => (keeps_moveIn _ ref heap).bind fun r => ?_
  cases r with
  | ok handle' => exact keeps_pure _
  | error status => exact keeps_failure

theorem keeps_setTlsKey (i key value : Nat) (memory : Bool) :
    Keeps (userSysSetTlsKey i key value memory) := by
  apply (keeps_read _).bind fun entry => ?_
  split
  · exact keeps_pure _
  · exact (keeps_setEntries _).bind fun _ => keeps_pure _

end Shapes

theorem keeps_forEntry {α : Type} (i : Nat) (reply : α → Reply) {call : UserApiEntry → Call α}
    (h : ∀ entry, Keeps (call entry)) : Keeps (forEntry i reply call) :=
  (keeps_read _).bind fun entry => (h entry).map reply

/-- The one call that creates a shared memory object. -/
theorem createShmOwned_keeps {i : Nat} {size : UInt64} {memory : Bool} {heap : HeapAnswer}
    {k k' : State} {reply : Reply} (hk : ShmIds k) (hFresh : k.shms k.objectsCount = none)
    (hRun : (Op.createShmOwned size memory heap).call i k = some (reply, k')) : ShmIds k' := by
  obtain ⟨entry, t, hEntry, hRest⟩ := Prog.bind_eq_some.mp hRun
  obtain rfl : k = t := (Prog.read_eq_some.mp hEntry).2.symm
  rw [Prog.map_apply, Option.map_eq_some_iff] at hRest
  obtain ⟨⟨result, last⟩, hCall, hEq⟩ := hRest
  obtain ⟨-, rfl⟩ := Prod.mk.inj hEq
  obtain ⟨created, t, hCreate, hStore⟩ := Prog.bind_eq_some.mp hCall
  have ht := userShmCreate_keeps hk hFresh hCreate
  rcases created with status | ⟨owner, id⟩
  · exact keeps_pure _ t ht result last hStore
  · refine ((keeps_storeRef owner _ heap).bind fun r => ?_) t ht result last hStore
    cases r with
    | error status => exact keeps_pure _
    | ok handle => exact keeps_pure _

/-- The other system calls keep the ids apart. -/
theorem Op.keeps (i : Nat) (op : Op) (h : ∀ size memory heap, op ≠ .createShmOwned size memory heap) :
    Keeps (op.call i) := by
  cases op with
  | createShmOwned size memory heap => exact (h size memory heap rfl).elim
  | createMailbox memory heap =>
      exact keeps_forEntry i _ fun _ => keeps_storeNew (keeps_createObject _ memory)
  | getNotification hmailbox status =>
      exact keeps_forEntry i _ fun _ => keeps_withHandle fun _ => keeps_pure _
  | createGroupCookie refcount memory heap =>
      apply keeps_forEntry i _ fun _ => keeps_storeNew ?_
      cases memory with
      | false => exact keeps_pure _
      | true => exact keeps_modify (fun _ => rfl) fun _ => ⟨rfl, rfl, rfl⟩
  | createEntryCookie memory heap =>
      apply keeps_forEntry i _ fun _ => keeps_storeNew ?_
      cases memory with
      | false => exact keeps_pure _
      | true => exact keeps_modify (fun _ => rfl) fun _ => ⟨rfl, rfl, rfl⟩
  | joinGroup hgrp memory =>
      exact keeps_forEntry i _ fun _ => keeps_withHandle fun _ => keeps_addToGrp _ _ memory
  | leaveGroup hgrp =>
      exact keeps_forEntry i _ fun _ => keeps_withHandle fun _ => keeps_removeFromGrp _ _
  | addEntryToGroup hentry hgrp memory =>
      exact keeps_forEntry i _ fun _ => keeps_withHandlePair fun _ _ => keeps_addToGrp _ _ memory
  | removeEntryFromGroup hentry hgrp =>
      exact keeps_forEntry i _ fun _ => keeps_withHandlePair fun _ _ => keeps_removeFromGrp _ _
  | createCaller hmailbox memory heap =>
      exact keeps_forEntry i _ fun _ => keeps_storeNew <| keeps_withHandle fun _ =>
        keeps_createObject _ memory
  | createCallee hmailbox memory heap heap' =>
      exact keeps_forEntry i _ fun _ => keeps_createCallee hmailbox memory heap heap'
  | rpcCall hcaller htoken status =>
      exact keeps_forEntry i _ fun _ => keeps_withHandle fun _ => keeps_withHandle fun _ =>
        keeps_pure _
  | rpcAccept hcallee status | rpcReturn hcallee status =>
      exact keeps_forEntry i _ fun _ => keeps_withHandle fun _ => keeps_pure _
  | rpcRecvReply hcaller status =>
      exact keeps_forEntry i _ fun _ => keeps_withHandle fun _ => keeps_pure _
  | createUniverse array junk heap =>
      exact keeps_forEntry i _ fun _ => keeps_storeNew <|
        (keeps_guard _).bind fun _ => keeps_createUniverse _
  | moveAcrossUniverses hsrc hdst hsrci heap =>
      exact keeps_forEntry i _ fun _ => keeps_withHandlePair fun _ _ =>
        keeps_moveAcross _ _ hsrci _ heap
  | borrowAcrossUniverses hsrc hdst hsrci heap =>
      exact keeps_forEntry i _ fun _ => keeps_withHandlePair fun _ _ =>
        keeps_borrowAcross _ _ hsrci _ heap
  | moveIn huniverse cell heap | moveOut huniverse cell heap =>
      exact keeps_forEntry i _ fun _ => keeps_withHandle fun _ => keeps_moveAcross _ _ cell _ heap
  | borrowIn huniverse cell heap | borrowOut huniverse cell heap =>
      exact keeps_forEntry i _ fun _ => keeps_withHandle fun _ => keeps_borrowAcross _ _ cell _ heap
  | unpin handle | pin handle => exact keeps_forEntry i _ fun _ => keeps_pin _ _
  | unpinFromGroup handle hgrp | pinToGroup handle hgrp =>
      exact keeps_forEntry i _ fun _ => keeps_withHandle fun _ => (keeps_read _).bind fun _ =>
        (keeps_read _).bind fun _ => (keeps_read _).bind fun _ => keeps_liftUniverse _ _
  | forkUniverse hsrc array junk heap =>
      exact keeps_forEntry i _ fun _ => keeps_storeNew <| keeps_withHandle fun _ =>
        (keeps_read _).bind fun _ => (keeps_read _).bind fun _ => (keeps_guard _).bind fun _ =>
          keeps_createUniverse _
  | dropIn huniverse inner =>
      exact keeps_forEntry i _ fun _ => keeps_withHandle fun _ => keeps_dropCell _ inner _
  | borrowShmRw hshm heap | borrowShmRo hshm heap =>
      exact keeps_forEntry i _ fun _ => keeps_borrowShm hshm _ heap
  | readFromShmRef hshmref offset len buf =>
      apply keeps_forEntry i _ fun _ => keeps_withHandle fun ref =>
        (keeps_readByRef ref offset len buf).bind fun r => ?_
      cases r <;> exact keeps_pure _
  | writeToShmRef hshmref offset len data =>
      exact keeps_forEntry i _ fun _ => keeps_withHandle fun ref =>
        (keeps_writeByRef ref offset len data).bind fun _ => keeps_pure _
  | readFromShmId id offset len buf =>
      exact keeps_forEntry i _ fun _ => keeps_readById id offset len buf _
  | writeToShmId id offset len data =>
      exact keeps_forEntry i _ fun _ => keeps_writeById id offset len data _
  | unrestrictShm hshm rw =>
      exact keeps_forEntry i _ fun _ => keeps_withHandle fun owner =>
        (keeps_modifyShm owner _).bind fun _ => keeps_pure _
  | restrictShm hshm rw =>
      exact keeps_forEntry i _ fun _ => keeps_withHandle fun owner => (keeps_read _).bind fun _ =>
        (keeps_modifyShm owner _).bind fun _ => keeps_pure _
  | restrictShmToGroup hshm hgrp rw =>
      exact keeps_forEntry i _ fun _ => keeps_withHandlePair fun owner _ =>
        (keeps_read _).bind fun _ => (keeps_modifyShm owner _).bind fun _ => keeps_pure _
  | drop handle => exact keeps_forEntry i _ fun _ => keeps_dropCell _ handle _
  | setTlsKey key value memory => exact (keeps_setTlsKey i key value memory).map _
  | getTlsKey key => exact ((keeps_read _).bind fun _ => keeps_pure _).map _

/-- In every reachable state different objects have different ids. -/
theorem shmIds_run {m : Memory} {trace : List (Request × Reply)} {k : State}
    (run : (system m).Execution trace k) : ShmIds k := by
  induction run with
  | start h =>
      cases h
      constructor
      · intro o shm hShm
        cases hShm
      · intro o o' shm shm' hShm
        cases hShm
      · intro id o hId
        cases hId
  | @step trace k k' label prior last ih =>
      obtain ⟨request, reply⟩ := label
      have hOther : Keeps request.call → ShmIds k' := fun hKeeps => hKeeps k ih reply k' last
      cases request with
      | entryInit array junk cookieMemory tlsMemory =>
          exact hOther ((keeps_entryInit array junk cookieMemory tlsMemory).map _)
      | entryDeinit i => exact hOther ((keeps_entryDeinit i).map _)
      | handOver src dst handle heap => exact hOther ((keeps_handOver src dst handle heap).map _)
      | sys i op =>
          by_cases hCreate : ∃ size memory heap, op = .createShmOwned size memory heap
          · obtain ⟨size, memory, heap, rfl⟩ := hCreate
            have hFresh : k.shms k.objectsCount = none := by
              by_contra hSome
              have hLt := ((run_accounted prior).shmKnown _ hSome).2.2
              omega
            exact createShmOwned_keeps ih hFresh last
          · apply hOther
            apply Op.keeps i op
            rintro size memory heap rfl
            exact hCreate ⟨size, memory, heap, rfl⟩

end Ricerca.Entry
