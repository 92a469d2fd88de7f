import Ricerca.User.EntryReferences

/-! The functions that system calls are made of, one by one: which references they
give to the call and which they take from it. -/
namespace Ricerca.Entry

open Ricerca.Foundation Ricerca.Cookie Ricerca.Universe
open Ricerca.Shm (UserShmOwner)

section Cells

variable {k : State} {owned : List Nat} {u cell : Nat} {uni uni' : UserUniverse} {ref : UserRef}
  {m : Memory}

/-- A reference stored in a universe. -/
theorem Accounted.store (h : Accounted (ref.ref :: owned) k) (hUni : k.universes u = some uni)
    (hTable : Table True (k.toStore.put u m uni') k.objectsCount)
    (hStored : Stored True k.toStore u uni ref cell m uni') :
    Accounted owned { k with
      toState := { k.toState with toStore := k.toStore.put u m uni' }.takeHeld ref.ref } := by
  have hBalanced : Balanced k.isGroupCookie
      (graph ({ k.toState with toStore := k.toStore.put u m uni' }.takeHeld ref.ref)) := by
    have hLive : ((graph k.toState).ids u).isSome := Option.isSome_of_eq_some (graph_ids_of_live hUni)
    have hGraph := h.balanced.store hStored.fresh hLive h.held_pos
    rw [Graph.store, ← graph_put hUni hStored] at hGraph
    exact hGraph
  refine h.setState hTable hBalanced ?_ ?_ (fun o _ hPos => hPos) (Nat.le_refl _)
  · intro o
    have hPos := h.held_pos
    show Function.update k.held ref.ref (k.held ref.ref - 1) o + _ = _
    by_cases hEq : o = ref.ref
    · subst hEq
      rw [Function.update_self, List.count_cons_self]
      omega
    · rw [Function.update_of_ne hEq, List.count_cons_of_ne (Ne.symm hEq)]
  · intro v hv
    by_cases hEq : v = u
    · rw [hEq, hUni]
      exact Option.some_ne_none uni
    · have hSame : (k.toStore.put u m uni').universes v ≠ none := hv
      rwa [put_of_ne hEq] at hSame

/-- A reference taken out of a cell. -/
theorem Accounted.take (h : Accounted owned k) (hUni : k.universes u = some uni)
    (hNe : cell ≠ uni.count) (hCheck : userUniverseCheckRefNolock k.toStore uni cell = true) :
    Accounted ((k.refs (uni.cell cell)).ref :: owned) { k with
      toState := { k.toState with toStore := k.toStore.freeCell u uni cell }.addHeld
        (k.refs (uni.cell cell)).ref } := by
  obtain ⟨hLt, hStoredAt⟩ := checkRef_view hUni hNe hCheck
  obtain ⟨hTable, hView, -⟩ := freeCell_table h.table hUni (checkRef_iff.mp hCheck).2 fun _ => hLt
  have hBalanced : Balanced k.isGroupCookie
      (graph ({ k.toState with toStore := k.toStore.freeCell u uni cell }.addHeld
        (k.refs (uni.cell cell)).ref)) := by
    have hGraph := h.balanced.take hStoredAt
    rw [Graph.take, ← graph_freeCell hUni hView] at hGraph
    exact hGraph
  refine h.setState hTable hBalanced ?_ ?_ (fun o _ hPos => hPos) (Nat.le_refl _)
  · intro o
    show Function.update k.held _ (k.held (k.refs (uni.cell cell)).ref + 1) o + _ = _
    by_cases hEq : o = (k.refs (uni.cell cell)).ref
    · subst hEq
      rw [Function.update_self, List.count_cons_self]
      omega
    · rw [Function.update_of_ne hEq, List.count_cons_of_ne (Ne.symm hEq)]
  · intro v hv
    by_cases hEq : v = u
    · rw [hEq, hUni]
      exact Option.some_ne_none uni
    · have hSame : (k.toStore.freeCell u uni cell).universes v ≠ none := hv
      rwa [freeCell_eq, put_of_ne hEq] at hSame

end Cells

section Universes

variable {owned : List Nat}

/-- The universe and the handle that a call has looked up. -/
theorem userUniverseWithHandle_some {k : State} {u cell : Nat} {uni : UserUniverse}
    (h : (k.universes u).filter (fun uni => cell ≠ uni.count) = some uni) :
    k.universes u = some uni ∧ cell ≠ uni.count := by
  rw [Option.filter_eq_some_iff] at h
  exact ⟨h.1, by simpa using h.2⟩

theorem userUniverseBorrowOut_spec (u cell : Nat) (owned : List Nat) :
    Triple (Accounted owned) (userUniverseBorrowOut u cell) (Gives owned fun p => [p.1]) := by
  refine Triple.read_bind fun uni k ⟨hk, hLookup⟩ r k' hRun => ?_
  obtain ⟨hUni, hNe⟩ := userUniverseWithHandle_some hLookup
  simp only [liftUniverse, Universe.userUniverseBorrowOut, Option.map_eq_some_iff] at hRun
  split_ifs at hRun with hCheck
  · obtain ⟨r', hr, hEq⟩ := hRun
    cases hr
    cases hEq
    exact hk
  · obtain ⟨r', hr, hEq⟩ := hRun
    cases hr
    cases hEq
    obtain ⟨-, hView⟩ := checkRef_view hUni hNe (by simpa using hCheck)
    refine hk.borrow (hk.balanced.target _ _ _ hView) fun hType => hk.refcount_pos hView ?_
    simp [State.isGroupCookie, hType]

theorem userUniverseMoveIn_spec (u : Nat) (ref : UserRef) (heap : HeapAnswer) (owned : List Nat) :
    Triple (Accounted (ref.ref :: owned)) (userUniverseMoveIn u ref heap) (Takes owned [ref.ref]) := by
  refine Triple.read_bind fun uni => Triple.guard_bind fun k ⟨⟨hk, hUni⟩, hValid⟩ r k' hRun => ?_
  simp only [liftUniverse, Universe.userUniverseMoveIn, Option.map_eq_some_iff] at hRun
  split at hRun
  · obtain ⟨r', hr, hEq⟩ := hRun
    cases hr
    cases hEq
    exact hk
  · rename_i cell m uni' hOk
    obtain ⟨r', hr, hEq⟩ := hRun
    cases hr
    cases hEq
    obtain ⟨nodes, hShape, -⟩ := hk.table.shape _ _ hUni
    obtain ⟨hTable, hStored⟩ :=
      moveIn_table hk.table hUni hOk (answerValid_spec hk.table hShape hValid hOk)
    exact hk.store hUni hTable hStored

theorem userUniverseMoveInPair_spec (u : Nat) (first second : UserRef) (heap heap' : HeapAnswer)
    (owned : List Nat) :
    Triple (Accounted (first.ref :: second.ref :: owned))
      (userUniverseMoveInPair u first second heap heap') (Takes owned [first.ref, second.ref]) := by
  refine Triple.read_bind fun uni => Triple.guard_bind fun k ⟨⟨hk, hUni⟩, hBoth⟩ r k' hRun => ?_
  obtain ⟨hValid, hValid'⟩ := Bool.and_eq_true_iff.mp hBoth
  simp only [liftUniverse, Universe.userUniverseMoveInPair, Option.map_eq_some_iff] at hRun
  split at hRun
  · obtain ⟨r', hr, hEq⟩ := hRun
    cases hr
    cases hEq
    exact hk
  · rename_i cell m uni' hOk
    split at hRun
    · obtain ⟨r', hr, hEq⟩ := hRun
      cases hr
      cases hEq
      obtain ⟨hId, hTable, hView⟩ := pairUndone_table hk.table hUni hValid hOk
      refine hk.setState hTable (graph_pairUndone hUni hId hView ▸ hk.balanced) (fun o => rfl) ?_
        (fun o _ hPos => hPos) (Nat.le_refl _)
      intro v hv
      by_cases hEq : v = u
      · rw [hEq, hUni]
        exact Option.some_ne_none uni
      · have hSame : ((k.toStore.put u m uni').freeCell u uni' cell).universes v ≠ none := hv
        rwa [freeCell_eq, put_of_ne hEq, put_of_ne hEq] at hSame
    · rename_i cell' m' uni'' hOk'
      obtain ⟨r', hr, hEq⟩ := hRun
      cases hr
      cases hEq
      obtain ⟨nodes, hShape, -⟩ := hk.table.shape _ _ hUni
      obtain ⟨hTable, -⟩ :=
        moveIn_table hk.table hUni hOk (answerValid_spec hk.table hShape hValid hOk)
      obtain ⟨hStored, hStored', hTable'⟩ := pair_table hk.table hUni hValid hValid' hOk hOk'
      exact (hk.store hUni hTable hStored).store (put_self ..) hTable' hStored'

theorem userUniverseDropCell_spec (u cell cookie : Nat) (owned : List Nat) :
    Triple (Accounted owned) (userUniverseDropCell u cell cookie) fun _ => Accounted owned := by
  refine Triple.read_bind fun uni => Triple.read_bind fun e => Triple.get_bind fun k hk => ?_
  obtain ⟨⟨hk, hLookup⟩, -⟩ := hk
  obtain ⟨hUni, hNe⟩ := userUniverseWithHandle_some hLookup
  dsimp only
  split_ifs with hCheck hAuth
  · exact Triple.pure fun s hs => hs ▸ hk
  · exact Triple.pure fun s hs => hs ▸ hk
  · refine Triple.bind (Q := fun _ => Accounted ((k.refs (uni.cell cell)).ref :: owned)) ?_ fun _ =>
      Triple.bind (userDropRef_spec _ owned) fun _ => Triple.pure fun s hs => hs
    intro s hs r s' hRun
    cases hRun
    subst hs
    exact hk.take hUni hNe (by simpa using hCheck)

theorem userUniverseMoveAcross_spec (src dst hsrc cookie : Nat) (heap : HeapAnswer)
    (owned : List Nat) :
    Triple (Accounted owned) (userUniverseMoveAcross src dst hsrc cookie heap)
      fun _ => Accounted owned := by
  refine Triple.guard_bind <| Triple.read_bind fun uni => Triple.read_bind fun dstUni =>
    Triple.read_bind fun e => Triple.guard_bind fun k hk r k' hRun => ?_
  obtain ⟨⟨⟨⟨⟨hk, hNe⟩, hLookup⟩, hDst⟩, -⟩, hValid⟩ := hk
  have hNe : src ≠ dst := by simpa using hNe
  obtain ⟨hUni, hInside⟩ := userUniverseWithHandle_some hLookup
  simp only [liftUniverse, Universe.userUniverseMoveAcross, Option.map_eq_some_iff] at hRun
  split_ifs at hRun with hCheck hAuth
  · obtain ⟨r', hr, hEq⟩ := hRun
    cases hr
    cases hEq
    exact hk
  · obtain ⟨r', hr, hEq⟩ := hRun
    cases hr
    cases hEq
    exact hk
  · have hCheck : userUniverseCheckRefNolock k.toStore uni hsrc = true := by simpa using hCheck
    split at hRun
    · obtain ⟨r', hr, hEq⟩ := hRun
      cases hr
      cases hEq
      exact hk
    · rename_i hdst m dstUni' hOk
      obtain ⟨r', hr, hEq⟩ := hRun
      cases hr
      cases hEq
      obtain ⟨hLt, hStoredAt⟩ := checkRef_view hUni hInside hCheck
      obtain ⟨hStored, hTable, hView⟩ :=
        moveAcross_table hk.table hUni hDst hNe hValid hCheck (fun _ => hLt) hOk
      have hFresh : ((graph k.toState).take src hsrc (k.refs (uni.cell hsrc))).refs dst hdst = none := by
        simp only [Graph.take, Graph.addHeld, setRef_refs]
        split_ifs
        · rfl
        · exact hStored.fresh
      have hHeld : 0 < ((graph k.toState).take src hsrc (k.refs (uni.cell hsrc))).held
          (k.refs (uni.cell hsrc)).ref := by simp [Graph.take, Graph.addHeld]
      have hBalanced := (hk.balanced.take hStoredAt).store hFresh
        (Option.isSome_of_eq_some (graph_ids_of_live hDst)) hHeld
      rw [← graph_moveAcross hUni hDst hNe hStored hView] at hBalanced
      refine hk.setState hTable hBalanced (fun o => rfl) ?_ (fun o _ hPos => hPos) (Nat.le_refl _)
      intro v hv
      have hSame : ((k.toStore.put dst m dstUni').freeCell src uni hsrc).universes v ≠ none := hv
      by_cases hSrc : v = src
      · rw [hSrc, hUni]
        exact Option.some_ne_none uni
      · by_cases hEq : v = dst
        · rw [hEq, hDst]
          exact Option.some_ne_none dstUni
        · rwa [freeCell_eq, put_of_ne hSrc, put_of_ne hEq] at hSame

/-- A reference borrowed from a cell. -/
theorem userBorrowRef_spec {k : State} {u cell : Nat} {ref : UserRef} (hk : Accounted owned k)
    (hView : view k.toStore u cell = some ref) :
    Triple (· = k) (userBorrowRef ref.ref) fun _ => Accounted (ref.ref :: owned) := by
  intro s hs r s' hRun
  cases hRun
  subst hs
  refine hk.borrow (hk.balanced.target _ _ _ hView) fun hType => hk.refcount_pos hView ?_
  simp [State.isGroupCookie, hType]

theorem userUniverseBorrowAcross_spec (src dst hsrc cookie : Nat) (heap : HeapAnswer)
    (owned : List Nat) :
    Triple (Accounted owned) (userUniverseBorrowAcross src dst hsrc cookie heap)
      fun _ => Accounted owned := by
  refine Triple.guard_bind <| Triple.read_bind fun uni => Triple.read_bind fun e =>
    Triple.get_bind fun k hk => ?_
  obtain ⟨⟨⟨hk, -⟩, hLookup⟩, -⟩ := hk
  obtain ⟨hUni, hInside⟩ := userUniverseWithHandle_some hLookup
  dsimp only
  split_ifs with hCheck hAuth
  · exact Triple.pure fun s hs => hs ▸ hk
  all_goals
    obtain ⟨-, hView⟩ := checkRef_view hUni hInside (by simpa using hCheck)
    refine Triple.bind (userBorrowRef_spec hk hView) fun _ => ?_
  · exact Triple.bind (userDropRef_spec _ owned) fun _ => Triple.pure fun s hs => hs
  · refine Triple.bind (userUniverseMoveIn_spec dst _ heap owned) fun r => ?_
    cases r with
    | ok hdst => exact Triple.pure fun s hs => hs
    | error status =>
        exact Triple.bind (userDropRef_spec _ owned) fun _ => Triple.pure fun s hs => hs

/-- The four calls that change a pin. -/
theorem setPin_spec {u cell : Nat} {uni : UserUniverse} (keys : List Nat) (pin : Nat) :
    Triple (fun k => Accounted owned k ∧ k.universes u = some uni ∧ cell ≠ uni.count)
      (liftUniverse asDone (setPin · uni cell keys pin)) fun _ => Accounted owned := by
  rintro k ⟨hk, hUni, hNe⟩ r k' hRun
  simp only [liftUniverse, setPin, Option.map_eq_some_iff] at hRun
  split_ifs at hRun with hCheck hKey
  · obtain ⟨r', hr, hEq⟩ := hRun
    cases hr
    cases hEq
    exact hk
  · obtain ⟨r', hr, hEq⟩ := hRun
    cases hr
    cases hEq
    obtain ⟨-, hStoredAt⟩ := checkRef_view hUni hNe (by simpa using hCheck)
    obtain ⟨hTable, hView⟩ := setPin_table hk.table hUni cell
      { k.refs (uni.cell cell) with pinCookie := pin }
    have hBalanced := hk.balanced.repin hStoredAt pin
    rw [← graph_setPin hStoredAt hView] at hBalanced
    exact hk.setState hTable hBalanced (fun o => rfl) (fun v hv => hv) (fun o _ hPos => hPos)
      (Nat.le_refl _)
  · obtain ⟨r', hr, hEq⟩ := hRun
    cases hr
    cases hEq
    exact hk

theorem userUniverseUnpin_spec (u cell cookie : Nat) (owned : List Nat) :
    Triple (Accounted owned) (userUniverseUnpin u cell cookie) fun _ => Accounted owned :=
  Triple.read_bind fun _ => Triple.read_bind fun _ =>
    (setPin_spec _ _).strengthen fun _ hk => ⟨hk.1.1, userUniverseWithHandle_some hk.1.2⟩

theorem userUniversePin_spec (u cell cookie : Nat) (owned : List Nat) :
    Triple (Accounted owned) (userUniversePin u cell cookie) fun _ => Accounted owned :=
  Triple.read_bind fun _ => Triple.read_bind fun _ =>
    (setPin_spec _ _).strengthen fun _ hk => ⟨hk.1.1, userUniverseWithHandle_some hk.1.2⟩

theorem userUniverseUnpinFromGroup_spec (u cell cookie group : Nat) (owned : List Nat) :
    Triple (Accounted owned) (userUniverseUnpinFromGroup u cell cookie group)
      fun _ => Accounted owned :=
  Triple.read_bind fun _ => Triple.read_bind fun _ => Triple.read_bind fun _ =>
    (setPin_spec _ _).strengthen fun _ hk => ⟨hk.1.1.1, userUniverseWithHandle_some hk.1.1.2⟩

theorem userUniversePinToGroup_spec (u cell cookie group : Nat) (owned : List Nat) :
    Triple (Accounted owned) (userUniversePinToGroup u cell cookie group) fun _ => Accounted owned :=
  Triple.read_bind fun _ => Triple.read_bind fun _ => Triple.read_bind fun _ =>
    (setPin_spec _ _).strengthen fun _ hk => ⟨hk.1.1.1, userUniverseWithHandle_some hk.1.1.2⟩

end Universes

section Objects

variable {k : State} {owned : List Nat}

/-- Nobody has a reference to an object before it exists. -/
theorem Accounted.unheld (h : Accounted owned k) {obj : Nat} (hNew : k.objectsCount ≤ obj) :
    k.held obj = 0 := by
  by_contra hPos
  exact absurd (h.balanced.known obj (Nat.pos_of_ne_zero hPos)) (Nat.not_lt.mpr hNew)

/-- A new object, which its creator owns. -/
theorem Accounted.create {s : Universe.State} {dispose : MemRcDispose} (h : Accounted owned k)
    (hTable : Table True s.toStore s.objectsCount)
    (hBalanced : Balanced (Function.update k.dispose k.objectsCount dispose · = .uninitialised) (graph s))
    (hHeld : s.held = Function.update k.held k.objectsCount 1)
    (hUniverses : ∀ u, s.universes u ≠ none →
      u ≠ k.objectsCount ∧ k.universes u ≠ none ∨ u = k.objectsCount ∧ dispose = .userUniverseDestroy)
    (hCount : ∀ o, k.dispose o = .userShmShutdown → o ≠ k.objectsCount → 0 < s.refcount o →
      0 < k.refcount o)
    (hShm : dispose ≠ .userShmShutdown) (hBound : s.objectsCount = k.objectsCount + 1) :
    Accounted (k.objectsCount :: owned) { k with
      toState := s, dispose := Function.update k.dispose k.objectsCount dispose } := by
  refine ⟨hTable, hBalanced, ?_, ?_, ?_, ?_⟩
  · intro o
    have hOld := h.holders o
    show s.held o = k.entryRefs o + k.shmOwnerRef o + (k.objectsCount :: owned).count o
    rw [hHeld]
    by_cases hEq : o = k.objectsCount
    · subst hEq
      rw [h.unheld (Nat.le_refl _)] at hOld
      rw [Function.update_self, List.count_cons_self]
      omega
    · rw [Function.update_of_ne hEq, List.count_cons_of_ne (Ne.symm hEq), hOld]
  · intro u hu
    show Function.update k.dispose _ _ u = _
    rcases hUniverses u hu with ⟨hNe, hOld⟩ | ⟨rfl, rfl⟩
    · rw [Function.update_of_ne hNe]
      exact h.universes u hOld
    · exact Function.update_self ..
  · intro o hType hPos
    have hType : Function.update k.dispose k.objectsCount dispose o = _ := hType
    by_cases hEq : o = k.objectsCount
    · rw [hEq, Function.update_self] at hType
      exact (hShm hType).elim
    · rw [Function.update_of_ne hEq] at hType
      exact h.shmLive o hType (hCount o hType hEq hPos)
  · intro o ho
    obtain ⟨hOwner, hRef, hLt⟩ := h.shmKnown o ho
    have hNe : o ≠ k.objectsCount := by omega
    have hNe' : o + 1 ≠ k.objectsCount := by omega
    show Function.update k.dispose _ _ o = _ ∧ Function.update k.dispose _ _ (o + 1) = _ ∧
      o + 1 < s.objectsCount
    rw [Function.update_of_ne hNe, Function.update_of_ne hNe', hBound]
    exact ⟨hOwner, hRef, by omega⟩

/-- Which objects are exempt when one more object is there. -/
theorem exempt_update (k : State) (dispose : MemRcDispose) (o : Nat) (hNe : o ≠ k.objectsCount) :
    Function.update k.dispose k.objectsCount dispose o = .uninitialised ↔ k.isGroupCookie o := by
  rw [Function.update_of_ne hNe]
  rfl

theorem not_exempt_new (k : State) {dispose : MemRcDispose} (h : dispose ≠ .uninitialised) :
    ¬Function.update k.dispose k.objectsCount dispose k.objectsCount = .uninitialised := by
  rwa [Function.update_self]

theorem userUniverseCreate_spec (array : Option Nat) (junk : Memory) (owned : List Nat) :
    Triple (Accounted owned) (userUniverseCreate array junk) (Gives owned fun obj => [obj]) := by
  refine Triple.guard_bind fun k ⟨hk, hValid⟩ r k' hRun => ?_
  cases array with
  | none =>
      cases hRun
      exact hk
  | some array =>
      have hUnused : k.arrayUnused array := by simpa using hValid
      have hBalanced : Balanced
          (Function.update k.dispose k.objectsCount .userUniverseDestroy · = .uninitialised)
          (graph (Universe.userUniverseCreate k.toState (some array) junk).2) := by
        rw [graph_create hk.table junk hUnused]
        exact hk.balanced.newUniverse (exempt_update k _) (not_exempt_new k (by simp))
      cases hRun
      refine hk.create (create_table hk.table junk hUnused).1 hBalanced rfl ?_ ?_ (by simp) rfl
      · intro u hu
        have hNew : Function.update k.universes k.objectsCount _ u ≠ none := hu
        by_cases hEq : u = k.objectsCount
        · exact Or.inr ⟨hEq, rfl⟩
        · rw [Function.update_of_ne hEq] at hNew
          exact Or.inl ⟨hEq, hNew⟩
      · intro o _ hNe hPos
        have hPos : 0 < Function.update k.refcount k.objectsCount 1 o := hPos
        rwa [Function.update_of_ne hNe] at hPos

/-- Every reference that a fork copies is counted. -/
theorem fork_balanced {u : Nat} {uni : UserUniverse} (h : Accounted owned k)
    (hUni : k.universes u = some uni) (e : UserEntryCookie) {array : Nat} (junk : Memory)
    (hUnused : k.arrayUnused array) :
    Balanced (Function.update k.dispose k.objectsCount .userUniverseDestroy · = .uninitialised)
      (graph (Universe.userUniverseFork k.toState uni e (some array) junk).2) := by
  have hNew : Balanced
      (Function.update k.dispose k.objectsCount .userUniverseDestroy · = .uninitialised)
      (graph k.toState).newUniverse := h.balanced.newUniverse (exempt_update k _) (not_exempt_new k (by simp))
  rw [graph_fork h.table hUni e junk hUnused]
  refine hNew.fill ?_ (view_new h.table) ?_ (forkedRefs_finite hUni e) ?_
  · simp [Graph.newUniverse, graph]
  · intro i r hCopy
    rw [forkedRefs, Option.filter_eq_some_iff] at hCopy
    exact Nat.lt_succ_of_lt (h.balanced.target u i r hCopy.1)
  · exact fork_counted h.table hUni e junk hUnused

theorem userUniverseFork_spec (src cookie : Nat) (array : Option Nat) (junk : Memory)
    (owned : List Nat) :
    Triple (Accounted owned) (userUniverseFork src cookie array junk) (Gives owned fun obj => [obj]) := by
  refine Triple.read_bind fun uni => Triple.read_bind fun e =>
    Triple.guard_bind fun k ⟨⟨⟨hk, hUni⟩, _⟩, hValid⟩ r k' hRun => ?_
  cases array with
  | none =>
      cases hRun
      exact hk
  | some array =>
      have hUnused : k.arrayUnused array := by simpa using hValid
      have hBalanced := fork_balanced hk hUni e junk hUnused
      obtain ⟨hTable, -, hCount⟩ := fork_table hk.table hUni e junk hUnused
      cases hRun
      refine hk.create hTable hBalanced rfl ?_ ?_ (by simp) rfl
      · intro u hu
        have hNew : Function.update k.universes k.objectsCount _ u ≠ none := hu
        by_cases hEq : u = k.objectsCount
        · exact Or.inr ⟨hEq, rfl⟩
        · rw [Function.update_of_ne hEq] at hNew
          exact Or.inl ⟨hEq, hNew⟩
      · intro o hType hNe hPos
        have hGroup : ¬k.isGroupCookie o := by simp [State.isGroupCookie, hType]
        have hNew : k.newObject.refcount o = k.refcount o := Function.update_of_ne hNe ..
        have hSum : 0 < k.refcount o + _ := hNew ▸ hCount o ▸ hPos
        by_contra hZero
        rw [Nat.eq_zero_of_not_pos hZero, Nat.zero_add, List.countP_pos_iff] at hSum
        obtain ⟨i, hi, hCopied⟩ := hSum
        simp only [forks, Bool.and_eq_true, decide_eq_true_eq] at hCopied
        obtain ⟨⟨hUse, -⟩, rfl⟩ := hCopied
        have hView : view k.toStore src i = some (k.refs (uni.cell i)) := by
          rw [view_of_live hUni]
          exact lookup_eq_some_iff.mpr ⟨List.mem_range.mp hi, hUse, rfl⟩
        exact hZero (hk.refcount_pos hView hGroup)

/-- A new object that is no universe. -/
theorem Accounted.newObject {s : Universe.State} {dispose : MemRcDispose} {refcount : Nat}
    (h : Accounted owned k) (hStore : s.toStore = k.toStore)
    (hGraph : graph s = (graph k.toState).newObject refcount)
    (hNew : dispose ≠ .uninitialised → refcount = 1) (hShm : dispose ≠ .userShmShutdown) :
    Accounted (k.objectsCount :: owned) { k with
      toState := s, dispose := Function.update k.dispose k.objectsCount dispose } := by
  have hBound : s.objectsCount = k.objectsCount + 1 := congrArg Graph.objectsCount hGraph
  have hTable : Table True s.toStore s.objectsCount := by
    rw [hStore, hBound]
    exact ⟨h.table.arrays, h.table.shape, fun u uni hUni => Nat.lt_succ_of_lt (h.table.below u uni hUni)⟩
  refine h.create hTable ?_ (congrArg Graph.held hGraph) ?_ ?_ hShm hBound
  · rw [hGraph]
    refine h.balanced.newObject (exempt_update k _) fun hExempt => hNew fun hEq => hExempt ?_
    rw [hEq]
    exact Function.update_self ..
  · intro u hu
    rw [hStore] at hu
    obtain ⟨uni, hUni⟩ := Option.ne_none_iff_exists'.mp hu
    exact Or.inl ⟨(h.table.below u uni hUni).ne, hu⟩
  · intro o _ hNe hPos
    have hCount : s.refcount o = Function.update k.refcount k.objectsCount refcount o :=
      congrFun (congrArg Graph.refcount hGraph) o
    rwa [hCount, Function.update_of_ne hNe] at hPos

theorem createObject_spec {dispose : MemRcDispose} (memory : Bool) (owned : List Nat)
    (hShm : dispose ≠ .userShmShutdown) :
    Triple (Accounted owned) (createObject dispose memory) (Gives owned fun obj => [obj]) := by
  intro k hk r k' hRun
  simp only [createObject] at hRun
  split_ifs at hRun with hMemory
  · cases hRun
    exact hk.newObject rfl rfl (fun _ => rfl) hShm
  · cases hRun
    exact hk

theorem userRpcCreateCallee_spec (memory : Bool) (owned : List Nat) :
    Triple (Accounted owned) (userRpcCreateCallee memory) (Gives owned fun p => [p.1, p.2]) := by
  intro k hk r k' hRun
  simp only [userRpcCreateCallee] at hRun
  split_ifs at hRun with hMemory
  · cases hRun
    have hCallee : Accounted (k.objectsCount :: owned) (k.addObject .userRpcShutdownCallee) :=
      hk.newObject rfl rfl (fun _ => rfl) (by simp)
    have hToken : Accounted ((k.objectsCount + 1) :: k.objectsCount :: owned)
        ((k.addObject .userRpcShutdownCallee).addObject .userRpcNotifyCalleeUndiscoverable) :=
      hCallee.newObject rfl rfl (fun _ => rfl) (by simp)
    exact hToken.perm (List.Perm.swap ..)
  · cases hRun
    exact hk

theorem userEntryCookieCreate_spec (memory : Bool) (owned : List Nat) :
    Triple (Accounted owned) (userEntryCookieCreate memory) (Gives owned fun obj => [obj]) := by
  intro k hk r k' hRun
  simp only [userEntryCookieCreate] at hRun
  split_ifs at hRun with hMemory
  · cases hRun
    exact hk.newObject rfl rfl (fun _ => rfl) (by simp)
  · cases hRun
    exact hk

theorem userGroupCookieCreate_spec (refcount : Nat) (memory : Bool) (owned : List Nat) :
    Triple (Accounted owned) (userGroupCookieCreate refcount memory) (Gives owned fun obj => [obj]) := by
  intro k hk r k' hRun
  simp only [userGroupCookieCreate] at hRun
  split_ifs at hRun with hMemory
  · cases hRun
    have hGraph : graph
          { k.newObject with
            refcount := Function.update k.refcount k.objectsCount refcount
            groups := Function.update k.groups k.objectsCount (some ⟨k.cookieLast⟩)
            cookieLast := k.cookieLast.next } = (graph k.toState).newObject refcount := rfl
    exact hk.newObject rfl hGraph (fun hNe => (hNe rfl).elim) (by simp)
  · cases hRun
    exact hk

end Objects

section Shm

variable {k : State} {owned : List Nat}

/-- An object without part in shared memory becomes an owner object, and takes the
reference to the `user_shm_ref` that follows it. -/
theorem Accounted.listShm {k' : State} {owner : Nat} {shm : UserShm}
    (h : Accounted ((owner + 1) :: owned) k) (hShm : k.shms owner = none)
    (hPlain : k.dispose owner = .userShutdownMailbox)
    (hRef : k.dispose (owner + 1) = .userShmDealloc) (hListed : shm.listed = true)
    (hState : k'.toState = k.toState) (hEntries : k'.apiEntries = k.apiEntries)
    (hDispose : k'.dispose = Function.update k.dispose owner .userShmShutdown)
    (hShms : k'.shms = Function.update k.shms owner (some shm)) : Accounted owned k' := by
  obtain ⟨state, dispose, entries, shms, intmap, lastId⟩ := k'
  subst hState hEntries hDispose hShms
  have hKnown : owner + 1 < k.objectsCount := h.balanced.known _ h.held_pos
  have hExempt : (Function.update k.dispose owner .userShmShutdown · = .uninitialised) =
      k.isGroupCookie := by
    funext o
    by_cases hEq : o = owner
    · simp [hEq, State.isGroupCookie, hPlain]
    · simp [State.isGroupCookie, Function.update_of_ne hEq]
  refine ⟨h.table, ?_, ?_, ?_, ?_, ?_⟩
  · have hBalanced := h.balanced
    rw [← hExempt] at hBalanced
    exact hBalanced
  · intro o
    have hOld := h.holders o
    cases o with
    | zero =>
        rw [List.count_cons_of_ne (Nat.succ_ne_zero owner)] at hOld
        exact hOld
    | succ o =>
        by_cases hEq : o = owner
        · subst hEq
          simp only [State.shmOwnerRef, State.shmListed, hShm, List.count_cons_self] at hOld
          show k.held (o + 1) = k.entryRefs (o + 1) +
            ((Function.update k.shms o (some shm) o).any (·.listed)).toNat + owned.count (o + 1)
          simp only [Function.update_self, Option.any_some, hListed, Bool.toNat_true]
          simp at hOld
          omega
        · have hNe : owner + 1 ≠ o + 1 := fun hSucc => hEq (Nat.succ.inj hSucc).symm
          rw [List.count_cons_of_ne hNe] at hOld
          show k.held (o + 1) = k.entryRefs (o + 1) +
            ((Function.update k.shms owner (some shm) o).any (·.listed)).toNat + owned.count (o + 1)
          rw [Function.update_of_ne hEq]
          exact hOld
  · intro u hu
    have hOld := h.universes u hu
    show Function.update k.dispose owner _ u = _
    have hNe : u ≠ owner := by
      rintro rfl
      simp [hPlain] at hOld
    rwa [Function.update_of_ne hNe]
  · intro o hType hPos
    show (Function.update k.shms owner (some shm) o).any (·.listed) = true
    have hType : Function.update k.dispose owner .userShmShutdown o = _ := hType
    by_cases hEq : o = owner
    · simp [hEq, hListed]
    · rw [Function.update_of_ne hEq] at hType ⊢
      exact h.shmLive o hType hPos
  · intro o ho
    have ho : Function.update k.shms owner (some shm) o ≠ none := ho
    show Function.update k.dispose owner _ o = _ ∧ Function.update k.dispose owner _ (o + 1) = _ ∧ _
    by_cases hEq : o = owner
    · subst hEq
      rw [Function.update_self, Function.update_of_ne (Nat.succ_ne_self o)]
      exact ⟨rfl, hRef, hKnown⟩
    · rw [Function.update_of_ne hEq] at ho ⊢
      obtain ⟨hOwner, hRef', hLt⟩ := h.shmKnown o ho
      have hNe : o + 1 ≠ owner := by
        intro hSucc
        simp [hSucc, hPlain] at hRef'
      rw [Function.update_of_ne hNe]
      exact ⟨hOwner, hRef', hLt⟩

theorem userShmCreate_spec (size : UInt64) (cookie : Nat) (memory : Bool) (owned : List Nat) :
    Triple (Accounted owned) (userShmCreate size cookie memory) (Gives owned fun p => [p.1]) := by
  refine Triple.read_bind fun e k ⟨hk, _⟩ r k' hRun => ?_
  split_ifs at hRun with hMemory
  · cases hRun
    have hOwner : Accounted (k.objectsCount :: owned) (k.addObject .userShutdownMailbox) :=
      hk.newObject rfl rfl (fun _ => rfl) (by simp)
    have hRef : Accounted ((k.objectsCount + 1) :: k.objectsCount :: owned)
        ((k.addObject .userShutdownMailbox).addObject .userShmDealloc) :=
      hOwner.newObject rfl rfl (fun _ => rfl) (by simp)
    have hShm : k.shms k.objectsCount = none := by
      by_contra hSome
      have := (hk.shmKnown _ hSome).2.2
      omega
    refine hRef.listShm hShm ?_ (Function.update_self ..) rfl rfl rfl ?_ rfl
    · show Function.update (Function.update k.dispose k.objectsCount _) (k.objectsCount + 1) _
        k.objectsCount = _
      rw [Function.update_of_ne (Nat.succ_ne_self _).symm, Function.update_self]
    · show Function.update (Function.update k.dispose k.objectsCount _) (k.objectsCount + 1) _ =
        Function.update (Function.update (Function.update k.dispose k.objectsCount _)
          (k.objectsCount + 1) _) k.objectsCount _
      rw [Function.update_comm (Nat.succ_ne_self _), Function.update_idem]
  · cases hRun
    exact hk

/-- The bytes and the keys of a shared memory object have no part in the accounts. -/
theorem modifyShm_spec {change : UserShmOwner → UserShmOwner} (owner : Nat)
    (hChange : ∀ shm, (change shm).listed = shm.listed) (owned : List Nat) :
    Triple (Accounted owned) (modifyShm owner change) fun _ => Accounted owned := by
  intro k hk r k' hRun
  cases hRun
  have hListed : ∀ o, (Function.update k.shms owner ((k.shms owner).map fun shm =>
      { shm with toUserShmOwner := change shm.toUserShmOwner }) o).any (·.listed) =
      (k.shms o).any (·.listed) := by
    intro o
    by_cases hEq : o = owner
    · subst hEq
      cases hShm : k.shms o <;> simp [hChange]
    · rw [Function.update_of_ne hEq]
  refine ⟨hk.table, hk.balanced, fun o => ?_, hk.universes, fun o hType hPos => ?_, fun o ho => ?_⟩
  · have hOld := hk.holders o
    cases o with
    | zero => exact hOld
    | succ o =>
        simp only [State.shmOwnerRef, State.shmListed, hListed] at hOld ⊢
        exact hOld
  · exact (hListed o).trans (hk.shmLive o hType hPos)
  · refine hk.shmKnown o fun hNone => ho ?_
    show Function.update k.shms owner _ o = none
    by_cases hEq : o = owner
    · rw [← hEq, Function.update_self, hNone]
      rfl
    · rwa [Function.update_of_ne hEq]

theorem setEntryCookie_spec (cookie : Nat) (e : UserEntryCookie) (owned : List Nat) :
    Triple (Accounted owned) (setEntryCookie cookie e) fun _ => Accounted owned := by
  intro k hk r k' hRun
  cases hRun
  exact hk.setState hk.table hk.balanced (fun o => rfl) (fun u hu => hu) (fun o _ hPos => hPos)
    (Nat.le_refl _)

theorem userEntryCookieAddToGrp_spec (cookie group : Nat) (memory : Bool) (owned : List Nat) :
    Triple (Accounted owned) (userEntryCookieAddToGrp cookie group memory) fun _ => Accounted owned :=
  Triple.read_bind fun _ => Triple.read_bind fun _ =>
    Triple.bind ((setEntryCookie_spec cookie _ owned).strengthen fun _ hk => hk.1.1) fun _ =>
      Triple.pure fun _ hk => hk

theorem userEntryCookieRemoveFromGrp_spec (cookie group : Nat) (owned : List Nat) :
    Triple (Accounted owned) (userEntryCookieRemoveFromGrp cookie group) fun _ => Accounted owned :=
  Triple.read_bind fun _ => Triple.read_bind fun _ =>
    Triple.bind ((setEntryCookie_spec cookie _ owned).strengthen fun _ hk => hk.1.1) fun _ =>
      Triple.pure fun _ hk => hk

/-- A `user_shm_ref` is borrowed through the owner object before it. -/
theorem userShmCreateRef_spec (owner : Nat) (owned : List Nat) :
    Triple (Accounted owned) (userShmCreateRef owner) fun ref k =>
      ref = owner + 1 ∧ Accounted ((owner + 1) :: owned) k := by
  refine Triple.read_bind fun shm => Triple.bind (Q := fun _ => Accounted ((owner + 1) :: owned)) ?_
    fun _ => Triple.pure fun _ hk => ⟨rfl, hk⟩
  rintro k ⟨hk, hShm⟩ r k' hRun
  cases hRun
  have hSome : k.shms owner ≠ none := by
    rw [hShm]
    exact Option.some_ne_none shm
  obtain ⟨-, hRef, hLt⟩ := hk.shmKnown owner hSome
  exact hk.borrow hLt fun hType => by simp [hRef] at hType

end Shm

end Ricerca.Entry
