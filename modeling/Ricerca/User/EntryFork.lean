import Ricerca.User.EntryBalance

/-! `user_sys_fork_universe`. The handle is looked up and its type is checked, but what is
forked is the universe of the entry; the new universe is right when the two cannot be told
apart by the cookie of the entry. -/
namespace Ricerca.Entry

open Ricerca.Foundation Ricerca.Cookie Ricerca.Universe

section Runs

variable {k k' : State} {u cell obj cookie : Nat} {ref : UserRef} {type : UserObjType}
  {heap : HeapAnswer} {entry : UserApiEntry}

/-- A reference that was borrowed is one that a cell holds. -/
theorem borrowOut_run (h : userUniverseBorrowOut u cell k = some (.ok (obj, type), k')) :
    ∃ ref, view k.toStore u cell = some ref ∧ ref.ref = obj ∧ ref.type = type ∧
      k' = { k with toState := (k.memRefBorrow obj).addHeld obj } := by
  obtain ⟨uni, t, hRead, hRun⟩ := Prog.bind_eq_some.mp h
  obtain ⟨hLookup, rfl⟩ := Prog.read_eq_some.mp hRead
  obtain ⟨hUni, hNe⟩ := userUniverseWithHandle_some hLookup
  simp only [liftUniverse, Universe.userUniverseBorrowOut, Option.map_eq_some_iff] at hRun
  split_ifs at hRun with hCheck
  · obtain ⟨r, hr, hEq⟩ := hRun
    cases hr
    cases hEq
  · obtain ⟨r, hr, hEq⟩ := hRun
    cases hr
    cases hEq
    obtain ⟨-, hView⟩ := checkRef_view hUni hNe (by simpa using hCheck)
    exact ⟨_, hView, rfl, rfl, rfl⟩

theorem borrowOut_eq (hView : view k.toStore u cell = some ref) :
    userUniverseBorrowOut u cell k =
      some (.ok (ref.ref, ref.type),
        { k with toState := (k.memRefBorrow ref.ref).addHeld ref.ref }) := by
  obtain ⟨uni, hUni, hLookup⟩ := view_eq_some_iff.mp hView
  obtain ⟨hLt, hUse, rfl⟩ := lookup_eq_some_iff.mp hLookup
  have hCheck : userUniverseCheckRefNolock k.toStore uni cell = true :=
    checkRef_iff.mpr ⟨Nat.le_of_lt hLt, hUse⟩
  have hRead : (k.universes u).filter (fun uni => cell ≠ uni.count) = some uni :=
    Option.filter_eq_some_iff.mpr ⟨hUni, by simpa using Nat.ne_of_lt hLt⟩
  simp only [userUniverseBorrowOut, userUniverseWithHandle, Prog.bind_apply, Prog.read_apply,
    hRead, Option.map_some, Option.bind_some, liftUniverse, Universe.userUniverseBorrowOut,
    hCheck, asBorrowed]
  rfl

theorem fork_run {array : Option Nat} {junk : Memory}
    (h : userUniverseFork u cookie array junk k = some (.ok obj, k')) :
    ∃ uni e a, k.universes u = some uni ∧ k.entries cookie = some e ∧ k.arrayUnused a ∧
      obj = k.objectsCount ∧
      k'.toState = (Universe.userUniverseFork k.toState uni e (some a) junk).2 := by
  obtain ⟨uni, t, hRead, hRest⟩ := Prog.bind_eq_some.mp h
  obtain ⟨hUni, rfl⟩ := Prog.read_eq_some.mp hRead
  obtain ⟨e, t, hCookie, hTail⟩ := Prog.bind_eq_some.mp hRest
  obtain ⟨hEntry, rfl⟩ := Prog.read_eq_some.mp hCookie
  obtain ⟨_, t, hGuard, hRun⟩ := Prog.bind_eq_some.mp hTail
  obtain ⟨hUnused, rfl⟩ := Prog.guard_eq_some.mp hGuard
  cases array with
  | none =>
      simp only [createUniverse, Universe.userUniverseFork] at hRun
      cases hRun
  | some a =>
      cases hRun
      exact ⟨uni, e, a, hUni, hEntry, by simpa using hUnused, rfl, rfl⟩

/-- No other references follow from the one that is dropped. -/
theorem dropRef_quiet (hQuiet : k.refcount obj = 1 →
      k.dispose obj ≠ .userUniverseDestroy ∧ k.dispose obj ≠ .userShmShutdown) :
    userDropRef obj k = some ((), { k with toState := (k.takeHeld obj).memRefDrop obj }) := by
  have hDrop : k.memRcDrop obj = ({ k with toState := (k.takeHeld obj).memRefDrop obj }, []) := by
    simp only [State.memRcDrop]
    split_ifs with hLast
    · cases hType : k.dispose obj <;> simp_all
    · rfl
  simp only [userDropRef, State.dropAll, hDrop, List.append_nil]

/-- Dropping one of several references to an object only changes its counter. -/
theorem dropRef_run (h : userDropRef obj k = some ((), k')) (hMore : k.refcount obj ≠ 1) :
    k'.toState = (k.takeHeld obj).memRefDrop obj ∧ k'.toStore = k.toStore ∧
      k'.entries = k.entries := by
  rw [dropRef_quiet fun hLast => (hMore hLast).elim] at h
  have hKept : (k.takeHeld obj).memRefDrop obj =
      { k.takeHeld obj with
        refcount := Function.update k.refcount obj (k.refcount obj - 1) } := by
    simp only [State.memRefDrop]
    exact if_neg hMore
  cases h
  exact ⟨rfl, by rw [hKept]; rfl, by rw [hKept]; rfl⟩

theorem moveIn_run (hTable : Table True k.toStore k.objectsCount)
    (h : userUniverseMoveIn u ref heap k = some (.ok cell, k')) :
    view k'.toStore u cell = some ref ∧
      ∀ v i, v ≠ u → view k'.toStore v i = view k.toStore v i := by
  obtain ⟨uni, t, hRead, hRest⟩ := Prog.bind_eq_some.mp h
  obtain ⟨hUni, rfl⟩ := Prog.read_eq_some.mp hRead
  obtain ⟨_, t, hGuard, hRun⟩ := Prog.bind_eq_some.mp hRest
  obtain ⟨hValid, rfl⟩ := Prog.guard_eq_some.mp hGuard
  simp only [liftUniverse, Universe.userUniverseMoveIn, Option.map_eq_some_iff] at hRun
  split at hRun
  · obtain ⟨r, hr, hEq⟩ := hRun
    cases hr
    cases hEq
  · rename_i h m uni' hOk
    obtain ⟨r, hr, hEq⟩ := hRun
    cases hr
    cases hEq
    obtain ⟨nodes, hShape, -⟩ := hTable.shape _ _ hUni
    obtain ⟨-, hStored⟩ :=
      moveIn_table hTable hUni hOk (answerValid_spec hTable hShape hValid hOk)
    refine ⟨hStored.view_self, fun v i hNe => (hStored.view_eq v i).trans ?_⟩
    rw [if_neg fun hEq => hNe hEq.1]

theorem storeRef_run (hTable : Table True k.toStore k.objectsCount)
    (h : storeRef entry obj type heap k = some (.ok cell, k')) :
    ∃ e, k.entries entry.cookieRef = some e ∧
      view k'.toStore entry.universeRef cell = some ⟨obj, type, userEntryCookieGetKey e⟩ ∧
      ∀ v i, v ≠ entry.universeRef → view k'.toStore v i = view k.toStore v i := by
  obtain ⟨ref, t, hRef, hRest⟩ := Prog.bind_eq_some.mp h
  obtain ⟨e, t', hRead, hPure⟩ := Prog.bind_eq_some.mp hRef
  obtain ⟨hEntry, rfl⟩ := Prog.read_eq_some.mp hRead
  cases hPure
  obtain ⟨result, t, hMove, hEnd⟩ := Prog.bind_eq_some.mp hRest
  cases result with
  | ok handle =>
      cases hEnd
      exact ⟨e, hEntry, moveIn_run hTable hMove⟩
  | error status =>
      obtain ⟨_, t', -, hFailed⟩ := Prog.bind_eq_some.mp hEnd
      cases hFailed

theorem withHandle_run {α : Type} {handle : Nat} {accepts : UserObjType → Bool}
    {use : Nat → Call (Except Status α)} {a : α}
    (h : withHandle entry handle accepts use k = some (.ok a, k')) :
    ∃ ref t t', view k.toStore entry.universeRef handle = some ref ∧ accepts ref.type = true ∧
      t = { k with toState := (k.memRefBorrow ref.ref).addHeld ref.ref } ∧
      use ref.ref t = some (.ok a, t') ∧ userDropRef ref.ref t' = some ((), k') := by
  obtain ⟨result, t, hBorrow, hRest⟩ := Prog.bind_eq_some.mp h
  cases result with
  | error status => cases hRest
  | ok found =>
      obtain ⟨obj, type⟩ := found
      obtain ⟨ref, hView, rfl, rfl, hState⟩ := borrowOut_run hBorrow
      simp only at hRest
      split_ifs at hRest with hType
      · obtain ⟨_, t', -, hFailed⟩ := Prog.bind_eq_some.mp hRest
        cases hFailed
      · obtain ⟨result, t', hUse, hEnd⟩ := Prog.bind_eq_some.mp hRest
        obtain ⟨_, t'', hDrop, hPure⟩ := Prog.bind_eq_some.mp hEnd
        cases hPure
        exact ⟨ref, t, t', hView, by simpa using hType, hState, hUse, hDrop⟩

/-- What a successful call leaves: the new universe holds the handles of the universe of the
entry, and the handle refers to it. -/
theorem forkUniverse_run (hk : Accounted [] k) {hsrc hdst : Nat} {array : Option Nat}
    {junk : Memory} (hView : view k.toStore entry.universeRef hsrc = some ref)
    (hLive : k.universes ref.ref ≠ none)
    (h : userSysForkUniverse entry hsrc array junk heap k = some (.ok hdst, k')) :
    ∃ e, k.entries entry.cookieRef = some e ∧
      view k'.toStore entry.universeRef hdst =
        some ⟨k.objectsCount, .universe, userEntryCookieGetKey e⟩ ∧
      ∀ i, view k'.toStore k.objectsCount i =
        (view k.toStore entry.universeRef i).filter (userUnpinnedFor · e) := by
  obtain ⟨result, t, hCreate, hRest⟩ := Prog.bind_eq_some.mp h
  cases result with
  | error status => cases hRest
  | ok obj =>
      obtain ⟨ref', t₁, t₂, hView', -, rfl, hFork, hDrop⟩ := withHandle_run hCreate
      obtain rfl := Option.some.inj (hView.symm.trans hView')
      obtain ⟨uni, e, a, hUni, hEntry, hUnused, rfl, hState⟩ := fork_run hFork
      obtain ⟨hTable, hForked, hCounts⟩ := fork_table (s := (k.memRefBorrow ref.ref).addHeld ref.ref)
        hk.table hUni e junk hUnused
      rw [← hState] at hTable hForked hCounts
      have hMore : t₂.refcount ref.ref ≠ 1 := by
        have hPos : 0 < k.refcount ref.ref :=
          hk.refcount_pos hView (hk.balanced.tracked _ (graph_ids_isSome.mpr hLive))
        have hOld : ref.ref ≠ k.objectsCount := by
          obtain ⟨own, hOwn⟩ := Option.ne_none_iff_exists'.mp hLive
          exact Nat.ne_of_lt (hk.table.below _ own hOwn)
        have hStart : ((k.memRefBorrow ref.ref).addHeld ref.ref).newObject.refcount ref.ref =
            k.refcount ref.ref + 1 :=
          (Function.update_of_ne hOld ..).trans (Function.update_self ..)
        have hCount := hCounts ref.ref
        rw [hStart] at hCount
        omega
      obtain ⟨hDropped, hStore, hEntries⟩ := dropRef_run hDrop hMore
      have hBound : t.objectsCount = t₂.objectsCount := by
        rw [hDropped, memRefDrop_bound]
        rfl
      obtain ⟨e', hEntry', hNew, hOther⟩ := storeRef_run (k := t) (hStore ▸ hBound ▸ hTable) hRest
      have hForkEntries := congrArg Universe.State.entries hState
      have hSame : t.entries = k.entries := hEntries.trans hForkEntries
      obtain rfl : e' = e := Option.some.inj (hEntry'.symm.trans (hSame ▸ hEntry))
      refine ⟨e', hSame ▸ hEntry', hNew, fun i => ?_⟩
      have hApart : k.objectsCount ≠ entry.universeRef := fun hEq =>
        Nat.lt_irrefl _ (hEq ▸ hk.table.below _ uni hUni)
      refine (hOther _ i hApart).trans ?_
      rw [hStore]
      exact (hForked _ i).trans (if_pos rfl)

/-- For every index, the new universe holds the reference of universe `S` there if and only if
that cell is in use and the cookie has access to it. -/
def ForkOf (k : State) (S : Nat) (e : UserEntryCookie) (k' : State) (obj : Nat) : Prop :=
  ∀ i, (∃ ref, view k.toStore S i = some ref ∧ view k'.toStore obj i = some ref) ↔
    ∃ ref, view k.toStore S i = some ref ∧ userUnpinnedFor ref e = true

/-- After any requests, a successful `user_sys_fork_universe` of a handle to universe `S` forks
`S` if and only if the universe of the entry has every accessible handle of `S`, and nothing
else if and only if both have the same accessible handles. -/
theorem fork_universe_forks_handle_iff {m : Memory} {trace : List (Request × Reply)}
    (run : (system m).Execution trace k) (entry : UserApiEntry) (hsrc : Nat)
    (array : Option Nat) (junk : Memory) (heap : HeapAnswer) {S hdst pin : Nat}
    (hView : view k.toStore entry.universeRef hsrc = some ⟨S, .universe, pin⟩)
    (hLive : k.universes S ≠ none)
    (hCall : userSysForkUniverse entry hsrc array junk heap k = some (.ok hdst, k')) :
    ∃ e obj, k.entries entry.cookieRef = some e ∧
      view k'.toStore entry.universeRef hdst = some ⟨obj, .universe, userEntryCookieGetKey e⟩ ∧
      (ForkOf k S e k' obj ↔ ∀ i ref, view k.toStore S i = some ref →
        userUnpinnedFor ref e = true → view k.toStore entry.universeRef i = some ref) ∧
      ((∀ i, view k'.toStore obj i = (view k.toStore S i).filter (userUnpinnedFor · e)) ↔
        ∀ i, (view k.toStore entry.universeRef i).filter (userUnpinnedFor · e) =
          (view k.toStore S i).filter (userUnpinnedFor · e)) := by
  obtain ⟨e, hEntry, hNew, hForked⟩ := forkUniverse_run (run_accounted run) hView hLive hCall
  refine ⟨e, k.objectsCount, hEntry, hNew, ?_, ?_⟩
  · constructor
    · intro h i ref hRef hAuth
      obtain ⟨ref', hRef', hCopy⟩ := (h i).mpr ⟨ref, hRef, hAuth⟩
      obtain rfl := Option.some.inj (hRef.symm.trans hRef')
      rw [hForked, Option.filter_eq_some_iff] at hCopy
      exact hCopy.1
    · intro h i
      constructor
      · rintro ⟨ref, hRef, hCopy⟩
        rw [hForked, Option.filter_eq_some_iff] at hCopy
        exact ⟨ref, hRef, hCopy.2⟩
      · rintro ⟨ref, hRef, hAuth⟩
        refine ⟨ref, hRef, ?_⟩
        rw [hForked, h i ref hRef hAuth, Option.filter_some, if_pos hAuth]
  · exact forall_congr' fun i => by rw [hForked]

/-- The mailbox at handle 0 was borrowed into the universe at handle 1, and keeps its place in
the fork. -/
theorem fork_universe_of_borrowed_mailbox :
    ∃ trace k k' entry hdst e obj, (system staleMemory).Execution trace k ∧
      view k.toStore 3 0 = some ⟨2, .mailbox, 2⟩ ∧
      userSysForkUniverse entry 1 (some 4) staleMemory ⟨none, staleMemory⟩ k =
        some (.ok hdst, k') ∧
      view k'.toStore entry.universeRef hdst = some ⟨obj, .universe, userEntryCookieGetKey e⟩ ∧
      ForkOf k 3 e k' obj := by
  have run : (system staleMemory).Execution _ _ := System.Execution.of_replay mailboxBorrowedIn rfl
  obtain ⟨e, obj, hEntry, hNew, hFork, -⟩ := fork_universe_forks_handle_iff run
    ⟨0, 1, fun _ => none⟩ 1 (some 4) staleMemory ⟨none, staleMemory⟩ (S := 3) rfl
    (Option.some_ne_none _) rfl
  refine ⟨_, _, _, _, _, e, obj, run, rfl, rfl, hNew, hFork.mpr fun i ref hRef hAuth => ?_⟩
  cases i with
  | zero =>
      cases hRef
      rfl
  | succ i => cases hRef

/-- The mailbox was moved into the universe at handle 1. The fork has no handle 0, where that
universe has the mailbox. -/
theorem fork_universe_loses_mailbox :
    ∃ trace k k' e, (system staleMemory).Execution trace k ∧
      k.apiEntries.map (·.universeRef) = [0] ∧ k.entries 1 = some e ∧
      view k.toStore 0 1 = some ⟨3, .universe, 2⟩ ∧
      view k.toStore 3 0 = some ⟨2, .mailbox, 2⟩ ∧
      userSysForkUniverse ⟨0, 1, fun _ => none⟩ 1 (some 4) staleMemory ⟨none, staleMemory⟩ k =
        some (.ok 0, k') ∧
      view k'.toStore 0 0 = some ⟨4, .universe, 2⟩ ∧ view k'.toStore 4 0 = none ∧
      ¬ForkOf k 3 e k' 4 := by
  have run : (system staleMemory).Execution _ _ := System.Execution.of_replay
    [.entryInit (some 0) staleMemory true true,
      .sys 0 (.createMailbox true ⟨some (.moved 1), staleMemory⟩),
      .sys 0 (.createUniverse (some 2) staleMemory ⟨none, staleMemory⟩),
      .sys 0 (.moveIn 1 0 ⟨some (.moved 3), staleMemory⟩)] rfl
  refine ⟨_, _, _, _, run, rfl, rfl, rfl, rfl, rfl, rfl, rfl, fun h => ?_⟩
  obtain ⟨ref, -, hCopy⟩ := (h 0).mpr ⟨⟨2, .mailbox, 2⟩, rfl, rfl⟩
  cases hCopy

end Runs

end Ricerca.Entry
