import Ricerca.User.UniverseTable

/-! Validation of handles. All nine calls that take a handle rest on one boundary
test, which lets the handle one past the end of the array through. -/
namespace Ricerca.Universe

open Ricerca.Foundation Ricerca.Cookie

/-- The objects that a call names exist, and the heap answers what it can. -/
def Op.Live (s : State) : Op → Prop
  | .dropCell u _ entry | .unpin u _ entry | .pin u _ entry =>
      (s.universes u).isSome ∧ (s.entries entry).isSome
  | .borrowOut u _ | .moveOut u _ => (s.universes u).isSome
  | .moveAcross src dst _ entry heap | .borrowAcross src dst _ entry heap =>
      (s.universes src).isSome ∧ (s.universes dst).isSome ∧ (s.entries entry).isSome ∧
        s.answerValid heap
  | .unpinFromGroup u _ entry group | .pinToGroup u _ entry group =>
      (s.universes u).isSome ∧ (s.entries entry).isSome ∧ (s.groups group).isSome
  | _ => True

/-- The call does not name one universe as both source and destination. -/
def Op.Distinct : Op → Prop
  | .moveAcross src dst _ _ _ | .borrowAcross src dst _ _ _ => src ≠ dst
  | _ => True

/-- The test reads cells of the array only and accepts exactly the handles of
stored references, and the call returns that any other handle is invalid, without effect. -/
structure HandleLaw (s : State) (u : Nat) (uni : UserUniverse) (cell : Nat) (op : Op) : Prop where
  reads : ∀ a ∈ checkRefReads uni cell, a.array = uni.cells ∧ a.index < uni.count
  accepts : userUniverseCheckRefNolock s.toStore uni cell = true ↔
    cell < uni.count ∧ s.inUse (uni.cell cell) = true
  refuses : view s.toStore u cell = none → exec s op = some (.failed .invalidHandle, s)

/-- The nine calls give up when the test fails. -/
theorem exec_invalidHandle {s : State} {u cell : Nat} {uni : UserUniverse} {op : Op}
    (hHandle : op.handle = some (u, cell)) (hUni : s.universes u = some uni)
    (hLive : op.Live s) (hDistinct : op.Distinct)
    (hCheck : userUniverseCheckRefNolock s.toStore uni cell = false) :
    exec s op = some (.failed .invalidHandle, s) := by
  have hPin : ∀ keys pin, setPin s uni cell keys pin = (.failed .invalidHandle, s) := by
    intro keys pin
    simp [setPin, hCheck]
  cases op <;> simp only [Op.handle, Option.some.injEq, Prod.mk.injEq, reduceCtorEq] at hHandle
  all_goals obtain ⟨rfl, rfl⟩ := hHandle
  all_goals simp only [Op.Live, Option.isSome_iff_exists] at hLive
  · obtain ⟨-, e, hEntry⟩ := hLive
    simp [exec, hUni, hEntry, userUniverseDropCell, hCheck]
  · simp [exec, hUni, userUniverseBorrowOut, hCheck]
  · simp [exec, hUni, userUniverseMoveOut, hCheck]
  · obtain ⟨-, ⟨dstUni, hDst⟩, ⟨e, hEntry⟩, hHeap⟩ := hLive
    have hNe : _ ≠ _ := hDistinct
    simp [exec, hUni, hDst, hEntry, hHeap, hNe, userUniverseMoveAcross, hCheck]
  · obtain ⟨-, ⟨dstUni, hDst⟩, ⟨e, hEntry⟩, hHeap⟩ := hLive
    have hNe : _ ≠ _ := hDistinct
    simp [exec, hUni, hDst, hEntry, hHeap, hNe, userUniverseBorrowAcross, hCheck]
  · obtain ⟨-, e, hEntry⟩ := hLive
    simp [exec, hUni, hEntry, userUniverseUnpin, hPin]
  · obtain ⟨-, e, hEntry⟩ := hLive
    simp [exec, hUni, hEntry, userUniversePin, hPin]
  · obtain ⟨-, ⟨e, hEntry⟩, g, hGroup⟩ := hLive
    simp [exec, hUni, hEntry, hGroup, userUniverseUnpinFromGroup, hPin]
  · obtain ⟨-, ⟨e, hEntry⟩, g, hGroup⟩ := hLive
    simp [exec, hUni, hEntry, hGroup, userUniversePinToGroup, hPin]

/-- A call that moves or borrows between a universe and itself waits for a mutex that it
holds. -/
theorem distinct_of_exec {s : State} {op : Op} (hReturns : exec s op ≠ none) : op.Distinct := by
  obtain ⟨⟨outcome, s'⟩, hExec⟩ := Option.ne_none_iff_exists'.mp hReturns
  cases op <;> simp only [Op.Distinct]
  all_goals simp only [exec, Option.bind_eq_bind, Option.bind_eq_some_iff] at hExec
  all_goals
    obtain ⟨uni, -, dstUni, -, e, -, hExec⟩ := hExec
    split_ifs at hExec with hGuard
    simp only [Bool.and_eq_true, decide_eq_true_eq] at hGuard
    exact hGuard.1

/-- In every state, reachable or not, the law holds for every call with every handle but the
length of the array, and with a handle of no reference if the call does not name one
universe twice. -/
theorem handle_law_iff_not_one_past_end {s : State} {u cell : Nat} {uni : UserUniverse} {op : Op}
    (hUni : s.universes u = some uni) (hHandle : op.handle = some (u, cell)) (hLive : op.Live s) :
    HandleLaw s u uni cell op ↔
      cell ≠ uni.count ∧ (view s.toStore u cell = none → op.Distinct) := by
  constructor
  · refine fun hLaw => ⟨fun hEq => ?_, fun hNone => ?_⟩
    · have hRead := hLaw.reads (uni.cell cell) (by simp [checkRefReads, hEq])
      simp only [UserUniverse.cell] at hRead
      omega
    · exact distinct_of_exec (by rw [hLaw.refuses hNone]; exact Option.some_ne_none _)
  · rintro ⟨hNe, hDistinct⟩
    have hAccepts : userUniverseCheckRefNolock s.toStore uni cell = true ↔
        cell < uni.count ∧ s.inUse (uni.cell cell) = true := by
      rw [checkRef_iff]
      constructor
      · rintro ⟨hLe, hUse⟩
        exact ⟨Nat.lt_of_le_of_ne hLe hNe, hUse⟩
      · rintro ⟨hLt, hUse⟩
        exact ⟨Nat.le_of_lt hLt, hUse⟩
    refine ⟨?_, hAccepts, fun hNone => ?_⟩
    · intro a ha
      simp only [checkRefReads] at ha
      split_ifs at ha with hBig
      · cases ha
      · rw [List.mem_singleton.mp ha]
        exact ⟨rfl, by simp only [UserUniverse.cell]; omega⟩
    · refine exec_invalidHandle hHandle hUni hLive (hDistinct hNone) ?_
      rw [Bool.eq_false_iff, Ne, hAccepts]
      rintro ⟨hLt, hUse⟩
      rw [view_of_live hUni, lookup_eq_some_iff.mpr ⟨hLt, hUse, rfl⟩] at hNone
      cases hNone

/-- Memory in which every byte pattern reads as a cell in use, with a reference to
object 7 that everybody may use. -/
def staleMemory : Memory := ⟨⟨fun _ => none, fun _ => none⟩, fun _ => true, fun _ => ⟨7, .mailbox, 1⟩⟩

/-- The law after one reference was moved in: for a drop at its handle, and for a move to
another universe at a handle past the end. -/
theorem handle_law_after_move_in :
    ∃ trace s uni, (system staleMemory).Execution trace s ∧ s.universes 0 = some uni ∧
      uni.count = 1 ∧ HandleLaw s 0 uni 0 (.dropCell 0 0 2) ∧
      HandleLaw s 0 uni 2 (.moveAcross 0 1 2 2 ⟨none, staleMemory⟩) := by
  have run : (system staleMemory).Execution _ _ := System.Execution.of_replay
    [.createUniverse (some 0) staleMemory, .createUniverse (some 1) staleMemory, .createEntryCookie,
      .createObject, .moveIn 0 ⟨3, .mailbox, 1⟩ ⟨some (.moved 2), staleMemory⟩] rfl
  refine ⟨_, _, ⟨DList.empty, 2, 2, 1, 16⟩, run, rfl, rfl, ?_, ?_⟩
  · refine (handle_law_iff_not_one_past_end rfl rfl ?_).mpr ?_
    · exact ⟨rfl, rfl⟩
    · exact ⟨by decide, fun _ => trivial⟩
  · refine (handle_law_iff_not_one_past_end rfl rfl ?_).mpr ?_
    · exact ⟨rfl, rfl, rfl, rfl⟩
    · exact ⟨by decide, fun _ => Nat.zero_ne_one⟩

/-- In a new universe, which holds nothing, handle 0 passes the test if the memory
behind the array happens to look like a cell, and the call hands out a reference
that nobody stored. -/
theorem one_past_end_handle_accepted :
    ∃ trace s uni, (system staleMemory).Execution trace s ∧ s.universes 0 = some uni ∧
      uni.count = 0 ∧ view s.toStore 0 0 = none ∧
      userUniverseCheckRefNolock s.toStore uni 0 = true ∧
      (exec s (.moveOut 0 0)).map Prod.fst = some (.reference ⟨7, .mailbox, 1⟩) ∧
      ¬HandleLaw s 0 uni 0 (.moveOut 0 0) := by
  have run : (system staleMemory).Execution _ _ :=
    System.Execution.of_replay [.createUniverse (some 0) staleMemory] rfl
  refine ⟨_, _, ⟨DList.empty, 2, 0, 0, 0⟩, run, rfl, rfl, rfl, rfl, rfl, fun hLaw => ?_⟩
  have hRead := hLaw.reads ⟨0, 0⟩ (by decide)
  exact absurd hRead.2 (by decide)

end Ricerca.Universe
