import Ricerca.User.UniverseFailures

/-! What a fork copies. Ids of universes are given out in order, so until the counter wraps
around a new universe has the largest id ever given out; its cells are those of the source
that the cookie has access to, all other ones are on its free list, and the source keeps
everything. -/
namespace Ricerca.Universe

open Ricerca.Foundation Ricerca.Cookie

section Ids

variable {guarded : Prop} {s s' : State} {op : Op} {outcome : Outcome}

/-- The call made a universe, which took the next id. -/
def takesId : Op × Outcome → Bool
  | (.createUniverse _ _, .created _) | (.fork _ _ _ _, .created _) => true
  | _ => false

/-- How many ids the calls of a run have taken. -/
def idsTaken (trace : List (Op × Outcome)) : Nat := trace.countP takesId

/-- Every universe of the new state has the id that it had. -/
def IdsKept (s s' : State) : Prop :=
  s'.universeLastId = s.universeLastId ∧ ∀ v own', s'.universes v = some own' →
    ∃ own, s.universes v = some own ∧ own.universeId = own'.universeId

/-- Every universe of the new state has the id that it had, or the next one if a call took it. -/
def IdsFrom (s s' : State) (label : Op × Outcome) : Prop :=
  takesId label = false ∧ IdsKept s s' ∨
  takesId label = true ∧ s'.universeLastId = s.universeLastId + 1 ∧
    ∀ v own', s'.universes v = some own' →
      (∃ own, s.universes v = some own ∧ own.universeId = own'.universeId) ∨
      own'.universeId = s.universeLastId

theorem IdsKept.refl (s : State) : IdsKept s s := ⟨rfl, fun _ own hOwn => ⟨own, hOwn, rfl⟩⟩

/-- Another universe under the same number, with the same id. -/
theorem IdsKept.put {u : Nat} {m : Memory} {uni uni' : UserUniverse} (h : IdsKept s s')
    (hUni : s'.universes u = some uni) (hId : uni'.universeId = uni.universeId) :
    IdsKept s { s' with toStore := s'.toStore.put u m uni' } := by
  refine ⟨h.1, fun v own' hOwn => ?_⟩
  by_cases hEq : v = u
  · subst hEq
    rw [put_self] at hOwn
    cases hOwn
    rw [hId]
    exact h.2 v uni hUni
  · rw [put_of_ne hEq] at hOwn
    exact h.2 v own' hOwn

theorem IdsKept.freeCell {u cell : Nat} {uni : UserUniverse} (h : IdsKept s s')
    (hUni : s'.universes u = some uni) :
    IdsKept s { s' with toStore := s'.toStore.freeCell u uni cell } :=
  h.put hUni rfl

theorem memRefDrop_lastId (s : State) (obj : Nat) :
    (s.memRefDrop obj).universeLastId = s.universeLastId := by
  simp only [State.memRefDrop]
  split_ifs <;> rfl

theorem IdsKept.drop (h : IdsKept s s') (obj : Nat) : IdsKept s (s'.memRefDrop obj) := by
  rw [IdsKept, memRefDrop_lastId]
  exact ⟨h.1, fun v own' hOwn => h.2 v own' (memRefDrop_live s' obj hOwn)⟩

/-- A new universe gets the next id. -/
theorem IdsFrom.new {t : State} {uni : UserUniverse} {label : Op × Outcome}
    (hTakes : takesId label = true) (hId : uni.universeId = s.universeLastId)
    (hUniverses : t.universes = Function.update s.universes s.objectsCount (some uni))
    (hLast : t.universeLastId = s.universeLastId + 1) : IdsFrom s t label := by
  refine Or.inr ⟨hTakes, hLast, fun v own' hOwn => ?_⟩
  rw [hUniverses] at hOwn
  by_cases hEq : v = s.objectsCount
  · subst hEq
    rw [Function.update_self] at hOwn
    cases hOwn
    exact Or.inr hId
  · rw [Function.update_of_ne hEq] at hOwn
    exact Or.inl ⟨own', hOwn, rfl⟩

theorem takesId_failed (op : Op) (status : Status) : takesId (op, .failed status) = false := by
  cases op <;> rfl

theorem takesId_done (op : Op) : takesId (op, .done) = false := by
  cases op <;> rfl

theorem transition_idsKept (hTable : Table guarded s.toStore s.objectsCount)
    (h : Transition s op outcome s') (hKeeps : takesId (op, outcome) = false) : IdsKept s s' := by
  have hWeak : Table False s.toStore s.objectsCount := hTable.weaken
  cases h with
  | createUniverse junk hUnused => cases hKeeps
  | fork junk hUni hEntry hUnused => cases hKeeps
  | @dropRef obj hHeld =>
      have hTaken : IdsKept s (s.takeHeld obj) := .refl s
      exact hTaken.drop obj
  | moveIn hUni hOwns hValid hOk =>
      obtain ⟨nodes, hShape, -⟩ := hWeak.shape _ _ hUni
      obtain ⟨-, hStored⟩ := moveIn_table hWeak hUni hOk (answerValid_spec hWeak hShape hValid hOk)
      exact (IdsKept.refl s).put hUni hStored.universeId_eq
  | moveInPair hUni hFirst hSecond hTypes hValid hValid' hOk hOk' =>
      obtain ⟨hStored, hStored', -⟩ := pair_table hWeak hUni hValid hValid' hOk hOk'
      exact ((IdsKept.refl s).put hUni hStored.universeId_eq).put (put_self ..)
        hStored'.universeId_eq
  | pairUndone status hUni hTypes hValid hOk =>
      obtain ⟨hId, -, -⟩ := pairUndone_table hWeak hUni hValid hOk
      exact ((IdsKept.refl s).put hUni hId).freeCell (put_self ..)
  | dropCell hUni hEntry hCheck hAuth => exact ((IdsKept.refl s).freeCell hUni).drop _
  | moveOut hUni hCheck => exact (IdsKept.refl s).freeCell hUni
  | @moveAcross src dst cell entry cell' heap uni dstUni dstUni' e m hUni hDst hEntry hNe hValid
      hCheck hAuth hOk =>
      obtain ⟨hStored, -, -⟩ := moveAcross_table hWeak hUni hDst hNe hValid hCheck False.elim hOk
      exact ((IdsKept.refl s).put hDst hStored.universeId_eq).freeCell
        ((put_of_ne hNe ..).trans hUni)
  | borrowAcross hUni hDst hEntry hNe hValid hCheck hAuth hOk =>
      obtain ⟨nodes, hShape, -⟩ := hWeak.shape _ _ hDst
      obtain ⟨-, hStored⟩ := moveIn_table hWeak hDst hOk (answerValid_spec hWeak hShape hValid hOk)
      exact (IdsKept.refl s).put hDst hStored.universeId_eq
  | @borrowUndone src dst cell entry heap uni status hUni hCheck =>
      have hBorrowed : IdsKept s (s.memRefBorrow (s.refs (uni.cell cell)).ref) := .refl s
      exact hBorrowed.drop _
  | _ => exact .refl s

theorem transition_ids (hTable : Table guarded s.toStore s.objectsCount)
    (h : Transition s op outcome s') : IdsFrom s s' (op, outcome) := by
  cases hTakes : takesId (op, outcome) with
  | false => exact Or.inl ⟨hTakes, transition_idsKept hTable h hTakes⟩
  | true =>
      cases h with
      | createUniverse junk hUnused => exact .new hTakes rfl rfl rfl
      | fork junk hUni hEntry hUnused => exact .new hTakes rfl rfl rfl
      | failed status =>
          rw [takesId_failed] at hTakes
          cases hTakes
      | setPin hCall hUni hCheck hKey =>
          rw [takesId_done] at hTakes
          cases hTakes
      | _ => cases hTakes

/-- The ids of the universes that are there before a call. -/
def idsNote (s : State) (_ : Op × Outcome) : List UInt64 :=
  (List.range s.objectsCount).filterMap fun u => (s.universes u).map (·.universeId)

/-- The ids that `n` universes take, from the first one on. -/
def Taken (n : Nat) (id : UInt64) : Prop := ∃ k < n, id = UInt64.ofNat (k + 2)

theorem Taken.mono {n k : Nat} {id : UInt64} (h : Taken n id) (hLe : n ≤ k) : Taken k id := by
  obtain ⟨i, hLt, rfl⟩ := h
  exact ⟨i, Nat.lt_of_lt_of_le hLt hLe, rfl⟩

/-- The next id is larger than all that were taken, unless it wrapped around. -/
theorem Taken.lt {n : Nat} {id : UInt64} (h : Taken n id) (hFew : n + 2 < 2 ^ 64) :
    id < UInt64.ofNat (n + 2) := by
  obtain ⟨k, hLt, rfl⟩ := h
  rw [UInt64.lt_iff_toNat_lt, UInt64.toNat_ofNat', UInt64.toNat_ofNat', Nat.mod_eq_of_lt hFew,
    Nat.mod_eq_of_lt (by omega)]
  omega

/-- All ids of this state and of the earlier ones were taken from the counter, in order. -/
theorem ids_taken {m : Memory} {trace : List (Op × Outcome)} {s : State} {log : List UInt64}
    (run : ((system m).record idsNote).Execution trace (s, log)) :
    Table False s.toStore s.objectsCount ∧ s.universeLastId = UInt64.ofNat (idsTaken trace + 2) ∧
      (∀ id ∈ log, Taken (idsTaken trace) id) ∧
      ∀ v own, s.universes v = some own → Taken (idsTaken trace) own.universeId := by
  refine run.invariant (P := fun trace p => Table False p.1.toStore p.1.objectsCount ∧
    p.1.universeLastId = UInt64.ofNat (idsTaken trace + 2) ∧
    (∀ id ∈ p.2, Taken (idsTaken trace) id) ∧
    ∀ v own, p.1.universes v = some own → Taken (idsTaken trace) own.universeId) ?_ ?_
  · rintro ⟨s, log⟩ ⟨hInit, hLog⟩
    cases hInit
    cases hLog
    exact ⟨initial_table False m, rfl, by simp, fun v own hOwn => by cases hOwn⟩
  · rintro trace ⟨s, log⟩ label ⟨s', log'⟩ - ⟨hTable, hLast, hLog, hLive⟩ ⟨hExec, hNotes⟩
    have hStep := exec_transition hExec
    obtain rfl : log' = log ++ idsNote s label := hNotes
    have hNoted : ∀ id ∈ log ++ idsNote s label, Taken (idsTaken trace) id := by
      intro id hId
      rcases List.mem_append.mp hId with hOld | hNote
      · exact hLog id hOld
      · obtain ⟨u, -, hSome⟩ := List.mem_filterMap.mp hNote
        obtain ⟨own, hOwn, rfl⟩ := Option.map_eq_some_iff.mp hSome
        exact hLive u own hOwn
    refine ⟨transition_table hTable False.elim hStep, ?_⟩
    rcases transition_ids hTable hStep with ⟨hTakes, hSame, hFrom⟩ | ⟨hTakes, hNext, hFrom⟩
    · have hCount : idsTaken (trace ++ [label]) = idsTaken trace := by
        simp [idsTaken, List.countP_append, hTakes]
      rw [hCount]
      refine ⟨hSame.trans hLast, hNoted, fun v own' hOwn => ?_⟩
      obtain ⟨own, hOwn, hId⟩ := hFrom v own' hOwn
      exact hId ▸ hLive v own hOwn
    · have hCount : idsTaken (trace ++ [label]) = idsTaken trace + 1 := by
        simp [idsTaken, List.countP_append, hTakes]
      rw [hCount]
      refine ⟨?_, fun id hId => (hNoted id hId).mono (Nat.le_succ _), fun v own' hOwn => ?_⟩
      · rw [hNext, hLast, Nat.add_right_comm, UInt64.ofNat_add (idsTaken trace + 2) 1]
        rfl
      · rcases hFrom v own' hOwn with ⟨own, hOwn, hId⟩ | hId
        · exact hId ▸ (hLive v own hOwn).mono (Nat.le_succ _)
        · exact ⟨idsTaken trace, Nat.lt_succ_self _, hId.trans hLast⟩

end Ids

section Fork

variable {s : State} {src entry : Nat} {uni : UserUniverse} {e : UserEntryCookie}

/-- The universe `new` is a copy of the accessible handles of `uni`. -/
structure Copied (s : State) (src : Nat) (uni : UserUniverse) (e : UserEntryCookie) (s' : State)
    (new : UserUniverse) : Prop where
  count : new.count = uni.count
  used : ∀ i < uni.count, s'.inUse (new.cell i) = true ↔
    s.inUse (uni.cell i) = true ∧ userUnpinnedFor (s.refs (uni.cell i)) e = true
  holds : ∀ i < uni.count, s'.inUse (new.cell i) = true → s'.refs (new.cell i) = s.refs (uni.cell i)
  free : ∃ nodes, Represents s'.links new.freeList nodes ∧
    ∀ a, a ∈ nodes ↔ ∃ i < uni.count, a = new.cell i ∧ s'.inUse a = false
  counters : ∀ o, o ≠ s.objectsCount → s'.refcount o = s.refcount o + s'.cellRefs new o
  source : s'.universes src = some uni ∧ SameIn uni.cells s.toMemory s'.toMemory

/-- The loop over the resized array, and the universe made of it. -/
theorem fork_filled (hTable : Table False s.toStore s.objectsCount)
    (hUni : s.universes src = some uni) (e : UserEntryCookie) {array : Nat} (junk : Memory)
    (hUnused : s.arrayUnused array) :
    ∃ s' new nodes, (userUniverseFork s uni e (some array) junk).2 = s' ∧
      s'.universes = Function.update s.universes s.objectsCount (some new) ∧
      new.universeId = s.universeLastId ∧ new.cells = array ∧ new.count = uni.count ∧
      ForkedUpTo s.toMemory uni.cells array e s.newObject.refcount uni.count
        ⟨s'.toMemory, new.freeList, s'.refcount⟩ nodes := by
  obtain ⟨nodes, hForked⟩ := forkedUpTo_run e
    ⟨s.moveArray junk array array 0, DList.empty, s.newObject.refcount⟩ rfl
    (fun other hOther => moveArray_frame s.toMemory junk array 0 hOther)
    (hUnused.ne hTable src uni hUni) uni.count
  exact ⟨_, _, nodes, rfl, rfl, rfl, rfl, rfl, hForked⟩

theorem fork_copied (hTable : Table False s.toStore s.objectsCount)
    (hUni : s.universes src = some uni) (e : UserEntryCookie) {array : Nat} (junk : Memory)
    (hUnused : s.arrayUnused array) :
    ∃ new, (userUniverseFork s uni e (some array) junk).2.universes s.objectsCount = some new ∧
      new.universeId = s.universeLastId ∧
      Copied s src uni e (userUniverseFork s uni e (some array) junk).2 new := by
  obtain ⟨s', new, nodes, hState, hUniverses, hId, hCells, hCount, hForked⟩ :=
    fork_filled hTable hUni e junk hUnused
  rw [hState]
  have hCell : ∀ i, new.cell i = ⟨array, i⟩ := fun i => by rw [UserUniverse.cell, hCells]
  have hUse : ∀ i < uni.count, s'.inUse (new.cell i) = forks s.toMemory uni.cells e i :=
    fun i hi => hCell i ▸ hForked.inUse_eq i hi
  have hRef : ∀ i < uni.count, s'.inUse (new.cell i) = true →
      s'.refs (new.cell i) = s.refs (uni.cell i) := fun i hi hIn =>
    hCell i ▸ hForked.refs_eq i hi ((hUse i hi).symm.trans hIn)
  refine ⟨new, by rw [hUniverses, Function.update_self], hId, hCount, fun i hi => ?_, hRef,
    ⟨nodes, hForked.list, fun a => ?_⟩, fun o ho => ?_, ?_, ?_⟩
  · rw [hUse i hi, forks, Bool.and_eq_true]
    rfl
  · rw [hForked.mem_nodes]
    constructor
    · rintro ⟨hArray, hLt, hNot⟩
      have hAddr : a = new.cell a.index := by rw [hCell, ← hArray]
      exact ⟨a.index, hLt, hAddr, by rw [hAddr, hUse _ hLt, hNot]⟩
    · rintro ⟨i, hi, rfl, hFree⟩
      rw [hUse i hi] at hFree
      rw [hCell]
      exact ⟨rfl, hi, hFree⟩
  · have hOld : s.newObject.refcount o = s.refcount o := Function.update_of_ne ho ..
    refine (hForked.refcount_eq o).trans ?_
    rw [hOld, State.cellRefs, hCount]
    congr 1
    refine List.countP_congr fun i hi => ?_
    have hLt := List.mem_range.mp hi
    simp only [Bool.and_eq_true, ← hUse i hLt]
    refine and_congr_right fun hIn => ?_
    rw [hRef i hLt hIn]
    rfl
  · rw [hUniverses, Function.update_of_ne (Nat.ne_of_lt (hTable.below src uni hUni))]
    exact hUni
  · exact hForked.frame uni.cells (hUnused.ne hTable src uni hUni)

/-- In the state after any calls, a successful fork makes a universe with copies of exactly the
handles that the cookie has access to. It has the next id, which is larger than all ids before it
as long as the counter of ids has not wrapped around. -/
theorem fork_copies_accessible {m : Memory} {trace : List (Op × Outcome)} {log : List UInt64}
    (run : ((system m).record idsNote).Execution trace (s, log)) (src entry : Nat)
    (memory : ForkMemory) {effect : Effect} {obj : Nat} (hUni : s.universes src = some uni)
    (hEntry : s.entries entry = some e) (hRun : (Call.fork src entry memory).run s = some effect)
    (hDone : effect.outcome = .created obj) :
    ∃ new, effect.state.universes obj = some new ∧
      new.universeId = UInt64.ofNat (idsTaken trace + 2) ∧
      (idsTaken trace + 2 < 2 ^ 64 → (∀ id ∈ log, id < new.universeId) ∧
        ∀ v own, s.universes v = some own → own.universeId < new.universeId) ∧
      Copied s src uni e effect.state new := by
  obtain ⟨hTable, hLast, hLog, hLive⟩ := ids_taken run
  simp only [Call.run, hUni, hEntry, Option.bind_eq_bind, Option.bind_some] at hRun
  split_ifs at hRun with hValid
  cases hRun
  obtain ⟨array, hUnused, rfl, hState⟩ := forkCall_created hValid hDone
  rw [hState]
  obtain ⟨new, hNew, hId, hCopied⟩ := fork_copied hTable hUni e memory.junk hUnused
  have hNext : new.universeId = UInt64.ofNat (idsTaken trace + 2) := hId.trans hLast
  refine ⟨new, hNew, hNext, fun hFew => ?_, hCopied⟩
  rw [hNext]
  exact ⟨fun id hId => (hLog id hId).lt hFew, fun v own hOwn => (hLive v own hOwn).lt hFew⟩

/-- A universe with one reference for everybody and one that is pinned to somebody else. -/
theorem fork_copies_one_of_two :
    ∃ trace log s uni e effect new, ((system blankMemory).record idsNote).Execution trace (s, log) ∧
      s.universes 0 = some uni ∧ uni.count = 2 ∧ s.entries 2 = some e ∧
      (Call.fork 0 2 ⟨true, some 3, some (.moved 4), blankMemory, ⟨9, 0, 0⟩⟩).run s = some effect ∧
      effect.outcome = .created 5 ∧ effect.state.universes 5 = some new ∧
      effect.state.refcount 3 = 2 ∧ effect.state.refcount 4 = 1 ∧
      Copied s 0 uni e effect.state new := by
  have run : (system blankMemory).Execution _ _ := System.Execution.of_replay
    (oneStored ++ [.createObject, .moveIn 0 ⟨4, .callee, 7⟩ ⟨none, blankMemory⟩]) rfl
  obtain ⟨log, noted⟩ := run.record idsNote
  obtain ⟨new, hNew, -, -, hCopied⟩ := fork_copies_accessible noted 0 2
    ⟨true, some 3, some (.moved 4), blankMemory, ⟨9, 0, 0⟩⟩ rfl rfl rfl rfl
  exact ⟨_, log, _, _, _, _, new, noted, rfl, rfl, rfl, rfl, rfl, hNew, rfl, rfl, hCopied⟩

/-- Arrays with smaller numbers than the objects leave the next number unused. -/
theorem arrayUnused_of_below
    (hCells : ∀ u own, s.universes u = some own → own.cells < s.objectsCount) :
    s.arrayUnused s.objectsCount := by
  intro u hu
  cases hOwn : s.universes u with
  | none => rfl
  | some own => simpa using (hCells u own hOwn).ne

/-- An entry, a universe, and `n` more universes. -/
theorem many_universes (n : Nat) :
    ∃ trace log s, ((system blankMemory).record idsNote).Execution trace (s, log) ∧
      s.entries 0 = some ⟨userCookieLast, []⟩ ∧ s.universes 1 = some ⟨DList.empty, 2, 0, 0, 0⟩ ∧
      s.universeLastId = UInt64.ofNat (n + 3) ∧ 1 < s.objectsCount ∧
      ∀ u own, s.universes u = some own → own.cells < s.objectsCount := by
  induction n with
  | zero =>
      have run : (system blankMemory).Execution _ _ := System.Execution.of_replay
        [.createEntryCookie, .createUniverse (some 0) blankMemory] rfl
      obtain ⟨log, noted⟩ := run.record idsNote
      refine ⟨_, log, _, noted, rfl, rfl, rfl, Nat.lt_succ_self 1, fun u own hOwn => ?_⟩
      by_cases hEq : u = 1
      · subst hEq
        cases hOwn
        exact Nat.zero_lt_two
      · have hOld : (initial blankMemory).universes u = some own :=
          (Function.update_of_ne hEq ..).symm.trans hOwn
        cases hOld
  | succ n ih =>
      obtain ⟨trace, log, s, run, hEntry, hUni, hLast, hCount, hCells⟩ := ih
      have hUnused := arrayUnused_of_below hCells
      have hStep : (system blankMemory).step s
          (.createUniverse (some s.objectsCount) blankMemory, .created s.objectsCount)
          (userUniverseCreate s (some s.objectsCount) blankMemory).2 := by
        simp [system, System.ofExec, exec, hUnused, userUniverseCreate]
      refine ⟨_, _, _, run.step ⟨hStep, rfl⟩, ?_, ?_, ?_, Nat.lt_succ_of_lt hCount,
        fun u own hOwn => ?_⟩
      · exact hEntry
      · exact (Function.update_of_ne hCount.ne ..).trans hUni
      · show s.universeLastId + 1 = _
        rw [hLast, Nat.add_right_comm, UInt64.ofNat_add (n + 3) 1]
        rfl
      · by_cases hEq : u = s.objectsCount
        · subst hEq
          cases (Function.update_self ..).symm.trans hOwn
          exact Nat.lt_succ_self _
        · exact Nat.lt_succ_of_lt (hCells u own ((Function.update_of_ne hEq ..).symm.trans hOwn))

/-- After 2^64 - 2 universes were made, a fork gets the id 0, which is smaller than that of the
universe that it copies. -/
theorem fork_id_wraps_around :
    ∃ trace log s uni e memory effect obj new,
      ((system blankMemory).record idsNote).Execution trace (s, log) ∧
      s.universes 1 = some uni ∧ s.entries 0 = some e ∧
      (Call.fork 1 0 memory).run s = some effect ∧ effect.outcome = .created obj ∧
      effect.state.universes obj = some new ∧ uni.universeId = 2 ∧ new.universeId = 0 := by
  obtain ⟨trace, log, s, run, hEntry, hUni, hLast, -, hCells⟩ := many_universes (2 ^ 64 - 3)
  have hUnused := arrayUnused_of_below hCells
  let memory : ForkMemory := ⟨true, some s.objectsCount, none, blankMemory, ⟨9, 0, 0⟩⟩
  have hRun : (Call.fork 1 0 memory).run s =
      some (userUniverseForkCall s 1 ⟨DList.empty, 2, 0, 0, 0⟩ 0 ⟨userCookieLast, []⟩ memory) := by
    simp [Call.run, hUni, hEntry, memory, ForkMemory.valid, hUnused, State.answerValid]
  exact ⟨trace, log, s, _, _, memory, _, _, _, run, hUni, hEntry, hRun, rfl,
    Function.update_self .., rfl, hLast⟩

end Fork

end Ricerca.Universe
