import Ricerca.User.UniverseSteps

/-! All universes together. Each keeps its cells in an array of its own, so a call
changes what handles denote in the universes it works on and nowhere else. -/
namespace Ricerca.Universe

open Ricerca.Foundation Ricerca.Cookie

/-- The reference that handle `i` denotes in universe `u`. -/
def view (st : Store) (u i : Nat) : Option UserRef :=
  (st.universes u).bind fun uni => lookup st.toMemory uni i

/-- Universes below `bound` have arrays of their own and well-formed free lists.
When `guarded`, no call has used a handle one past the end, and the free lists hold
exactly the free cells. -/
structure Table (guarded : Prop) (st : Store) (bound : Nat) : Prop where
  arrays : ∀ u v a b, st.universes u = some a → st.universes v = some b → a.cells = b.cells → u = v
  shape : ∀ u uni, st.universes u = some uni →
    ∃ nodes, Shape st.toMemory uni nodes ∧ (guarded → Complete st.toMemory uni nodes)
  below : ∀ u uni, st.universes u = some uni → u < bound

section Table

variable {guarded : Prop} {st : Store} {bound u : Nat} {uni uni' : UserUniverse} {m : Memory}

theorem Table.weaken (h : Table guarded st bound) : Table False st bound :=
  ⟨h.arrays, fun u uni hUni => (h.shape u uni hUni).imp fun _ h => ⟨h.1, False.elim⟩, h.below⟩

theorem view_eq_some_iff {i : Nat} {ref : UserRef} : view st u i = some ref ↔
    ∃ uni, st.universes u = some uni ∧ lookup st.toMemory uni i = some ref := by
  simp only [view, Option.bind_eq_some_iff]

theorem view_of_live (hUni : st.universes u = some uni) (i : Nat) :
    view st u i = lookup st.toMemory uni i := by
  simp only [view, hUni, Option.bind_some]

theorem view_of_dead (hUni : st.universes u = none) (i : Nat) : view st u i = none := by
  simp only [view, hUni, Option.bind_none]

@[simp]
theorem put_self (st : Store) (u : Nat) (m : Memory) (uni : UserUniverse) :
    (st.put u m uni).universes u = some uni :=
  Function.update_self ..

theorem put_of_ne {v : Nat} (h : v ≠ u) (st : Store) (m : Memory) (uni : UserUniverse) :
    (st.put u m uni).universes v = st.universes v :=
  Function.update_of_ne h ..

/-- The memory of all other universes is as before. -/
def Apart (st : Store) (u : Nat) (m : Memory) : Prop :=
  ∀ v b, v ≠ u → st.universes v = some b → SameIn b.cells st.toMemory m

theorem view_put (hApart : Apart st u m) (v i : Nat) :
    view (st.put u m uni) v i = if v = u then lookup m uni i else view st v i := by
  by_cases hEq : v = u
  · subst hEq
    rw [if_pos rfl, view_of_live (put_self st v m uni)]
    rfl
  · rw [if_neg hEq]
    cases hLive : st.universes v with
    | none => rw [view_of_dead hLive, view_of_dead ((put_of_ne hEq st m uni).trans hLive)]
    | some b =>
        rw [view_of_live hLive, view_of_live ((put_of_ne hEq st m uni).trans hLive)]
        exact lookup_congr (hApart v b hEq hLive) i

/-- Storing a universe, new or changed, in an array that no other one uses. -/
theorem Table.put {bound' : Nat} (h : Table guarded st bound) (hApart : Apart st u m)
    (hArray : ∀ v b, v ≠ u → st.universes v = some b → b.cells ≠ uni'.cells)
    (hShape : ∃ nodes, Shape m uni' nodes ∧ (guarded → Complete m uni' nodes))
    (hBelow : u < bound') (hBound : bound ≤ bound') : Table guarded (st.put u m uni') bound' := by
  refine ⟨?_, ?_, ?_⟩
  · intro v w a b hv hw hSame
    by_cases hV : v = u
    · subst hV
      rw [put_self] at hv
      cases hv
      by_contra hNe
      rw [put_of_ne (Ne.symm hNe)] at hw
      exact hArray w b (Ne.symm hNe) hw hSame.symm
    · rw [put_of_ne hV] at hv
      by_cases hW : w = u
      · subst hW
        rw [put_self] at hw
        cases hw
        exact (hArray v a hV hv hSame).elim
      · rw [put_of_ne hW] at hw
        exact h.arrays v w a b hv hw hSame
  · intro v b hv
    by_cases hEq : v = u
    · subst hEq
      rw [put_self] at hv
      cases hv
      exact hShape
    · rw [put_of_ne hEq] at hv
      obtain ⟨nodes, hOld, hComplete⟩ := h.shape v b hv
      exact ⟨nodes, hOld.congr (hApart v b hEq hv),
        fun hGuarded => (hComplete hGuarded).congr (hApart v b hEq hv)⟩
  · intro v b hv
    by_cases hEq : v = u
    · exact hEq ▸ hBelow
    · rw [put_of_ne hEq] at hv
      have := h.below v b hv
      omega

end Table

/-- What a reference moved in does to the table. -/
structure Stored (guarded : Prop) (st : Store) (u : Nat) (uni : UserUniverse) (ref : UserRef)
    (h : Nat) (m : Memory) (uni' : UserUniverse) : Prop where
  order : violatesOrder st uni ref = false
  universeId_eq : uni'.universeId = uni.universeId
  view_eq : ∀ v i, view (st.put u m uni') v i =
    if v = u ∧ i = h ∧ h < uni'.count then some ref else view st v i
  fresh : view st u h = none
  inside : guarded → h < uni'.count
  used : m.inUse (uni'.cell h) = true
  holds : m.refs (uni'.cell h) = ref
  moved : uni'.cells ≠ uni.cells → uni.freeList.head = none
  kept : ∀ v b, v ≠ u → st.universes v = some b → SameIn b.cells st.toMemory m

theorem Stored.view_self {st : Store} {u cell : Nat} {uni uni' : UserUniverse} {ref : UserRef}
    {m : Memory} (h : Stored True st u uni ref cell m uni') :
    view (st.put u m uni') u cell = some ref := by
  rw [h.view_eq, if_pos ⟨rfl, rfl, h.inside trivial⟩]

section Steps

variable {guarded : Prop} {s : State} {u cell : Nat} {uni : UserUniverse}

/-- The heap's answer is an array that no universe has. -/
theorem State.arrayUnused.ne {array : Nat} (h : s.arrayUnused array)
    (hTable : Table guarded s.toStore s.objectsCount) (v : Nat) (b : UserUniverse)
    (hv : s.universes v = some b) : b.cells ≠ array := by
  have hAll := h v (hTable.below v b hv)
  rw [hv] at hAll
  simpa using hAll

theorem moveIn_table {st : Store} {bound : Nat} (hTable : Table guarded st bound)
    (hUni : st.universes u = some uni) {ref : UserRef} {heap : HeapAnswer} {m : Memory}
    {uni' : UserUniverse} (hOk : userUniverseMoveInNolock st uni ref heap = .ok (cell, m, uni'))
    (hValid : uni'.cells = uni.cells ∨ ∀ v b, st.universes v = some b → b.cells ≠ uni'.cells) :
    Table guarded (st.put u m uni') bound ∧ Stored guarded st u uni ref cell m uni' := by
  obtain ⟨nodes, hShape, hComplete⟩ := hTable.shape u uni hUni
  obtain ⟨hOrder, ⟨nodes', hMoved⟩, -⟩ := userUniverseMoveInNolock_spec hShape hOk
  have hOther : ∀ v b, v ≠ u → st.universes v = some b → b.cells ≠ uni'.cells := by
    intro v b hNe hv
    rcases hValid with hSame | hNew
    · rw [hSame]
      exact fun hEq => hNe (hTable.arrays v u b uni hv hUni hEq)
    · exact hNew v b hv
  have hApart : Apart st u m := fun v b hNe hv =>
    hMoved.frame b.cells (fun hEq => hNe (hTable.arrays v u b uni hv hUni hEq)) (hOther v b hNe hv)
  refine ⟨hTable.put hApart hOther
    ⟨nodes', hMoved.shape, fun hGuarded => (hMoved.complete (hComplete hGuarded)).1⟩
    (hTable.below u uni hUni) (Nat.le_refl _), hOrder, hMoved.universeId_eq, ?_, ?_, ?_,
    hMoved.used, hMoved.holds, ?_, hApart⟩
  · intro v i
    rw [view_put hApart, hMoved.lookup_eq]
    by_cases hEq : v = u
    · subst hEq
      simp only [if_true, true_and, view_of_live hUni]
    · simp [hEq]
  · rw [view_of_live hUni]
    exact hMoved.fresh
  · exact fun hGuarded => (hMoved.complete (hComplete hGuarded)).2
  · intro hNe
    have hNil := hMoved.moved hNe
    subst hNil
    exact hShape.list.head_eq

/-- The answer to a growing dynarray is its own array or an unused one. -/
theorem answerValid_spec {st : Store} {ref : UserRef} {heap : HeapAnswer} {m : Memory}
    {uni' : UserUniverse} (hTable : Table guarded s.toStore s.objectsCount)
    {nodes : List CellAddr} (hShape : Shape st.toMemory uni nodes)
    (hValid : s.answerValid heap = true)
    (hOk : userUniverseMoveInNolock st uni ref heap = .ok (cell, m, uni')) :
    uni'.cells = uni.cells ∨ ∀ v b, s.universes v = some b → b.cells ≠ uni'.cells := by
  obtain ⟨-, -, hSame | hMoved⟩ := userUniverseMoveInNolock_spec hShape hOk
  · exact Or.inl hSame
  · right
    simp only [State.answerValid, hMoved, decide_eq_true_eq] at hValid
    exact hValid.ne hTable

theorem freeCell_table {st : Store} {bound : Nat} (hTable : Table guarded st bound)
    (hUni : st.universes u = some uni) (hUse : st.inUse (uni.cell cell) = true)
    (hHandle : guarded → cell < uni.count) :
    Table guarded (st.freeCell u uni cell) bound ∧
    (∀ v i, view (st.freeCell u uni cell) v i =
      if v = u ∧ i = cell then none else view st v i) ∧
    ∀ v b, v ≠ u → st.universes v = some b → SameIn b.cells st.toMemory (st.freeCell u uni cell).toMemory := by
  obtain ⟨nodes, hShape, hComplete⟩ := hTable.shape u uni hUni
  have hOther : ∀ v b, v ≠ u → st.universes v = some b → b.cells ≠ uni.cells :=
    fun v b hNe hv hEq => hNe (hTable.arrays v u b uni hv hUni hEq)
  have hApart : Apart st u (freedMemory st.toMemory uni cell) := fun v b hNe hv =>
    freedMemory_frame hShape (hOther v b hNe hv)
  rw [freeCell_eq]
  refine ⟨hTable.put hApart hOther ⟨_, hShape.free hUse, fun hGuarded => ?_⟩
    (hTable.below u uni hUni) (Nat.le_refl _), fun v i => ?_, hApart⟩
  · exact (hComplete hGuarded).free (hHandle hGuarded)
  · rw [view_put hApart, lookup_freed]
    by_cases hEq : v = u
    · subst hEq
      simp only [if_true, true_and, view_of_live hUni]
    · simp [hEq]

theorem setPin_table {st : Store} {bound : Nat} (hTable : Table guarded st bound)
    (hUni : st.universes u = some uni) (cell : Nat) (ref : UserRef) :
    Table guarded { st with toMemory := st.toMemory.setRef (uni.cell cell) ref } bound ∧
    ∀ v i, view { st with toMemory := st.toMemory.setRef (uni.cell cell) ref } v i =
      if v = u ∧ i = cell then (view st v i).map fun _ => ref else view st v i := by
  have hSelf : ({ st with toMemory := st.toMemory.setRef (uni.cell cell) ref } : Store) =
      st.put u (st.toMemory.setRef (uni.cell cell) ref) uni := by
    simp only [Store.put, Store.mk.injEq, true_and]
    rw [← hUni, Function.update_eq_self]
  obtain ⟨nodes, hShape, hComplete⟩ := hTable.shape u uni hUni
  have hOther : ∀ v b, v ≠ u → st.universes v = some b → b.cells ≠ uni.cells :=
    fun v b hNe hv hEq => hNe (hTable.arrays v u b uni hv hUni hEq)
  have hApart : Apart st u (st.toMemory.setRef (uni.cell cell) ref) := fun v b hNe hv =>
    setRef_frame _ _ (hOther v b hNe hv)
  rw [hSelf]
  refine ⟨hTable.put hApart hOther ⟨nodes, hShape.setRef _, fun hGuarded => hComplete hGuarded⟩
    (hTable.below u uni hUni) (Nat.le_refl _), fun v i => ?_⟩
  rw [view_put hApart, lookup_setRef]
  by_cases hEq : v = u
  · subst hEq
    simp only [if_true, true_and, view_of_live hUni]
  · simp [hEq]

theorem Table.remove {st : Store} {bound : Nat} (hTable : Table guarded st bound) (u : Nat) :
    Table guarded { st with universes := Function.update st.universes u none } bound := by
  have hOld : ∀ v b, Function.update st.universes u none v = some b → st.universes v = some b := by
    intro v b hv
    by_cases hEq : v = u
    · subst hEq
      simp at hv
    · rwa [Function.update_of_ne hEq] at hv
  refine ⟨?_, ?_, ?_⟩
  · exact fun v w a b hv hw => hTable.arrays v w a b (hOld v a hv) (hOld w b hw)
  · exact fun v b hv => hTable.shape v b (hOld v b hv)
  · exact fun v b hv => hTable.below v b (hOld v b hv)

/-- Dropping a reference takes at most one universe away. -/
theorem memRefDrop_store (s : State) (obj : Nat) : (s.memRefDrop obj).toStore =
    if s.refcount obj = 1 then { s.toStore with universes := Function.update s.universes obj none }
    else s.toStore := by
  simp only [State.memRefDrop]
  split_ifs <;> rfl

theorem memRefDrop_table {bound : Nat} (hTable : Table guarded s.toStore bound) (obj : Nat) :
    Table guarded (s.memRefDrop obj).toStore bound := by
  rw [memRefDrop_store]
  split_ifs
  · exact hTable.remove obj
  · exact hTable

/-- A universe that is still there has not changed. -/
theorem memRefDrop_view (s : State) (obj : Nat) {v : Nat}
    (hLive : (s.memRefDrop obj).universes v ≠ none) (i : Nat) :
    view (s.memRefDrop obj).toStore v i = view s.toStore v i := by
  rw [memRefDrop_store] at hLive ⊢
  split_ifs at hLive ⊢ with hLast
  · have hNe : v ≠ obj := fun hEq => hLive (by simp [hEq])
    simp [view, Function.update_of_ne hNe]
  · rfl

theorem memRefDrop_live (s : State) (obj : Nat) {v : Nat} {uni : UserUniverse}
    (hLive : (s.memRefDrop obj).universes v = some uni) : s.universes v = some uni := by
  rw [memRefDrop_store] at hLive
  split_ifs at hLive with hLast
  · by_cases hEq : v = obj
    · subst hEq
      simp at hLive
    · simpa [Function.update_of_ne hEq] using hLive
  · exact hLive

theorem memRefDrop_bound (s : State) (obj : Nat) : (s.memRefDrop obj).objectsCount = s.objectsCount := by
  simp only [State.memRefDrop]
  split_ifs <;> rfl

theorem create_table (hTable : Table guarded s.toStore s.objectsCount) {array : Nat} (junk : Memory)
    (hUnused : s.arrayUnused array) :
    let s' := (userUniverseCreate s (some array) junk).2
    Table guarded s'.toStore s'.objectsCount ∧
    ∀ v i, view s'.toStore v i = if v = s.objectsCount then none else view s.toStore v i := by
  intro s'
  have hPut : s'.toStore = s.toStore.put s.objectsCount (s.moveArray junk array array 0)
      ⟨DList.empty, s.universeLastId, array, 0, 0⟩ := rfl
  have hOther : ∀ v b, v ≠ s.objectsCount → s.universes v = some b → b.cells ≠ array :=
    fun v b _ hv => hUnused.ne hTable v b hv
  have hApart : Apart s.toStore s.objectsCount (s.moveArray junk array array 0) := fun v b hNe hv =>
    moveArray_frame _ _ _ _ (hOther v b hNe hv)
  rw [hPut]
  refine ⟨hTable.put hApart hOther ⟨[], ⟨Represents.empty _, by simp, Nat.le_refl _⟩, fun _ => ?_⟩
    (Nat.lt_succ_self _) (Nat.le_succ _), fun v i => ?_⟩
  · exact ⟨by simp, fun i hi => absurd hi (Nat.not_lt_zero i)⟩
  · rw [view_put hApart]
    simp [lookup]

/-- The fork denotes the same references at the same handles, where the cookie has
access. -/
theorem fork_table (hTable : Table guarded s.toStore s.objectsCount)
    (hUni : s.universes u = some uni) (e : UserEntryCookie) {array : Nat} (junk : Memory)
    (hUnused : s.arrayUnused array) :
    let s' := (userUniverseFork s uni e (some array) junk).2
    Table guarded s'.toStore s'.objectsCount ∧
    (∀ v i, view s'.toStore v i =
      if v = s.objectsCount then (view s.toStore u i).filter (userUnpinnedFor · e)
      else view s.toStore v i) ∧
    ∀ o, s'.refcount o = s.newObject.refcount o + (List.range uni.count).countP fun i =>
      forks s.toMemory uni.cells e i && (s.refs (uni.cell i)).ref = o := by
  intro s'
  have hNe : uni.cells ≠ array := hUnused.ne hTable u uni hUni
  let init : Forked := ⟨s.moveArray junk array array 0, DList.empty, s.newObject.refcount⟩
  obtain ⟨nodes, hForked⟩ := forkedUpTo_run e init rfl
    (fun other hOther => moveArray_frame s.toMemory junk array 0 hOther) hNe uni.count
  have hOther : ∀ v b, v ≠ s.objectsCount → s.universes v = some b → b.cells ≠ array :=
    fun v b _ hv => hUnused.ne hTable v b hv
  have hApart : Apart s.toStore s.objectsCount s'.toMemory := fun v b hNe hv =>
    hForked.frame b.cells (hOther v b hNe hv)
  obtain ⟨new, hPut, hCells, hCount, hShape, hComplete⟩ : ∃ new : UserUniverse,
      s'.toStore = s.toStore.put s.objectsCount s'.toMemory new ∧ new.cells = array ∧
      new.count = uni.count ∧ Shape s'.toMemory new nodes ∧ Complete s'.toMemory new nodes := by
    refine ⟨⟨_, _, _, _, _⟩, rfl, rfl, rfl, ⟨hForked.list, fun a ha => ?_, ?_⟩, fun a ha => ?_,
      fun i hi hFree => ?_⟩
    · obtain ⟨hArray, hLt, hNot⟩ := (hForked.mem_nodes a).mp ha
      have hAddr : a = ⟨array, a.index⟩ := by rw [← hArray]
      refine ⟨hArray, ?_⟩
      rw [hAddr]
      exact (hForked.inUse_eq a.index hLt).trans hNot
    · simp only [dynarrayGrowthDelta]
      omega
    · exact ((hForked.mem_nodes a).mp ha).2.1
    · exact (hForked.mem_nodes _).mpr ⟨rfl, hi, (hForked.inUse_eq i hi).symm.trans hFree⟩
  rw [hPut]
  refine ⟨hTable.put hApart (hCells ▸ hOther) ⟨nodes, hShape, fun _ => hComplete⟩
    (Nat.lt_succ_self _) (Nat.le_succ _), fun v i => ?_, hForked.refcount_eq⟩
  rw [view_put hApart]
  by_cases hNew : v = s.objectsCount
  · rw [if_pos hNew, if_pos hNew, view_of_live hUni]
    by_cases hLt : i < uni.count
    · have hUse := hForked.inUse_eq i hLt
      have hRef := hForked.refs_eq i hLt
      have hCell : new.cell i = ⟨array, i⟩ := by rw [UserUniverse.cell, hCells]
      have hForks : s'.inUse (new.cell i) = forks s.toMemory uni.cells e i := hCell ▸ hUse
      cases hCase : forks s.toMemory uni.cells e i with
      | true =>
          have hBoth := hCase
          simp only [forks, Bool.and_eq_true] at hBoth
          have hCopied : s'.refs (new.cell i) = s.refs (uni.cell i) := hCell ▸ hRef hCase
          have hStored : lookup s.toMemory uni i = some (s.refs (uni.cell i)) :=
            lookup_eq_some_iff.mpr ⟨hLt, hBoth.1, rfl⟩
          have hAuth : userUnpinnedFor (s.refs (uni.cell i)) e = true := hBoth.2
          rw [hStored, Option.filter_some, if_pos hAuth]
          exact lookup_eq_some_iff.mpr ⟨hCount ▸ hLt, hForks.trans hCase, hCopied⟩
      | false =>
          have hNone : lookup s'.toMemory new i = none := by
            simp [lookup, hForks, hCase]
          rw [hNone, eq_comm, Option.filter_eq_none_iff]
          intro ref hSome
          obtain ⟨-, hIn, hEq⟩ := lookup_eq_some_iff.mp hSome
          have hNot := hCase
          simp only [forks] at hNot
          rw [show s.inUse ⟨uni.cells, i⟩ = true from hIn, Bool.true_and] at hNot
          have hDenied : userUnpinnedFor (s.refs (uni.cell i)) e = false := hNot
          rw [← hEq, hDenied]
          decide
    · simp [lookup, hCount, hLt]
  · rw [if_neg hNew, if_neg hNew]

end Steps

/-- The universe and the handle that a call is given. -/
def Op.handle : Op → Option (Nat × Nat)
  | .dropCell u cell _ | .borrowOut u cell | .moveOut u cell | .unpin u cell _ | .pin u cell _
  | .unpinFromGroup u cell _ _ | .pinToGroup u cell _ _ => some (u, cell)
  | .moveAcross src _ cell _ _ | .borrowAcross src _ cell _ _ => some (src, cell)
  | _ => none

/-- The handle is not the one just behind the end of the array. -/
def HandleInRange (s : State) (op : Op) : Prop :=
  ∀ u cell uni, op.handle = some (u, cell) → s.universes u = some uni → cell ≠ uni.count

theorem pinCall_handle {s : State} {op : Op} {u cell : Nat} {keys : List Nat} {pin : Nat}
    (h : pinCall s op = some (u, cell, keys, pin)) : op.handle = some (u, cell) := by
  cases op <;> simp only [pinCall, Option.bind_eq_bind, Option.bind_eq_some_iff, reduceCtorEq,
    Option.some.injEq, Prod.mk.injEq] at h
  all_goals simp only [Op.handle]
  · obtain ⟨-, -, rfl, rfl, -⟩ := h
    rfl
  · obtain ⟨-, -, rfl, rfl, -⟩ := h
    rfl
  · obtain ⟨-, -, -, -, rfl, rfl, -⟩ := h
    rfl
  · obtain ⟨-, -, -, -, rfl, rfl, -⟩ := h
    rfl

section Transition

variable {guarded : Prop} {s s' : State} {op : Op} {outcome : Outcome}

/-- A handle that passed the check denotes a stored reference, unless it is the one
past the end. -/
theorem checkRef_view {u cell : Nat} {uni : UserUniverse} (hUni : s.universes u = some uni)
    (hNe : cell ≠ uni.count) (hCheck : userUniverseCheckRefNolock s.toStore uni cell = true) :
    cell < uni.count ∧ view s.toStore u cell = some (s.refs (uni.cell cell)) := by
  obtain ⟨hLe, hUse⟩ := checkRef_iff.mp hCheck
  have hLt : cell < uni.count := Nat.lt_of_le_of_ne hLe hNe
  rw [view_of_live hUni]
  exact ⟨hLt, lookup_eq_some_iff.mpr ⟨hLt, hUse, rfl⟩⟩

theorem checkRef_inside {u cell : Nat} {uni : UserUniverse} (hRange : HandleInRange s op)
    (hHandle : op.handle = some (u, cell)) (hUni : s.universes u = some uni)
    (hCheck : userUniverseCheckRefNolock s.toStore uni cell = true) :
    cell < uni.count ∧ view s.toStore u cell = some (s.refs (uni.cell cell)) :=
  checkRef_view hUni (hRange u cell uni hHandle hUni) hCheck

/-- Both moves of a pair. -/
theorem pair_table (hTable : Table guarded s.toStore s.objectsCount) {u cell cell' : Nat}
    {first second : UserRef} {heap heap' : HeapAnswer} {uni uni' uni'' : UserUniverse} {m m' : Memory}
    (hUni : s.universes u = some uni) (hValid : s.answerValid heap = true)
    (hValid' : s.answerValid heap' = true)
    (hOk : userUniverseMoveInNolock s.toStore uni first heap = .ok (cell, m, uni'))
    (hOk' : userUniverseMoveInNolock (s.toStore.put u m uni') uni' second heap' =
      .ok (cell', m', uni'')) :
    Stored guarded s.toStore u uni first cell m uni' ∧
    Stored guarded (s.toStore.put u m uni') u uni' second cell' m' uni'' ∧
    Table guarded ((s.toStore.put u m uni').put u m' uni'') s.objectsCount := by
  obtain ⟨nodes, hShape, -⟩ := hTable.shape u uni hUni
  obtain ⟨hTable', hStored⟩ := moveIn_table hTable hUni hOk (answerValid_spec hTable hShape hValid hOk)
  obtain ⟨nodes', hShape', -⟩ := hTable'.shape u uni' (put_self ..)
  have hArray : uni''.cells = uni'.cells ∨
      ∀ v b, (s.toStore.put u m uni').universes v = some b → b.cells ≠ uni''.cells := by
    rcases answerValid_spec hTable hShape' hValid' hOk' with hSame | hNew
    · exact Or.inl hSame
    · by_cases hSame : uni''.cells = uni'.cells
      · exact Or.inl hSame
      · right
        intro v b hv
        by_cases hEq : v = u
        · subst hEq
          rw [put_self] at hv
          cases hv
          exact Ne.symm hSame
        · rw [put_of_ne hEq] at hv
          exact hNew v b hv
  obtain ⟨hTable'', hStored'⟩ := moveIn_table hTable' (put_self ..) hOk' hArray
  exact ⟨hStored, hStored', hTable''⟩

/-- The first half of a pair is taken back. -/
theorem pairUndone_table (hTable : Table guarded s.toStore s.objectsCount) {u cell : Nat}
    {first : UserRef} {heap : HeapAnswer} {uni uni' : UserUniverse} {m : Memory}
    (hUni : s.universes u = some uni) (hValid : s.answerValid heap = true)
    (hOk : userUniverseMoveInNolock s.toStore uni first heap = .ok (cell, m, uni')) :
    uni'.universeId = uni.universeId ∧
    Table guarded ((s.toStore.put u m uni').freeCell u uni' cell) s.objectsCount ∧
    ∀ v i, view ((s.toStore.put u m uni').freeCell u uni' cell) v i = view s.toStore v i := by
  obtain ⟨nodes, hShape, -⟩ := hTable.shape _ _ hUni
  obtain ⟨hTable', hStored⟩ := moveIn_table hTable hUni hOk (answerValid_spec hTable hShape hValid hOk)
  obtain ⟨hTable'', hView, -⟩ := freeCell_table hTable' (put_self ..) hStored.used hStored.inside
  refine ⟨hStored.universeId_eq, hTable'', fun v i => ?_⟩
  rw [hView, hStored.view_eq]
  split_ifs with hCell hNew
  · rw [hCell.1, hCell.2, hStored.fresh]
  · exact (hCell ⟨hNew.1, hNew.2.1⟩).elim
  · rfl

/-- Moving a reference from one universe to another one. -/
theorem moveAcross_table (hTable : Table guarded s.toStore s.objectsCount) {src dst cell cell' : Nat}
    {heap : HeapAnswer} {uni dstUni dstUni' : UserUniverse} {m : Memory} {ref : UserRef}
    (hUni : s.universes src = some uni) (hDst : s.universes dst = some dstUni) (hNe : src ≠ dst)
    (hValid : s.answerValid heap = true)
    (hCheck : userUniverseCheckRefNolock s.toStore uni cell = true)
    (hInside : guarded → cell < uni.count)
    (hOk : userUniverseMoveInNolock s.toStore dstUni ref heap = .ok (cell', m, dstUni')) :
    Stored guarded s.toStore dst dstUni ref cell' m dstUni' ∧
    Table guarded ((s.toStore.put dst m dstUni').freeCell src uni cell) s.objectsCount ∧
    ∀ v i, view ((s.toStore.put dst m dstUni').freeCell src uni cell) v i =
      if v = src ∧ i = cell then none
      else if v = dst ∧ i = cell' ∧ cell' < dstUni'.count then some ref else view s.toStore v i := by
  obtain ⟨nodes, hShape, -⟩ := hTable.shape _ _ hDst
  obtain ⟨hTable', hStored⟩ :=
    moveIn_table hTable hDst hOk (answerValid_spec hTable hShape hValid hOk)
  have hSrc : (s.toStore.put dst m dstUni').universes src = some uni :=
    (put_of_ne hNe ..).trans hUni
  have hUse : (s.toStore.put dst m dstUni').inUse (uni.cell cell) = true :=
    (hStored.kept src uni hNe hUni (uni.cell cell) rfl).2.2.1.trans (checkRef_iff.mp hCheck).2
  obtain ⟨hTable'', hView, -⟩ := freeCell_table hTable' hSrc hUse hInside
  refine ⟨hStored, hTable'', fun v i => ?_⟩
  rw [hView, hStored.view_eq]

/-- The table is well formed after every call. -/
theorem transition_table (hTable : Table guarded s.toStore s.objectsCount)
    (hRange : guarded → HandleInRange s op) (h : Transition s op outcome s') :
    Table guarded s'.toStore s'.objectsCount := by
  have hInside : ∀ {u cell : Nat} {uni : UserUniverse}, op.handle = some (u, cell) →
      s.universes u = some uni → userUniverseCheckRefNolock s.toStore uni cell = true →
      guarded → cell < uni.count := fun hHandle hUni hCheck hGuarded =>
    (checkRef_inside (hRange hGuarded) hHandle hUni hCheck).1
  have hGrow : Table guarded s.toStore (s.objectsCount + 1) :=
    ⟨hTable.arrays, hTable.shape, fun u uni hUni => Nat.lt_succ_of_lt (hTable.below u uni hUni)⟩
  cases h with
  | failed status => exact hTable
  | createUniverse junk hUnused => exact (create_table hTable junk hUnused).1
  | createEntryCookie => exact hGrow
  | createGroupCookie refcount => exact hGrow
  | createObject => exact hGrow
  | addToGrp hEntry hGroup => exact hTable
  | removeFromGrp hEntry hGroup => exact hTable
  | borrowRef hHeld => exact hTable
  | @dropRef obj hHeld =>
      rw [memRefDrop_bound]
      exact memRefDrop_table (s := s.takeHeld obj) hTable obj
  | moveIn hUni hOwns hValid hOk =>
      obtain ⟨nodes, hShape, -⟩ := hTable.shape _ _ hUni
      exact (moveIn_table hTable hUni hOk (answerValid_spec hTable hShape hValid hOk)).1
  | moveInPair hUni hFirst hSecond hTypes hValid hValid' hOk hOk' =>
      exact (pair_table hTable hUni hValid hValid' hOk hOk').2.2
  | pairUndone status hUni hTypes hValid hOk => exact (pairUndone_table hTable hUni hValid hOk).2.1
  | dropCell hUni hEntry hCheck hAuth =>
      rw [memRefDrop_bound]
      refine memRefDrop_table ?_ _
      exact (freeCell_table hTable hUni (checkRef_iff.mp hCheck).2 (hInside rfl hUni hCheck)).1
  | borrowOut hUni hCheck => exact hTable
  | moveOut hUni hCheck =>
      exact (freeCell_table hTable hUni (checkRef_iff.mp hCheck).2 (hInside rfl hUni hCheck)).1
  | moveAcross hUni hDst hEntry hNe hValid hCheck hAuth hOk =>
      exact (moveAcross_table hTable hUni hDst hNe hValid hCheck (hInside rfl hUni hCheck) hOk).2.1
  | borrowAcross hUni hDst hEntry hNe hValid hCheck hAuth hOk =>
      obtain ⟨nodes, hShape, -⟩ := hTable.shape _ _ hDst
      exact (moveIn_table hTable hDst hOk (answerValid_spec hTable hShape hValid hOk)).1
  | borrowUndone status hUni hCheck =>
      rw [memRefDrop_bound]
      exact memRefDrop_table (s := s.memRefBorrow _) hTable _
  | setPin hCall hUni hCheck hKey => exact (setPin_table hTable hUni _ _).1
  | fork junk hUni hEntry hUnused => exact (fork_table hTable hUni _ junk hUnused).1

end Transition

theorem initial_table (guarded : Prop) (m : Memory) :
    Table guarded (initial m).toStore (initial m).objectsCount := by
  refine ⟨?_, ?_, ?_⟩
  all_goals simp [initial]

end Ricerca.Universe
