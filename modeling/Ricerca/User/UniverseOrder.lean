import Mathlib.Data.Nat.Count
import Ricerca.User.UniverseGraph

/-! Containment of universes. `user_universe_move_in_nolock` compares the ids of the
two universes before it stores a reference to one of them in the other. The order
that it is there for survives every call but two: a universe can be stored in
itself, and a fork has a newer id than the universes whose references it copies. -/
namespace Ricerca.Universe

open Ricerca.Foundation Ricerca.Cookie

/-- The graph of a state of the kernel. -/
def graph (s : State) : Graph where
  refs u i := view s.toStore u i
  ids u := (s.universes u).map (·.universeId)
  held := s.held
  refcount := s.refcount
  objectsCount := s.objectsCount
  nextId := s.universeLastId

section Graph

variable {s : State} {u cell obj : Nat} {uni uni' : UserUniverse} {ref : UserRef} {m : Memory}

theorem graph_ids_of_live (hUni : s.universes u = some uni) : (graph s).ids u = some uni.universeId := by
  simp [graph, hUni]

theorem graph_ids_isSome : ((graph s).ids u).isSome ↔ s.universes u ≠ none := by
  simp [graph, Option.ne_none_iff_isSome]

theorem put_ids {st : Store} (hUni : st.universes u = some uni)
    (hId : uni'.universeId = uni.universeId) :
    (fun v => ((st.put u m uni').universes v).map (·.universeId)) =
      fun v => (st.universes v).map (·.universeId) := by
  funext v
  by_cases hEq : v = u
  · subst hEq
    simp [hUni, hId]
  · rw [put_of_ne hEq]

theorem freeCell_ids {st : Store} (hUni : st.universes u = some uni) :
    (fun v => ((st.freeCell u uni cell).universes v).map (·.universeId)) =
      fun v => (st.universes v).map (·.universeId) :=
  put_ids hUni rfl

/-- How often `p` holds below `n`. -/
theorem ncard_range (n : Nat) (p : Nat → Bool) :
    {i | i < n ∧ p i = true}.ncard = (List.range n).countP p := by
  have hSet : {i | i < n ∧ p i = true} = ((Finset.range n).filter fun i => p i = true : Finset Nat) := by
    ext i
    simp
  rw [hSet, Set.ncard_coe_finset, ← Nat.count_eq_card_filter_range]
  simp [Nat.count]

theorem cellRefs_eq (hUni : s.universes u = some uni) (obj : Nat) :
    s.cellRefs uni obj = ((graph s).inboundFrom u obj).ncard := by
  rw [State.cellRefs, ← ncard_range]
  congr 1
  ext i
  simp only [Graph.inboundFrom, Graph.inbound, graph, Set.mem_ofPred_eq, view_of_live hUni,
    lookup_eq_some_iff]
  constructor
  · rintro ⟨hLt, hIn⟩
    simp only [Bool.and_eq_true, decide_eq_true_eq] at hIn
    exact ⟨_, ⟨hLt, hIn.1, rfl⟩, hIn.2⟩
  · rintro ⟨r, ⟨hLt, hUse, rfl⟩, hr⟩
    exact ⟨hLt, by simp [hUse, hr]⟩

theorem graph_destroy (s : State) (obj : Nat) : graph (s.destroy obj) = (graph s).destroy obj := by
  refine Graph.ext ?_ ?_ ?_ rfl rfl rfl
  · funext v i
    by_cases hEq : v = obj
    · subst hEq
      simp [graph, Graph.destroy, view, State.destroy]
    · simp [graph, Graph.destroy, view, State.destroy, Function.update_of_ne hEq]
  · funext v
    by_cases hEq : v = obj
    · subst hEq
      simp [graph, Graph.destroy, State.destroy]
    · simp [graph, Graph.destroy, State.destroy, Function.update_of_ne hEq]
  · funext o
    show (s.destroy obj).held o = s.held o + ((graph s).inboundFrom obj o).ncard
    cases hObj : s.universes obj with
    | none =>
        have hNone : (graph s).inboundFrom obj o = ∅ := by
          ext i
          simp [Graph.inboundFrom, Graph.inbound, graph, view_of_dead hObj]
        simp [State.destroy, hObj, hNone]
    | some uni => simp [State.destroy, hObj, cellRefs_eq hObj o]

/-- Dropping a held reference. -/
theorem graph_drop (s : State) (obj : Nat) :
    graph ((s.takeHeld obj).memRefDrop obj) = (graph s).drop obj := by
  simp only [State.memRefDrop, Graph.drop]
  have hCount : (s.takeHeld obj).refcount obj = (graph s).refcount obj := rfl
  rw [hCount]
  split_ifs
  · rw [graph_destroy]
    rfl
  · rfl

/-- Dropping a reference that was just taken into the hand. -/
theorem graph_drop_addHeld (s : State) (obj : Nat) :
    graph (s.memRefDrop obj) = ((graph s).addHeld obj).drop obj := by
  have hSame : (s.addHeld obj).takeHeld obj = s := by
    simp [State.addHeld, State.takeHeld]
  have hDrop := graph_drop (s.addHeld obj) obj
  rw [hSame] at hDrop
  exact hDrop

/-- A reference stored in a universe. -/
theorem graph_put (hUni : s.universes u = some uni)
    (hStored : Stored True s.toStore u uni ref cell m uni') :
    graph { s with toStore := s.toStore.put u m uni' } = (graph s).setRef u cell (some ref) := by
  refine Graph.ext ?_ (put_ids hUni hStored.universeId_eq) rfl rfl rfl rfl
  funext v i
  show view (s.toStore.put u m uni') v i = _
  rw [hStored.view_eq]
  simp only [hStored.inside trivial, and_true]
  rfl

theorem graph_freeCell (hUni : s.universes u = some uni)
    (hView : ∀ v i, view (s.toStore.freeCell u uni cell) v i =
      if v = u ∧ i = cell then none else view s.toStore v i) :
    graph { s with toStore := s.toStore.freeCell u uni cell } = (graph s).setRef u cell none := by
  refine Graph.ext ?_ (freeCell_ids hUni) rfl rfl rfl rfl
  funext v i
  exact hView v i

theorem graph_create (hTable : Table True s.toStore s.objectsCount) {array : Nat} (junk : Memory)
    (hUnused : s.arrayUnused array) :
    graph (userUniverseCreate s (some array) junk).2 = (graph s).newUniverse := by
  refine Graph.ext ?_ ?_ rfl rfl rfl rfl
  · funext v i
    show view _ v i = view s.toStore v i
    rw [(create_table hTable junk hUnused).2]
    split_ifs with hEq
    · cases hLive : s.universes v with
      | none => rw [view_of_dead hLive]
      | some uni => exact absurd (hTable.below v uni hLive) (hEq ▸ Nat.lt_irrefl _)
    · rfl
  · funext v
    by_cases hEq : v = s.objectsCount
    · subst hEq
      simp [graph, Graph.newUniverse, userUniverseCreate]
    · simp [graph, Graph.newUniverse, userUniverseCreate, Function.update_of_ne hEq]

/-- A pair whose second reference did not fit. -/
theorem graph_pairUndone (hUni : s.universes u = some uni) (hId : uni'.universeId = uni.universeId)
    (hView : ∀ v i, view ((s.toStore.put u m uni').freeCell u uni' cell) v i = view s.toStore v i) :
    graph { s with toStore := (s.toStore.put u m uni').freeCell u uni' cell } = graph s :=
  Graph.ext (funext fun v => funext fun i => hView v i)
    ((freeCell_ids (put_self ..)).trans (put_ids hUni hId)) rfl rfl rfl rfl

/-- A reference moved from one universe to another one. -/
theorem graph_moveAcross {dst cell' : Nat} {dstUni dstUni' : UserUniverse}
    (hUni : s.universes u = some uni) (hDst : s.universes dst = some dstUni) (hNe : u ≠ dst)
    (hStored : Stored True s.toStore dst dstUni ref cell' m dstUni')
    (hView : ∀ v i, view ((s.toStore.put dst m dstUni').freeCell u uni cell) v i =
      if v = u ∧ i = cell then none
      else if v = dst ∧ i = cell' ∧ cell' < dstUni'.count then some ref else view s.toStore v i) :
    graph { s with toStore := (s.toStore.put dst m dstUni').freeCell u uni cell } =
      ((graph s).take u cell ref).store dst cell' ref := by
  have hSrc : (s.toStore.put dst m dstUni').universes u = some uni := (put_of_ne hNe ..).trans hUni
  refine Graph.ext ?_ ((freeCell_ids hSrc).trans (put_ids hDst hStored.universeId_eq)) ?_ rfl rfl rfl
  · funext v i
    refine (hView v i).trans ?_
    simp only [Graph.store, Graph.takeHeld, Graph.take, Graph.addHeld, setRef_refs,
      hStored.inside trivial, and_true]
    split_ifs with hOld hBoth
    · exact absurd (hOld.1.symm.trans hBoth.1) hNe
    · rfl
    · rfl
    · rfl
  · simp [graph, Graph.store, Graph.takeHeld, Graph.take, Graph.addHeld, Graph.setRef]

theorem graph_setPin {pin : Nat} (hRef : view s.toStore u cell = some ref)
    (hView : ∀ v i, view { s.toStore with
        toMemory := s.toMemory.setRef (uni.cell cell) { ref with pinCookie := pin } } v i =
      if v = u ∧ i = cell then (view s.toStore v i).map fun _ => { ref with pinCookie := pin }
      else view s.toStore v i) :
    graph { s with toMemory := s.toMemory.setRef (uni.cell cell) { ref with pinCookie := pin } } =
      (graph s).setRef u cell (some { ref with pinCookie := pin }) := by
  refine Graph.ext ?_ rfl rfl rfl rfl rfl
  funext v i
  refine (hView v i).trans ?_
  rw [setRef_refs]
  split_ifs with hCell
  · rw [hCell.1, hCell.2, hRef]
    rfl
  · rfl

/-- The references that a fork copies. -/
def forkedRefs (s : State) (src : Nat) (e : UserEntryCookie) (i : Nat) : Option UserRef :=
  (view s.toStore src i).filter (userUnpinnedFor · e)

theorem forkedRefs_finite (hUni : s.universes u = some uni) (e : UserEntryCookie) :
    {i | forkedRefs s u e i ≠ none}.Finite := by
  refine (Set.finite_lt_nat uni.count).subset fun i hi => ?_
  by_contra hGe
  apply hi
  have hLookup : view s.toStore u i = none := by
    rw [view_of_live hUni, lookup, if_neg fun hIn => hGe hIn.1]
  rw [forkedRefs, hLookup]
  rfl

/-- Every reference that a fork copies is counted. -/
theorem fork_counted (hTable : Table guarded s.toStore s.objectsCount)
    (hUni : s.universes u = some uni) (e : UserEntryCookie) {array : Nat} (junk : Memory)
    (hUnused : s.arrayUnused array) (o : Nat) :
    (userUniverseFork s uni e (some array) junk).2.refcount o =
      s.newObject.refcount o + {i | ∃ r, forkedRefs s u e i = some r ∧ r.ref = o}.ncard := by
  rw [(fork_table hTable hUni e junk hUnused).2.2 o, ← ncard_range]
  congr 2
  ext i
  simp only [Set.mem_ofPred_eq, forkedRefs, Option.filter_eq_some_iff, view_of_live hUni,
    lookup_eq_some_iff, forks, Bool.and_eq_true, decide_eq_true_eq]
  constructor
  · rintro ⟨hLt, ⟨hUse, hAuth⟩, hRef⟩
    exact ⟨_, ⟨⟨hLt, hUse, rfl⟩, hAuth⟩, hRef⟩
  · rintro ⟨r, ⟨⟨hLt, hUse, rfl⟩, hAuth⟩, hRef⟩
    exact ⟨hLt, ⟨hUse, hAuth⟩, hRef⟩

theorem graph_fork (hTable : Table True s.toStore s.objectsCount) (hUni : s.universes u = some uni)
    (e : UserEntryCookie) {array : Nat} (junk : Memory) (hUnused : s.arrayUnused array) :
    graph (userUniverseFork s uni e (some array) junk).2 =
      { (graph s).newUniverse with
        refs := Function.update (graph s).refs s.objectsCount (forkedRefs s u e)
        refcount := (userUniverseFork s uni e (some array) junk).2.refcount } := by
  obtain ⟨-, hView, -⟩ := fork_table hTable hUni e junk hUnused
  refine Graph.ext ?_ ?_ rfl rfl rfl rfl
  · funext v i
    refine (hView v i).trans ?_
    by_cases hEq : v = s.objectsCount
    · subst hEq
      simp [forkedRefs]
    · simp [hEq, graph]
  · funext v
    by_cases hEq : v = s.objectsCount
    · subst hEq
      simp [graph, userUniverseFork, Graph.newUniverse]
    · simp [graph, userUniverseFork, Graph.newUniverse, Function.update_of_ne hEq]

/-- Nothing is in a universe before it exists. -/
theorem view_new (hTable : Table True s.toStore s.objectsCount) (i : Nat) :
    view s.toStore s.objectsCount i = none := by
  cases hLive : s.universes s.objectsCount with
  | none => exact view_of_dead hLive i
  | some new => exact absurd (hTable.below _ new hLive) (Nat.lt_irrefl _)

/-- The check lets only references to the universe itself and to newer ones pass. -/
theorem order_of_check (hSound : Sound (graph s)) (hUni : s.universes u = some uni)
    (hCheck : violatesOrder s.toStore uni ref = false)
    (hType : ref.isUniverse = true ↔ ((graph s).ids ref.ref).isSome)
    (hNot : ¬(ref.isUniverse = true ∧ ref.ref = u)) {id : UInt64}
    (hId : (graph s).ids ref.ref = some id) : uni.universeId < id := by
  have hUniverse : ref.isUniverse = true := hType.mpr (Option.isSome_of_eq_some hId)
  have hIds : (s.universes ref.ref).map (·.universeId) = some id := hId
  obtain ⟨target, hTarget, rfl⟩ := Option.map_eq_some_iff.mp hIds
  simp only [violatesOrder, hUniverse, hTarget, Option.any_some, Bool.true_and, decide_eq_false_iff_not]
    at hCheck
  have hNe : uni.universeId ≠ target.universeId := by
    intro hSame
    have hOwn : (graph s).ids u = some target.universeId := hSame ▸ graph_ids_of_live hUni
    exact hNot ⟨hUniverse, hSound.unique _ _ _ hId hOwn⟩
  exact UInt64.lt_of_le_of_ne (UInt64.not_lt.mp hCheck) hNe

/-- A held reference that passed the check is stored. -/
theorem Sound.put (hSound : Sound (graph s)) (hUni : s.universes u = some uni)
    (hStored : Stored True s.toStore u uni ref cell m uni')
    (hHeld : 0 < s.held ref.ref) (hType : ref.isUniverse = true ↔ ((graph s).ids ref.ref).isSome)
    (hNot : ¬(ref.isUniverse = true ∧ ref.ref = u)) :
    Sound (graph ({ s with toStore := s.toStore.put u m uni' }.takeHeld ref.ref)) := by
  have hGraph : graph ({ s with toStore := s.toStore.put u m uni' }.takeHeld ref.ref) =
      (graph s).store u cell ref := congrArg (Graph.takeHeld · ref.ref) (graph_put hUni hStored)
  rw [hGraph]
  exact hSound.store hStored.fresh (graph_ids_of_live hUni) hHeld hType
    fun id hId => order_of_check hSound hUni hStored.order hType hNot hId

end Graph

/-- The calls that keep the order: none stores a reference to the destination in
itself, and only references to other objects than universes are copied by a fork. -/
def KeepsOrder (s : State) : Op → Prop
  | .moveIn u ref _ => ¬(ref.isUniverse = true ∧ ref.ref = u)
  | .moveAcross src dst cell _ _ | .borrowAcross src dst cell _ _ =>
      ∀ ref, view s.toStore src cell = some ref → ¬(ref.isUniverse = true ∧ ref.ref = dst)
  | .fork src entry _ _ => ∀ e i ref, s.entries entry = some e → view s.toStore src i = some ref →
      userUnpinnedFor ref e = true → ref.isUniverse = false
  | _ => True

/-- A call that makes a universe does not wrap `user_universe_last_id` around. -/
def IdsLeft (s : State) : Op → Prop
  | .createUniverse _ _ | .fork _ _ _ _ => s.universeLastId.toNat + 1 < 2 ^ 64
  | _ => True

section Step

variable {s s' : State} {op : Op} {outcome : Outcome}

theorem lt_add_one_of_left {id : UInt64} (hLeft : id.toNat + 1 < 2 ^ 64) : id < id + 1 := by
  rw [UInt64.lt_iff_toNat_lt, UInt64.toNat_add, UInt64.toNat_one, Nat.mod_eq_of_lt hLeft]
  exact Nat.lt_succ_self _

theorem ownsRef_spec {ref : UserRef} (h : s.ownsRef ref = true) :
    0 < s.held ref.ref ∧ (ref.isUniverse = true ↔ ((graph s).ids ref.ref).isSome) := by
  simp only [State.ownsRef, Bool.and_eq_true, decide_eq_true_eq, beq_iff_eq] at h
  refine ⟨h.1, ?_⟩
  rw [← h.2]
  simp [graph]

/-- The fork of a universe that holds references to other objects only. -/
theorem sound_fork (hTable : Table True s.toStore s.objectsCount) (hSound : Sound (graph s))
    (hLeft : s.universeLastId < s.universeLastId + 1)
    {src array : Nat} {uni : UserUniverse} (hUni : s.universes src = some uni) (e : UserEntryCookie)
    (junk : Memory) (hUnused : s.arrayUnused array)
    (hPlain : ∀ i ref, view s.toStore src i = some ref → userUnpinnedFor ref e = true →
      ref.isUniverse = false) :
    Sound (graph (userUniverseFork s uni e (some array) junk).2) := by
  obtain ⟨-, -, hCount⟩ := fork_table hTable hUni e junk hUnused
  have hCopied : ∀ i, forks s.toMemory uni.cells e i = true → i < uni.count →
      (s.refs (uni.cell i)).ref < s.objectsCount ∧ (graph s).ids (s.refs (uni.cell i)).ref = none := by
    intro i hForks hLt
    simp only [forks, Bool.and_eq_true] at hForks
    have hSome : view s.toStore src i = some (s.refs (uni.cell i)) := by
      rw [view_of_live hUni]
      exact lookup_eq_some_iff.mpr ⟨hLt, hForks.1, rfl⟩
    obtain ⟨hBelow, hType⟩ := hSound.typed src i _ hSome
    refine ⟨hBelow, ?_⟩
    rw [hPlain i _ hSome hForks.2] at hType
    simpa using hType
  have hNone : ∀ v, v = s.objectsCount ∨ ((graph s).ids v).isSome →
      (List.range uni.count).countP (fun i =>
        forks s.toMemory uni.cells e i && (s.refs (uni.cell i)).ref = v) = 0 := by
    intro v hv
    rw [List.countP_eq_zero]
    intro i hi hBoth
    simp only [Bool.and_eq_true, decide_eq_true_eq] at hBoth
    obtain ⟨hBelow, hDead⟩ := hCopied i hBoth.1 (List.mem_range.mp hi)
    rcases hv with rfl | hLive
    · exact absurd hBelow (hBoth.2 ▸ Nat.lt_irrefl _)
    · rw [← hBoth.2, hDead] at hLive
      cases hLive
  have hNew : (graph s).newUniverse.ids s.objectsCount = some s.universeLastId := Function.update_self ..
  have hFilled : Sound { (graph s).newUniverse with
      refs := Function.update (graph s).refs s.objectsCount (forkedRefs s src e) } := by
    refine (hSound.newUniverse hLeft).fill (Option.isSome_of_eq_some hNew) (view_new hTable) (fun i r hCopy => ?_)
      (forkedRefs_finite hUni e)
    rw [forkedRefs, Option.filter_eq_some_iff] at hCopy
    have hType := hPlain i r hCopy.1 hCopy.2
    obtain ⟨hBelow, hTyped⟩ := hSound.typed src i r hCopy.1
    refine ⟨Nat.lt_succ_of_lt hBelow, hType, ?_⟩
    show Function.update (graph s).ids (graph s).objectsCount _ r.ref = none
    rw [Function.update_of_ne (Nat.ne_of_lt hBelow)]
    simpa [hType] using hTyped
  rw [graph_fork hTable hUni e junk hUnused]
  refine hFilled.setCounts (fun v hv => ⟨rfl, ?_⟩) (hSound.newUniverse hLeft).known
  rw [hCount]
  refine (congrArg (s.newObject.refcount v + ·) (hNone v ?_)).trans (Nat.add_zero _)
  by_cases hEq : v = s.objectsCount
  · exact Or.inl hEq
  · refine Or.inr ?_
    have hSame : (graph s).newUniverse.ids v = (graph s).ids v := Function.update_of_ne hEq ..
    exact hSame ▸ hv

/-- Every call that keeps the order keeps the graph sound. -/
theorem sound_transition (hTable : Table True s.toStore s.objectsCount)
    (hRange : HandleInRange s op) (hLeft : IdsLeft s op) (hKeeps : KeepsOrder s op)
    (hSound : Sound (graph s)) (h : Transition s op outcome s') : Sound (graph s') := by
  cases h with
  | failed status => exact hSound
  | @createUniverse array junk hUnused =>
      rw [graph_create hTable junk hUnused]
      exact hSound.newUniverse (lt_add_one_of_left hLeft)
  | createEntryCookie => exact hSound.newObject 1
  | createGroupCookie refcount =>
      have hGraph := hSound.newObject refcount
      exact hGraph
  | createObject => exact hSound.newObject 1
  | addToGrp hEntry hGroup => exact hSound
  | removeFromGrp hEntry hGroup => exact hSound
  | borrowRef hHeld => exact hSound.borrow (hSound.known _ hHeld)
  | dropRef hHeld =>
      rw [graph_drop]
      exact hSound.drop hHeld
  | moveIn hUni hOwns hValid hOk =>
      obtain ⟨nodes, hShape, -⟩ := hTable.shape _ _ hUni
      obtain ⟨-, hStored⟩ := moveIn_table hTable hUni hOk (answerValid_spec hTable hShape hValid hOk)
      obtain ⟨hHeld, hType⟩ := ownsRef_spec hOwns
      exact hSound.put hUni hStored hHeld hType hKeeps
  | @moveInPair u cell cell' first second heap heap' uni uni' uni'' m m' hUni hFirst hSecond hTypes
      hValid hValid' hOk hOk' =>
      obtain ⟨hStored, hStored', -⟩ := pair_table hTable hUni hValid hValid' hOk hOk'
      obtain ⟨hHeld, hType⟩ := ownsRef_spec hFirst
      obtain ⟨hHeld', hType'⟩ := ownsRef_spec hSecond
      have hOnce := hSound.put hUni hStored hHeld hType (by simp [hTypes.1])
      have hIds : (graph ({ s with toStore := s.toStore.put u m uni' }.takeHeld first.ref)).ids =
          (graph s).ids := put_ids hUni hStored.universeId_eq
      refine hOnce.put (put_self ..) hStored' hHeld' ?_ (by simp [hTypes.2])
      rw [hIds]
      exact hType'
  | pairUndone status hUni hTypes hValid hOk =>
      obtain ⟨hId, -, hView⟩ := pairUndone_table hTable hUni hValid hOk
      rw [graph_pairUndone hUni hId hView]
      exact hSound
  | @dropCell u cell entry uni e hUni hEntry hCheck hAuth =>
      obtain ⟨hLt, hStoredAt⟩ := checkRef_inside hRange rfl hUni hCheck
      obtain ⟨-, hView, -⟩ := freeCell_table hTable hUni (checkRef_iff.mp hCheck).2 fun _ => hLt
      rw [graph_drop_addHeld, graph_freeCell hUni hView]
      refine (hSound.take hStoredAt).drop ?_
      simp [Graph.take, Graph.addHeld]
  | borrowOut hUni hCheck =>
      obtain ⟨-, hStoredAt⟩ := checkRef_inside hRange rfl hUni hCheck
      exact hSound.borrow (hSound.typed _ _ _ hStoredAt).1
  | @moveOut u cell uni hUni hCheck =>
      obtain ⟨hLt, hStoredAt⟩ := checkRef_inside hRange rfl hUni hCheck
      obtain ⟨-, hView, -⟩ := freeCell_table hTable hUni (checkRef_iff.mp hCheck).2 fun _ => hLt
      have hTaken := hSound.take hStoredAt
      rw [Graph.take, ← graph_freeCell hUni hView] at hTaken
      exact hTaken
  | @moveAcross src dst cell entry cell' heap uni dstUni dstUni' e m hUni hDst hEntry hNe hValid hCheck
      hAuth hOk =>
      obtain ⟨hLt, hStoredAt⟩ := checkRef_inside hRange rfl hUni hCheck
      obtain ⟨hStored, -, hView⟩ :=
        moveAcross_table hTable hUni hDst hNe hValid hCheck (fun _ => hLt) hOk
      obtain ⟨-, hType⟩ := hSound.typed _ _ _ hStoredAt
      have hFresh : ((graph s).take src cell (s.refs (uni.cell cell))).refs dst cell' = none := by
        simp only [Graph.take, Graph.addHeld, setRef_refs]
        split_ifs
        · rfl
        · exact hStored.fresh
      have hMoved := (hSound.take hStoredAt).store hFresh (graph_ids_of_live hDst)
        (by simp [Graph.take, Graph.addHeld]) hType
        fun id hId => order_of_check hSound hDst hStored.order hType (hKeeps _ hStoredAt) hId
      rw [graph_moveAcross hUni hDst hNe hStored hView]
      exact hMoved
  | @borrowAcross src dst cell entry cell' heap uni dstUni dstUni' e m hUni hDst hEntry hNe hValid
      hCheck hAuth hOk =>
      obtain ⟨-, hStoredAt⟩ := checkRef_inside hRange rfl hUni hCheck
      obtain ⟨hBelow, hType⟩ := hSound.typed _ _ _ hStoredAt
      obtain ⟨nodes, hShape, -⟩ := hTable.shape _ _ hDst
      obtain ⟨-, hStored⟩ := moveIn_table hTable hDst hOk (answerValid_spec hTable hShape hValid hOk)
      have hBorrowed : Sound (graph ((s.memRefBorrow (s.refs (uni.cell cell)).ref).addHeld
          (s.refs (uni.cell cell)).ref)) := hSound.borrow hBelow
      have hPut := hBorrowed.put hDst hStored (by simp [State.addHeld]) hType (hKeeps _ hStoredAt)
      refine (congrArg (fun t => Sound (graph t)) ?_).mp hPut
      simp [State.addHeld, State.takeHeld, State.memRefBorrow]
  | @borrowUndone src dst cell entry heap uni status hUni hCheck =>
      obtain ⟨-, hStoredAt⟩ := checkRef_inside hRange rfl hUni hCheck
      have hBorrowed := hSound.borrow (hSound.typed _ _ _ hStoredAt).1
      rw [graph_drop_addHeld]
      refine hBorrowed.drop ?_
      simp [Graph.borrow, Graph.addHeld]
  | @setPin op u cell uni keys pin hCall hUni hCheck hKey =>
      obtain ⟨-, hStoredAt⟩ := checkRef_inside hRange (pinCall_handle hCall) hUni hCheck
      obtain ⟨-, hView⟩ := setPin_table hTable hUni cell
        { s.refs (uni.cell cell) with pinCookie := pin }
      rw [graph_setPin hStoredAt hView]
      exact hSound.repin hStoredAt pin
  | fork junk hUni hEntry hUnused =>
      exact sound_fork hTable hSound (lt_add_one_of_left hLeft) hUni _ junk hUnused
        fun i ref => hKeeps _ i ref hEntry

/-- A universe refers only to universes with greater ids. -/
def Ordered (s : State) : Prop :=
  ∀ u uni i ref, s.universes u = some uni → view s.toStore u i = some ref → ref.isUniverse = true →
    ∃ target, s.universes ref.ref = some target ∧ uni.universeId < target.universeId

theorem Sound.ordered (hSound : Sound (graph s)) : Ordered s := by
  intro u uni i ref hUni hView hType
  obtain ⟨id, id', hId, hId', hLt⟩ := hSound.contains_lt ⟨i, ref, hView, hType, rfl⟩
  have hTarget : (s.universes ref.ref).map (·.universeId) = some id' := hId'
  obtain ⟨target, hLive, rfl⟩ := Option.map_eq_some_iff.mp hTarget
  rw [graph_ids_of_live hUni, Option.some.injEq] at hId
  exact ⟨target, hLive, hId ▸ hLt⟩

/-- A universe that refers to itself is not ordered. -/
theorem not_ordered_of_self {u i : Nat} {uni : UserUniverse} {ref : UserRef}
    (hUni : s.universes u = some uni) (hView : view s.toStore u i = some ref)
    (hType : ref.isUniverse = true) (hSelf : ref.ref = u) : ¬Ordered s := by
  intro hOrdered
  obtain ⟨target, hLive, hLt⟩ := hOrdered u uni i ref hUni hView hType
  rw [hSelf, hUni, Option.some.injEq] at hLive
  exact absurd hLt (hLive ▸ UInt64.lt_irrefl _)

/-- Every other call breaks the order, if it succeeds. -/
theorem not_ordered_transition (hTable : Table True s.toStore s.objectsCount)
    (hRange : HandleInRange s op) (hSound : Sound (graph s)) (h : Transition s op outcome s')
    (hDone : ∀ status, outcome ≠ .failed status) (hNot : ¬KeepsOrder s op) : ¬Ordered s' := by
  cases h with
  | failed status => exact absurd rfl (hDone status)
  | pairUndone status hUni hTypes hValid hOk => exact absurd rfl (hDone status)
  | borrowUndone status hUni hCheck => exact absurd rfl (hDone status)
  | moveIn hUni hOwns hValid hOk =>
      obtain ⟨nodes, hShape, -⟩ := hTable.shape _ _ hUni
      obtain ⟨-, hStored⟩ := moveIn_table hTable hUni hOk (answerValid_spec hTable hShape hValid hOk)
      obtain ⟨hType, hSelf⟩ := not_not.mp hNot
      exact not_ordered_of_self (put_self ..) hStored.view_self hType hSelf
  | @moveAcross src dst cell entry cell' heap uni dstUni dstUni' e m hUni hDst hEntry hNe hValid hCheck
      hAuth hOk =>
      obtain ⟨hLt, hStoredAt⟩ := checkRef_inside hRange rfl hUni hCheck
      obtain ⟨hStored, -, hView⟩ :=
        moveAcross_table hTable hUni hDst hNe hValid hCheck (fun _ => hLt) hOk
      simp only [KeepsOrder, hStoredAt, Option.some.injEq, forall_eq', not_not] at hNot
      have hLive : ((s.toStore.put dst m dstUni').freeCell src uni cell).universes dst = some dstUni' := by
        rw [freeCell_eq, put_of_ne (Ne.symm hNe), put_self]
      refine not_ordered_of_self hLive ((hView dst cell').trans ?_) hNot.1 hNot.2
      rw [if_neg fun hCell => hNe hCell.1.symm, if_pos ⟨rfl, rfl, hStored.inside trivial⟩]
  | borrowAcross hUni hDst hEntry hNe hValid hCheck hAuth hOk =>
      obtain ⟨-, hStoredAt⟩ := checkRef_inside hRange rfl hUni hCheck
      obtain ⟨nodes, hShape, -⟩ := hTable.shape _ _ hDst
      obtain ⟨-, hStored⟩ := moveIn_table hTable hDst hOk (answerValid_spec hTable hShape hValid hOk)
      simp only [KeepsOrder, hStoredAt, Option.some.injEq, forall_eq', not_not] at hNot
      exact not_ordered_of_self (put_self ..) hStored.view_self hNot.1 hNot.2
  | @fork src entry array uni e junk hUni hEntry hUnused =>
      obtain ⟨-, hView, -⟩ := fork_table hTable hUni e junk hUnused
      simp only [KeepsOrder, not_forall, Bool.not_eq_false] at hNot
      obtain ⟨e', i, ref, hEntry', hSome, hAuth, hType⟩ := hNot
      obtain rfl : e = e' := Option.some.inj (hEntry.symm.trans hEntry')
      have hBelow := (hSound.typed src i ref hSome).1
      intro hOrdered
      obtain ⟨target, hLive, hLt⟩ := hOrdered s.objectsCount _ i ref (Function.update_self ..)
        ((hView _ _).trans (by simp [hSome, Option.filter, hAuth])) hType
      have hOld : s.universes ref.ref = some target := by
        rw [← hLive]
        exact (Function.update_of_ne (Nat.ne_of_lt hBelow) ..).symm
      have hId : target.universeId < s.universeLastId := (hSound.issued _ _ (graph_ids_of_live hOld)).2
      exact UInt64.lt_asymm hLt hId
  | setPin hCall hUni hCheck hKey => cases op <;> first | exact absurd trivial hNot | cases hCall
  | _ => exact absurd trivial hNot

/-- Dropping the last reference of all takes a universe away. -/
theorem dropRef_frees (hSound : Sound (graph s)) {u : Nat} (hLive : s.universes u ≠ none)
    (hHeld : s.held u = 1) (hOut : ∀ v, ¬(graph s).Contains v u) :
    ∃ s', exec s (.dropRef u) = some (.done, s') ∧ s'.universes u = none := by
  refine ⟨(s.takeHeld u).memRefDrop u, by simp [exec, hHeld], ?_⟩
  have hSome : ((graph s).ids u).isSome := graph_ids_isSome.mpr hLive
  have hEmpty : (graph s).inbound u = ∅ := by
    ext ⟨v, i⟩
    simp only [Set.mem_empty_iff_false, iff_false]
    rintro ⟨r, hRef, rfl⟩
    exact hOut v ⟨i, r, hRef, (hSound.typed v i r hRef).2.mpr hSome, rfl⟩
  have hCount : s.refcount u = 1 := by
    have hCounted : s.refcount u = s.held u + ((graph s).inbound u).ncard := hSound.counted u hSome
    rw [hCounted, hHeld, hEmpty, Set.ncard_empty]
  have hCount' : (s.takeHeld u).refcount u = 1 := hCount
  have hStore := memRefDrop_store (s.takeHeld u) u
  rw [if_pos hCount'] at hStore
  rw [hStore]
  exact Function.update_self ..

end Step

/-- The calls of a run that keeps the order. -/
def orderly (m : Memory) : System State (Op × Outcome) :=
  (system m).restrict fun s label =>
    HandleInRange s label.1 ∧ IdsLeft s label.1 ∧ KeepsOrder s label.1

theorem orderly_invariant {m : Memory} {trace : List (Op × Outcome)} {s : State}
    (run : (orderly m).Execution trace s) :
    Table True s.toStore s.objectsCount ∧ Sound (graph s) := by
  refine run.stateInvariant (P := fun s => Table True s.toStore s.objectsCount ∧ Sound (graph s)) ?_ ?_
  · intro s hInit
    cases hInit
    refine ⟨initial_table True m, ?_, ?_, ?_, ?_, ?_, ?_, fun obj => ?_, ?_, ?_⟩
    all_goals simp [Graph.inbound, graph, view, initial]
  · rintro s label s' ⟨hTable, hSound⟩ ⟨⟨hRange, hLeft, hKeeps⟩, hExec⟩
    have hStep := exec_transition hExec
    exact ⟨transition_table hTable (fun _ => hRange) hStep,
      sound_transition hTable hRange hLeft hKeeps hSound hStep⟩

/-- As long as all calls keep the order and ids are left, universes are ordered, none contains
itself, each one is held from outside or inside one that is, and dropping the last reference
frees it; and the first successful call that does not keep the order breaks it. -/
theorem universes_ordered_while_kept {m : Memory} {trace : List (Op × Outcome)} {s : State}
    (run : (orderly m).Execution trace s) :
    Ordered s ∧
    (∀ u, ¬Relation.TransGen (graph s).Contains u u) ∧
    (∀ u, s.universes u ≠ none → ∃ v, s.universes v ≠ none ∧ 0 < s.held v ∧
      Relation.ReflTransGen (graph s).Contains v u) ∧
    (∀ u, s.universes u ≠ none → s.held u = 1 → (∀ v, ¬(graph s).Contains v u) →
      ∃ s', exec s (.dropRef u) = some (.done, s') ∧ s'.universes u = none) ∧
    ∀ op outcome s', HandleInRange s op → IdsLeft s op → exec s op = some (outcome, s') →
      (∀ status, outcome ≠ .failed status) → (Ordered s' ↔ KeepsOrder s op) := by
  obtain ⟨hTable, hSound⟩ := orderly_invariant run
  refine ⟨hSound.ordered, hSound.acyclic, fun u hLive => ?_,
    fun u hLive hHeld hOut => dropRef_frees hSound hLive hHeld hOut, ?_⟩
  · obtain ⟨v, hv, hHeld, hPath⟩ := hSound.rooted (graph_ids_isSome.mpr hLive)
    exact ⟨v, graph_ids_isSome.mp hv, hHeld, hPath⟩
  · intro op outcome s' hRange hLeft hExec hDone
    have hStep := exec_transition hExec
    constructor
    · intro hOrdered
      by_contra hNot
      exact not_ordered_transition hTable hRange hSound hStep hDone hNot hOrdered
    · exact fun hKeeps => (sound_transition hTable hRange hLeft hKeeps hSound hStep).ordered

/-- A universe with another, newer one in it. -/
theorem universes_ordered_one_in_another :
    ∃ m trace s, (orderly m).Execution trace s ∧ (graph s).Contains 0 1 ∧ Ordered s := by
  let blank : Memory := ⟨⟨fun _ => none, fun _ => none⟩, fun _ => false, fun _ => ⟨0, .none, 0⟩⟩
  have noHandle : ∀ {s : State} {op : Op}, op.handle = none → HandleInRange s op := by
    intro s op hNone u cell uni hSome
    rw [hNone] at hSome
    cases hSome
  have start : (orderly blank).Execution [] (initial blank) := .start rfl
  have hFirst : (2 : UInt64).toNat + 1 < 2 ^ 64 := by decide
  have hSecond : (2 + 1 : UInt64).toNat + 1 < 2 ^ 64 := by decide
  have outer := start.call (.createUniverse (some 0) blank) ⟨noHandle rfl, hFirst, trivial⟩ rfl
  have both := outer.call (.createUniverse (some 1) blank) ⟨noHandle rfl, hSecond, trivial⟩ rfl
  have run := both.call (.moveIn 0 ⟨1, .universe, 1⟩ ⟨some (.moved 2), blank⟩)
    ⟨noHandle rfl, trivial, fun hSelf => absurd hSelf.2 (by decide)⟩ rfl
  exact ⟨blank, _, _, run, ⟨0, ⟨1, .universe, 1⟩, rfl, rfl, rfl⟩, (universes_ordered_while_kept run).1⟩

/-- `user_sys_move_in` of a universe into itself: the entry's universe 0 holds the only
reference to universe 1, which is borrowed for the call and dropped after it. Universe 1
then holds the only reference to itself. -/
theorem universe_moved_into_itself :
    ∃ m trace s uni, (system m).Execution trace s ∧ s.universes 1 = some uni ∧ s.refcount 1 = 1 ∧
      s.held 1 = 0 ∧ (graph s).Contains 1 1 ∧ ¬Ordered s := by
  let blank : Memory := ⟨⟨fun _ => none, fun _ => none⟩, fun _ => false, fun _ => ⟨0, .none, 0⟩⟩
  have run : (system blank).Execution _ _ := System.Execution.of_replay
    [.createUniverse (some 0) blank, .createUniverse (some 1) blank, .createEntryCookie,
      .moveIn 0 ⟨1, .universe, 2⟩ ⟨some (.moved 2), blank⟩, .borrowOut 0 0,
      .moveAcross 0 1 0 2 ⟨some (.moved 3), blank⟩, .dropRef 1] rfl
  refine ⟨blank, _, _, _, run, rfl, rfl, rfl, ⟨0, ⟨1, .universe, 2⟩, rfl, rfl, rfl⟩, ?_⟩
  exact not_ordered_of_self (u := 1) (i := 0) rfl rfl rfl rfl

end Ricerca.Universe
