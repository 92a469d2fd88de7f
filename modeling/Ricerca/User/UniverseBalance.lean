import Ricerca.User.UniverseCounts
import Ricerca.User.UniverseOrder

/-! Counters along runs. After any calls, whatever they do to the order of universes, the counter
of an object is the number of references to it, unless the object is a group cookie, whose
counter is never initialised. A counted universe is there as long as a cell refers to it. -/
namespace Ricerca.Universe

open Ricerca.Foundation Ricerca.Cookie

/-- The object was created as a group cookie. -/
def GroupCookie (trace : List (Op × Outcome)) (obj : Nat) : Prop :=
  ∃ refcount, (Op.createGroupCookie refcount, Outcome.created obj) ∈ trace

/-- Counters are exact, and what a cell calls a universe is one that is still there. -/
structure Counted (exempt : Nat → Prop) (g : Graph) : Prop extends Balanced exempt g where
  typed : ∀ u i ref, g.refs u i = some ref → ref.isUniverse = true → (g.ids ref.ref).isSome

section Graph

variable {exempt : Nat → Prop} {g : Graph} {u cell obj : Nat} {ref : UserRef}

theorem Counted.store (h : Counted exempt g) (hNone : g.refs u cell = none)
    (hLive : (g.ids u).isSome) (hHeld : 0 < g.held ref.ref)
    (hType : ref.isUniverse = true → (g.ids ref.ref).isSome) :
    Counted exempt (g.store u cell ref) := by
  refine ⟨h.toBalanced.store hNone hLive hHeld, fun v i r hSome => ?_⟩
  simp only [Graph.store, Graph.takeHeld, setRef_refs] at hSome
  split_ifs at hSome with hCell
  · obtain rfl := Option.some.inj hSome
    exact hType
  · exact h.typed v i r hSome

theorem Counted.take (h : Counted exempt g) (hRef : g.refs u cell = some ref) :
    Counted exempt (g.take u cell ref) :=
  ⟨h.toBalanced.take hRef, fun v i r hSome => h.typed v i r (refs_of_setRef_none hSome)⟩

theorem Counted.repin (h : Counted exempt g) (hRef : g.refs u cell = some ref) (pin : Nat) :
    Counted exempt (g.setRef u cell (some { ref with pinCookie := pin })) := by
  refine ⟨h.toBalanced.repin hRef pin, fun v i r hSome => ?_⟩
  rw [setRef_refs] at hSome
  split_ifs at hSome with hCell
  · obtain rfl := Option.some.inj hSome
    exact h.typed u cell ref hRef
  · exact h.typed v i r hSome

theorem Counted.borrow (h : Counted exempt g) (hObj : obj < g.objectsCount) :
    Counted exempt (g.borrow obj) :=
  ⟨h.toBalanced.borrow hObj, h.typed⟩

/-- A universe is destroyed when no cell refers to it any more. -/
theorem Counted.drop (h : Counted exempt g) (hHeld : 0 < g.held obj) :
    Counted exempt (g.drop obj) := by
  refine ⟨h.toBalanced.drop hHeld, fun v i r hSome hUniverse => ?_⟩
  simp only [Graph.drop] at hSome ⊢
  split_ifs at hSome ⊢ with hLast
  · have hOld : g.refs v i = some r := by
      by_cases hEq : v = obj
      · simp [Graph.destroy, hEq] at hSome
      · simpa [Graph.destroy, Graph.takeHeld, Function.update_of_ne hEq] using hSome
    have hLive := h.typed v i r hOld hUniverse
    have hNe : r.ref ≠ obj := by
      rintro rfl
      have hInbound : 0 < (g.inbound r.ref).ncard :=
        (Set.ncard_pos (h.finite _)).mpr ⟨(v, i), r, hOld, rfl⟩
      have hCounted := h.counted _ (h.tracked _ hLive)
      omega
    simpa [Graph.destroy, Graph.takeHeld, Function.update_of_ne hNe] using hLive
  · exact h.typed v i r hSome hUniverse

theorem Counted.newObject {exempt' : Nat → Prop} {refcount : Nat} (h : Counted exempt g)
    (hSame : ∀ o, o ≠ g.objectsCount → (exempt' o ↔ exempt o))
    (hNew : ¬exempt' g.objectsCount → refcount = 1) : Counted exempt' (g.newObject refcount) :=
  ⟨h.toBalanced.newObject hSame hNew, h.typed⟩

theorem Counted.newUniverse {exempt' : Nat → Prop} (h : Counted exempt g)
    (hSame : ∀ o, o ≠ g.objectsCount → (exempt' o ↔ exempt o)) (hNew : ¬exempt' g.objectsCount) :
    Counted exempt' g.newUniverse := by
  refine ⟨h.toBalanced.newUniverse hSame hNew, fun v i r hSome hUniverse => ?_⟩
  have hLive := h.typed v i r hSome hUniverse
  simpa [Graph.newUniverse, Function.update_of_ne (h.issued _ hLive).ne] using hLive

theorem Counted.fill (h : Counted exempt g) (hLive : (g.ids u).isSome)
    (hEmpty : ∀ i, g.refs u i = none) {copies : Nat → Option UserRef} {refcount : Nat → Nat}
    (hTarget : ∀ i r, copies i = some r →
      r.ref < g.objectsCount ∧ (r.isUniverse = true → (g.ids r.ref).isSome))
    (hFinite : {i | copies i ≠ none}.Finite)
    (hCount : ∀ o, refcount o = g.refcount o + {i | ∃ r, copies i = some r ∧ r.ref = o}.ncard) :
    Counted exempt { g with refs := Function.update g.refs u copies, refcount := refcount } := by
  refine ⟨h.toBalanced.fill hLive hEmpty (fun i r hCopy => (hTarget i r hCopy).1) hFinite hCount,
    fun v i r hSome => ?_⟩
  by_cases hEq : v = u
  · subst hEq
    exact (hTarget i r (by simpa using hSome)).2
  · exact h.typed v i r (by simpa [Function.update_of_ne hEq] using hSome)

end Graph

section Transitions

variable {exempt : Nat → Prop} {s s' : State} {op : Op} {outcome : Outcome} {u cell obj : Nat}
  {uni uni' : UserUniverse} {ref : UserRef} {m : Memory}

theorem Counted.stored (h : Counted exempt (graph s)) (hUni : s.universes u = some uni)
    (hStored : Stored True s.toStore u uni ref cell m uni') (hHeld : 0 < s.held ref.ref)
    (hType : ref.isUniverse = true → ((graph s).ids ref.ref).isSome) :
    Counted exempt (graph ({ s with toStore := s.toStore.put u m uni' }.takeHeld ref.ref)) := by
  have hLive : ((graph s).ids u).isSome := Option.isSome_of_eq_some (graph_ids_of_live hUni)
  have hGraph := h.store hStored.fresh hLive hHeld hType
  rw [Graph.store, ← graph_put hUni hStored] at hGraph
  exact hGraph

theorem Counted.freed (h : Counted exempt (graph s)) (hUni : s.universes u = some uni)
    (hStoredAt : view s.toStore u cell = some ref)
    (hView : ∀ v i, view (s.toStore.freeCell u uni cell) v i =
      if v = u ∧ i = cell then none else view s.toStore v i) :
    Counted exempt (graph ({ s with toStore := s.toStore.freeCell u uni cell }.addHeld ref.ref)) := by
  have hGraph := h.take hStoredAt
  rw [Graph.take, ← graph_freeCell hUni hView] at hGraph
  exact hGraph

theorem graph_addHeld (s : State) (obj : Nat) : graph (s.addHeld obj) = (graph s).addHeld obj := rfl

/-- Dropping a reference that was just taken into the hand. -/
theorem Counted.dropped (h : Counted exempt (graph (s.addHeld obj))) :
    Counted exempt (graph (s.memRefDrop obj)) := by
  rw [graph_drop_addHeld]
  rw [graph_addHeld] at h
  exact h.drop (by simp [Graph.addHeld])

/-- An object that a cell refers to has a reference to count. -/
theorem Counted.refcount_pos (h : Counted exempt (graph s))
    (hView : view s.toStore u cell = some ref) (hObj : ¬ exempt ref.ref) : 0 < s.refcount ref.ref := by
  have hMem : (u, cell) ∈ (graph s).inbound ref.ref := ⟨ref, hView, rfl⟩
  have hCard : 0 < ((graph s).inbound ref.ref).ncard :=
    (Set.ncard_pos (h.finite _)).mpr ⟨_, hMem⟩
  have hCounted : s.refcount ref.ref = _ := h.counted ref.ref hObj
  omega

/-- Every reference that a fork copies is counted. -/
theorem Counted.forked (h : Counted exempt (graph s))
    (hTable : Table True s.toStore s.objectsCount) (hNew : ¬ exempt s.objectsCount)
    (hUni : s.universes u = some uni) (e : UserEntryCookie) {array : Nat} (junk : Memory)
    (hUnused : s.arrayUnused array) :
    Counted exempt (graph (userUniverseFork s uni e (some array) junk).2) := by
  have hUniverse := h.newUniverse (fun _ _ => Iff.rfl) hNew
  rw [graph_fork hTable hUni e junk hUnused]
  refine hUniverse.fill ?_ (view_new hTable) ?_ (forkedRefs_finite hUni e) ?_
  · simp [Graph.newUniverse, graph]
  · intro i r hCopy
    rw [forkedRefs, Option.filter_eq_some_iff] at hCopy
    refine ⟨Nat.lt_succ_of_lt (h.target u i r hCopy.1), fun hUniverse => ?_⟩
    have hLive := h.typed u i r hCopy.1 hUniverse
    simpa [Graph.newUniverse, Function.update_of_ne (h.issued _ hLive).ne] using hLive
  · exact fork_counted hTable hUni e junk hUnused

/-- Every call keeps the counters. Only the group cookies that it creates become exempt. -/
theorem counted_transition (hTable : Table True s.toStore s.objectsCount)
    (hRange : HandleInRange s op) (hExempt : ∀ o, exempt o → o < s.objectsCount)
    (h : Counted exempt (graph s)) (hStep : Transition s op outcome s') :
    Counted (fun o => exempt o ∨ GroupCookie [(op, outcome)] o) (graph s') := by
  have hSame : (∀ refcount, op ≠ .createGroupCookie refcount) →
      (fun o => exempt o ∨ GroupCookie [(op, outcome)] o) = exempt := by
    intro hOp
    funext o
    refine propext ⟨?_, Or.inl⟩
    rintro (hOld | ⟨refcount, hMem⟩)
    · exact hOld
    · exact (hOp refcount (congrArg Prod.fst (List.mem_singleton.mp hMem)).symm).elim
  have hNew : ¬ exempt s.objectsCount := fun hOld => Nat.lt_irrefl _ (hExempt _ hOld)
  cases hStep with
  | failed status =>
      have hFailed : (fun o => exempt o ∨ GroupCookie [(op, Outcome.failed status)] o) = exempt := by
        funext o
        refine propext ⟨?_, Or.inl⟩
        rintro (hOld | ⟨refcount, hMem⟩)
        · exact hOld
        · cases List.mem_singleton.mp hMem
      rw [hFailed]
      exact h
  | @createUniverse array junk hUnused =>
      rw [hSame (by simp), graph_create hTable junk hUnused]
      exact h.newUniverse (fun _ _ => Iff.rfl) hNew
  | createEntryCookie =>
      rw [hSame (by simp)]
      exact h.newObject (fun _ _ => Iff.rfl) fun _ => rfl
  | createGroupCookie refcount =>
      refine h.newObject (fun o hNe => ?_) fun hNot => ?_
      · refine ⟨?_, Or.inl⟩
        rintro (hOld | ⟨_, hMem⟩)
        · exact hOld
        · cases List.mem_singleton.mp hMem
          exact (hNe rfl).elim
      · exact (hNot (.inr ⟨refcount, List.mem_singleton.mpr rfl⟩)).elim
  | createObject =>
      rw [hSame (by simp)]
      exact h.newObject (fun _ _ => Iff.rfl) fun _ => rfl
  | addToGrp hEntry hGroup =>
      rw [hSame (by simp)]
      exact h
  | removeFromGrp hEntry hGroup =>
      rw [hSame (by simp)]
      exact h
  | borrowRef hHeld =>
      rw [hSame (by simp)]
      exact h.borrow (h.known _ hHeld)
  | dropRef hHeld =>
      rw [hSame (by simp), graph_drop]
      exact h.drop hHeld
  | moveIn hUni hOwns hValid hOk =>
      obtain ⟨nodes, hShape, -⟩ := hTable.shape _ _ hUni
      obtain ⟨-, hStored⟩ := moveIn_table hTable hUni hOk (answerValid_spec hTable hShape hValid hOk)
      rw [hSame (by simp)]
      exact h.stored hUni hStored (ownsRef_spec hOwns).1 (ownsRef_spec hOwns).2.mp
  | @moveInPair u cell cell' first second heap heap' uni uni' uni'' m m' hUni hFirst hSecond hTypes
      hValid hValid' hOk hOk' =>
      obtain ⟨hStored, hStored', -⟩ := pair_table hTable hUni hValid hValid' hOk hOk'
      have hOnce := h.stored hUni hStored (ownsRef_spec hFirst).1 (by simp [hTypes.1])
      rw [hSame (by simp)]
      exact hOnce.stored (put_self ..) hStored' (ownsRef_spec hSecond).1 (by simp [hTypes.2])
  | pairUndone status hUni hTypes hValid hOk =>
      obtain ⟨hId, -, hView⟩ := pairUndone_table hTable hUni hValid hOk
      rw [hSame (by simp), graph_pairUndone hUni hId hView]
      exact h
  | @dropCell u cell entry uni e hUni hEntry hCheck hAuth =>
      obtain ⟨hLt, hStoredAt⟩ := checkRef_inside hRange rfl hUni hCheck
      obtain ⟨-, hView, -⟩ := freeCell_table hTable hUni (checkRef_iff.mp hCheck).2 fun _ => hLt
      rw [hSame (by simp)]
      exact (h.freed hUni hStoredAt hView).dropped
  | borrowOut hUni hCheck =>
      obtain ⟨-, hStoredAt⟩ := checkRef_inside hRange rfl hUni hCheck
      rw [hSame (by simp)]
      exact h.borrow (h.target _ _ _ hStoredAt)
  | @moveOut u cell uni hUni hCheck =>
      obtain ⟨hLt, hStoredAt⟩ := checkRef_inside hRange rfl hUni hCheck
      obtain ⟨-, hView, -⟩ := freeCell_table hTable hUni (checkRef_iff.mp hCheck).2 fun _ => hLt
      rw [hSame (by simp)]
      exact h.freed hUni hStoredAt hView
  | @moveAcross src dst cell entry cell' heap uni dstUni dstUni' e m hUni hDst hEntry hNe hValid hCheck
      hAuth hOk =>
      obtain ⟨hLt, hStoredAt⟩ := checkRef_inside hRange rfl hUni hCheck
      obtain ⟨hStored, -, hView⟩ :=
        moveAcross_table hTable hUni hDst hNe hValid hCheck (fun _ => hLt) hOk
      have hFresh : ((graph s).take src cell (s.refs (uni.cell cell))).refs dst cell' = none := by
        simp only [Graph.take, Graph.addHeld, setRef_refs]
        split_ifs
        · rfl
        · exact hStored.fresh
      have hLive : ((graph s).ids dst).isSome := Option.isSome_of_eq_some (graph_ids_of_live hDst)
      rw [hSame (by simp), graph_moveAcross hUni hDst hNe hStored hView]
      exact (h.take hStoredAt).store hFresh hLive (by simp [Graph.take, Graph.addHeld])
        (h.typed _ _ _ hStoredAt)
  | @borrowAcross src dst cell entry cell' heap uni dstUni dstUni' e m hUni hDst hEntry hNe hValid
      hCheck hAuth hOk =>
      obtain ⟨-, hStoredAt⟩ := checkRef_inside hRange rfl hUni hCheck
      obtain ⟨nodes, hShape, -⟩ := hTable.shape _ _ hDst
      obtain ⟨-, hStored⟩ := moveIn_table hTable hDst hOk (answerValid_spec hTable hShape hValid hOk)
      have hBorrowed : Counted exempt (graph ((s.memRefBorrow (s.refs (uni.cell cell)).ref).addHeld
          (s.refs (uni.cell cell)).ref)) := h.borrow (h.target _ _ _ hStoredAt)
      have hPut := hBorrowed.stored hDst hStored (by simp [State.addHeld]) (h.typed _ _ _ hStoredAt)
      rw [hSame (by simp)]
      refine (congrArg (fun t => Counted exempt (graph t)) ?_).mp hPut
      simp [State.addHeld, State.takeHeld, State.memRefBorrow]
  | @borrowUndone src dst cell entry heap uni status hUni hCheck =>
      obtain ⟨-, hStoredAt⟩ := checkRef_inside hRange rfl hUni hCheck
      have hBorrowed : Counted exempt (graph ((s.memRefBorrow (s.refs (uni.cell cell)).ref).addHeld
          (s.refs (uni.cell cell)).ref)) := h.borrow (h.target _ _ _ hStoredAt)
      rw [hSame (by simp)]
      exact hBorrowed.dropped
  | @setPin op u cell uni keys pin hCall hUni hCheck hKey =>
      obtain ⟨-, hStoredAt⟩ := checkRef_inside hRange (pinCall_handle hCall) hUni hCheck
      obtain ⟨-, hView⟩ := setPin_table hTable hUni cell
        { s.refs (uni.cell cell) with pinCookie := pin }
      rw [hSame (by rintro refcount rfl; simp [pinCall] at hCall), graph_setPin hStoredAt hView]
      exact h.repin hStoredAt pin
  | fork junk hUni hEntry hUnused =>
      rw [hSame (by simp)]
      exact h.forked hTable hNew hUni _ junk hUnused

theorem transition_count_le (h : Transition s op outcome s') : s.objectsCount ≤ s'.objectsCount := by
  cases h with
  | createUniverse junk hUnused | createGroupCookie refcount | fork junk hUni hEntry hUnused =>
      exact Nat.le_succ _
  | createEntryCookie | createObject => exact Nat.le_succ _
  | dropRef hHeld | borrowUndone status hUni hCheck =>
      rw [memRefDrop_bound]
      exact Nat.le_refl _
  | dropCell hUni hEntry hCheck hAuth => rw [memRefDrop_bound]
  | _ => exact Nat.le_refl _

theorem groupCookie_created {o : Nat} (h : Transition s op outcome s')
    (hNew : GroupCookie [(op, outcome)] o) : o < s'.objectsCount := by
  obtain ⟨refcount, hMem⟩ := hNew
  obtain ⟨rfl, rfl⟩ := Prod.mk.inj (List.mem_singleton.mp hMem)
  cases h with
  | createGroupCookie refcount => exact Nat.lt_succ_self _

theorem initial_counted (m : Memory) : Counted (GroupCookie []) (graph (initial m)) := by
  have hEmpty : ∀ obj, (graph (initial m)).inbound obj = ∅ := by
    intro obj
    ext ⟨u, i⟩
    simp [Graph.inbound, graph, initial, view]
  refine ⟨⟨?_, ?_, ?_, ?_, fun obj => hEmpty obj ▸ Set.finite_empty, fun obj _ => ?_, ?_⟩, ?_⟩
  · intro u i ref hSome
    simp [graph, initial, view] at hSome
  · intro u i ref hSome
    simp [graph, initial, view] at hSome
  · intro u hu
    simp [graph, initial] at hu
  · intro obj hPos
    simp [graph, initial] at hPos
  · rw [hEmpty, Set.ncard_empty]
    rfl
  · intro u hu
    simp [graph, initial] at hu
  · intro u i ref hSome
    simp [graph, initial, view] at hSome

/-- The counters after a run, with the objects that are exempt. -/
theorem counted_run {m : Memory} {trace : List (Op × Outcome)} {s : State}
    (run : (inRange m).Execution trace s) :
    Counted (GroupCookie trace) (graph s) ∧ ∀ o, GroupCookie trace o → o < s.objectsCount := by
  induction run with
  | start h =>
      cases h
      refine ⟨initial_counted m, ?_⟩
      rintro o ⟨refcount, hMem⟩
      cases hMem
  | @step trace s s' label prior last ih =>
      obtain ⟨hCounted, hBelow⟩ := ih
      obtain ⟨op, outcome⟩ := label
      have hStep := exec_transition last.2
      have hSplit : GroupCookie (trace ++ [(op, outcome)]) =
          fun o => GroupCookie trace o ∨ GroupCookie [(op, outcome)] o := by
        funext o
        simp only [GroupCookie, List.mem_append, exists_or]
      rw [hSplit]
      refine ⟨counted_transition (inRange_invariant prior).1 last.1 hBelow hCounted hStep, ?_⟩
      rintro o (hOld | hNew)
      · exact (hBelow o hOld).trans_le (transition_count_le hStep)
      · exact groupCookie_created hStep hNew

end Transitions

end Ricerca.Universe
