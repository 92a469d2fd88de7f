import Ricerca.User.UniverseGraph

/-! Counters of all objects. A counter is exact when it is the number of references in
cells and of references held outside. In contrast to the order of universes, this
survives every operation on the graph; only objects whose counter was never
initialised are exempt from it. -/
namespace Ricerca.Universe

/-- Counters are exact, and references point to objects that exist. -/
structure Balanced (exempt : Nat → Prop) (g : Graph) : Prop where
  owner : ∀ u i ref, g.refs u i = some ref → (g.ids u).isSome
  target : ∀ u i ref, g.refs u i = some ref → ref.ref < g.objectsCount
  issued : ∀ u, (g.ids u).isSome → u < g.objectsCount
  known : ∀ obj, 0 < g.held obj → obj < g.objectsCount
  finite : ∀ obj, (g.inbound obj).Finite
  counted : ∀ obj, ¬exempt obj → g.refcount obj = g.held obj + (g.inbound obj).ncard
  tracked : ∀ u, (g.ids u).isSome → ¬exempt u

namespace Balanced

variable {exempt : Nat → Prop} {g : Graph} {u cell obj : Nat} {ref : UserRef}

/-- One more or one less of the references that are held. -/
theorem known_update (h : Balanced exempt g) (hObj : obj < g.objectsCount) (n : Nat) (o : Nat)
    (ho : 0 < Function.update g.held obj n o) : o < g.objectsCount := by
  by_cases hEq : o = obj
  · exact hEq ▸ hObj
  · rw [Function.update_of_ne hEq] at ho
    exact h.known o ho

theorem store (h : Balanced exempt g) (hNone : g.refs u cell = none) (hLive : (g.ids u).isSome)
    (hHeld : 0 < g.held ref.ref) : Balanced exempt (g.store u cell ref) := by
  refine ⟨?_, ?_, h.issued, h.known_update (h.known _ hHeld) _,
    fun obj => (ncard_store (h.finite obj) hNone ref).1, ?_, h.tracked⟩
  · intro v i r hSome
    rcases store_refs_some hSome with ⟨rfl, rfl, rfl⟩ | hOld
    · exact hLive
    · exact h.owner v i r hOld
  · intro v i r hSome
    rcases store_refs_some hSome with ⟨rfl, rfl, rfl⟩ | hOld
    · exact h.known r.ref hHeld
    · exact h.target v i r hOld
  · intro o ho
    have hOld := h.counted o ho
    have hCard := (ncard_store (h.finite o) hNone ref).2
    show g.refcount o = Function.update g.held ref.ref (g.held ref.ref - 1) o +
      ((g.setRef u cell (some ref)).inbound o).ncard
    rw [hCard, hOld]
    by_cases hEq : o = ref.ref
    · subst hEq
      simp only [Function.update_self, if_true]
      omega
    · simp [hEq]

theorem take (h : Balanced exempt g) (hRef : g.refs u cell = some ref) :
    Balanced exempt (g.take u cell ref) := by
  have hCases : ∀ {v i r}, (g.take u cell ref).refs v i = some r → g.refs v i = some r :=
    fun hSome => refs_of_setRef_none hSome
  refine ⟨fun v i r hSome => h.owner v i r (hCases hSome), fun v i r hSome => h.target v i r (hCases hSome),
    h.issued, h.known_update (h.target u cell ref hRef) _,
    fun obj => (ncard_take (h.finite obj) hRef).1, ?_, h.tracked⟩
  intro o ho
  have hOld := h.counted o ho
  have hSplit := (ncard_take (h.finite o) hRef).2
  show g.refcount o = Function.update g.held ref.ref (g.held ref.ref + 1) o +
    ((g.setRef u cell none).inbound o).ncard
  by_cases hEq : o = ref.ref
  · subst hEq
    simp only [Function.update_self, if_true] at hSplit ⊢
    omega
  · rw [Function.update_of_ne hEq, hOld, hSplit, if_neg hEq]
    rfl

/-- A change of the pin, which the counters do not see. -/
theorem repin (h : Balanced exempt g) (hRef : g.refs u cell = some ref) (pin : Nat) :
    Balanced exempt (g.setRef u cell (some { ref with pinCookie := pin })) := by
  have hTaken := h.take hRef
  have hStored : Balanced exempt ((g.take u cell ref).store u cell { ref with pinCookie := pin }) := by
    refine hTaken.store ?_ (h.owner u cell ref hRef) ?_
    · simp [Graph.take, Graph.addHeld, setRef_refs]
    · simp [Graph.take, Graph.addHeld]
  exact take_store g u cell ref pin ▸ hStored

/-- The counter of one object changes along with the references to it that are held. -/
theorem setCounter (h : Balanced exempt g) {n m : Nat} (hObj : obj < g.objectsCount)
    (hExact : ¬exempt obj → m = n + (g.inbound obj).ncard) :
    Balanced exempt { g with
      held := Function.update g.held obj n
      refcount := Function.update g.refcount obj m } := by
  refine ⟨h.owner, h.target, h.issued, h.known_update hObj n, h.finite, ?_, h.tracked⟩
  intro o ho
  show Function.update g.refcount obj m o = Function.update g.held obj n o + (g.inbound o).ncard
  by_cases hEq : o = obj
  · subst hEq
    rw [Function.update_self, Function.update_self]
    exact hExact ho
  · rw [Function.update_of_ne hEq, Function.update_of_ne hEq]
    exact h.counted o ho

theorem borrow (h : Balanced exempt g) (hObj : obj < g.objectsCount) :
    Balanced exempt (g.borrow obj) := by
  apply h.setCounter hObj
  intro hExempt
  have hOld := h.counted obj hExempt
  omega

/-- Destroying a universe passes its references on to the one who destroys it. -/
theorem destroy (h : Balanced exempt g) (obj : Nat) : Balanced exempt (g.destroy obj) := by
  have hCases : ∀ {v i r}, (g.destroy obj).refs v i = some r → v ≠ obj ∧ g.refs v i = some r := by
    intro v i r hSome
    by_cases hEq : v = obj
    · subst hEq
      simp [Graph.destroy] at hSome
    · exact ⟨hEq, by simpa [Graph.destroy, Function.update_of_ne hEq] using hSome⟩
  have hLive : ∀ {v}, ((g.destroy obj).ids v).isSome → (g.ids v).isSome := by
    intro v hv
    by_cases hEq : v = obj
    · simp [Graph.destroy, hEq] at hv
    · simpa [Graph.destroy, Function.update_of_ne hEq] using hv
  refine ⟨?_, fun v i r hSome => h.target v i r (hCases hSome).2, fun v hv => h.issued v (hLive hv),
    ?_, fun o => (ncard_destroy (h.finite o) obj).1, ?_, fun v hv => h.tracked v (hLive hv)⟩
  · intro v i r hSome
    obtain ⟨hNe, hOld⟩ := hCases hSome
    simpa [Graph.destroy, Function.update_of_ne hNe] using h.owner v i r hOld
  · intro o ho
    by_cases hOld : 0 < g.held o
    · exact h.known o hOld
    · have hPos : 0 < (g.inboundFrom obj o).ncard := by
        have hSum : 0 < g.held o + (g.inboundFrom obj o).ncard := ho
        omega
      obtain ⟨i, r, hSome, rfl⟩ := Set.nonempty_of_ncard_ne_zero hPos.ne'
      exact h.target obj i r hSome
  · intro o ho
    have hOld := h.counted o ho
    have hCard := (ncard_destroy (h.finite o) obj).2
    show g.refcount o = g.held o + (g.inboundFrom obj o).ncard + ((g.destroy obj).inbound o).ncard
    omega

theorem drop (h : Balanced exempt g) (hHeld : 0 < g.held obj) : Balanced exempt (g.drop obj) := by
  have hLess : Balanced exempt { g.takeHeld obj with
      refcount := Function.update g.refcount obj (g.refcount obj - 1) } := by
    apply h.setCounter (h.known obj hHeld)
    intro hExempt
    have hOld := h.counted obj hExempt
    omega
  simp only [Graph.drop]
  split_ifs
  · exact hLess.destroy obj
  · exact hLess

/-- Nothing refers to an object before it exists. -/
theorem inbound_new (h : Balanced exempt g) : g.inbound g.objectsCount = ∅ := by
  ext ⟨v, i⟩
  simp only [Graph.inbound, Set.mem_ofPred_eq, Set.mem_empty_iff_false, iff_false]
  rintro ⟨r, hSome, hr⟩
  exact absurd (h.target v i r hSome) (hr ▸ Nat.lt_irrefl _)

/-- A new object is exempt, or its counter starts at one. -/
theorem newObject {exempt' : Nat → Prop} {refcount : Nat} (h : Balanced exempt g)
    (hSame : ∀ o, o ≠ g.objectsCount → (exempt' o ↔ exempt o))
    (hNew : ¬exempt' g.objectsCount → refcount = 1) : Balanced exempt' (g.newObject refcount) := by
  have hOld : ∀ {v}, (g.ids v).isSome → v ≠ g.objectsCount := fun hv => (h.issued _ hv).ne
  refine ⟨h.owner, fun v i r hSome => Nat.lt_succ_of_lt (h.target v i r hSome),
    fun v hv => Nat.lt_succ_of_lt (h.issued v hv), ?_, h.finite, ?_,
    fun v hv hExempt => h.tracked v hv ((hSame v (hOld hv)).mp hExempt)⟩
  · intro o ho
    by_cases hEq : o = g.objectsCount
    · exact hEq ▸ Nat.lt_succ_self _
    · exact Nat.lt_succ_of_lt
        (h.known o (by simpa [Graph.newObject, Function.update_of_ne hEq] using ho))
  · intro o ho
    show Function.update g.refcount _ _ o = Function.update g.held _ _ o + (g.inbound o).ncard
    by_cases hEq : o = g.objectsCount
    · subst hEq
      simp [hNew ho, h.inbound_new]
    · rw [Function.update_of_ne hEq, Function.update_of_ne hEq,
        h.counted o fun hExempt => ho ((hSame o hEq).mpr hExempt)]

theorem newUniverse {exempt' : Nat → Prop} (h : Balanced exempt g)
    (hSame : ∀ o, o ≠ g.objectsCount → (exempt' o ↔ exempt o)) (hNew : ¬exempt' g.objectsCount) :
    Balanced exempt' g.newUniverse := by
  have hObject : Balanced exempt' (g.newObject 1) := h.newObject hSame fun _ => rfl
  have hIds : ∀ {v}, (g.newUniverse.ids v).isSome → v = g.objectsCount ∨ (g.ids v).isSome := by
    intro v hv
    by_cases hEq : v = g.objectsCount
    · exact Or.inl hEq
    · right
      simpa [Graph.newUniverse, Function.update_of_ne hEq] using hv
  refine ⟨?_, hObject.target, ?_, hObject.known, h.finite, hObject.counted, ?_⟩
  · intro v i r hSome
    have hLive := h.owner v i r hSome
    simpa [Graph.newUniverse, Function.update_of_ne (h.issued v hLive).ne] using hLive
  · intro v hv
    rcases hIds hv with rfl | hOld
    · exact Nat.lt_succ_self _
    · exact Nat.lt_succ_of_lt (h.issued v hOld)
  · intro v hv
    rcases hIds hv with rfl | hOld
    · exact hNew
    · exact hObject.tracked v hOld

/-- Fill the cells of an empty universe with copies of references, and count them. -/
theorem fill (h : Balanced exempt g) (hLive : (g.ids u).isSome) (hEmpty : ∀ i, g.refs u i = none)
    {copies : Nat → Option UserRef} {refcount : Nat → Nat}
    (hTarget : ∀ i r, copies i = some r → r.ref < g.objectsCount)
    (hFinite : {i | copies i ≠ none}.Finite)
    (hCount : ∀ o, refcount o = g.refcount o + {i | ∃ r, copies i = some r ∧ r.ref = o}.ncard) :
    Balanced exempt { g with refs := Function.update g.refs u copies, refcount := refcount } := by
  have hCopies : ∀ o, {i | ∃ r, copies i = some r ∧ r.ref = o}.Finite := fun o =>
    hFinite.subset fun i ⟨r, hSome, _⟩ => by simp [hSome]
  have hInbound : ∀ o,
      ({ g with refs := Function.update g.refs u copies, refcount := refcount } : Graph).inbound o =
        g.inbound o ∪ Prod.mk u '' {i | ∃ r, copies i = some r ∧ r.ref = o} := by
    intro o
    ext ⟨v, i⟩
    simp only [Graph.inbound, Set.mem_ofPred_eq, Set.mem_union, Set.mem_image, Prod.mk.injEq]
    by_cases hEq : v = u
    · subst hEq
      simp [hEmpty]
    · simp [Function.update_of_ne hEq, Ne.symm hEq]
  refine ⟨?_, ?_, h.issued, h.known, fun o => ?_, fun o ho => ?_, h.tracked⟩
  · intro v i r hSome
    rcases update_refs_some hSome with ⟨rfl, -⟩ | hOld
    · exact hLive
    · exact h.owner v i r hOld
  · intro v i r hSome
    rcases update_refs_some hSome with ⟨rfl, hCopy⟩ | hOld
    · exact hTarget i r hCopy
    · exact h.target v i r hOld
  · rw [hInbound]
    exact (h.finite o).union ((hCopies o).image _)
  · have hDisjoint : Disjoint (g.inbound o)
        (Prod.mk u '' {i | ∃ r, copies i = some r ∧ r.ref = o}) := by
      rw [Set.disjoint_left]
      rintro ⟨v, i⟩ ⟨r, hSome, -⟩ ⟨j, -, hEq⟩
      obtain ⟨rfl, rfl⟩ := Prod.mk.inj hEq
      rw [hEmpty] at hSome
      cases hSome
    rw [hInbound, Set.ncard_union_eq hDisjoint (h.finite o) ((hCopies o).image _),
      Set.ncard_image_of_injective _ (Prod.mk_right_injective u)]
    show refcount o = g.held o + _
    rw [hCount o, h.counted o ho, Nat.add_assoc]

end Balanced

end Ricerca.Universe
