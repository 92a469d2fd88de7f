import Mathlib.Data.Set.Card
import Ricerca.Foundation.Reachability
import Ricerca.User.UniverseRepresentation

/-! The universes as a graph of references with counters. A reference is always
either in a cell or held by kernel code outside of all universes; the counter of a
universe is the number of both. -/
namespace Ricerca.Universe

open Ricerca.Foundation Ricerca.Cookie

/-- What cells refer to, the ids of live universes, and the counters. -/
@[ext]
structure Graph where
  refs : Nat → Nat → Option UserRef
  ids : Nat → Option UInt64
  held : Nat → Nat
  refcount : Nat → Nat
  objectsCount : Nat
  nextId : UInt64

namespace Graph

/-- The cells that refer to an object. -/
def inbound (g : Graph) (obj : Nat) : Set (Nat × Nat) :=
  {p | ∃ ref, g.refs p.1 p.2 = some ref ∧ ref.ref = obj}

/-- The cells of one universe that refer to an object. -/
def inboundFrom (g : Graph) (u obj : Nat) : Set Nat := {i | (u, i) ∈ g.inbound obj}

def setRef (g : Graph) (u cell : Nat) (ref : Option UserRef) : Graph :=
  { g with refs := fun v i => if v = u ∧ i = cell then ref else g.refs v i }

def addHeld (g : Graph) (obj : Nat) : Graph :=
  { g with held := Function.update g.held obj (g.held obj + 1) }

def takeHeld (g : Graph) (obj : Nat) : Graph :=
  { g with held := Function.update g.held obj (g.held obj - 1) }

/-- A new object; its creator holds a reference to it. -/
def newObject (g : Graph) (refcount : Nat) : Graph :=
  { g with
    held := Function.update g.held g.objectsCount 1
    refcount := Function.update g.refcount g.objectsCount refcount
    objectsCount := g.objectsCount + 1 }

def newUniverse (g : Graph) : Graph :=
  { g.newObject 1 with
    ids := Function.update g.ids g.objectsCount (some g.nextId)
    nextId := g.nextId + 1 }

/-- One more reference, which the caller holds. -/
def borrow (g : Graph) (obj : Nat) : Graph :=
  { g.addHeld obj with refcount := Function.update g.refcount obj (g.refcount obj + 1) }

/-- Move a held reference into a cell. -/
def store (g : Graph) (u cell : Nat) (ref : UserRef) : Graph :=
  (g.setRef u cell (some ref)).takeHeld ref.ref

/-- Move a reference out of a cell. -/
def take (g : Graph) (u cell : Nat) (ref : UserRef) : Graph :=
  (g.setRef u cell none).addHeld ref.ref

noncomputable def destroy (g : Graph) (obj : Nat) : Graph :=
  { g with
    refs := Function.update g.refs obj fun _ => none
    ids := Function.update g.ids obj none
    held := fun o => g.held o + (g.inboundFrom obj o).ncard }

/-- Give up a held reference; the last one takes the object away. -/
noncomputable def drop (g : Graph) (obj : Nat) : Graph :=
  let g' := { g.takeHeld obj with refcount := Function.update g.refcount obj (g.refcount obj - 1) }
  if g.refcount obj = 1 then g'.destroy obj else g'

end Graph

/-- Counters are exact, references have the type of what they refer to, and ids
increase from a universe to those it refers to. -/
structure Sound (g : Graph) : Prop where
  owner : ∀ u i ref, g.refs u i = some ref → (g.ids u).isSome
  typed : ∀ u i ref, g.refs u i = some ref →
    ref.ref < g.objectsCount ∧ (ref.isUniverse = true ↔ (g.ids ref.ref).isSome)
  issued : ∀ u id, g.ids u = some id → u < g.objectsCount ∧ id < g.nextId
  unique : ∀ u v id, g.ids u = some id → g.ids v = some id → u = v
  order : ∀ u i ref id id', g.refs u i = some ref → g.ids u = some id → g.ids ref.ref = some id' →
    id < id'
  known : ∀ obj, 0 < g.held obj → obj < g.objectsCount
  finite : ∀ obj, (g.inbound obj).Finite
  counted : ∀ u, (g.ids u).isSome → g.refcount u = g.held u + (g.inbound u).ncard
  alive : ∀ u, (g.ids u).isSome → 0 < g.refcount u

section Sound

variable {g : Graph} {u cell obj : Nat} {ref : UserRef}

theorem setRef_refs (g : Graph) (u cell : Nat) (ref : Option UserRef) (v i : Nat) :
    (g.setRef u cell ref).refs v i = if v = u ∧ i = cell then ref else g.refs v i := rfl

/-- A reference in an empty cell is one more for its object. -/
theorem inbound_setRef (hNone : g.refs u cell = none) (ref : UserRef) (obj : Nat) :
    (g.setRef u cell (some ref)).inbound obj =
      if obj = ref.ref then insert (u, cell) (g.inbound obj) else g.inbound obj := by
  ext ⟨v, i⟩
  have hMem : (v, i) ∈ (g.setRef u cell (some ref)).inbound obj ↔
      if v = u ∧ i = cell then ref.ref = obj else (v, i) ∈ g.inbound obj := by
    simp only [Graph.inbound, Set.mem_ofPred_eq, setRef_refs]
    split_ifs <;> simp
  rw [hMem]
  by_cases hCell : v = u ∧ i = cell
  · obtain ⟨rfl, rfl⟩ := hCell
    have hNot : (v, i) ∉ g.inbound obj := by simp [Graph.inbound, hNone]
    by_cases hObj : obj = ref.ref
    · simp [hObj]
    · simp [hObj, hNot, Ne.symm hObj]
  · have hNe : (v, i) ≠ (u, cell) := fun hEq => hCell (Prod.mk.inj hEq)
    split_ifs <;> simp [hNe]

theorem inbound_notMem (hNone : g.refs u cell = none) (obj : Nat) : (u, cell) ∉ g.inbound obj := by
  simp [Graph.inbound, hNone]

theorem ncard_store (hFinite : (g.inbound obj).Finite) (hNone : g.refs u cell = none) (ref : UserRef) :
    ((g.setRef u cell (some ref)).inbound obj).Finite ∧
    ((g.setRef u cell (some ref)).inbound obj).ncard =
      (g.inbound obj).ncard + if obj = ref.ref then 1 else 0 := by
  rw [inbound_setRef hNone]
  split_ifs
  · exact ⟨hFinite.insert _, Set.ncard_insert_of_notMem (inbound_notMem hNone obj) hFinite⟩
  · exact ⟨hFinite, rfl⟩

/-- A reference that is in another cell after one was emptied was there before. -/
theorem refs_of_setRef_none {v i : Nat} {r : UserRef}
    (hSome : (g.setRef u cell none).refs v i = some r) : g.refs v i = some r := by
  rw [setRef_refs] at hSome
  split_ifs at hSome
  exact hSome

/-- A reference taken out of a cell is one less for its object. -/
theorem ncard_take (hFinite : (g.inbound obj).Finite) (hRef : g.refs u cell = some ref) :
    ((g.setRef u cell none).inbound obj).Finite ∧
    (g.inbound obj).ncard =
      ((g.setRef u cell none).inbound obj).ncard + if obj = ref.ref then 1 else 0 := by
  have hLess : ((g.setRef u cell none).inbound obj).Finite :=
    hFinite.subset fun p ⟨r, hSome, hr⟩ => ⟨r, refs_of_setRef_none hSome, hr⟩
  have hNone : (g.setRef u cell none).refs u cell = none := by simp [setRef_refs]
  have hBack : ((g.setRef u cell none).setRef u cell (some ref)).refs = g.refs := by
    funext v i
    simp only [setRef_refs]
    split_ifs with hCell
    · rw [hCell.1, hCell.2, hRef]
    · rfl
  have hSame : g.inbound obj = ((g.setRef u cell none).setRef u cell (some ref)).inbound obj := by
    simp only [Graph.inbound, hBack]
  refine ⟨hLess, ?_⟩
  rw [hSame, (ncard_store hLess hNone ref).2]

/-- A reference that is in a cell after a store was there before, or is the new one. -/
theorem store_refs_some {v i : Nat} {r : UserRef} (hSome : (g.store u cell ref).refs v i = some r) :
    v = u ∧ i = cell ∧ r = ref ∨ g.refs v i = some r := by
  simp only [Graph.store, Graph.takeHeld, setRef_refs] at hSome
  split_ifs at hSome with hCell
  · exact Or.inl ⟨hCell.1, hCell.2, (Option.some.inj hSome).symm⟩
  · exact Or.inr hSome

/-- Moving a reference into a cell and out of it. -/
theorem Sound.store {id : UInt64} (h : Sound g) (hNone : g.refs u cell = none) (hLive : g.ids u = some id)
    (hHeld : 0 < g.held ref.ref) (hType : ref.isUniverse = true ↔ (g.ids ref.ref).isSome)
    (hOrder : ∀ id', g.ids ref.ref = some id' → id < id') : Sound (g.store u cell ref) := by
  refine ⟨?_, ?_, h.issued, h.unique, ?_, ?_, fun obj => (ncard_store (h.finite obj) hNone ref).1, ?_, h.alive⟩
  · intro v i r hSome
    rcases store_refs_some hSome with ⟨rfl, rfl, rfl⟩ | hOld
    · exact Option.isSome_of_eq_some hLive
    · exact h.owner v i r hOld
  · intro v i r hSome
    rcases store_refs_some hSome with ⟨rfl, rfl, rfl⟩ | hOld
    · exact ⟨h.known r.ref hHeld, hType⟩
    · exact h.typed v i r hOld
  · intro v i r k k' hSome hk hk'
    rcases store_refs_some hSome with ⟨rfl, rfl, rfl⟩ | hOld
    · obtain rfl : id = k := Option.some.inj (hLive.symm.trans hk)
      exact hOrder k' hk'
    · exact h.order v i r k k' hOld hk hk'
  · intro obj hObj
    refine h.known obj ?_
    by_cases hEq : obj = ref.ref
    · exact hEq ▸ hHeld
    · simpa [Graph.store, Graph.takeHeld, Graph.setRef, Function.update_of_ne hEq] using hObj
  · intro v hv
    have hOld := h.counted v hv
    have hCard := (ncard_store (h.finite v) hNone ref).2
    show g.refcount v = Function.update g.held ref.ref (g.held ref.ref - 1) v +
      ((g.setRef u cell (some ref)).inbound v).ncard
    rw [hCard, hOld]
    by_cases hEq : v = ref.ref
    · subst hEq
      simp only [Function.update_self, if_true]
      omega
    · simp [hEq]

theorem Sound.take (h : Sound g) (hRef : g.refs u cell = some ref) : Sound (g.take u cell ref) := by
  have hCases : ∀ {v i r}, (g.take u cell ref).refs v i = some r → g.refs v i = some r :=
    fun hSome => refs_of_setRef_none hSome
  refine ⟨fun v i r hSome => h.owner v i r (hCases hSome), fun v i r hSome => h.typed v i r (hCases hSome),
    h.issued, h.unique, fun v i r k k' hSome => h.order v i r k k' (hCases hSome), ?_,
    fun obj => (ncard_take (h.finite obj) hRef).1, ?_, h.alive⟩
  · intro obj hObj
    by_cases hEq : obj = ref.ref
    · exact hEq ▸ (h.typed u cell ref hRef).1
    · refine h.known obj ?_
      simpa [Graph.take, Graph.addHeld, Graph.setRef, Function.update_of_ne hEq] using hObj
  · intro v hv
    have hOld := h.counted v hv
    have hSplit := (ncard_take (h.finite v) hRef).2
    show g.refcount v = Function.update g.held ref.ref (g.held ref.ref + 1) v +
      ((g.setRef u cell none).inbound v).ncard
    by_cases hEq : v = ref.ref
    · subst hEq
      simp only [Function.update_self, if_true] at hSplit ⊢
      omega
    · rw [Function.update_of_ne hEq, hOld, hSplit, if_neg hEq]
      rfl

/-- A reference that is taken out and put back with another pin. -/
theorem take_store (g : Graph) (u cell : Nat) (ref : UserRef) (pin : Nat) :
    (g.take u cell ref).store u cell { ref with pinCookie := pin } =
      g.setRef u cell (some { ref with pinCookie := pin }) := by
  simp only [Graph.take, Graph.store, Graph.addHeld, Graph.takeHeld, Graph.setRef, Graph.mk.injEq,
    Function.update_self, Nat.add_sub_cancel, Function.update_idem, Function.update_eq_self, and_self,
    and_true]
  funext v i
  split_ifs <;> rfl

/-- A change of the pin, which the counters do not see. -/
theorem Sound.repin (h : Sound g) (hRef : g.refs u cell = some ref) (pin : Nat) :
    Sound (g.setRef u cell (some { ref with pinCookie := pin })) := by
  obtain ⟨id, hLive⟩ := Option.isSome_iff_exists.mp (h.owner u cell ref hRef)
  have hTaken := h.take hRef
  have hStored : Sound ((g.take u cell ref).store u cell { ref with pinCookie := pin }) := by
    refine hTaken.store ?_ hLive ?_ (h.typed u cell ref hRef).2
      fun id' hId' => h.order u cell ref id id' hRef hLive hId'
    · simp [Graph.take, Graph.addHeld, setRef_refs]
    · simp [Graph.take, Graph.addHeld]
  exact take_store g u cell ref pin ▸ hStored

/-- The counter of one object changes along with the references to it that are held. -/
theorem Sound.setCounter (h : Sound g) {n m : Nat} (hObj : obj < g.objectsCount)
    (hExact : (g.ids obj).isSome → m = n + (g.inbound obj).ncard ∧ 0 < m) :
    Sound { g with
      held := Function.update g.held obj n
      refcount := Function.update g.refcount obj m } := by
  refine ⟨h.owner, h.typed, h.issued, h.unique, h.order, ?_, h.finite, ?_, ?_⟩
  · intro o ho
    by_cases hEq : o = obj
    · exact hEq ▸ hObj
    · exact h.known o (by simpa [Function.update_of_ne hEq] using ho)
  · intro v hv
    show Function.update g.refcount obj m v = Function.update g.held obj n v + (g.inbound v).ncard
    by_cases hEq : v = obj
    · subst hEq
      rw [Function.update_self, Function.update_self]
      exact (hExact hv).1
    · rw [Function.update_of_ne hEq, Function.update_of_ne hEq]
      exact h.counted v hv
  · intro v hv
    show 0 < Function.update g.refcount obj m v
    by_cases hEq : v = obj
    · subst hEq
      rw [Function.update_self]
      exact (hExact hv).2
    · rw [Function.update_of_ne hEq]
      exact h.alive v hv

theorem Sound.borrow (h : Sound g) (hObj : obj < g.objectsCount) : Sound (g.borrow obj) := by
  apply h.setCounter hObj
  intro hLive
  have hOld := h.counted obj hLive
  omega

/-- Destroying a universe passes its references on to the one who destroys it. -/
theorem ncard_destroy (hInbound : (g.inbound obj).Finite) (u : Nat) :
    ((g.destroy u).inbound obj).Finite ∧
    (g.inbound obj).ncard = ((g.destroy u).inbound obj).ncard + (g.inboundFrom u obj).ncard := by
  have hMem : ∀ v i, (v, i) ∈ (g.destroy u).inbound obj ↔ (v, i) ∈ g.inbound obj ∧ v ≠ u := by
    intro v i
    simp only [Graph.inbound, Graph.destroy, Set.mem_ofPred_eq]
    by_cases hEq : v = u
    · simp [hEq]
    · simp [hEq]
  have hFinite : ((g.destroy u).inbound obj).Finite :=
    hInbound.subset fun ⟨v, i⟩ hp => ((hMem v i).mp hp).1
  have hSplit : g.inbound obj = (g.destroy u).inbound obj ∪ Prod.mk u '' g.inboundFrom u obj := by
    ext ⟨v, i⟩
    rw [Set.mem_union, hMem]
    by_cases hEq : v = u
    · subst hEq
      simp [Graph.inboundFrom]
    · simp [hEq, Ne.symm hEq]
  have hFrom : (Prod.mk u '' g.inboundFrom u obj).Finite :=
    hInbound.subset (hSplit ▸ Set.subset_union_right)
  have hDisjoint : Disjoint ((g.destroy u).inbound obj) (Prod.mk u '' g.inboundFrom u obj) := by
    rw [Set.disjoint_left]
    rintro ⟨v, i⟩ hIn ⟨j, -, hEq⟩
    exact ((hMem v i).mp hIn).2 (Prod.mk.inj hEq).1.symm
  refine ⟨hFinite, ?_⟩
  rw [hSplit, Set.ncard_union_eq hDisjoint hFinite hFrom,
    Set.ncard_image_of_injective _ (Prod.mk_right_injective u)]

/-- Nothing refers to a universe that goes away. -/
theorem Sound.destroy (h : Sound g) (hInbound : g.inbound obj = ∅) :
    Sound (g.destroy obj) := by
  have hCases : ∀ {v i r}, (g.destroy obj).refs v i = some r →
      v ≠ obj ∧ g.refs v i = some r ∧ r.ref ≠ obj := by
    intro v i r hSome
    by_cases hEq : v = obj
    · subst hEq
      simp [Graph.destroy] at hSome
    · have hOld : g.refs v i = some r := by simpa [Graph.destroy, Function.update_of_ne hEq] using hSome
      refine ⟨hEq, hOld, fun hTarget => ?_⟩
      have hMem : (v, i) ∈ g.inbound obj := ⟨r, hOld, hTarget⟩
      rw [hInbound] at hMem
      exact hMem
  have hIds : ∀ {v}, v ≠ obj → (g.destroy obj).ids v = g.ids v := fun hNe => Function.update_of_ne hNe ..
  have hLive : ∀ {v id}, (g.destroy obj).ids v = some id → v ≠ obj ∧ g.ids v = some id := by
    intro v id hId
    have hNe : v ≠ obj := fun hEq => by simp [Graph.destroy, hEq] at hId
    exact ⟨hNe, hIds hNe ▸ hId⟩
  refine ⟨?_, ?_, fun v id hId => h.issued v id (hLive hId).2,
    fun v w id hv hw => h.unique v w id (hLive hv).2 (hLive hw).2, ?_, ?_,
    fun o => (ncard_destroy (h.finite o) obj).1, ?_, ?_⟩
  · intro v i r hSome
    obtain ⟨hNe, hOld, -⟩ := hCases hSome
    rw [hIds hNe]
    exact h.owner v i r hOld
  · intro v i r hSome
    obtain ⟨-, hOld, hTarget⟩ := hCases hSome
    rw [hIds hTarget]
    exact h.typed v i r hOld
  · intro v i r id id' hSome hId hId'
    exact h.order v i r id id' (hCases hSome).2.1 (hLive hId).2 (hLive hId').2
  · intro o ho
    by_cases hOld : 0 < g.held o
    · exact h.known o hOld
    · have hPos : 0 < (g.inboundFrom obj o).ncard := by
        have hSum : 0 < g.held o + (g.inboundFrom obj o).ncard := ho
        omega
      obtain ⟨i, r, hSome, rfl⟩ := Set.nonempty_of_ncard_ne_zero hPos.ne'
      exact (h.typed obj i r hSome).1
  · intro v hv
    obtain ⟨id, hId⟩ := Option.isSome_iff_exists.mp hv
    have hOld := h.counted v (Option.isSome_of_eq_some (hLive hId).2)
    have hCard := (ncard_destroy (h.finite v) obj).2
    show g.refcount v = g.held v + (g.inboundFrom obj v).ncard + ((g.destroy obj).inbound v).ncard
    omega
  · intro v hv
    obtain ⟨id, hId⟩ := Option.isSome_iff_exists.mp hv
    exact h.alive v (Option.isSome_of_eq_some (hLive hId).2)

/-- Objects that are no universes have no part in the graph. -/
theorem destroy_object (hOwner : ∀ u i ref, g.refs u i = some ref → (g.ids u).isSome)
    (hObj : g.ids obj = none) : g.destroy obj = g := by
  have hRefs : g.refs obj = fun _ => none := by
    funext i
    cases hSome : g.refs obj i with
    | none => rfl
    | some r =>
        have := hOwner obj i r hSome
        simp [hObj] at this
  have hFrom : ∀ o, g.inboundFrom obj o = ∅ := by
    intro o
    ext i
    simp [Graph.inboundFrom, Graph.inbound, hRefs]
  simp only [Graph.destroy, hFrom, Set.ncard_empty, Nat.add_zero, ← hRefs, ← hObj,
    Function.update_eq_self]

/-- The counters of objects that are no universes do not matter. -/
theorem Sound.setCounts {held refcount : Nat → Nat} (h : Sound g)
    (hSame : ∀ v, (g.ids v).isSome → held v = g.held v ∧ refcount v = g.refcount v)
    (hKnown : ∀ o, 0 < held o → o < g.objectsCount) :
    Sound { g with held := held, refcount := refcount } := by
  refine ⟨h.owner, h.typed, h.issued, h.unique, h.order, hKnown, h.finite, fun v hv => ?_, fun v hv => ?_⟩
  · obtain ⟨hHeld, hCount⟩ := hSame v hv
    show refcount v = held v + (g.inbound v).ncard
    rw [hHeld, hCount, h.counted v hv]
  · show 0 < refcount v
    rw [(hSame v hv).2]
    exact h.alive v hv

theorem Sound.drop (h : Sound g) (hHeld : 0 < g.held obj) : Sound (g.drop obj) := by
  have hKnown := h.known obj hHeld
  simp only [Graph.drop]
  cases hObj : g.ids obj with
  | none =>
      have hLess : Sound { g.takeHeld obj with
          refcount := Function.update g.refcount obj (g.refcount obj - 1) } := by
        exact h.setCounter hKnown fun hLive => by simp [hObj] at hLive
      split_ifs
      · rwa [destroy_object hLess.owner hObj]
      · exact hLess
  | some id =>
      have hCounted := h.counted obj (Option.isSome_of_eq_some hObj)
      have hAlive := h.alive obj (Option.isSome_of_eq_some hObj)
      split_ifs with hLast
      · have hEmpty : g.inbound obj = ∅ := by
          rw [← Set.ncard_eq_zero (h.finite obj)]
          omega
        have hDestroyed := h.destroy hEmpty
        refine hDestroyed.setCounts (fun v hv => ?_) fun o ho => ?_
        · have hNe : v ≠ obj := fun hEq => by simp [Graph.destroy, hEq] at hv
          refine ⟨?_, Function.update_of_ne hNe ..⟩
          show Function.update g.held obj _ v + (g.inboundFrom obj v).ncard = _
          rw [Function.update_of_ne hNe]
          rfl
        · by_cases hEq : o = obj
          · exact hEq ▸ hKnown
          · refine hDestroyed.known o ?_
            have hPos : 0 < Function.update g.held obj _ o + (g.inboundFrom obj o).ncard := ho
            rw [Function.update_of_ne hEq] at hPos
            exact hPos
      · apply h.setCounter hKnown
        intro _
        omega

theorem Sound.newObject (h : Sound g) (refcount : Nat) : Sound (g.newObject refcount) := by
  have hNew : ∀ {v}, (g.ids v).isSome → v ≠ g.objectsCount := by
    intro v hv hEq
    obtain ⟨id, hId⟩ := Option.isSome_iff_exists.mp hv
    exact absurd (h.issued v id hId).1 (hEq ▸ Nat.lt_irrefl _)
  refine ⟨h.owner, ?_, ?_, h.unique, h.order, ?_, h.finite, ?_, ?_⟩
  · intro v i r hSome
    exact ⟨Nat.lt_succ_of_lt (h.typed v i r hSome).1, (h.typed v i r hSome).2⟩
  · intro v id hId
    exact ⟨Nat.lt_succ_of_lt (h.issued v id hId).1, (h.issued v id hId).2⟩
  · intro o ho
    by_cases hEq : o = g.objectsCount
    · exact hEq ▸ Nat.lt_succ_self _
    · exact Nat.lt_succ_of_lt
        (h.known o (by simpa [Graph.newObject, Function.update_of_ne hEq] using ho))
  · intro v hv
    show Function.update g.refcount _ _ v = Function.update g.held _ _ v + (g.inbound v).ncard
    rw [Function.update_of_ne (hNew hv), Function.update_of_ne (hNew hv), h.counted v hv]
  · intro v hv
    show 0 < Function.update g.refcount _ _ v
    rw [Function.update_of_ne (hNew hv)]
    exact h.alive v hv

/-- A new universe has the next id, as long as ids are left. -/
theorem Sound.newUniverse (h : Sound g) (hLeft : g.nextId < g.nextId + 1) :
    Sound g.newUniverse := by
  have hNew : ∀ {v}, v < g.objectsCount → g.newUniverse.ids v = g.ids v := fun hLt =>
    Function.update_of_ne (Nat.ne_of_lt hLt) ..
  have hCases : ∀ {v id}, g.newUniverse.ids v = some id →
      v = g.objectsCount ∧ id = g.nextId ∨ g.ids v = some id ∧ v < g.objectsCount := by
    intro v id hId
    by_cases hEq : v = g.objectsCount
    · subst hEq
      simp only [Graph.newUniverse, Function.update_self, Option.some.injEq] at hId
      exact Or.inl ⟨rfl, hId.symm⟩
    · have hOld : g.ids v = some id := by
        simpa [Graph.newUniverse, Function.update_of_ne hEq] using hId
      exact Or.inr ⟨hOld, (h.issued v id hOld).1⟩
  have hUnheld : g.inbound g.objectsCount = ∅ := by
    ext ⟨v, i⟩
    simp only [Graph.inbound, Set.mem_ofPred_eq, Set.mem_empty_iff_false, iff_false]
    rintro ⟨r, hSome, hr⟩
    exact absurd (h.typed v i r hSome).1 (hr ▸ Nat.lt_irrefl _)
  have hObject := h.newObject 1
  refine ⟨?_, ?_, ?_, ?_, ?_, hObject.known, h.finite, ?_, ?_⟩
  · intro v i r hSome
    have hLive := h.owner v i r hSome
    obtain ⟨id, hId⟩ := Option.isSome_iff_exists.mp hLive
    rw [hNew (h.issued v id hId).1]
    exact hLive
  · intro v i r hSome
    rw [hNew (h.typed v i r hSome).1]
    exact hObject.typed v i r hSome
  · intro v id hId
    show v < g.objectsCount + 1 ∧ id < g.nextId + 1
    rcases hCases hId with ⟨rfl, rfl⟩ | ⟨hOld, -⟩
    · exact ⟨Nat.lt_succ_self _, hLeft⟩
    · obtain ⟨hBelow, hLt⟩ := h.issued v id hOld
      exact ⟨Nat.lt_succ_of_lt hBelow, UInt64.lt_trans hLt hLeft⟩
  · intro v w id hv hw
    rcases hCases hv with ⟨rfl, rfl⟩ | ⟨hv, -⟩ <;> rcases hCases hw with ⟨rfl, hId⟩ | ⟨hw, -⟩
    · rfl
    · exact absurd (h.issued w _ hw).2 (UInt64.lt_irrefl _)
    · exact absurd (h.issued v _ hv).2 (hId ▸ UInt64.lt_irrefl _)
    · exact h.unique v w id hv hw
  · intro v i r id id' hSome hId hId'
    rcases hCases hId with ⟨rfl, rfl⟩ | ⟨hId, -⟩
    · obtain ⟨old, hOld⟩ := Option.isSome_iff_exists.mp (h.owner _ i r hSome)
      exact absurd (h.issued _ old hOld).1 (Nat.lt_irrefl _)
    · rw [hNew (h.typed v i r hSome).1] at hId'
      exact h.order v i r id id' hSome hId hId'
  · intro v hv
    obtain ⟨id, hId⟩ := Option.isSome_iff_exists.mp hv
    rcases hCases hId with ⟨rfl, rfl⟩ | ⟨hId, -⟩
    · show Function.update g.refcount _ 1 g.objectsCount =
        Function.update g.held _ 1 g.objectsCount + (g.inbound g.objectsCount).ncard
      simp [hUnheld]
    · exact hObject.counted v (Option.isSome_of_eq_some hId)
  · intro v hv
    obtain ⟨id, hId⟩ := Option.isSome_iff_exists.mp hv
    rcases hCases hId with ⟨rfl, rfl⟩ | ⟨hId, -⟩
    · show 0 < Function.update g.refcount _ 1 g.objectsCount
      simp
    · exact hObject.alive v (Option.isSome_of_eq_some hId)

/-- A reference in a universe that was filled is a copy, and the other ones are old. -/
theorem update_refs_some {copies : Nat → Option UserRef} {v i : Nat} {r : UserRef}
    (hSome : Function.update g.refs u copies v i = some r) :
    v = u ∧ copies i = some r ∨ g.refs v i = some r := by
  by_cases hEq : v = u
  · subst hEq
    rw [Function.update_self] at hSome
    exact Or.inl ⟨rfl, hSome⟩
  · rw [Function.update_of_ne hEq] at hSome
    exact Or.inr hSome

/-- Fill the cells of an empty universe with references to other objects than
universes. -/
theorem Sound.fill (h : Sound g) (hLive : (g.ids u).isSome) (hEmpty : ∀ i, g.refs u i = none)
    {copies : Nat → Option UserRef}
    (hCopies : ∀ i r, copies i = some r → r.ref < g.objectsCount ∧ r.isUniverse = false ∧
      g.ids r.ref = none)
    (hFinite : {i | copies i ≠ none}.Finite) :
    Sound { g with refs := Function.update g.refs u copies } := by
  have hInbound : ∀ obj, (g.ids obj).isSome →
      ({ g with refs := Function.update g.refs u copies } : Graph).inbound obj = g.inbound obj := by
    intro obj hObj
    ext ⟨v, i⟩
    constructor
    · rintro ⟨r, hSome, rfl⟩
      rcases update_refs_some hSome with ⟨rfl, hCopy⟩ | hOld
      · rw [(hCopies i r hCopy).2.2] at hObj
        cases hObj
      · exact ⟨r, hOld, rfl⟩
    · rintro ⟨r, hSome, rfl⟩
      have hNe : v ≠ u := by
        rintro rfl
        rw [hEmpty] at hSome
        cases hSome
      exact ⟨r, by simpa [Function.update_of_ne hNe] using hSome, rfl⟩
  refine ⟨?_, ?_, h.issued, h.unique, ?_, h.known, ?_, ?_, h.alive⟩
  · intro v i r hSome
    rcases update_refs_some hSome with ⟨rfl, -⟩ | hOld
    · exact hLive
    · exact h.owner v i r hOld
  · intro v i r hSome
    rcases update_refs_some hSome with ⟨rfl, hCopy⟩ | hOld
    · obtain ⟨hLt, hType, hNone⟩ := hCopies i r hCopy
      exact ⟨hLt, by simp [hType, hNone]⟩
    · exact h.typed v i r hOld
  · intro v i r id id' hSome hId hId'
    rcases update_refs_some hSome with ⟨rfl, hCopy⟩ | hOld
    · rw [(hCopies i r hCopy).2.2] at hId'
      cases hId'
    · exact h.order v i r id id' hOld hId hId'
  · intro obj
    refine ((h.finite obj).union (hFinite.image (Prod.mk u))).subset ?_
    rintro ⟨v, i⟩ ⟨r, hSome, hr⟩
    rcases update_refs_some hSome with ⟨rfl, hCopy⟩ | hOld
    · exact Or.inr ⟨i, by simp [hCopy], rfl⟩
    · exact Or.inl ⟨r, hOld, hr⟩
  · intro v hv
    rw [hInbound v hv]
    exact h.counted v hv

/-- One universe refers to another one. -/
def Graph.Contains (g : Graph) (u v : Nat) : Prop :=
  ∃ i ref, g.refs u i = some ref ∧ ref.isUniverse = true ∧ ref.ref = v

/-- Along containment the ids increase. -/
theorem Sound.contains_lt (h : Sound g) {v : Nat} (hContains : g.Contains u v) :
    ∃ id id', g.ids u = some id ∧ g.ids v = some id' ∧ id < id' := by
  obtain ⟨i, r, hSome, hType, rfl⟩ := hContains
  obtain ⟨id, hId⟩ := Option.isSome_iff_exists.mp (h.owner u i r hSome)
  obtain ⟨id', hId'⟩ := Option.isSome_iff_exists.mp ((h.typed u i r hSome).2.mp hType)
  exact ⟨id, id', hId, hId', h.order u i r id id' hSome hId hId'⟩

theorem Sound.rank_lt (h : Sound g) (u v : Nat) (hContains : g.Contains u v) :
    ((g.ids u).getD 0).toNat < ((g.ids v).getD 0).toNat := by
  obtain ⟨id, id', hId, hId', hLt⟩ := h.contains_lt hContains
  simpa [hId, hId'] using UInt64.lt_iff_toNat_lt.mp hLt

theorem Sound.acyclic (h : Sound g) (u : Nat) : ¬Relation.TransGen g.Contains u u :=
  transGen_irrefl_of_rank h.rank_lt u

/-- A universe without references from outside is in another universe. -/
theorem Sound.rooted (h : Sound g) (hLive : (g.ids u).isSome) :
    ∃ v, (g.ids v).isSome ∧ 0 < g.held v ∧ Relation.ReflTransGen g.Contains v u := by
  have hPred : ∀ v, (g.ids v).isSome → 0 < g.held v ∨ ∃ w, (g.ids w).isSome ∧ g.Contains w v := by
    intro v hv
    rcases Nat.eq_zero_or_pos (g.held v) with hZero | hPos
    · right
      have hCounted := h.counted v hv
      have hAlive := h.alive v hv
      obtain ⟨⟨w, i⟩, r, hSome, rfl⟩ := (Set.ncard_pos (h.finite v)).mp (by omega)
      exact ⟨w, h.owner w i r hSome, i, r, hSome, (h.typed w i r hSome).2.mpr hv, rfl⟩
    · exact Or.inl hPos
  exact exists_root_of_rank h.rank_lt hPred hLive

end Sound

end Ricerca.Universe
