import Mathlib.Algebra.Order.BigOperators.Group.List
import Ricerca.User.Entry
import Ricerca.User.UniverseCounts
import Ricerca.User.UniverseOrder

/-! What system calls do with references. The references that a running call owns are
a list next to the state: borrowing puts one on it, and dropping a reference or
storing it in a universe takes one off. -/
namespace Ricerca.Entry

open Ricerca.Foundation Ricerca.Cookie Ricerca.Universe

namespace State

/-- References of the entries to their universes and cookies. -/
def entryRefs (k : State) (obj : Nat) : Nat :=
  (k.apiEntries.map (·.universeRef)).count obj + (k.apiEntries.map (·.cookieRef)).count obj

/-- The reference of an owner object that has not been shut down to its
`user_shm_ref`. -/
def shmOwnerRef (k : State) : Nat → Nat
  | 0 => 0
  | owner + 1 => (k.shmListed owner).toNat

end State

/-- Between two operations of a call: the counters are exact, and the references
outside of all universes are those of entries, of shared memory objects and of the
call. -/
structure Accounted (owned : List Nat) (k : State) : Prop where
  table : Table True k.toStore k.objectsCount
  balanced : Balanced k.isGroupCookie (graph k.toState)
  holders : ∀ o, k.held o = k.entryRefs o + k.shmOwnerRef o + owned.count o
  universes : ∀ u, k.universes u ≠ none → k.dispose u = .userUniverseDestroy
  shmLive : ∀ o, k.dispose o = .userShmShutdown → 0 < k.refcount o → k.shmListed o = true
  shmKnown : ∀ o, k.shms o ≠ none → k.dispose o = .userShmShutdown ∧
    k.dispose (o + 1) = .userShmDealloc ∧ o + 1 < k.objectsCount

namespace Accounted

variable {k : State} {owned owned' : List Nat} {obj : Nat}

theorem perm (h : Accounted owned k) (hPerm : owned.Perm owned') : Accounted owned' k :=
  ⟨h.table, h.balanced, fun o => by rw [h.holders, hPerm.count_eq], h.universes, h.shmLive, h.shmKnown⟩

theorem held_pos (h : Accounted (obj :: owned) k) : 0 < k.held obj := by
  rw [h.holders, List.count_cons_self]
  omega

/-- Only universes, counters and references change. -/
theorem setState {s : Universe.State} (h : Accounted owned k)
    (hTable : Table True s.toStore s.objectsCount) (hBalanced : Balanced k.isGroupCookie (graph s))
    (hHeld : ∀ o, s.held o + owned.count o = k.held o + owned'.count o)
    (hUniverses : ∀ u, s.universes u ≠ none → k.universes u ≠ none)
    (hCount : ∀ o, k.dispose o = .userShmShutdown → 0 < s.refcount o → 0 < k.refcount o)
    (hBound : k.objectsCount ≤ s.objectsCount) : Accounted owned' { k with toState := s } := by
  refine ⟨hTable, hBalanced, ?_, fun u hu => h.universes u (hUniverses u hu),
    fun o hType hPos => h.shmLive o hType (hCount o hType hPos),
    fun o ho => ?_⟩
  · intro o
    have hOld := h.holders o
    have hNew := hHeld o
    show s.held o = k.entryRefs o + k.shmOwnerRef o + owned'.count o
    omega
  · obtain ⟨hOwner, hRef, hLt⟩ := h.shmKnown o ho
    exact ⟨hOwner, hRef, hLt.trans_le hBound⟩

/-- An object that a cell refers to has a reference to count. -/
theorem refcount_pos (h : Accounted owned k) {u cell : Nat} {ref : UserRef}
    (hView : view k.toStore u cell = some ref) (hObj : ¬k.isGroupCookie ref.ref) :
    0 < k.refcount ref.ref := by
  have hMem : (u, cell) ∈ (graph k.toState).inbound ref.ref := ⟨ref, hView, rfl⟩
  have hCard : 0 < ((graph k.toState).inbound ref.ref).ncard :=
    (Set.ncard_pos (h.balanced.finite _)).mpr ⟨_, hMem⟩
  have hCounted : k.refcount ref.ref = _ := h.balanced.counted ref.ref hObj
  omega

/-- One more reference to an object that the call can reach. -/
theorem borrow (h : Accounted owned k) (hObj : obj < k.objectsCount)
    (hAlive : k.dispose obj = .userShmShutdown → 0 < k.refcount obj) :
    Accounted (obj :: owned) { k with toState := (k.memRefBorrow obj).addHeld obj } := by
  have hBalanced : Balanced k.isGroupCookie (graph ((k.memRefBorrow obj).addHeld obj)) :=
    h.balanced.borrow hObj
  refine h.setState h.table hBalanced ?_ (fun u hu => hu) ?_ (Nat.le_refl _)
  · intro o
    show Function.update k.held obj (k.held obj + 1) o + _ = _
    by_cases hEq : o = obj
    · subst hEq
      rw [Function.update_self, List.count_cons_self]
      omega
    · rw [Function.update_of_ne hEq, List.count_cons_of_ne (Ne.symm hEq)]
  · intro o hType hPos
    by_cases hEq : o = obj
    · exact hEq ▸ hAlive (hEq ▸ hType)
    · have hSame : 0 < Function.update k.refcount obj (k.refcount obj + 1) o := hPos
      rwa [Function.update_of_ne hEq] at hSame

end Accounted

section Drop

variable {k : State} {owned : List Nat} {obj : Nat}

/-- The list has an object as often as the cells of the universe refer to it. -/
theorem count_universeRefs {u : Nat} {uni : UserUniverse} (hUni : k.universes u = some uni) (o : Nat) :
    (k.universeRefs u).count o = k.cellRefs uni o := by
  simp only [State.universeRefs, hUni, State.cellRefs, List.count_eq_countP, List.countP_map,
    List.countP_filter]
  congr 1
  funext i
  simp only [Function.comp_apply, Bool.and_comm, beq_eq_decide]

theorem universeRefs_of_dead {u : Nat} (hUni : k.universes u = none) : k.universeRefs u = [] := by
  simp only [State.universeRefs, hUni]

/-- The references that the callback of a universe has to drop. -/
def State.releasedRefs (k : State) (obj : Nat) : List Nat :=
  if k.refcount obj = 1 then k.universeRefs obj else []

theorem held_memRefDrop (k : State) (obj o : Nat) :
    ((k.takeHeld obj).memRefDrop obj).held o =
      Function.update k.held obj (k.held obj - 1) o + (k.releasedRefs obj).count o := by
  have hCount : (k.takeHeld obj).refcount obj = k.refcount obj := rfl
  simp only [State.memRefDrop, State.releasedRefs, hCount]
  split_ifs with hLast
  · cases hUni : k.universes obj with
    | none =>
        rw [universeRefs_of_dead hUni]
        simp [State.destroy, State.takeHeld, hUni]
    | some uni =>
        rw [count_universeRefs hUni]
        simp only [State.destroy, State.takeHeld, hUni]
        rfl
  · simp [State.takeHeld]

/-- A dropped reference leaves the hands of the call, and those of a destroyed universe
come into them. -/
theorem Accounted.drop (h : Accounted (obj :: owned) k) :
    Accounted (k.releasedRefs obj ++ owned) { k with toState := (k.takeHeld obj).memRefDrop obj } := by
  have hBalanced : Balanced k.isGroupCookie (graph ((k.takeHeld obj).memRefDrop obj)) := by
    rw [graph_drop]
    exact h.balanced.drop h.held_pos
  have hBound : ((k.takeHeld obj).memRefDrop obj).objectsCount = k.objectsCount :=
    memRefDrop_bound (k.takeHeld obj) obj
  have hTable := memRefDrop_table (s := k.takeHeld obj) h.table obj
  refine h.setState (hBound ▸ hTable) hBalanced ?_ ?_ ?_ hBound.ge
  · intro o
    have hPos := h.held_pos
    rw [held_memRefDrop, List.count_append]
    by_cases hEq : o = obj
    · subst hEq
      rw [Function.update_self, List.count_cons_self]
      omega
    · rw [Function.update_of_ne hEq, List.count_cons_of_ne (Ne.symm hEq)]
      omega
  · intro u hu
    obtain ⟨uni, hUni⟩ := Option.ne_none_iff_exists'.mp hu
    rw [show k.universes u = some uni from memRefDrop_live (k.takeHeld obj) obj hUni]
    exact Option.some_ne_none uni
  · intro o _ hPos
    have hLess : ((k.takeHeld obj).memRefDrop obj).refcount o ≤ k.refcount o := by
      have hUpdate : ((k.takeHeld obj).memRefDrop obj).refcount o =
          Function.update k.refcount obj (k.refcount obj - 1) o := by
        simp only [State.memRefDrop]
        split_ifs <;> rfl
      rw [hUpdate]
      by_cases hEq : o = obj
      · subst hEq
        rw [Function.update_self]
        omega
      · rw [Function.update_of_ne hEq]
    omega

/-- An owner object that is shut down passes its reference on. -/
theorem Accounted.shutdown {owner : Nat} (h : Accounted owned k) (hListed : k.shmListed owner = true)
    (hDead : k.refcount owner = 0) : Accounted ((owner + 1) :: owned) (k.userShmShutdown owner) := by
  obtain ⟨shm, hShm⟩ : ∃ shm, k.shms owner = some shm := by
    cases hNone : k.shms owner with
    | none => simp [State.shmListed, hNone] at hListed
    | some shm => exact ⟨shm, rfl⟩
  have hSelf : (k.userShmShutdown owner).shmListed owner = false := by
    simp [State.userShmShutdown, hShm, State.shmListed]
  have hOther : ∀ o, o ≠ owner → (k.userShmShutdown owner).shmListed o = k.shmListed o := by
    intro o hNe
    simp [State.userShmShutdown, hShm, State.shmListed, Function.update_of_ne hNe]
  have hState : (k.userShmShutdown owner).toState = k.toState := by
    simp only [State.userShmShutdown, hShm]
  have hDispose : (k.userShmShutdown owner).dispose = k.dispose := by
    simp only [State.userShmShutdown, hShm]
  have hEntries : (k.userShmShutdown owner).apiEntries = k.apiEntries := by
    simp only [State.userShmShutdown, hShm]
  have hGroup : (k.userShmShutdown owner).isGroupCookie = k.isGroupCookie := by
    funext o
    simp only [State.isGroupCookie, hDispose]
  refine ⟨hState ▸ h.table, hGroup ▸ hState ▸ h.balanced, ?_, ?_, ?_, ?_⟩
  · intro o
    have hOld := h.holders o
    have hHeld : (k.userShmShutdown owner).held o = k.held o := by rw [hState]
    have hRefs : (k.userShmShutdown owner).entryRefs o = k.entryRefs o := by
      simp only [State.entryRefs, hEntries]
    rw [hHeld, hRefs, hOld]
    cases o with
    | zero => simp [State.shmOwnerRef]
    | succ o =>
        by_cases hEq : o = owner
        · subst hEq
          simp only [State.shmOwnerRef, hSelf, hListed, List.count_cons_self, Bool.toNat_true,
            Bool.toNat_false]
          omega
        · have hNe : owner + 1 ≠ o + 1 := fun hSucc => hEq (Nat.succ.inj hSucc).symm
          rw [List.count_cons_of_ne hNe]
          simp only [State.shmOwnerRef, hOther o hEq]
  · intro u hu
    rw [hDispose]
    exact h.universes u (by rwa [hState] at hu)
  · intro o hType hPos
    rw [hDispose] at hType
    rw [hState] at hPos
    have hNe : o ≠ owner := by
      rintro rfl
      omega
    rw [hOther o hNe]
    exact h.shmLive o hType hPos
  · intro o ho
    rw [hDispose, hState]
    by_cases hEq : o = owner
    · exact hEq ▸ h.shmKnown owner (by simp [hShm])
    · refine h.shmKnown o ?_
      simpa [State.userShmShutdown, hShm, Function.update_of_ne hEq] using ho

/-- A sum that nowhere grows, and shrinks by `d` at one place. -/
theorem sum_range_add_le {f f' : Nat → Nat} {n i d : Nat} (hLe : ∀ o, f' o ≤ f o) (hi : i < n)
    (hLess : f' i + d ≤ f i) :
    ((List.range n).map f').sum + d ≤ ((List.range n).map f).sum := by
  induction n with
  | zero => omega
  | succ n ih =>
      have hRest : ((List.range n).map f').sum ≤ ((List.range n).map f).sum :=
        List.sum_le_sum fun o _ => hLe o
      have hLast := hLe n
      simp only [List.range_succ, List.map_append, List.map_singleton, List.sum_append,
        List.sum_singleton]
      rcases Nat.lt_succ_iff_lt_or_eq.mp hi with hLt | rfl
      · have := ih hLt
        omega
      · omega

/-- Everything else that a dropped reference leaves in place. -/
theorem universeRefs_drop (k : State) (obj o : Nat) :
    ({ k with toState := (k.takeHeld obj).memRefDrop obj } : State).universeRefs o =
      if k.refcount obj = 1 ∧ o = obj then [] else k.universeRefs o := by
  have hStore : ((k.takeHeld obj).memRefDrop obj).toStore =
      if k.refcount obj = 1 then { k.toStore with universes := Function.update k.universes obj none }
      else k.toStore := memRefDrop_store (k.takeHeld obj) obj
  simp only [State.universeRefs, hStore]
  by_cases hLast : k.refcount obj = 1
  · by_cases hEq : o = obj
    · simp [hLast, hEq]
    · simp [hLast, hEq]
  · simp [hLast]

theorem shmListed_shutdown_le (k : State) (owner o : Nat) :
    ((k.userShmShutdown owner).shmListed o).toNat ≤ (k.shmListed o).toNat := by
  cases hShm : k.shms owner with
  | none => simp [State.userShmShutdown, hShm]
  | some shm =>
      by_cases hEq : o = owner
      · simp [State.userShmShutdown, hShm, State.shmListed, hEq]
      · simp [State.userShmShutdown, hShm, State.shmListed, Function.update_of_ne hEq]

/-- Fewer references for callbacks to drop, by those of one object. -/
theorem pendingDrops_add_le {k' : State} {d : Nat} (hBound : k'.objectsCount = k.objectsCount)
    (hRefs : ∀ o, (k'.universeRefs o).length ≤ (k.universeRefs o).length)
    (hListed : ∀ o, (k'.shmListed o).toNat ≤ (k.shmListed o).toNat) (hKnown : obj < k.objectsCount)
    (hLess : (k'.universeRefs obj).length + (k'.shmListed obj).toNat + d ≤
      (k.universeRefs obj).length + (k.shmListed obj).toNat) :
    k'.pendingDrops + d ≤ k.pendingDrops := by
  simp only [State.pendingDrops, hBound]
  exact sum_range_add_le (fun o => Nat.add_le_add (hRefs o) (hListed o)) hKnown hLess

/-- One drop accounts for what its callback drops, and leaves fewer references for
callbacks to drop. -/
theorem memRcDrop_spec (h : Accounted (obj :: owned) k) :
    Accounted ((k.memRcDrop obj).2 ++ owned) (k.memRcDrop obj).1 ∧
    (k.memRcDrop obj).1.pendingDrops + (k.memRcDrop obj).2.length ≤ k.pendingDrops := by
  have hDropped := h.drop
  have hKnown : obj < k.objectsCount := h.balanced.known obj h.held_pos
  generalize hk' : ({ k with toState := (k.takeHeld obj).memRefDrop obj } : State) = k' at hDropped
  have hBound : k'.objectsCount = k.objectsCount := hk' ▸ memRefDrop_bound (k.takeHeld obj) obj
  have hRefs : ∀ o, k'.universeRefs o =
      if k.refcount obj = 1 ∧ o = obj then [] else k.universeRefs o := hk' ▸ universeRefs_drop k obj
  have hListed : k'.shmListed = k.shmListed := hk' ▸ rfl
  have hRefsLe : ∀ o, (k'.universeRefs o).length ≤ (k.universeRefs o).length := by
    intro o
    rw [hRefs]
    split_ifs <;> simp
  have hListedLe : ∀ o, (k'.shmListed o).toNat ≤ (k.shmListed o).toNat := fun o => by rw [hListed]
  have hPending : k'.pendingDrops + 0 ≤ k.pendingDrops :=
    pendingDrops_add_le hBound hRefsLe hListedLe hKnown <| by
      have := hRefsLe obj
      have := hListedLe obj
      omega
  simp only [State.memRcDrop, hk']
  split_ifs with hLast
  · have hNone : k.dispose obj ≠ .userUniverseDestroy → k.universes obj = none := by
      intro hType
      by_contra hLive
      exact hType (h.universes obj hLive)
    rw [State.releasedRefs, if_pos hLast] at hDropped
    cases hType : k.dispose obj
    case userUniverseDestroy =>
        refine ⟨hDropped, pendingDrops_add_le hBound hRefsLe hListedLe hKnown ?_⟩
        rw [hRefs, if_pos ⟨hLast, rfl⟩, hListed, List.length_nil]
        simp only
        omega
    case userShmShutdown =>
        have hLive : k.shmListed obj = true := h.shmLive obj hType (by omega)
        rw [universeRefs_of_dead (hNone (by simp [hType])), List.nil_append] at hDropped
        have hDead : k'.refcount obj = 0 := by
          rw [← hk']
          simp only [State.memRefDrop, State.takeHeld, hLast, if_true]
          exact Function.update_self ..
        have hShutdown := hDropped.shutdown (hListed ▸ hLive) hDead
        have hSame : (k'.userShmShutdown obj).toState = k'.toState := by
          simp only [State.userShmShutdown]
          split <;> rfl
        have hSameRefs : (k'.userShmShutdown obj).universeRefs = k'.universeRefs := by
          funext o
          simp only [State.universeRefs, hSame]
        refine ⟨hShutdown, pendingDrops_add_le (hSame ▸ hBound) ?_ ?_ hKnown ?_⟩
        · rw [hSameRefs]
          exact hRefsLe
        · intro o
          rw [← hListed]
          exact shmListed_shutdown_le k' obj o
        · have hGone : ((k'.userShmShutdown obj).shmListed obj) = false := by
            simp only [State.userShmShutdown, State.shmListed]
            split
            · simp [*]
            · simp
          rw [hSameRefs, hGone, hLive]
          have := hRefsLe obj
          simp only [Bool.toNat_false, Bool.toNat_true, List.length_singleton]
          omega
    all_goals
      rw [universeRefs_of_dead (hNone (by simp [hType])), List.nil_append] at hDropped
      exact ⟨hDropped, hPending⟩
  · rw [State.releasedRefs, if_neg hLast] at hDropped
    exact ⟨hDropped, hPending⟩

/-- With enough steps, all references of the list and what follows from them are
dropped. -/
theorem dropAll_spec {steps : Nat} {work : List Nat} (h : Accounted (work ++ owned) k)
    (hSteps : k.pendingDrops + work.length ≤ steps) : Accounted owned (k.dropAll steps work) := by
  induction steps generalizing work k with
  | zero =>
      have hNil : work = [] := List.length_eq_zero_iff.mp (by omega)
      subst hNil
      exact h
  | succ steps ih =>
      cases work with
      | nil => exact h
      | cons obj work =>
          obtain ⟨hDropped, hPending⟩ := memRcDrop_spec h
          rw [State.dropAll]
          refine ih ?_ ?_
          · rwa [List.append_assoc]
          · rw [List.length_append]
            rw [List.length_cons] at hSteps
            omega

theorem userDropRef_spec (obj : Nat) (owned : List Nat) :
    Triple (Accounted (obj :: owned)) (userDropRef obj) fun _ => Accounted owned := by
  intro k hk _ k' hRun
  cases hRun
  have hWork : Accounted ([obj] ++ owned) k := hk
  exact dropAll_spec hWork (Nat.le_refl _)

end Drop

/-- A call that succeeds leaves references in the hands of its caller. -/
def Gives {α : Type} (owned : List Nat) (refs : α → List Nat) : Except Status α → State → Prop
  | .ok a => Accounted (refs a ++ owned)
  | .error _ => Accounted owned

/-- A call that succeeds takes references from the hands of its caller. -/
def Takes {α : Type} (owned refs : List Nat) : Except Status α → State → Prop
  | .ok _ => Accounted owned
  | .error _ => Accounted (refs ++ owned)

end Ricerca.Entry
