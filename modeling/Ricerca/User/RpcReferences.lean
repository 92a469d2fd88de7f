import Ricerca.Foundation.Counting
import Ricerca.User.RpcPlaces

/-! Who keeps a caller alive. The count in `dealloc_rc_base` covers the open handle,
every container on its way and every operation that is about to drop a reference, so
a caller is only freed when nothing can come back to it and its pool is empty. -/
namespace Ricerca.Rpc

open Ricerca.Foundation Ricerca.Cookie Ricerca.Lib

/-- What a running operation is to a caller. -/
inductive Role where
  | holds (caller : Nat)
  | drops (caller : Nat)
  | frees (caller : Nat)
  | closes (caller : Nat)
  deriving DecidableEq

def Running.role : Running → Option Role
  | .initiating c _ _ | .unreachable c _ => some (.holds c)
  | .droppingCaller c _ => some (.drops c)
  | .freeingReplies c _ => some (.frees c)
  | .freeingContainers c => some (.closes c)
  | _ => none

def role (s : State) (id : Nat) : Option Role := (s.running id).bind Running.role

/-- The container is between its caller's pool and its caller's replies. -/
def Place.inFlight : Place → Prop
  | .incoming _ | .awaiting _ | .operation _ => True
  | _ => False

/-- What a reference to a caller is held for. -/
inductive Token where
  | handle
  | container (x : Nat)
  | operation (id : Nat)

/-- The references to a caller that must still be dropped. -/
def owing (s : State) (c : Nat) : Set Token := fun
  | .handle =>
      (∃ caller, s.callers c = some caller ∧ caller.isShutDown = false) ∨
        ∃ id, role s id = some (.closes c)
  | .container x => ∃ p d, x ∈ held s p ∧ p.inFlight ∧ s.containers x = some d ∧ d.caller = c
  | .operation id => role s id = some (.drops c)

/-- A caller and the operations that use it agree. -/
structure References (s : State) (c : Nat) : Prop where
  holding : ∀ id, role s id = some (.holds c) →
    ∃ caller, s.callers c = some caller ∧ caller.isShutDown = false
  counted : ∀ caller, s.callers c = some caller → AtMost (owing s c) caller.deallocRefcount
  owed : ∀ t, t ∈ owing s c → s.callers c ≠ none
  dying : ∀ id, role s id = some (.frees c) →
    ∃ caller, s.callers c = some caller ∧ caller.deallocRefcount = 0
  dyingOnce : ∀ id id', role s id = some (.frees c) → role s id' = some (.frees c) → id = id'
  closing : ∀ id, role s id = some (.closes c) →
    ∃ caller, s.callers c = some caller ∧ caller.isShutDown = true
  closingOnce : ∀ id id', role s id = some (.closes c) → role s id' = some (.closes c) → id = id'
  emptied : ∀ caller, s.callers c = some caller → caller.isShutDown = true →
    caller.freeContainers = [] ∨ ∃ id, role s id = some (.closes c)

section Roles

variable {s : State}

theorem role_of_running {id : Nat} {r : Running} (hRun : s.running id = some r) :
    role s id = r.role := by
  simp [role, hRun]

theorem role_update {s' : State} {id : Nat} {r : Option Running} {ρ : Option Role}
    (h : s'.running = Function.update s.running id r) (hRole : r.bind Running.role = ρ) :
    role s' = Function.update (role s) id ρ := by
  subst hRole
  funext i
  by_cases hi : i = id
  · subst hi
    simp [role, h]
  · simp [role, h, Function.update_of_ne hi]

theorem role_updated {s' : State} {id : Nat} {r : Option Running} {ρ : Option Role}
    (h : s'.running = Function.update s.running id r) (hRole : r.bind Running.role = ρ) :
    role s' id = ρ := by
  rw [role_update h hRole, Function.update_self]

theorem role_updated_of_ne {s' : State} {id i : Nat} {r : Option Running} {ρ : Option Role}
    (h : s'.running = Function.update s.running id r) (hRole : r.bind Running.role = ρ)
    (hi : i ≠ id) : role s' i = role s i := by
  rw [role_update h hRole, Function.update_of_ne hi]

theorem After.role_next (after : After) : after.next.bind Running.role = none := by
  cases after <;> rfl

end Roles

section Facts

variable {s : State} {c id : Nat} {caller : UserRpcCaller}

/-- A caller that is being freed has no references left. -/
theorem References.not_owing {t : Token} (h : References s c) (hFrees : role s id = some (.frees c)) :
    t ∉ owing s c := by
  intro ht
  obtain ⟨caller, hCaller, hZero⟩ := h.dying id hFrees
  have hPos := (h.counted caller hCaller).pos ht
  omega

/-- A caller that is being freed was shut down and its pool is empty. -/
theorem References.pool_empty (h : References s c) (hFrees : role s id = some (.frees c))
    (hCaller : s.callers c = some caller) :
    caller.isShutDown = true ∧ caller.freeContainers = [] := by
  have hHandle : Token.handle ∉ owing s c := h.not_owing hFrees
  have hShut : caller.isShutDown = true := by
    by_contra hOpen
    exact hHandle (Or.inl ⟨caller, hCaller, by simpa using hOpen⟩)
  refine ⟨hShut, (h.emptied caller hCaller hShut).resolve_right fun hCloses => ?_⟩
  exact hHandle (Or.inr hCloses)

theorem References.not_frees (h : References s c) (hCaller : s.callers c = some caller)
    (hOpen : caller.isShutDown = false) (id : Nat) : role s id ≠ some (.frees c) :=
  fun hFrees => h.not_owing hFrees (t := .handle) (Or.inl ⟨caller, hCaller, hOpen⟩)

theorem References.not_closes (h : References s c) (hCaller : s.callers c = some caller)
    (hOpen : caller.isShutDown = false) (id : Nat) : role s id ≠ some (.closes c) := by
  intro hCloses
  obtain ⟨a, hCaller', hShut⟩ := h.closing id hCloses
  obtain rfl := Option.some.inj (hCaller.symm.trans hCaller')
  cases hOpen.symm.trans hShut

end Facts

def Role.caller : Role → Nat
  | .holds c | .drops c | .frees c | .closes c => c

/-- No operation takes up a role for the caller, and none that closes it stops. -/
structure SameRoles (s s' : State) (c : Nat) : Prop where
  back : ∀ id ρ, ρ.caller = c → role s' id = some ρ → role s id = some ρ
  closes : ∀ id, role s id = some (.closes c) → role s' id = some (.closes c)

/-- The caller gets no reference and loses none. -/
structure Steady (s s' : State) (c : Nat) : Prop where
  refs : (s'.callers c).map (fun a => (a.deallocRefcount, a.isShutDown)) =
    (s.callers c).map (fun a => (a.deallocRefcount, a.isShutDown))
  pool : ∀ a a', s.callers c = some a → s'.callers c = some a' → a.isShutDown = true →
    a.freeContainers = [] → a'.freeContainers = []
  roles : SameRoles s s' c
  flight : ∀ x, Token.container x ∈ owing s' c → Token.container x ∈ owing s c

section Steady

variable {s s' : State} {c id : Nat} {a a' : UserRpcCaller}

theorem SameRoles.of_eq (h : s'.running = s.running) : SameRoles s s' c := by
  have hRole : role s' = role s := by
    funext id
    rw [role, role, h]
  constructor <;> simp [hRole]

/-- One operation goes on. -/
theorem SameRoles.update {ρ : Option Role} (h : role s' = Function.update (role s) id ρ)
    (hNew : ∀ ρ₁, ρ₁.caller = c → ρ = some ρ₁ → role s id = some ρ₁)
    (hCloses : role s id = some (.closes c) → ρ = some (.closes c)) : SameRoles s s' c := by
  constructor
  · intro i ρ₁ hCaller hRole
    rw [h] at hRole
    by_cases hi : i = id
    · subst hi
      rw [Function.update_self] at hRole
      exact hNew ρ₁ hCaller hRole
    · rwa [Function.update_of_ne hi] at hRole
  · intro i hRole
    rw [h]
    by_cases hi : i = id
    · subst hi
      rw [Function.update_self]
      exact hCloses hRole
    · rwa [Function.update_of_ne hi]

/-- An operation without a role takes up none. -/
theorem SameRoles.silent (h : role s' = Function.update (role s) id none) (hWas : role s id = none ∨
    ∃ c', role s id = some (.holds c')) : SameRoles s s' c := by
  refine .update h (fun _ _ hNone => by cases hNone) fun hCloses => ?_
  rcases hWas with hNone | ⟨c', hHolds⟩
  · cases hNone.symm.trans hCloses
  · cases hHolds.symm.trans hCloses

theorem Steady.of_same (hCallers : s'.callers c = s.callers c) (hRoles : SameRoles s s' c)
    (hFlight : ∀ x, Token.container x ∈ owing s' c → Token.container x ∈ owing s c) :
    Steady s s' c := by
  refine ⟨by rw [hCallers], fun a a' hCaller hCaller' _ hEmpty => ?_, hRoles, hFlight⟩
  obtain rfl := Option.some.inj ((hCaller.symm.trans hCallers.symm).trans hCaller')
  exact hEmpty

/-- Only the queues of callers change, and no pool that was left empty gets a container. -/
theorem Steady.of_queues {c' : Nat} (hCallers : s'.callers = Function.update s.callers c' (some a'))
    (hCaller : s.callers c' = some a) (hCount : a'.deallocRefcount = a.deallocRefcount)
    (hShut : a'.isShutDown = a.isShutDown)
    (hPool : a.isShutDown = true → a.freeContainers = [] → a'.freeContainers = [])
    (hRoles : SameRoles s s' c)
    (hFlight : ∀ x, Token.container x ∈ owing s' c → Token.container x ∈ owing s c) :
    Steady s s' c := by
  by_cases hEq : c = c'
  · subst hEq
    have hCaller' : s'.callers c = some a' := by rw [hCallers, Function.update_self]
    refine ⟨by rw [hCaller, hCaller']; simp [hCount, hShut], fun b b' hb hb' hClosed hEmpty => ?_,
      hRoles, hFlight⟩
    obtain rfl := Option.some.inj (hCaller.symm.trans hb)
    obtain rfl := Option.some.inj (hCaller'.symm.trans hb')
    exact hPool hClosed hEmpty
  · exact .of_same (by rw [hCallers, Function.update_of_ne hEq]) hRoles hFlight

theorem Steady.caller (h : Steady s s' c) (hCaller : s.callers c = some a) :
    ∃ a', s'.callers c = some a' ∧ a'.deallocRefcount = a.deallocRefcount ∧
      a'.isShutDown = a.isShutDown := by
  have hRefs := h.refs
  rw [hCaller] at hRefs
  obtain ⟨a', hCaller', hEq⟩ := Option.map_eq_some_iff.mp hRefs
  exact ⟨a', hCaller', (Prod.mk.inj hEq).1, (Prod.mk.inj hEq).2⟩

theorem Steady.caller_back (h : Steady s s' c) (hCaller : s'.callers c = some a') :
    ∃ a, s.callers c = some a ∧ a'.deallocRefcount = a.deallocRefcount ∧
      a'.isShutDown = a.isShutDown := by
  have hRefs := h.refs.symm
  rw [hCaller] at hRefs
  obtain ⟨a, hCaller', hEq⟩ := Option.map_eq_some_iff.mp hRefs
  exact ⟨a, hCaller', (Prod.mk.inj hEq).1.symm, (Prod.mk.inj hEq).2.symm⟩

theorem Steady.owing_subset (h : Steady s s' c) : owing s' c ⊆ owing s c := by
  intro t ht
  cases t with
  | handle =>
      rcases ht with ⟨a', hCaller', hOpen⟩ | ⟨id, hRole⟩
      · obtain ⟨a, hCaller, -, hShut⟩ := h.caller_back hCaller'
        exact Or.inl ⟨a, hCaller, hShut ▸ hOpen⟩
      · exact Or.inr ⟨id, h.roles.back id _ rfl hRole⟩
  | container x => exact h.flight x ht
  | operation id => exact h.roles.back id _ rfl ht

theorem References.steady (h : References s c) (hSteady : Steady s s' c) : References s' c where
  holding id hRole := by
    obtain ⟨a, hCaller, hOpen⟩ := h.holding id (hSteady.roles.back id _ rfl hRole)
    obtain ⟨a', hCaller', -, hShut⟩ := hSteady.caller hCaller
    exact ⟨a', hCaller', hShut.trans hOpen⟩
  counted a' hCaller' := by
    obtain ⟨a, hCaller, hCount, -⟩ := hSteady.caller_back hCaller'
    rw [hCount]
    exact (h.counted a hCaller).mono hSteady.owing_subset
  owed t ht := by
    obtain ⟨a, hCaller⟩ := Option.ne_none_iff_exists'.mp (h.owed t (hSteady.owing_subset ht))
    obtain ⟨a', hCaller', -⟩ := hSteady.caller hCaller
    rw [hCaller']
    exact Option.some_ne_none a'
  dying id hRole := by
    obtain ⟨a, hCaller, hZero⟩ := h.dying id (hSteady.roles.back id _ rfl hRole)
    obtain ⟨a', hCaller', hCount, -⟩ := hSteady.caller hCaller
    exact ⟨a', hCaller', hCount.trans hZero⟩
  dyingOnce id id' hRole hRole' :=
    h.dyingOnce id id' (hSteady.roles.back id _ rfl hRole) (hSteady.roles.back id' _ rfl hRole')
  closing id hRole := by
    obtain ⟨a, hCaller, hClosed⟩ := h.closing id (hSteady.roles.back id _ rfl hRole)
    obtain ⟨a', hCaller', -, hShut⟩ := hSteady.caller hCaller
    exact ⟨a', hCaller', hShut.trans hClosed⟩
  closingOnce id id' hRole hRole' :=
    h.closingOnce id id' (hSteady.roles.back id _ rfl hRole) (hSteady.roles.back id' _ rfl hRole')
  emptied a' hCaller' hShut' := by
    obtain ⟨a, hCaller, -, hShut⟩ := hSteady.caller_back hCaller'
    have hWas : a.isShutDown = true := hShut ▸ hShut'
    rcases h.emptied a hCaller hWas with hEmpty | ⟨id, hRole⟩
    · exact Or.inl (hSteady.pool a a' hCaller hCaller' hWas hEmpty)
    · exact Or.inr ⟨id, hSteady.roles.closes id hRole⟩

end Steady

section Changes

variable {s s' : State} {c id x : Nat} {a a' : UserRpcCaller} {ρ : Option Role}

theorem role_cases (h : role s' = Function.update (role s) id ρ) {i : Nat} {ρ₁ : Role}
    (hRole : role s' i = some ρ₁) : i = id ∧ ρ = some ρ₁ ∨ i ≠ id ∧ role s i = some ρ₁ := by
  rw [h] at hRole
  by_cases hi : i = id
  · subst hi
    rw [Function.update_self] at hRole
    exact Or.inl ⟨rfl, hRole⟩
  · rw [Function.update_of_ne hi] at hRole
    exact Or.inr ⟨hi, hRole⟩

theorem role_old (h : role s' = Function.update (role s) id ρ) {i : Nat} {ρ₁ : Role}
    (hRole : role s' i = some ρ₁) (hNe : ρ ≠ some ρ₁) : i ≠ id ∧ role s i = some ρ₁ :=
  (role_cases h hRole).resolve_left fun hSame => hNe hSame.2

theorem role_kept (h : role s' = Function.update (role s) id ρ) {i : Nat} {ρ₁ : Role}
    (hRole : role s i = some ρ₁) (hNe : role s id ≠ some ρ₁) : role s' i = some ρ₁ := by
  have hi : i ≠ id := by
    rintro rfl
    exact hNe hRole
  rw [h, Function.update_of_ne hi]
  exact hRole

/-- The step is about one caller only, and `id` is the operation that takes it. -/
theorem Steady.other {c' : Nat} {b : Option UserRpcCaller} (hNe : c' ≠ c)
    (hCallers : s'.callers = Function.update s.callers c b)
    (hRole : role s' = Function.update (role s) id ρ)
    (hWas : ∀ ρ₁, role s id = some ρ₁ → ρ₁.caller = c) (hIs : ∀ ρ₁, ρ = some ρ₁ → ρ₁.caller = c)
    (hFlight : ∀ y, Token.container y ∈ owing s' c' → Token.container y ∈ owing s c') :
    Steady s s' c' := by
  refine .of_same (by rw [hCallers, Function.update_of_ne hNe]) (.update hRole ?_ ?_) hFlight
  · exact fun ρ₁ hCaller hρ => (hNe (hCaller.symm.trans (hIs ρ₁ hρ))).elim
  · exact fun hCloses => (hNe (hWas _ hCloses)).elim

/-- A caller is created with one reference. -/
theorem References.created (h : References s c) (hNew : s.callers c = none)
    (hCaller' : s'.callers c = some a') (hCount : a'.deallocRefcount = 1)
    (hOpen : a'.isShutDown = false) (hRole : role s' = role s)
    (hFlight : ∀ y, Token.container y ∈ owing s' c → Token.container y ∈ owing s c) :
    References s' c := by
  have hUnowed : ∀ t, t ∉ owing s c := fun t ht => h.owed t ht hNew
  have hNoCaller : ∀ P : UserRpcCaller → Prop, ¬∃ caller, s.callers c = some caller ∧ P caller := by
    rintro P ⟨caller, hCaller, -⟩
    cases hNew.symm.trans hCaller
  have hSub : owing s' c ⊆ insert .handle ∅ := by
    intro t ht
    cases t with
    | handle => exact Or.inl rfl
    | container y => exact (hUnowed _ (hFlight y ht)).elim
    | operation i =>
        have hOld : role s i = some (.drops c) := hRole ▸ ht
        exact (hUnowed (.operation i) hOld).elim
  refine ⟨fun i hHolds => ⟨a', hCaller', hOpen⟩, fun b hb => ?_, fun t _ => ?_, fun i hFrees => ?_,
    fun i i' hFrees _ => ?_, fun i hCloses => ?_, fun i i' hCloses _ => ?_, fun b hb hShut => ?_⟩
  · obtain rfl := Option.some.inj (hCaller'.symm.trans hb)
    rw [hCount]
    exact AtMost.add (n := 0) (by simp [AtMost]) hSub
  · rw [hCaller']
    exact Option.some_ne_none a'
  · rw [hRole] at hFrees
    exact (hNoCaller _ (h.dying i hFrees)).elim
  · rw [hRole] at hFrees
    exact (hNoCaller _ (h.dying i hFrees)).elim
  · rw [hRole] at hCloses
    exact (hNoCaller _ (h.closing i hCloses)).elim
  · rw [hRole] at hCloses
    exact (hNoCaller _ (h.closing i hCloses)).elim
  · obtain rfl := Option.some.inj (hCaller'.symm.trans hb)
    cases hOpen.symm.trans hShut

/-- An open caller sends a container and takes a reference for it. -/
theorem References.borrowed (h : References s c) (hCaller : s.callers c = some a)
    (hOpen : a.isShutDown = false) (hCaller' : s'.callers c = some a')
    (hCount : a'.deallocRefcount = a.deallocRefcount + 1) (hOpen' : a'.isShutDown = false)
    (hRole : role s' = Function.update (role s) id (some (.holds c)))
    (hFlight : ∀ y, Token.container y ∈ owing s' c → y = x ∨ Token.container y ∈ owing s c) :
    References s' c := by
  have hHandle : Token.handle ∈ owing s c := Or.inl ⟨a, hCaller, hOpen⟩
  have hSub : owing s' c ⊆ insert (.container x) (owing s c) := by
    intro t ht
    cases t with
    | handle => exact Or.inr hHandle
    | container y => exact (hFlight y ht).imp_left (congrArg _)
    | operation i => exact Or.inr (role_old hRole ht (by simp)).2
  refine ⟨fun i hHolds => ⟨a', hCaller', hOpen'⟩, fun b hb => ?_, fun t _ => ?_, fun i hFrees => ?_,
    fun i i' hFrees _ => ?_, fun i hCloses => ?_, fun i i' hCloses _ => ?_, fun b hb hShut => ?_⟩
  · obtain rfl := Option.some.inj (hCaller'.symm.trans hb)
    rw [hCount]
    exact (h.counted a hCaller).add hSub
  · rw [hCaller']
    exact Option.some_ne_none a'
  · exact (h.not_frees hCaller hOpen i (role_old hRole hFrees (by simp)).2).elim
  · exact (h.not_frees hCaller hOpen i (role_old hRole hFrees (by simp)).2).elim
  · exact (h.not_closes hCaller hOpen i (role_old hRole hCloses (by simp)).2).elim
  · exact (h.not_closes hCaller hOpen i (role_old hRole hCloses (by simp)).2).elim
  · obtain rfl := Option.some.inj (hCaller'.symm.trans hb)
    cases hOpen'.symm.trans hShut

/-- A step of an operation that neither takes the caller nor gives it up. What is left to show is
that references are counted, and who frees the caller. -/
theorem References.exchange (h : References s c) (hCaller : s.callers c = some a)
    (hCaller' : s'.callers c = some a') (hShut : a'.isShutDown = a.isShutDown)
    (hPool : a'.freeContainers = a.freeContainers)
    (hRole : role s' = Function.update (role s) id ρ) (hNotHolds : ρ ≠ some (.holds c))
    (hNotCloses : ρ ≠ some (.closes c)) (hWas : role s id ≠ some (.closes c))
    (hCounted : AtMost (owing s' c) a'.deallocRefcount)
    (hDying : ∀ i, role s' i = some (.frees c) → a'.deallocRefcount = 0)
    (hOnce : ∀ i i', role s' i = some (.frees c) → role s' i' = some (.frees c) → i = i') :
    References s' c := by
  constructor
  case holding =>
    intro i hHolds
    obtain ⟨b, hb, hOpen⟩ := h.holding i (role_old hRole hHolds hNotHolds).2
    obtain rfl := Option.some.inj (hCaller.symm.trans hb)
    exact ⟨a', hCaller', hShut.trans hOpen⟩
  case counted =>
    intro b hb
    obtain rfl := Option.some.inj (hCaller'.symm.trans hb)
    exact hCounted
  case owed =>
    intro t _
    rw [hCaller']
    exact Option.some_ne_none a'
  case dying =>
    intro i hFrees
    exact ⟨a', hCaller', hDying i hFrees⟩
  case dyingOnce => exact hOnce
  case closing =>
    intro i hCloses
    obtain ⟨b, hb, hClosed⟩ := h.closing i (role_old hRole hCloses hNotCloses).2
    obtain rfl := Option.some.inj (hCaller.symm.trans hb)
    exact ⟨a', hCaller', hShut.trans hClosed⟩
  case closingOnce =>
    intro i i' hCloses hCloses'
    exact h.closingOnce i i' (role_old hRole hCloses hNotCloses).2
      (role_old hRole hCloses' hNotCloses).2
  case emptied =>
    intro b hb hClosed
    obtain rfl := Option.some.inj (hCaller'.symm.trans hb)
    rcases h.emptied a hCaller (hShut ▸ hClosed) with hEmpty | ⟨i, hCloses⟩
    · exact Or.inl (hPool.trans hEmpty)
    · exact Or.inr ⟨i, role_kept hRole hCloses hWas⟩

/-- The operation that delivered a container is left with the reference. -/
theorem References.delivered (h : References s c) (hCaller : s.callers c = some a)
    (hCaller' : s'.callers c = some a') (hCount : a'.deallocRefcount = a.deallocRefcount)
    (hShut : a'.isShutDown = a.isShutDown) (hPool : a'.freeContainers = a.freeContainers)
    (hRole : role s' = Function.update (role s) id (some (.drops c))) (hWas : role s id = none)
    (hOwed : Token.container x ∈ owing s c)
    (hFlight : ∀ y, Token.container y ∈ owing s' c → y ≠ x ∧ Token.container y ∈ owing s c) :
    References s' c := by
  have hSub : owing s' c ⊆ insert (.operation id) (owing s c \ {.container x}) := by
    intro t ht
    cases t with
    | handle =>
        refine Or.inr ⟨?_, by simp⟩
        rcases ht with ⟨b, hb, hOpen⟩ | ⟨i, hCloses⟩
        · obtain rfl := Option.some.inj (hCaller'.symm.trans hb)
          exact Or.inl ⟨a, hCaller, hShut ▸ hOpen⟩
        · exact Or.inr ⟨i, (role_old hRole hCloses (by simp)).2⟩
    | container y =>
        obtain ⟨hNe, hy⟩ := hFlight y ht
        exact Or.inr ⟨hy, by simpa using hNe⟩
    | operation i =>
        rcases role_cases hRole ht with ⟨rfl, -⟩ | ⟨-, hOld⟩
        · exact Or.inl rfl
        · exact Or.inr ⟨hOld, by simp⟩
  apply h.exchange hCaller hCaller' hShut hPool hRole (by simp) (by simp) (by simp [hWas])
  · rw [hCount]
    exact (h.counted a hCaller).swap hOwed hSub
  · intro i hFrees
    exact (h.not_owing (role_old hRole hFrees (by simp)).2 hOwed).elim
  · intro i i' hFrees hFrees'
    exact h.dyingOnce i i' (role_old hRole hFrees (by simp)).2 (role_old hRole hFrees' (by simp)).2

theorem owing_dropped (hCaller : s.callers c = some a) (hCaller' : s'.callers c = some a')
    (hShut : a'.isShutDown = a.isShutDown) (hRole : role s' = Function.update (role s) id ρ)
    (hNotDrops : ρ ≠ some (.drops c)) (hNotCloses : ρ ≠ some (.closes c))
    (hFlight : ∀ y, Token.container y ∈ owing s' c → Token.container y ∈ owing s c) :
    owing s' c ⊆ owing s c \ {.operation id} := by
  intro t ht
  cases t with
  | handle =>
      refine ⟨?_, by simp⟩
      rcases ht with ⟨b, hb, hOpen⟩ | ⟨i, hCloses⟩
      · obtain rfl := Option.some.inj (hCaller'.symm.trans hb)
        exact Or.inl ⟨a, hCaller, hShut ▸ hOpen⟩
      · exact Or.inr ⟨i, (role_old hRole hCloses hNotCloses).2⟩
  | container y => exact ⟨hFlight y ht, by simp⟩
  | operation i =>
      obtain ⟨hi, hOld⟩ := role_old hRole ht hNotDrops
      exact ⟨hOld, by simpa using hi⟩

/-- A reference is dropped and was not the last one. -/
theorem References.dropped (h : References s c) (hCaller : s.callers c = some a)
    (hCaller' : s'.callers c = some a')
    (hCount : a'.deallocRefcount = a.deallocRefcount - 1) (hShut : a'.isShutDown = a.isShutDown)
    (hPool : a'.freeContainers = a.freeContainers)
    (hRole : role s' = Function.update (role s) id none) (hWas : role s id = some (.drops c))
    (hFlight : ∀ y, Token.container y ∈ owing s' c → Token.container y ∈ owing s c) :
    References s' c := by
  have hSub : owing s' c ⊆ owing s c \ {.operation id} :=
    owing_dropped hCaller hCaller' hShut hRole (by simp) (by simp) hFlight
  apply h.exchange hCaller hCaller' hShut hPool hRole (by simp) (by simp) (by simp [hWas])
  · rw [hCount]
    exact (h.counted a hCaller).drop (show Token.operation id ∈ owing s c from hWas) hSub
  · intro i hFrees
    exact (h.not_owing (role_old hRole hFrees (by simp)).2 (t := .operation id) hWas).elim
  · intro i i' hFrees hFrees'
    exact h.dyingOnce i i' (role_old hRole hFrees (by simp)).2 (role_old hRole hFrees' (by simp)).2

/-- The last reference is dropped; the operation goes on to free the caller. -/
theorem References.droppedLast (h : References s c) (hCaller : s.callers c = some a)
    (hLast : a.deallocRefcount = 1) (hCaller' : s'.callers c = some a')
    (hCount : a'.deallocRefcount = 0) (hShut : a'.isShutDown = a.isShutDown)
    (hPool : a'.freeContainers = a.freeContainers)
    (hRole : role s' = Function.update (role s) id (some (.frees c)))
    (hWas : role s id = some (.drops c))
    (hFlight : ∀ y, Token.container y ∈ owing s' c → Token.container y ∈ owing s c) :
    References s' c := by
  have hSub : owing s' c ⊆ owing s c \ {.operation id} :=
    owing_dropped hCaller hCaller' hShut hRole (by simp) (by simp) hFlight
  have hOnly : ∀ i, role s' i = some (.frees c) → i = id := by
    intro i hFrees
    rcases role_cases hRole hFrees with ⟨hi, -⟩ | ⟨-, hOld⟩
    · exact hi
    · exact (h.not_owing hOld (t := .operation id) hWas).elim
  apply h.exchange hCaller hCaller' hShut hPool hRole (by simp) (by simp) (by simp [hWas])
  · have hLess := (h.counted a hCaller).drop (show Token.operation id ∈ owing s c from hWas) hSub
    rw [hLast] at hLess
    rw [hCount]
    exact hLess
  · intro i _
    exact hCount
  · intro i i' hFrees hFrees'
    exact (hOnly i hFrees).trans (hOnly i' hFrees').symm

/-- The memory of the caller is freed. -/
theorem References.freed (h : References s c) (hCaller : s.callers c = some a)
    (hCaller' : s'.callers c = none) (hRole : role s' = Function.update (role s) id none)
    (hWas : role s id = some (.frees c))
    (hFlight : ∀ y, Token.container y ∈ owing s' c → Token.container y ∈ owing s c) :
    References s' c := by
  have hUnowed : ∀ t, t ∉ owing s c := fun t => h.not_owing hWas
  have hShut : a.isShutDown = true := (h.pool_empty hWas hCaller).1
  have hNotFrees : ∀ i, role s' i ≠ some (.frees c) := by
    intro i hFrees
    obtain ⟨hi, hOld⟩ := role_old hRole hFrees (by simp)
    exact hi (h.dyingOnce i id hOld hWas)
  have hNotCloses : ∀ i, role s' i ≠ some (.closes c) := fun i hCloses =>
    hUnowed .handle (Or.inr ⟨i, (role_old hRole hCloses (by simp)).2⟩)
  have hGone : ∀ b, s'.callers c ≠ some b := fun b hb => by cases hCaller'.symm.trans hb
  refine ⟨fun i hHolds => ?_, fun b hb => (hGone b hb).elim, fun t ht => ?_,
    fun i hFrees => (hNotFrees i hFrees).elim, fun i _ hFrees _ => (hNotFrees i hFrees).elim,
    fun i hCloses => (hNotCloses i hCloses).elim, fun i _ hCloses _ => (hNotCloses i hCloses).elim,
    fun b hb => (hGone b hb).elim⟩
  · obtain ⟨b, hb, hOpen⟩ := h.holding i (role_old hRole hHolds (by simp)).2
    obtain rfl := Option.some.inj (hCaller.symm.trans hb)
    cases hOpen.symm.trans hShut
  · cases t with
    | handle =>
        rcases ht with ⟨b, hb, -⟩ | ⟨i, hCloses⟩
        · exact (hGone b hb).elim
        · exact (hNotCloses i hCloses).elim
    | container y => exact (hUnowed _ (hFlight y ht)).elim
    | operation i => exact (hUnowed (.operation i) (role_old hRole ht (by simp)).2).elim

/-- The last handle is gone; an operation starts to free the pool. -/
theorem References.shutDown (h : References s c) (hCaller : s.callers c = some a)
    (hOpen : a.isShutDown = false) (hUnused : ∀ i, role s i ≠ some (.holds c))
    (hCaller' : s'.callers c = some a') (hCount : a'.deallocRefcount = a.deallocRefcount)
    (hShut' : a'.isShutDown = true)
    (hRole : role s' = Function.update (role s) id (some (.closes c)))
    (hFlight : ∀ y, Token.container y ∈ owing s' c → Token.container y ∈ owing s c) :
    References s' c := by
  have hSub : owing s' c ⊆ owing s c := by
    intro t ht
    cases t with
    | handle => exact Or.inl ⟨a, hCaller, hOpen⟩
    | container y => exact hFlight y ht
    | operation i => exact (role_old hRole ht (by simp)).2
  have hOnly : ∀ i, role s' i = some (.closes c) → i = id := by
    intro i hCloses
    rcases role_cases hRole hCloses with ⟨hi, -⟩ | ⟨-, hOld⟩
    · exact hi
    · exact (h.not_closes hCaller hOpen i hOld).elim
  refine ⟨fun i hHolds => ?_, fun b hb => ?_, fun t _ => ?_, fun i hFrees => ?_,
    fun i i' hFrees hFrees' => ?_, fun i hCloses => ⟨a', hCaller', hShut'⟩,
    fun i i' hCloses hCloses' => (hOnly i hCloses).trans (hOnly i' hCloses').symm,
    fun b hb hClosed => Or.inr ⟨id, by rw [hRole, Function.update_self]⟩⟩
  · exact (hUnused i (role_old hRole hHolds (by simp)).2).elim
  · obtain rfl := Option.some.inj (hCaller'.symm.trans hb)
    rw [hCount]
    exact (h.counted a hCaller).mono hSub
  · rw [hCaller']
    exact Option.some_ne_none a'
  · exact (h.not_frees hCaller hOpen i (role_old hRole hFrees (by simp)).2).elim
  · exact (h.not_frees hCaller hOpen i (role_old hRole hFrees (by simp)).2).elim

/-- The pool is empty; the operation goes on to drop the reference of the handle. -/
theorem References.closed (h : References s c) (hCaller : s.callers c = some a)
    (hPool : a.freeContainers = []) (hCaller' : s'.callers c = some a)
    (hRole : role s' = Function.update (role s) id (some (.drops c)))
    (hWas : role s id = some (.closes c))
    (hFlight : ∀ y, Token.container y ∈ owing s' c → Token.container y ∈ owing s c) :
    References s' c := by
  have hShut : a.isShutDown = true := by
    obtain ⟨b, hb, hShut⟩ := h.closing id hWas
    exact Option.some.inj (hCaller.symm.trans hb) ▸ hShut
  have hHandle : Token.handle ∈ owing s c := Or.inr ⟨id, hWas⟩
  have hNotCloses : ∀ i, role s' i ≠ some (.closes c) := by
    intro i hCloses
    obtain ⟨hi, hOld⟩ := role_old hRole hCloses (by simp)
    exact hi (h.closingOnce i id hOld hWas)
  have hSub : owing s' c ⊆ insert (.operation id) (owing s c \ {.handle}) := by
    intro t ht
    cases t with
    | handle =>
        rcases ht with ⟨b, hb, hOpen⟩ | ⟨i, hCloses⟩
        · obtain rfl := Option.some.inj (hCaller'.symm.trans hb)
          cases hOpen.symm.trans hShut
        · exact (hNotCloses i hCloses).elim
    | container y => exact Or.inr ⟨hFlight y ht, by simp⟩
    | operation i =>
        rcases role_cases hRole ht with ⟨rfl, -⟩ | ⟨-, hOld⟩
        · exact Or.inl rfl
        · exact Or.inr ⟨hOld, by simp⟩
  refine ⟨fun i hHolds => ?_, fun b hb => ?_, fun t _ => ?_, fun i hFrees => ?_,
    fun i i' hFrees hFrees' => ?_, fun i hCloses => (hNotCloses i hCloses).elim,
    fun i i' hCloses _ => (hNotCloses i hCloses).elim, fun b hb hClosed => Or.inl ?_⟩
  · obtain ⟨b, hb, hOpen⟩ := h.holding i (role_old hRole hHolds (by simp)).2
    obtain rfl := Option.some.inj (hCaller.symm.trans hb)
    cases hOpen.symm.trans hShut
  · obtain rfl := Option.some.inj (hCaller'.symm.trans hb)
    exact (h.counted a hCaller).swap hHandle hSub
  · rw [hCaller']
    exact Option.some_ne_none a
  · exact (h.not_owing (role_old hRole hFrees (by simp)).2 hHandle).elim
  · exact h.dyingOnce i i' (role_old hRole hFrees (by simp)).2 (role_old hRole hFrees' (by simp)).2
  · obtain rfl := Option.some.inj (hCaller'.symm.trans hb)
    exact hPool

end Changes

end Ricerca.Rpc
