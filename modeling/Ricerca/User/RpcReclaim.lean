import Ricerca.User.RpcShutdown

/-! When a caller is freed. As long as no request meets a callee that was shut down,
the count in `dealloc_rc_base` is exactly the number of references that must still be
dropped, and the operation that drops the last one frees the caller and its
containers. -/
namespace Ricerca.Rpc

open Ricerca.Foundation Ricerca.Cookie Ricerca.Lib

/-- The operation is a request, and the callee was shut down before it. -/
def findsCalleeShutDown (s : State) (id : Nat) : Bool :=
  match s.running id with
  | some (.initiating _ k _) => (s.callees k).any (·.isShutDown)
  | _ => false

/-- The second section of `user_rpc_initiate` finds the callee in service. -/
def Reached (s : State) : Op × Outcome → Prop
  | (.run id, _) => findsCalleeShutDown s id = false
  | _ => True

instance (s : State) (label : Op × Outcome) : Decidable (Reached s label) := by
  unfold Reached
  split <;> infer_instance

/-- No operation puts back a container that could not be delivered. -/
def Undisturbed (s : State) : Prop := ∀ id c x, s.running id ≠ some (.unreachable c x)

/-- Every reference in the count is one that must still be dropped, and the last one to
be dropped makes the operation free the caller. -/
structure Reclaimed (s : State) (c : Nat) : Prop where
  covered : ∀ caller, s.callers c = some caller → AtLeast (owing s c) caller.deallocRefcount
  freeing : ∀ caller, s.callers c = some caller → caller.deallocRefcount = 0 →
    ∃ id, role s id = some (.frees c)

/-- A role that an operation takes up until the caller is freed. -/
def Role.lasting : Role → Prop
  | .holds _ => False
  | .drops _ | .frees _ | .closes _ => True

section Flight

variable {s s' : State} {op : Op} {outcome : Outcome} {c x y : Nat} {p q : Place}
  {d : UserRpcContainer}

theorem Placed.flight_other (h : Placed s s' x q d) (hNe : y ≠ x)
    (hy : Token.container y ∈ owing s c) : Token.container y ∈ owing s' c := by
  obtain ⟨p, e, hMem, hFlight, hData, hCaller⟩ := hy
  refine ⟨p, e, (h.mem p y).mpr (Or.inr ⟨hNe, hMem⟩), hFlight, ?_, hCaller⟩
  rw [h.containers_eq, Function.update_of_ne hNe]
  exact hData

theorem Placed.flight_new (h : Placed s s' x q d) (hFlight : q.inFlight) (hCaller : d.caller = c) :
    Token.container x ∈ owing s' c := by
  refine ⟨q, d, (h.mem q x).mpr (Or.inl ⟨rfl, rfl⟩), hFlight, ?_, hCaller⟩
  rw [h.containers_eq, Function.update_self]

/-- A container on its way stays so. -/
theorem Placed.flight_kept {e : UserRpcContainer} (h : Placed s s' x q d) (hFlight : q.inFlight)
    (hData : s.containers x = some e) (hSame : d.caller = e.caller)
    (hy : Token.container y ∈ owing s c) : Token.container y ∈ owing s' c := by
  by_cases hEq : y = x
  · subst hEq
    obtain ⟨p, e', hMem, hWas, hData', hCaller⟩ := hy
    obtain rfl := Option.some.inj (hData.symm.trans hData')
    exact h.flight_new hFlight (hSame.trans hCaller)
  · exact h.flight_other hEq hy

/-- A container in a queue of a caller is not on its way. -/
theorem not_flight_of_mem (hP : Placement (held s) (live s)) (hx : x ∈ held s p)
    (hLanded : ¬p.inFlight) : Token.container x ∉ owing s c := by
  rintro ⟨q, e, hMem, hFlight, -⟩
  obtain rfl := hP.disjoint p q x hx hMem
  exact hLanded hFlight

theorem not_flight_of_none (hNew : s.containers x = none) : Token.container x ∉ owing s c := by
  rintro ⟨q, e, -, -, hData, -⟩
  cases hNew.symm.trans hData

theorem not_flight_of_pool (hP : Placement (held s) (live s))
    (hWas : x ∈ held s (.free c) ∨ s.containers x = none) {c' : Nat} :
    Token.container x ∉ owing s c' := by
  rcases hWas with hPool | hNew
  · exact not_flight_of_mem hP hPool id
  · exact not_flight_of_none hNew

/-- Only replies, and requests that could not be delivered, end the way of a container. -/
theorem Effect.flight_kept (hP : Placement (held s) (live s)) (h : Effect s op outcome s')
    (hReplied : ∀ r c, outcome ≠ .replied r c) (hUndelivered : ∀ r, outcome ≠ .undelivered r)
    (hy : Token.container y ∈ owing s c) : Token.container y ∈ owing s' c := by
  have hNe : ∀ x, Token.container x ∉ owing s c → y ≠ x := by
    rintro x hx rfl
    exact hx hy
  cases h with
  | unmoved hQuiet h =>
      obtain ⟨p, e, hMem, hFlight, hData, hCaller⟩ := hy
      exact ⟨p, e, h.held_eq ▸ hMem, hFlight, h.containers_eq ▸ hData, hCaller⟩
  | freed h hPlace =>
      have hOther := hNe _ (hPlace.elim (not_flight_of_mem hP · id)
        fun hReplies => not_flight_of_mem hP hReplies.1 id)
      obtain ⟨p, e, hMem, hFlight, hData, hCaller⟩ := hy
      refine ⟨p, e, (h.mem p y).mpr ⟨hOther, hMem⟩, hFlight, ?_, hCaller⟩
      rw [h.containers_eq, Function.update_of_ne hOther]
      exact hData
  | rejected h hWas => exact h.flight_other (hNe _ (not_flight_of_pool hP hWas)) hy
  | prepared h hWas => exact h.flight_other (hNe _ (not_flight_of_pool hP hWas)) hy
  | refused h _ hData => exact h.flight_kept trivial hData rfl hy
  | enqueued h _ hData => exact h.flight_kept trivial hData rfl hy
  | undelivered => exact (hUndelivered _ rfl).elim
  | accepted h _ hData => exact h.flight_kept trivial hData rfl hy
  | returned h _ hData => exact h.flight_kept trivial hData rfl hy
  | aborted h _ hData => exact h.flight_kept trivial hData rfl hy
  | replied => exact (hReplied _ _ rfl).elim
  | result h hWas => exact h.flight_other (hNe _ (not_flight_of_mem hP hWas id)) hy

/-- A request sends a container on its way that was not on it. -/
theorem Effect.flight_started {k : Nat} {msg : UserRpcMsg} {heap : Option (Nat × UserRpcContainer)}
    (hP : Placement (held s) (live s))
    (h : Effect s (.initiate c k msg heap) (.prepared s.opsCount) s') :
    ∃ x, Token.container x ∉ owing s c ∧ Token.container x ∈ owing s' c := by
  cases h with
  | unmoved hQuiet => cases hQuiet
  | prepared h hWas _ _ _ _ hCaller =>
      exact ⟨_, not_flight_of_pool hP hWas, h.flight_new trivial hCaller⟩

/-- A reply ends the way of one container. -/
theorem Effect.flight_landed {id x r c' : Nat} {after : After}
    (h : Effect s (.run id) (.replied r c') s') (hRun : s.running id = some (.replying x after))
    (hNe : y ≠ x) (hy : Token.container y ∈ owing s c) : Token.container y ∈ owing s' c := by
  cases h with
  | unmoved hQuiet => cases hQuiet
  | replied h hRun' =>
      obtain ⟨rfl, -⟩ := Running.replying.inj (Option.some.inj (hRun.symm.trans hRun'))
      exact h.flight_other hNe hy

end Flight

section Changes

variable {s s' : State} {c id : Nat} {a a' : UserRpcCaller} {ρ : Option Role}

/-- A step in which the caller gets no reference and loses none. -/
theorem Reclaimed.quiet (h : Reclaimed s c)
    (hRefs : (s'.callers c).map (fun a => (a.deallocRefcount, a.isShutDown)) =
      (s.callers c).map (fun a => (a.deallocRefcount, a.isShutDown)))
    (hRoles : ∀ i ρ, ρ.lasting → ρ.caller = c → role s i = some ρ → role s' i = some ρ)
    (hFlight : ∀ y, Token.container y ∈ owing s c → Token.container y ∈ owing s' c) :
    Reclaimed s' c := by
  have hOwing : owing s c ⊆ owing s' c := by
    intro t ht
    cases t with
    | handle =>
        rcases ht with ⟨a, hCaller, hOpen⟩ | ⟨i, hCloses⟩
        · rw [hCaller] at hRefs
          obtain ⟨a', hCaller', hEq⟩ := Option.map_eq_some_iff.mp hRefs
          exact Or.inl ⟨a', hCaller', (Prod.mk.inj hEq).2.trans hOpen⟩
        · exact Or.inr ⟨i, hRoles i _ trivial rfl hCloses⟩
    | container y => exact hFlight y ht
    | operation i => exact hRoles i _ trivial rfl ht
  have hBack : ∀ a', s'.callers c = some a' →
      ∃ a, s.callers c = some a ∧ a.deallocRefcount = a'.deallocRefcount := by
    intro a' hCaller'
    rw [hCaller'] at hRefs
    obtain ⟨a, hCaller, hEq⟩ := Option.map_eq_some_iff.mp hRefs.symm
    exact ⟨a, hCaller, (Prod.mk.inj hEq).1⟩
  constructor
  · intro a' hCaller'
    obtain ⟨a, hCaller, hCount⟩ := hBack a' hCaller'
    exact hCount ▸ (h.covered a hCaller).mono hOwing
  · intro a' hCaller' hZero
    obtain ⟨a, hCaller, hCount⟩ := hBack a' hCaller'
    obtain ⟨i, hFrees⟩ := h.freeing a hCaller (hCount.trans hZero)
    exact ⟨i, hRoles i _ trivial rfl hFrees⟩

/-- An operation goes on that has no lasting role for the caller. -/
theorem roles_kept (hRole : role s' = Function.update (role s) id ρ)
    (hWas : ∀ ρ₁, role s id = some ρ₁ → ρ₁.lasting → ρ₁.caller ≠ c) (i : Nat) (ρ₁ : Role)
    (hLasting : ρ₁.lasting) (hCaller : ρ₁.caller = c) (hOld : role s i = some ρ₁) :
    role s' i = some ρ₁ := by
  apply role_kept hRole hOld
  intro hSame
  exact hWas ρ₁ hSame hLasting hCaller

theorem roles_same (h : s'.running = s.running) (i : Nat) (ρ₁ : Role) (_ : ρ₁.lasting)
    (_ : ρ₁.caller = c) (hOld : role s i = some ρ₁) : role s' i = some ρ₁ := by
  rw [role, h]
  exact hOld

/-- Only the queues of one caller change. -/
theorem refs_same {c' : Nat} (hCallers : s'.callers = Function.update s.callers c' (some a'))
    (hCaller : s.callers c' = some a) (hCount : a'.deallocRefcount = a.deallocRefcount)
    (hShut : a'.isShutDown = a.isShutDown) :
    (s'.callers c).map (fun a => (a.deallocRefcount, a.isShutDown)) =
      (s.callers c).map (fun a => (a.deallocRefcount, a.isShutDown)) := by
  rw [hCallers]
  by_cases hEq : c = c'
  · subst hEq
    simp [hCaller, hCount, hShut]
  · rw [Function.update_of_ne hEq]

/-- A step about another caller. -/
theorem refs_other {c' : Nat} {b : Option UserRpcCaller}
    (hCallers : s'.callers = Function.update s.callers c' b) (hNe : c ≠ c') :
    (s'.callers c).map (fun a => (a.deallocRefcount, a.isShutDown)) =
      (s.callers c).map (fun a => (a.deallocRefcount, a.isShutDown)) := by
  rw [hCallers, Function.update_of_ne hNe]

theorem Reclaimed.created (hCaller' : s'.callers c = some a') (hCount : a'.deallocRefcount = 1)
    (hOpen : a'.isShutDown = false) : Reclaimed s' c := by
  constructor
  · intro b hb
    obtain rfl := Option.some.inj (hCaller'.symm.trans hb)
    have hHandle : Token.handle ∈ owing s' c := Or.inl ⟨a', hCaller', hOpen⟩
    have hNone : AtLeast (∅ : Set Token) 0 := by simp [AtLeast]
    rw [hCount]
    exact hNone.add (Set.notMem_empty _) (Set.insert_subset hHandle (Set.empty_subset _))
  · intro b hb hZero
    obtain rfl := Option.some.inj (hCaller'.symm.trans hb)
    omega

/-- The count grows by one with the tokens. -/
theorem Reclaimed.add {t : Token} (h : Reclaimed s c) (hCaller : s.callers c = some a)
    (hCaller' : s'.callers c = some a') (hCount : a'.deallocRefcount = a.deallocRefcount + 1)
    (hNew : t ∉ owing s c) (hSub : insert t (owing s c) ⊆ owing s' c) : Reclaimed s' c := by
  constructor
  · intro b hb
    obtain rfl := Option.some.inj (hCaller'.symm.trans hb)
    rw [hCount]
    exact (h.covered a hCaller).add hNew hSub
  · intro b hb hZero
    obtain rfl := Option.some.inj (hCaller'.symm.trans hb)
    omega

/-- One of several references is dropped. -/
theorem Reclaimed.drop {t : Token} (h : Reclaimed s c) (hCaller : s.callers c = some a)
    (hCaller' : s'.callers c = some a') (hCount : a.deallocRefcount = a'.deallocRefcount + 1)
    (hMore : a'.deallocRefcount ≠ 0) (hSub : owing s c \ {t} ⊆ owing s' c) : Reclaimed s' c := by
  constructor
  · intro b hb
    obtain rfl := Option.some.inj (hCaller'.symm.trans hb)
    have hCovered := h.covered a hCaller
    rw [hCount] at hCovered
    exact hCovered.drop hSub
  · intro b hb hZero
    obtain rfl := Option.some.inj (hCaller'.symm.trans hb)
    exact (hMore hZero).elim

/-- The last reference is dropped, and the operation goes on to free the caller. -/
theorem Reclaimed.last (hCaller' : s'.callers c = some a') (hZero : a'.deallocRefcount = 0)
    (hFrees : role s' id = some (.frees c)) : Reclaimed s' c := by
  refine ⟨fun b hb => ?_, fun b hb _ => ⟨id, hFrees⟩⟩
  obtain rfl := Option.some.inj (hCaller'.symm.trans hb)
  simp [AtLeast, hZero]

/-- The caller is shut down; the operation keeps the reference of the handle. -/
theorem Reclaimed.shutDown (h : Reclaimed s c) (hCaller : s.callers c = some a)
    (hCaller' : s'.callers c = some a') (hCount : a'.deallocRefcount = a.deallocRefcount)
    (hFrees : ∀ i, role s i = some (.frees c) → role s' i = some (.frees c))
    (hSub : owing s c ⊆ owing s' c) : Reclaimed s' c := by
  constructor
  · intro b hb
    obtain rfl := Option.some.inj (hCaller'.symm.trans hb)
    rw [hCount]
    exact (h.covered a hCaller).mono hSub
  · intro b hb hZero
    obtain rfl := Option.some.inj (hCaller'.symm.trans hb)
    obtain ⟨i, hRole⟩ := h.freeing a hCaller (hCount ▸ hZero)
    exact ⟨i, hFrees i hRole⟩

/-- The reference is held for something else. -/
theorem Reclaimed.swap {t u : Token} (h : Reclaimed s c) (hCaller : s.callers c = some a)
    (hCaller' : s'.callers c = some a') (hCount : a'.deallocRefcount = a.deallocRefcount)
    (hFrees : ∀ i, role s i = some (.frees c) → role s' i = some (.frees c))
    (hNew : u ∉ owing s c) (hSub : insert u (owing s c \ {t}) ⊆ owing s' c) : Reclaimed s' c := by
  constructor
  · intro b hb
    obtain rfl := Option.some.inj (hCaller'.symm.trans hb)
    rw [hCount]
    exact (h.covered a hCaller).swap hNew hSub
  · intro b hb hZero
    obtain rfl := Option.some.inj (hCaller'.symm.trans hb)
    obtain ⟨i, hRole⟩ := h.freeing a hCaller (hCount ▸ hZero)
    exact ⟨i, hFrees i hRole⟩

end Changes

section Steps

variable {s s' : State} {op : Op} {outcome : Outcome}

theorem Undisturbed.update {id : Nat} {r : Option Running} (h : Undisturbed s)
    (hRunning : s'.running = Function.update s.running id r)
    (hNew : ∀ c x, r ≠ some (.unreachable c x)) : Undisturbed s' := by
  intro i c x hRun
  rw [hRunning] at hRun
  by_cases hi : i = id
  · subst hi
    rw [Function.update_self] at hRun
    exact hNew c x hRun
  · rw [Function.update_of_ne hi] at hRun
    exact h i c x hRun

theorem After.next_ne (after : After) (c x : Nat) : after.next ≠ some (.unreachable c x) := by
  cases after <;> simp [After.next]

theorem Undisturbed.step (h : Undisturbed s) (hReached : Reached s (op, outcome))
    (hStep : Transition s op outcome s') : Undisturbed s' := by
  cases hStep with
  | refused hRun hCallee hShut => simp [Reached, findsCalleeShutDown, hRun, hCallee, hShut] at hReached
  | undelivered hRun => exact (h _ _ _ hRun).elim
  | failed | createCaller | createCallee | rejected | accepted | replyFreed | result
  | containerFreed => exact h
  | dropped | callerFreed => exact h.update rfl (After.next_ne _)
  | prepared | enqueued | returned | replied | droppedLast | calleeShutDown | incomingAborted
  | incomingDrained | awaitingAborted | bucketDrained | calleeDrained | callerShutDown
  | containersFreed => exact h.update rfl (by simp)

/-- An operation that only holds the caller's handle has no lasting role. -/
theorem not_lasting_of_running {id : Nat} {r : Running} {c : Nat} (hRun : s.running id = some r)
    (hRole : r.role = none ∨ ∃ c', r.role = some (.holds c')) (ρ₁ : Role)
    (hOld : role s id = some ρ₁) (hLasting : ρ₁.lasting) : ρ₁.caller ≠ c := by
  rw [role_of_running hRun] at hOld
  rcases hRole with hNone | ⟨c', hHolds⟩
  · cases hNone.symm.trans hOld
  · obtain rfl := Option.some.inj (hHolds.symm.trans hOld)
    exact hLasting.elim

/-- An operation with a role for another caller. -/
theorem other_of_running {id : Nat} {r : Running} {c c' : Nat} {ρ : Role}
    (hRun : s.running id = some r) (hRole : r.role = some ρ) (hCaller : ρ.caller = c) (hNe : c' ≠ c)
    (ρ₁ : Role) (hOld : role s id = some ρ₁) (_ : ρ₁.lasting) : ρ₁.caller ≠ c' := by
  rw [role_of_running hRun] at hOld
  obtain rfl := Option.some.inj (hRole.symm.trans hOld)
  rw [hCaller]
  exact Ne.symm hNe

theorem Reclaimed.step (hC : Conserved s) (hUndisturbed : Undisturbed s) (c' : Nat)
    (h : Reclaimed s c') (hStep : Transition s op outcome s') (hEffect : Effect s op outcome s') :
    Reclaimed s' c' := by
  have hP := hC.placement
  have hNew := hC.allocated.role_new
  have hNothing : ∀ ρ₁, role s s.opsCount = some ρ₁ → ρ₁.lasting → ρ₁.caller ≠ c' := by
    intro ρ₁ hRole
    cases hNew.symm.trans hRole
  cases hStep with
  | failed => exact h
  | createCaller =>
      by_cases hEq : c' = s.callersCount
      · subst hEq
        exact .created (Function.update_self ..) rfl rfl
      · exact h.quiet (refs_other rfl hEq) (roles_same rfl)
          fun y => hEffect.flight_kept hP (by simp) (by simp)
  | createCallee | accepted =>
      exact h.quiet rfl (roles_same rfl) fun y => hEffect.flight_kept hP (by simp) (by simp)
  | rejected status hCaller hLive hObtained =>
      exact h.quiet (refs_same rfl hCaller hObtained.refs.1 hObtained.refs.2) (roles_same rfl)
        fun y => hEffect.flight_kept hP (by simp) (by simp)
  | @prepared c k x msg message heap caller caller' callee d hCaller hLive hCallee hObtained hCopy =>
      by_cases hEq : c' = c
      · subst hEq
        obtain ⟨y, hNot, hSent⟩ := hEffect.flight_started hP
        refine h.add hCaller (Function.update_self ..) (congrArg (· + 1) hObtained.refs.1) hNot ?_
        apply Set.insert_subset hSent
        intro t ht
        cases t with
        | handle => exact Or.inl ⟨_, Function.update_self .., hObtained.refs.2.trans hLive⟩
        | container y => exact hEffect.flight_kept hP (by simp) (by simp) ht
        | operation i => exact roles_kept (role_update rfl rfl) hNothing i _ trivial rfl ht
      · exact h.quiet (refs_other rfl hEq) (roles_kept (role_update rfl rfl) hNothing)
          fun y => hEffect.flight_kept hP (by simp) (by simp)
  | refused hRun | enqueued hRun =>
      exact h.quiet rfl (roles_kept (role_update rfl rfl)
        (not_lasting_of_running hRun (Or.inr ⟨_, rfl⟩)))
        fun y => hEffect.flight_kept hP (by simp) (by simp)
  | undelivered hRun => exact (hUndisturbed _ _ _ hRun).elim
  | returned | calleeShutDown =>
      exact h.quiet rfl (roles_kept (role_update rfl rfl) hNothing)
        fun y => hEffect.flight_kept hP (by simp) (by simp)
  | @replied id x after caller d hRun hContainer hCaller =>
      have hWas := not_lasting_of_running (c := c') hRun (Or.inl rfl)
      by_cases hEq : c' = d.caller
      · subst hEq
        refine h.swap (t := .container x) (u := .operation id) hCaller (Function.update_self ..) rfl
          (fun i => roles_kept (role_update rfl rfl) hWas i _ trivial rfl) ?_ ?_
        · intro hDrops
          exact hWas _ hDrops trivial rfl
        · apply Set.insert_subset
          · exact role_updated rfl rfl
          · rintro t ⟨ht, hNe⟩
            cases t with
            | handle =>
                rcases ht with ⟨a, hOpen⟩ | ⟨i, hCloses⟩
                · obtain rfl := Option.some.inj (hCaller.symm.trans hOpen.1)
                  exact Or.inl ⟨_, Function.update_self .., hOpen.2⟩
                · exact Or.inr ⟨i, roles_kept (role_update rfl rfl) hWas i _ trivial rfl hCloses⟩
            | container y => exact hEffect.flight_landed hRun (fun hSame => hNe (hSame ▸ rfl)) ht
            | operation i => exact roles_kept (role_update rfl rfl) hWas i _ trivial rfl ht
      · refine h.quiet (refs_other rfl hEq) (roles_kept (role_update rfl rfl) hWas) fun y hy => ?_
        apply hEffect.flight_landed hRun _ hy
        rintro rfl
        obtain ⟨-, e, -, -, hData, hCaller'⟩ := hy
        obtain rfl := Option.some.inj (hContainer.symm.trans hData)
        exact hEq hCaller'.symm
  | @dropped id c after caller hRun hCaller hMore =>
      have hRole : role s id = some (.drops c) := role_of_running hRun
      by_cases hEq : c' = c
      · subst hEq
        refine h.drop (t := .operation id) hCaller (Function.update_self ..)
          (Nat.sub_add_cancel (Nat.le_of_lt hMore)).symm (Nat.sub_ne_zero_of_lt hMore) ?_
        rintro t ⟨ht, hNe⟩
        cases t with
        | handle =>
            rcases ht with ⟨a, hOpen⟩ | ⟨i, hCloses⟩
            · obtain rfl := Option.some.inj (hCaller.symm.trans hOpen.1)
              exact Or.inl ⟨_, Function.update_self .., hOpen.2⟩
            · exact Or.inr ⟨i, role_kept (role_update rfl after.role_next) hCloses (by simp [hRole])⟩
        | container y => exact hEffect.flight_kept hP (by simp) (by simp) ht
        | operation i =>
            have hi : i ≠ id := fun hSame => hNe (hSame ▸ rfl)
            exact (role_updated_of_ne rfl after.role_next hi).trans ht
      · exact h.quiet (refs_other rfl hEq) (roles_kept (role_update rfl after.role_next)
          (other_of_running hRun rfl rfl hEq)) fun y => hEffect.flight_kept hP (by simp) (by simp)
  | @droppedLast id c after caller hRun hCaller hLast =>
      by_cases hEq : c' = c
      · subst hEq
        exact .last (Function.update_self ..) rfl
          (role_updated rfl rfl)
      · exact h.quiet (refs_other rfl hEq) (roles_kept (role_update rfl rfl)
          (other_of_running hRun rfl rfl hEq)) fun y => hEffect.flight_kept hP (by simp) (by simp)
  | replyFreed hRun hCaller hQueue =>
      exact h.quiet (refs_same rfl hCaller rfl rfl) (roles_same rfl)
        fun y => hEffect.flight_kept hP (by simp) (by simp)
  | @callerFreed id c after caller hRun hCaller hQueue =>
      by_cases hEq : c' = c
      · subst hEq
        have hGone : ∀ b, Function.update s.callers c' none c' ≠ some b := by simp
        exact ⟨fun b hb => (hGone b hb).elim, fun b hb => (hGone b hb).elim⟩
      · exact h.quiet (refs_other rfl hEq) (roles_kept (role_update rfl after.role_next)
          (other_of_running hRun rfl rfl hEq)) fun y => hEffect.flight_kept hP (by simp) (by simp)
  | result hCaller hLive hQueue hContainer =>
      exact h.quiet (refs_same rfl hCaller rfl rfl) (roles_same rfl)
        fun y => hEffect.flight_kept hP (by simp) (by simp)
  | incomingAborted hRun | incomingDrained hRun | awaitingAborted hRun | bucketDrained hRun
  | calleeDrained hRun =>
      exact h.quiet rfl (roles_kept (role_update rfl rfl)
        (not_lasting_of_running hRun (Or.inl rfl)))
        fun y => hEffect.flight_kept hP (by simp) (by simp)
  | @callerShutDown c caller hCaller hLive hUnused =>
      by_cases hEq : c' = c
      · subst hEq
        refine h.shutDown hCaller (Function.update_self ..) rfl
          (fun i => roles_kept (role_update rfl rfl) hNothing i _ trivial rfl) fun t ht => ?_
        cases t with
        | handle =>
            exact Or.inr ⟨s.opsCount,
              congrFun (role_update rfl rfl) s.opsCount |>.trans (Function.update_self ..)⟩
        | container y => exact hEffect.flight_kept hP (by simp) (by simp) ht
        | operation i => exact roles_kept (role_update rfl rfl) hNothing i _ trivial rfl ht
      · exact h.quiet (refs_other rfl hEq) (roles_kept (role_update rfl rfl) hNothing)
          fun y => hEffect.flight_kept hP (by simp) (by simp)
  | containerFreed hRun hCaller hQueue =>
      exact h.quiet (refs_same rfl hCaller rfl rfl) (roles_same rfl)
        fun y => hEffect.flight_kept hP (by simp) (by simp)
  | @containersFreed id c caller hRun hCaller hQueue =>
      have hRole : role s id = some (.closes c) := role_of_running hRun
      by_cases hEq : c' = c
      · subst hEq
        refine h.swap (t := .handle) (u := .operation id) hCaller hCaller rfl
          (fun i hFrees => role_kept (role_update rfl rfl) hFrees (by simp [hRole])) ?_ ?_
        · intro hDrops
          cases hRole.symm.trans hDrops
        · apply Set.insert_subset
          · exact role_updated rfl rfl
          · rintro t ⟨ht, hNe⟩
            cases t with
            | handle => exact (hNe rfl).elim
            | container y => exact hEffect.flight_kept hP (by simp) (by simp) ht
            | operation i => exact role_kept (role_update rfl rfl) ht (by simp [hRole])
      · exact h.quiet rfl (roles_kept (role_update rfl rfl)
          (other_of_running hRun rfl rfl hEq)) fun y => hEffect.flight_kept hP (by simp) (by simp)

theorem Reclaimed.run {trace : List (Op × Outcome)}
    (run : (system.restrict Reached).Execution trace s) :
    Undisturbed s ∧ ∀ c, Reclaimed s c := by
  apply run.invariant (P := fun _ s => Undisturbed s ∧ ∀ c, Reclaimed s c)
  · rintro s rfl
    refine ⟨fun id c x => by simp [initial], fun c => ⟨?_, ?_⟩⟩ <;> simp [initial]
  · rintro trace s ⟨op, outcome⟩ s' prior ⟨hUndisturbed, h⟩ hStep
    have hC := Conserved.run prior.ofRestrict
    have hTransition := exec_transition hStep.2
    have hEffect := (hC.step hTransition).2
    exact ⟨hUndisturbed.step hStep.1 hTransition,
      fun c => (h c).step hC hUndisturbed c hTransition hEffect⟩

end Steps

end Ricerca.Rpc
