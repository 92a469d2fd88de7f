import Ricerca.Foundation.Counting
import Ricerca.Mem.Invtlb

/-! The variables of the subsystem: what holds of them in every run, and what the countdown
counts as long as a request waits for the acknowledgements of the one before. -/
namespace Ricerca.Invtlb

open Ricerca.Foundation

variable {cpus : Nat} {s s' : State cpus} {core other : Fin cpus}
  {trace : List (Fin cpus × Action)}

/-- The core is between the store and the decrement of `mem_virt_invtlb_ack`. -/
def Phase.counts : Phase → Bool
  | .counting _ => true
  | _ => false

/-- The core has not acknowledged the last request, or has not counted down for it. -/
def Due (s : State cpus) (core : Fin cpus) : Prop :=
  s.states core = s.pendingState ∨ (s.phase core).counts = true

instance (s : State cpus) : DecidablePred (Due s) := fun core =>
  inferInstanceAs (Decidable (s.states core = s.pendingState ∨ (s.phase core).counts = true))

def due (s : State cpus) : Finset (Fin cpus) :=
  Finset.univ.filter (Due s)

/-- A request waits until no core is due for the one before. -/
def Acknowledged (s : State cpus) : Fin cpus × Action → Prop
  | (_, .request) => ∀ core, ¬Due s core
  | _ => True

/-- What holds of the variables in every run. -/
structure Shape (s : State cpus) : Prop where
  bit : s.pendingState ≤ 1
  idle : ∀ core, s.phase core = .idle ↔ s.states core = 2
  busy : ∀ core, s.phase core ≠ .idle → s.states core ≤ 1
  pending : s.pending = false
  idleCores : s.idleCores = (Finset.univ.filter fun core => s.phase core = .idle).card
  bound : s.pendingTlbUpdates < 2 ^ 64

/-- The cores that the countdown does not know of: `mem_virt_invtlb_init` counts nobody. -/
def uncounted (s : State cpus) : Nat :=
  if s.requester.isSome then 0 else cpus

/-- The countdown counts the cores that are due. -/
structure Counted (s : State cpus) : Prop where
  count : wrap (s.pendingTlbUpdates + uncounted s) = (due s).card
  loaded : ∀ core caller pendingState, s.phase core = .comparing caller pendingState →
    s.states core = pendingState → pendingState = s.pendingState
  counts : ∀ core, (s.phase core).counts = true → s.states core ≠ s.pendingState

/-- What a core does with its next step. -/
inductive Performed (s : State cpus) (core : Fin cpus) : Action → State cpus → Prop where
  | request (hFrom : s.phase core = .running) :
      Performed s core .request (memVirtInvtlbRequest s core)
  | updateCr3 (oldCr3 newCr3 : Nat) (hFrom : s.phase core = .running ∨ s.phase core = .woken) :
      Performed s core (.updateCr3 oldCr3 newCr3)
        (s.goto core (.loading (.updateCr3 oldCr3 newCr3)))
  | load {caller : Caller} (hFrom : s.phase core = .loading caller) :
      Performed s core .load (s.goto core (.comparing caller s.pendingState))
  | store {caller : Caller} {pendingState : Nat}
      (hFrom : s.phase core = .comparing caller pendingState)
      (hMatch : s.states core = pendingState) :
      Performed s core .compare
        ((memVirtInvtlbAckStore s core pendingState).goto core (.counting caller))
  | skip {caller : Caller} {pendingState : Nat}
      (hFrom : s.phase core = .comparing caller pendingState)
      (hNe : s.states core ≠ pendingState) :
      Performed s core .compare (s.goto core (afterAck caller .noInvalidationRequired))
  | count {caller : Caller} (hFrom : s.phase core = .counting caller) :
      Performed s core .count
        ((memVirtInvtlbAckCount s).2.goto core (afterAck caller (memVirtInvtlbAckCount s).1))
  | update {caller : Caller} (hFrom : s.phase core = .updating caller) :
      Performed s core .update ((memVirtInvtlbGenUpdateNolock s).goto core (afterUpdate caller))
  | write (hFrom : s.phase core = .writing) :
      Performed s core .write ((wrcr3 s core).goto core .running)
  | idleEnter (hFrom : s.phase core = .running) :
      Performed s core .idleEnter (memVirtInvtlbOnIdleEnter s core)
  | idleExit (hFrom : s.phase core = .idle) :
      Performed s core .idleExit (memVirtInvtlbOnIdleExit s core)

/-- Only `core` moves. -/
structure Alone (core : Fin cpus) (s s' : State cpus) : Prop where
  pendingState : s'.pendingState = s.pendingState
  requester : s'.requester = s.requester
  phase : ∀ other, other ≠ core → s'.phase other = s.phase other
  states : ∀ other, other ≠ core → s'.states other = s.states other

section Steps

theorem perform_iff {action : Action} :
    perform s core action = some s' ↔ Performed s core action s' := by
  constructor
  · intro hStep
    cases action <;> cases hFrom : s.phase core <;>
      simp only [perform, hFrom, Option.some.injEq, reduceCtorEq] at hStep
    case request.running => exact hStep ▸ .request hFrom
    case updateCr3.running => exact hStep ▸ .updateCr3 _ _ (.inl hFrom)
    case updateCr3.woken => exact hStep ▸ .updateCr3 _ _ (.inr hFrom)
    case load.loading => exact hStep ▸ .load hFrom
    case compare.comparing =>
      split_ifs at hStep with hMatch
      · exact Option.some.inj hStep ▸ .store hFrom hMatch
      · exact Option.some.inj hStep ▸ .skip hFrom hMatch
    case count.counting => exact hStep ▸ .count hFrom
    case update.updating => exact hStep ▸ .update hFrom
    case write.writing => exact hStep ▸ .write hFrom
    case idleEnter.running => exact hStep ▸ .idleEnter hFrom
    case idleExit.idle => exact hStep ▸ .idleExit hFrom
  · intro h
    cases h with
    | updateCr3 oldCr3 newCr3 hFrom => rcases hFrom with hFrom | hFrom <;> simp only [perform, hFrom]
    | store hFrom hMatch => simp only [perform, hFrom, if_pos hMatch]
    | skip hFrom hNe => simp only [perform, hFrom, if_neg hNe]
    | request hFrom | load hFrom | count hFrom | update hFrom | write hFrom | idleEnter hFrom
    | idleExit hFrom => simp only [perform, hFrom]

theorem card_le_cpus (P : Fin cpus → Prop) [DecidablePred P] : (Finset.univ.filter P).card ≤ cpus :=
  (Finset.card_le_univ _).trans (Fintype.card_fin cpus).le

theorem wrap_pred {n : Nat} (hPos : 0 < n) (hLt : n < 2 ^ 64) : wrap (n + (2 ^ 64 - 1)) = n - 1 := by
  rw [wrap]
  omega

@[simp] theorem State.goto_phase_self {phase : Phase} : (s.goto core phase).phase core = phase :=
  Function.update_self ..

theorem State.goto_phase_of_ne {phase : Phase} (hNe : other ≠ core) :
    (s.goto core phase).phase other = s.phase other :=
  Function.update_of_ne hNe _ _

theorem memVirtInvtlbAckStore_states_self {pendingState : Nat} :
    (memVirtInvtlbAckStore s core pendingState).states core = 1 - pendingState :=
  Function.update_self ..

/-- The variables after `core` has acknowledged under the lock. -/
def State.acked (s : State cpus) (core : Fin cpus) : State cpus :=
  { memVirtInvtlbAckStore s core s.pendingState with
    pendingTlbUpdates := coresLeft s }

theorem memVirtInvtlbAck_match (hMatch : s.states core = s.pendingState) :
    memVirtInvtlbAck s core s.pendingState =
      (if coresLeft s = 0 then .genUpdatePending else .flushCr3,
        s.acked core) := by
  rw [memVirtInvtlbAck, if_pos hMatch]
  rfl

theorem memVirtInvtlbAck_of_ne {pendingState : Nat} (hNe : s.states core ≠ pendingState) :
    memVirtInvtlbAck s core pendingState = (.noInvalidationRequired, s) := by
  rw [memVirtInvtlbAck, if_neg hNe]

/-- The state after the locked part of a request. -/
def State.asked (s : State cpus) (core : Fin cpus) : State cpus :=
  { s with
    pendingTlbUpdates := wrap (cpus + (2 ^ 64 - s.idleCores))
    pendingState := 1 - s.pendingState
    phase := Function.update s.phase core (.loading .request)
    requester := some core
    history := fun other =>
      let idle := s.phase other = .idle
      ⟨!idle, false, false, idle || (s.history other).owes⟩ }

theorem memVirtInvtlbRequest_eq (h : s.pending = false) :
    memVirtInvtlbRequest s core = s.asked core := by
  rw [memVirtInvtlbRequest, if_neg (by simp [h])]
  rfl

theorem State.asked_phase_of_ne (hNe : other ≠ core) : (s.asked core).phase other = s.phase other :=
  Function.update_of_ne hNe _ _

theorem State.asked_phase_self : (s.asked core).phase core = .loading .request :=
  Function.update_self ..

theorem State.asked_idle (hFrom : s.phase core ≠ .idle) :
    (s.asked core).phase other = .idle ↔ s.phase other = .idle := by
  by_cases hEq : other = core
  · rw [hEq, State.asked_phase_self]
    simp [hFrom]
  · rw [State.asked_phase_of_ne hEq]

/-- The history of a core that enters idle. -/
def State.settle (s : State cpus) (core : Fin cpus) : State cpus :=
  { s with
    history := Function.update s.history core
      { s.history core with
        settled := true
        owes := (s.history core).owes || (s.requester.isSome && !(s.history core).flushed) } }

/-- The state after a core has entered idle. -/
def State.entered (s : State cpus) (core : Fin cpus) : State cpus :=
  { s with
    idleCores := wrap (s.idleCores + 1)
    states := Function.update s.states core memVirtInvtlbStateIdle
    phase := Function.update s.phase core .idle }

theorem State.entered_phase_self : (s.entered core).phase core = .idle :=
  Function.update_self ..

theorem State.entered_states_self : (s.entered core).states core = 2 :=
  Function.update_self ..

theorem memVirtInvtlbOnIdleEnter_of_ne (hAcked : s.states core ≠ s.pendingState) :
    memVirtInvtlbOnIdleEnter s core = (s.settle core).entered core := by
  simp only [memVirtInvtlbOnIdleEnter, memVirtInvtlbAck_of_ne hAcked]
  rfl

theorem memVirtInvtlbOnIdleEnter_of_eq (hMatch : s.states core = s.pendingState) :
    memVirtInvtlbOnIdleEnter s core =
      (if coresLeft s = 0 then
        memVirtInvtlbGenUpdateNolock ((s.acked core).settle core)
      else (s.acked core).settle core).entered core := by
  by_cases hZero : coresLeft s = 0
  · simp only [memVirtInvtlbOnIdleEnter, memVirtInvtlbAck_match hMatch, if_pos hZero]
    rfl
  · simp only [memVirtInvtlbOnIdleEnter, memVirtInvtlbAck_match hMatch, if_neg hZero]
    rfl

/-- What entering idle does to the countdown. -/
theorem memVirtInvtlbOnIdleEnter_left (hMatch : s.states core = s.pendingState) :
    (memVirtInvtlbOnIdleEnter s core).pendingTlbUpdates = coresLeft s := by
  rw [memVirtInvtlbOnIdleEnter_of_eq hMatch]
  split_ifs <;> rfl

theorem Alone.goto (h : Alone core s s') {phase : Phase} : Alone core s (s'.goto core phase) :=
  ⟨h.pendingState, h.requester,
    fun other hNe => (State.goto_phase_of_ne hNe).trans (h.phase other hNe), h.states⟩

theorem Alone.refl : Alone core s s := ⟨rfl, rfl, fun _ _ => rfl, fun _ _ => rfl⟩

theorem alone_store {pendingState : Nat} : Alone core s (memVirtInvtlbAckStore s core pendingState) :=
  ⟨rfl, rfl, fun _ _ => rfl, fun _ hNe => Function.update_of_ne hNe _ _⟩

theorem alone_count : Alone core s (memVirtInvtlbAckCount s).2 :=
  ⟨rfl, rfl, fun _ _ => rfl, fun _ _ => rfl⟩

theorem alone_genUpdate : Alone core s (memVirtInvtlbGenUpdateNolock s) :=
  ⟨rfl, rfl, fun _ _ => rfl, fun _ _ => rfl⟩

theorem alone_wrcr3 : Alone core s (wrcr3 s core) :=
  ⟨rfl, rfl, fun _ _ => rfl, fun _ _ => rfl⟩

theorem alone_idleExit : Alone core s (memVirtInvtlbOnIdleExit s core) :=
  ⟨rfl, rfl, fun _ hNe => Function.update_of_ne hNe _ _, fun _ hNe => Function.update_of_ne hNe _ _⟩

theorem alone_idleEnter : Alone core s (memVirtInvtlbOnIdleEnter s core) := by
  have hPhase : ∀ s' : State cpus, s'.phase = s.phase → ∀ other, other ≠ core →
      (s'.entered core).phase other = s.phase other := by
    intro s' hSame other hNe
    rw [← hSame]
    exact Function.update_of_ne hNe _ _
  have hStates : ∀ other, other ≠ core → (s.acked core).states other = s.states other :=
    fun other hNe => Function.update_of_ne hNe _ _
  by_cases hMatch : s.states core = s.pendingState
  · rw [memVirtInvtlbOnIdleEnter_of_eq hMatch]
    split_ifs
    · exact ⟨rfl, rfl, hPhase _ rfl,
        fun other hNe => (Function.update_of_ne hNe _ _).trans (hStates other hNe)⟩
    · exact ⟨rfl, rfl, hPhase _ rfl,
        fun other hNe => (Function.update_of_ne hNe _ _).trans (hStates other hNe)⟩
  · rw [memVirtInvtlbOnIdleEnter_of_ne hMatch]
    exact ⟨rfl, rfl, hPhase _ rfl, fun other hNe => Function.update_of_ne hNe _ _⟩

/-- Every step but a request is a step of its core alone. -/
theorem Performed.alone {action : Action} (h : Performed s core action s')
    (hNot : action ≠ .request) : Alone core s s' := by
  cases h with
  | request => exact (hNot rfl).elim
  | updateCr3 => exact Alone.refl.goto
  | load => exact Alone.refl.goto
  | store => exact alone_store.goto
  | skip => exact Alone.refl.goto
  | count => exact alone_count.goto
  | update => exact alone_genUpdate.goto
  | write => exact alone_wrcr3.goto
  | idleEnter => exact alone_idleEnter
  | idleExit => exact alone_idleExit

end Steps

section Shapes

/-- A core that is not idle goes on, or acknowledges. -/
theorem Shape.proceed (h : Shape s) (hFrom : s.phase core ≠ .idle) (hTo : s'.phase core ≠ .idle)
    (hPhase : ∀ other, other ≠ core → s'.phase other = s.phase other)
    (hStates : ∀ other, other ≠ core → s'.states other = s.states other)
    (hState : s'.states core ≤ 1) (hBit : s'.pendingState ≤ 1) (hPending : s'.pending = false)
    (hIdleCores : s'.idleCores = s.idleCores) (hBound : s'.pendingTlbUpdates < 2 ^ 64) :
    Shape s' := by
  have hIdle : ∀ other, s'.phase other = .idle ↔ s.phase other = .idle := by
    intro other
    by_cases hEq : other = core
    · subst hEq
      exact iff_of_false hTo hFrom
    · rw [hPhase other hEq]
  constructor
  case bit => exact hBit
  case idle =>
    intro other
    by_cases hEq : other = core
    · subst hEq
      exact iff_of_false hTo (by omega)
    · rw [hPhase other hEq, hStates other hEq]
      exact h.idle other
  case busy =>
    intro other hBusy
    by_cases hEq : other = core
    · subst hEq
      exact hState
    · rw [hStates other hEq]
      exact h.busy other (mt (hIdle other).mpr hBusy)
  case pending => exact hPending
  case idleCores =>
    simp only [hIdle]
    rw [hIdleCores]
    exact h.idleCores
  case bound => exact hBound

theorem Shape.goto {phase : Phase} (h : Shape s) (hFrom : s.phase core ≠ .idle)
    (hTo : phase ≠ .idle) : Shape (s.goto core phase) := by
  refine h.proceed hFrom ?_ ?_ (fun _ _ => rfl) (h.busy core hFrom) h.bit h.pending rfl h.bound
  · rw [State.goto_phase_self]
    exact hTo
  · intro other hNe
    exact State.goto_phase_of_ne hNe

theorem Shape.store (h : Shape s) (hFrom : s.phase core ≠ .idle) (pendingState : Nat) :
    Shape (memVirtInvtlbAckStore s core pendingState) := by
  refine h.proceed hFrom hFrom (fun _ _ => rfl) ?_ ?_ h.bit h.pending rfl h.bound
  · intro other hNe
    exact Function.update_of_ne hNe _ _
  · rw [memVirtInvtlbAckStore_states_self]
    omega

theorem Shape.count (h : Shape s) : Shape (memVirtInvtlbAckCount s).2 :=
  ⟨h.bit, h.idle, h.busy, h.pending, h.idleCores, Nat.mod_lt _ (by omega)⟩

/-- The number of idle cores fits in `size_t`. -/
theorem Shape.idleCores_le (h : Shape s) : s.idleCores ≤ cpus := by
  rw [h.idleCores]
  exact card_le_cpus _

/-- A core moves in or out of idle. -/
theorem Shape.move (h : Shape s) (hAlone : Alone core s s')
    (hIdle : s'.phase core = .idle ↔ s'.states core = 2)
    (hBusy : s'.phase core ≠ .idle → s'.states core ≤ 1) (hFlag : s'.pending = false)
    (hBound : s'.pendingTlbUpdates < 2 ^ 64)
    (hIdleCores : s'.idleCores = (Finset.univ.filter fun core => s'.phase core = .idle).card) :
    Shape s' := by
  constructor
  case bit => exact hAlone.pendingState ▸ h.bit
  case idle =>
    intro other
    by_cases hEq : other = core
    · subst hEq
      exact hIdle
    · rw [hAlone.phase other hEq, hAlone.states other hEq]
      exact h.idle other
  case busy =>
    intro other hOther
    by_cases hEq : other = core
    · subst hEq
      exact hBusy hOther
    · rw [hAlone.phase other hEq] at hOther
      rw [hAlone.states other hEq]
      exact h.busy other hOther
  case pending => exact hFlag
  case idleCores => exact hIdleCores
  case bound => exact hBound

theorem Shape.entered (hCpus : cpus < 2 ^ 64) (h : Shape s) (hFrom : s.phase core ≠ .idle) :
    Shape (s.entered core) := by
  have hPhase : ∀ other, other ≠ core → (s.entered core).phase other = s.phase other :=
    fun other hNe => Function.update_of_ne hNe _ _
  have hIdle : (s.entered core).phase core = .idle := State.entered_phase_self
  refine h.move ⟨rfl, rfl, hPhase, fun other hNe => Function.update_of_ne hNe _ _⟩
    (iff_of_true hIdle State.entered_states_self) (fun hBusy => (hBusy hIdle).elim) h.pending
    h.bound ?_
  have hMore := card_filter_eq_succ (P := fun other => (s.entered core).phase other = .idle)
    (Q := fun other => s.phase other = .idle) hIdle hFrom fun other hNe => by rw [hPhase other hNe]
  have hLe := card_le_cpus fun other => (s.entered core).phase other = .idle
  have hIdleCores := h.idleCores
  have hNew : (s.entered core).idleCores = s.idleCores + 1 := Nat.mod_eq_of_lt (by omega)
  omega

theorem Shape.exited (hCpus : cpus < 2 ^ 64) (h : Shape s) (hFrom : s.phase core = .idle) :
    Shape (memVirtInvtlbOnIdleExit s core) := by
  have hWoken : (memVirtInvtlbOnIdleExit s core).phase core = .woken := Function.update_self ..
  have hState : (memVirtInvtlbOnIdleExit s core).states core = 1 - s.pendingState :=
    Function.update_self ..
  have hLess := card_filter_eq_succ (P := fun other => s.phase other = .idle)
    (Q := fun other => (memVirtInvtlbOnIdleExit s core).phase other = .idle) hFrom
    (by simp [hWoken]) fun other hNe => by rw [alone_idleExit.phase other hNe]
  have hIdleCores := h.idleCores
  have hLe := h.idleCores_le
  have hNew : (memVirtInvtlbOnIdleExit s core).idleCores = s.idleCores - 1 :=
    wrap_pred (by omega) (by omega)
  refine h.move alone_idleExit (iff_of_false (by simp [hWoken]) (by omega)) (fun _ => by omega)
    h.pending h.bound ?_
  omega

/-- The variables do not depend on the histories. -/
theorem Shape.congr (h : Shape s) (history : Fin cpus → History) (late : List (Fin cpus)) :
    Shape { s with history := history, late := late } :=
  ⟨h.bit, h.idle, h.busy, h.pending, h.idleCores, h.bound⟩

theorem Shape.genUpdate (h : Shape s) : Shape (memVirtInvtlbGenUpdateNolock s) :=
  ⟨h.bit, h.idle, h.busy, rfl, h.idleCores, h.bound⟩

theorem Shape.idleEnter (hCpus : cpus < 2 ^ 64) (h : Shape s) (hFrom : s.phase core = .running) :
    Shape (memVirtInvtlbOnIdleEnter s core) := by
  have hBusy : s.phase core ≠ .idle := by simp [hFrom]
  by_cases hMatch : s.states core = s.pendingState
  · rw [memVirtInvtlbOnIdleEnter_of_eq hMatch]
    have hAcked : Shape (s.acked core) := by
      have hStored := h.store hBusy s.pendingState
      exact ⟨hStored.bit, hStored.idle, hStored.busy, hStored.pending, hStored.idleCores,
        Nat.mod_lt _ (by omega)⟩
    split_ifs
    · exact Shape.entered hCpus (hAcked.congr _ _).genUpdate hBusy
    · exact Shape.entered hCpus (hAcked.congr _ _) hBusy
  · rw [memVirtInvtlbOnIdleEnter_of_ne hMatch]
    exact Shape.entered hCpus (h.congr _ _) hBusy

theorem Shape.asked (h : Shape s) (hFrom : s.phase core ≠ .idle) : Shape (s.asked core) := by
  refine h.proceed hFrom ?_ ?_ (fun _ _ => rfl) (h.busy core hFrom) (Nat.sub_le ..) h.pending rfl
    (Nat.mod_lt _ (by omega))
  · simp [State.asked_phase_self]
  · intro other hNe
    exact State.asked_phase_of_ne hNe

/-- After an acknowledgement a core is neither idle nor on its way to another one. -/
theorem afterAck_cases (caller : Caller) (status : AckStatus) :
    afterAck caller status = .updating caller ∨ afterAck caller status = .running ∨
      afterAck caller status = .writing := by
  cases caller <;> cases status <;> simp only [afterAck] <;> try split_ifs
  all_goals simp

theorem afterAck_ne_idle (caller : Caller) (status : AckStatus) : afterAck caller status ≠ .idle := by
  rcases afterAck_cases caller status with h | h | h <;> simp [h]

theorem Performed.ne_idle {action : Action} (h : Performed s core action s')
    (hNot : action ≠ .idleExit) : s.phase core ≠ .idle := by
  cases h with
  | updateCr3 _ _ hFrom => rcases hFrom with hFrom | hFrom <;> simp [hFrom]
  | idleExit => exact (hNot rfl).elim
  | request hFrom | load hFrom | store hFrom | skip hFrom | count hFrom | update hFrom
  | write hFrom | idleEnter hFrom => simp [hFrom]

theorem Shape.step {action : Action} (hCpus : cpus < 2 ^ 64) (h : Shape s)
    (hStep : Performed s core action s') : Shape s' := by
  have hBusy := hStep.ne_idle
  cases hStep with
  | request =>
      rw [memVirtInvtlbRequest_eq h.pending]
      exact h.asked (hBusy (by simp))
  | updateCr3 => exact h.goto (hBusy (by simp)) (by simp)
  | load => exact h.goto (hBusy (by simp)) (by simp)
  | @store _ pendingState =>
      exact (h.store (hBusy (by simp)) pendingState).goto (hBusy (by simp)) (by simp)
  | skip => exact h.goto (hBusy (by simp)) (afterAck_ne_idle _ _)
  | count => exact h.count.goto (hBusy (by simp)) (afterAck_ne_idle _ _)
  | @update caller =>
      exact h.genUpdate.goto (hBusy (by simp)) (by cases caller <;> simp [afterUpdate])
  | write => exact Shape.goto (h.congr _ _) (hBusy (by simp)) (by simp)
  | idleEnter hFrom => exact h.idleEnter hCpus hFrom
  | idleExit hFrom => exact h.exited hCpus hFrom

theorem Shape.run (hCpus : cpus < 2 ^ 64) (run : (system cpus).Execution trace s) : Shape s := by
  apply run.stateInvariant
  · rintro s rfl
    constructor <;> simp [memVirtInvtlbInit]
  · intro s label s' h hStep
    exact h.step hCpus (perform_iff.mp hStep)

end Shapes

section Counting

theorem mem_due : core ∈ due s ↔ Due s core := by
  simp [due]

theorem due_of_ne (hAlone : Alone core s s') (hNe : other ≠ core) : Due s' other ↔ Due s other := by
  rw [Due, Due, hAlone.pendingState, hAlone.phase other hNe, hAlone.states other hNe]

theorem uncounted_alone (hAlone : Alone core s s') : uncounted s' = uncounted s := by
  rw [uncounted, uncounted, hAlone.requester]

/-- What a step of one core keeps of the loaded pending states and of the entries. -/
theorem Counted.alone (h : Counted s) (hAlone : Alone core s s')
    (hCount : wrap (s'.pendingTlbUpdates + uncounted s) = (due s').card)
    (hLoaded : ∀ caller pendingState, s'.phase core = .comparing caller pendingState →
      s'.states core = pendingState → pendingState = s.pendingState)
    (hCounts : (s'.phase core).counts = true → s'.states core ≠ s.pendingState) : Counted s' := by
  refine ⟨uncounted_alone hAlone ▸ hCount, fun other caller pendingState hPhase hState => ?_,
    fun other hOther => ?_⟩
  · rw [hAlone.pendingState]
    by_cases hEq : other = core
    · subst hEq
      exact hLoaded caller pendingState hPhase hState
    · rw [hAlone.phase other hEq] at hPhase
      rw [hAlone.states other hEq] at hState
      exact h.loaded other caller pendingState hPhase hState
  · rw [hAlone.pendingState]
    by_cases hEq : other = core
    · subst hEq
      exact hCounts hOther
    · rw [hAlone.phase other hEq] at hOther
      rw [hAlone.states other hEq]
      exact h.counts other hOther

/-- The core stays due, or not due. -/
theorem Counted.same (h : Counted s) (hAlone : Alone core s s')
    (hLeft : s'.pendingTlbUpdates = s.pendingTlbUpdates) (hDue : Due s' core ↔ Due s core)
    (hLoaded : ∀ caller pendingState, s'.phase core = .comparing caller pendingState →
      s'.states core = pendingState → pendingState = s.pendingState)
    (hCounts : (s'.phase core).counts = true → s'.states core ≠ s.pendingState) : Counted s' := by
  refine h.alone hAlone ?_ hLoaded hCounts
  have hSame : due s' = due s := by
    ext other
    rw [mem_due, mem_due]
    by_cases hEq : other = core
    · rw [hEq]
      exact hDue
    · exact due_of_ne hAlone hEq
  rw [hLeft, hSame]
  exact h.count

/-- The core counts down and is not due any more. -/
theorem Counted.less (h : Counted s) (hAlone : Alone core s s')
    (hLeft : s'.pendingTlbUpdates = coresLeft s) (hDue : Due s core) (hDone : ¬Due s' core)
    (hLoaded : ∀ caller pendingState, s'.phase core ≠ .comparing caller pendingState) :
    Counted s' := by
  refine h.alone hAlone ?_ (fun caller pendingState hPhase => (hLoaded _ _ hPhase).elim) ?_
  · have hLess : (due s).card = (due s').card + 1 :=
      card_filter_eq_succ hDue hDone fun other hNe => due_of_ne hAlone hNe
    have hCount := h.count
    rw [hLeft, coresLeft]
    simp only [wrap] at hCount ⊢
    omega
  · intro hCounts
    exact (hDone (.inr hCounts)).elim

/-- A core goes on between phases in which it does not count down. -/
theorem Counted.goto {phase : Phase} (h : Counted s) (hAlone : Alone core s s')
    (hLeft : s'.pendingTlbUpdates = s.pendingTlbUpdates) (hStates : s'.states = s.states)
    (hFrom : (s.phase core).counts = false) (hTo : phase.counts = false)
    (hLoaded : ∀ caller pendingState, phase = .comparing caller pendingState →
      pendingState = s.pendingState) : Counted (s'.goto core phase) := by
  have hPhase : (s'.goto core phase).phase core = phase := State.goto_phase_self
  refine h.same hAlone.goto hLeft ?_ ?_ ?_
  · rw [Due, Due, hPhase, hTo, hFrom]
    exact or_congr_left (by rw [← hAlone.pendingState, ← hStates]; rfl)
  · intro caller pendingState hNow _
    exact hLoaded caller pendingState (hPhase.symm.trans hNow)
  · rw [hPhase, hTo]
    exact fun hNo => Bool.noConfusion hNo

theorem afterAck_counts (caller : Caller) (status : AckStatus) :
    (afterAck caller status).counts = false := by
  rcases afterAck_cases caller status with h | h | h <;> rw [h] <;> rfl

theorem afterAck_ne_comparing (caller : Caller) (status : AckStatus) (caller' : Caller)
    (pendingState : Nat) : afterAck caller status ≠ .comparing caller' pendingState := by
  rcases afterAck_cases caller status with h | h | h <;> simp [h]

/-- A core that finds the pending state in its entry stores the other one, and has still to
count down. -/
theorem Counted.store (h : Counted s) (hBit : s.pendingState ≤ 1) {caller : Caller}
    {pendingState : Nat} (hFrom : s.phase core = .comparing caller pendingState)
    (hMatch : s.states core = pendingState) :
    Counted ((memVirtInvtlbAckStore s core pendingState).goto core (.counting caller)) := by
  have hLoaded := h.loaded core caller pendingState hFrom hMatch
  have hPhase : ((memVirtInvtlbAckStore s core pendingState).goto core (.counting caller)).phase core =
      .counting caller := State.goto_phase_self
  refine h.same alone_store.goto rfl (iff_of_true (.inr ?_) (.inl (hMatch.trans hLoaded))) ?_ ?_
  · rw [hPhase]
    rfl
  · intro caller' pendingState' hNow
    rw [hPhase] at hNow
    cases hNow
  · intro _ hState
    have hFlipped : 1 - pendingState = s.pendingState :=
      memVirtInvtlbAckStore_states_self.symm.trans hState
    omega

theorem Counted.counted (h : Counted s) {caller : Caller} (hFrom : s.phase core = .counting caller) :
    Counted ((memVirtInvtlbAckCount s).2.goto core
      (afterAck caller (memVirtInvtlbAckCount s).1)) := by
  have hCounts : (s.phase core).counts = true := by
    rw [hFrom]
    rfl
  refine h.less alone_count.goto rfl (.inr hCounts) ?_ ?_
  · rintro (hState | hStill)
    · exact h.counts core hCounts hState
    · rw [State.goto_phase_self, afterAck_counts] at hStill
      cases hStill
  · intro caller' pendingState
    rw [State.goto_phase_self]
    exact afterAck_ne_comparing _ _ _ _

theorem not_due_entered (hBit : s.pendingState ≤ 1) : ¬Due (s.entered core) core := by
  rintro (hState | hCounts)
  · have hTwo : 2 = s.pendingState := State.entered_states_self.symm.trans hState
    omega
  · rw [State.entered_phase_self] at hCounts
    cases hCounts

theorem memVirtInvtlbOnIdleEnter_phase_self :
    (memVirtInvtlbOnIdleEnter s core).phase core = .idle := by
  by_cases hMatch : s.states core = s.pendingState
  · rw [memVirtInvtlbOnIdleEnter_of_eq hMatch]
    split_ifs <;> exact State.entered_phase_self
  · rw [memVirtInvtlbOnIdleEnter_of_ne hMatch]
    exact State.entered_phase_self

/-- A core that has entered idle has nothing to count down. -/
theorem not_due_idleEnter (hBit : s.pendingState ≤ 1) :
    ¬Due (memVirtInvtlbOnIdleEnter s core) core := by
  by_cases hMatch : s.states core = s.pendingState
  · rw [memVirtInvtlbOnIdleEnter_of_eq hMatch]
    split_ifs <;> exact not_due_entered hBit
  · rw [memVirtInvtlbOnIdleEnter_of_ne hMatch]
    exact not_due_entered hBit

theorem Counted.idleEnter (h : Counted s) (hBit : s.pendingState ≤ 1)
    (hFrom : s.phase core = .running) : Counted (memVirtInvtlbOnIdleEnter s core) := by
  have hPhase : (memVirtInvtlbOnIdleEnter s core).phase core = .idle :=
    memVirtInvtlbOnIdleEnter_phase_self
  by_cases hMatch : s.states core = s.pendingState
  · refine h.less alone_idleEnter (memVirtInvtlbOnIdleEnter_left hMatch) (.inl hMatch)
      (not_due_idleEnter hBit) ?_
    simp [hPhase]
  · refine h.same alone_idleEnter ?_ (iff_of_false (not_due_idleEnter hBit) ?_) ?_ ?_
    · rw [memVirtInvtlbOnIdleEnter_of_ne hMatch]
      rfl
    · simp [Due, hMatch, hFrom, Phase.counts]
    · simp [hPhase]
    · simp [hPhase, Phase.counts]

theorem Counted.idleExit (h : Counted s) (hShape : Shape s) (hFrom : s.phase core = .idle) :
    Counted (memVirtInvtlbOnIdleExit s core) := by
  have hBit := hShape.bit
  have hTwo := (hShape.idle core).mp hFrom
  have hPhase : (memVirtInvtlbOnIdleExit s core).phase core = .woken := Function.update_self ..
  have hState : (memVirtInvtlbOnIdleExit s core).states core = 1 - s.pendingState :=
    Function.update_self ..
  have hPending : (memVirtInvtlbOnIdleExit s core).pendingState = s.pendingState := rfl
  refine h.same alone_idleExit rfl (iff_of_false ?_ ?_) ?_ ?_
  · simp only [Due, hPhase, hState, hPending, Phase.counts, or_false, Bool.false_eq_true]
    omega
  · simp only [Due, hFrom, hTwo, Phase.counts, or_false, Bool.false_eq_true]
    omega
  · simp [hPhase]
  · simp [hPhase, Phase.counts]

/-- Who is not idle is asked again when nobody was due. -/
theorem Shape.asked_iff (h : Shape s) (hAcked : ∀ core, ¬Due s core) :
    s.states other = 1 - s.pendingState ↔ s.phase other ≠ .idle := by
  have hBit := h.bit
  constructor
  · intro hState hPhase
    have hTwo := (h.idle other).mp hPhase
    omega
  · intro hPhase
    have hNew : s.states other ≠ s.pendingState := fun hState => hAcked other (.inl hState)
    have hBusy := h.busy other hPhase
    omega

theorem Shape.asked_due (h : Shape s) (hAcked : ∀ core, ¬Due s core) :
    Due (s.asked core) other ↔ s.phase other ≠ .idle := by
  have hNot : ((s.asked core).phase other).counts = false := by
    by_cases hEq : other = core
    · rw [hEq, State.asked_phase_self]
      rfl
    · rw [State.asked_phase_of_ne hEq]
      by_contra hCounts
      exact hAcked other (.inr (by simpa using hCounts))
  rw [Due, hNot, ← h.asked_iff hAcked]
  simp only [Bool.false_eq_true, or_false]
  rfl

theorem Counted.asked (hCpus : cpus < 2 ^ 64) (h : Counted s) (hShape : Shape s)
    (hAcked : ∀ core, ¬Due s core) : Counted (s.asked core) := by
  refine ⟨?_, fun other caller pendingState hPhase hState => ?_, fun other hCounts hState => ?_⟩
  · have hAll : due (s.asked core) = Finset.univ.filter fun other => ¬s.phase other = .idle := by
      ext other
      rw [mem_due, hShape.asked_due hAcked]
      simp
    have hLe := hShape.idleCores_le
    have hIdleCores := hShape.idleCores
    have hLeft : (s.asked core).pendingTlbUpdates + uncounted (s.asked core) =
        wrap (cpus + (2 ^ 64 - s.idleCores)) := rfl
    rw [hLeft, hAll, card_filter_not_eq_sub, Fintype.card_fin, ← hIdleCores, wrap, wrap]
    omega
  · have hNe : other ≠ core := by
      rintro rfl
      rw [State.asked_phase_self] at hPhase
      cases hPhase
    rw [State.asked_phase_of_ne hNe] at hPhase
    have hOld := h.loaded other caller pendingState hPhase hState
    exact (hAcked other (.inl (hState.trans hOld))).elim
  · by_cases hEq : other = core
    · rw [hEq, State.asked_phase_self] at hCounts
      cases hCounts
    · rw [State.asked_phase_of_ne hEq] at hCounts
      exact hAcked other (.inr hCounts)

theorem Counted.step {action : Action} (hCpus : cpus < 2 ^ 64) (h : Counted s) (hShape : Shape s)
    (hAcknowledged : Acknowledged s (core, action)) (hStep : Performed s core action s') :
    Counted s' := by
  cases hStep with
  | request =>
      rw [memVirtInvtlbRequest_eq hShape.pending]
      exact h.asked hCpus hShape hAcknowledged
  | updateCr3 _ _ hFrom =>
      have hCounts : (s.phase core).counts = false := by
        rcases hFrom with hFrom | hFrom <;> rw [hFrom] <;> rfl
      exact h.goto .refl rfl rfl hCounts rfl (by simp)
  | load hFrom => exact h.goto .refl rfl rfl (hFrom ▸ rfl) rfl (by simp)
  | store hFrom hMatch => exact h.store hShape.bit hFrom hMatch
  | skip hFrom =>
      exact h.goto .refl rfl rfl (hFrom ▸ rfl) (afterAck_counts ..)
        fun _ _ hPhase => (afterAck_ne_comparing _ _ _ _ hPhase).elim
  | count hFrom => exact h.counted hFrom
  | @update caller hFrom =>
      exact h.goto alone_genUpdate rfl rfl (hFrom ▸ rfl) (by cases caller <;> rfl)
        (by cases caller <;> simp [afterUpdate])
  | write hFrom => exact h.goto alone_wrcr3 rfl rfl (hFrom ▸ rfl) rfl (by simp)
  | idleEnter hFrom => exact h.idleEnter hShape.bit hFrom
  | idleExit hFrom => exact h.idleExit hShape hFrom

theorem counted_memVirtInvtlbInit (hCpus : cpus < 2 ^ 64) : Counted (memVirtInvtlbInit cpus) := by
  have hAll : due (memVirtInvtlbInit cpus) = Finset.univ :=
    Finset.filter_true_of_mem fun _ _ => .inl rfl
  have hLeft : (memVirtInvtlbInit cpus).pendingTlbUpdates + uncounted (memVirtInvtlbInit cpus) =
      0 + cpus := rfl
  refine ⟨?_, by simp [memVirtInvtlbInit], by simp [memVirtInvtlbInit, Phase.counts]⟩
  rw [hAll, hLeft, Finset.card_univ, Fintype.card_fin, wrap, Nat.zero_add, Nat.mod_eq_of_lt hCpus]

theorem Counted.run (hCpus : cpus < 2 ^ 64)
    (run : ((system cpus).restrict Acknowledged).Execution trace s) : Counted s := by
  apply run.invariant (P := fun _ s => Counted s)
  · rintro s rfl
    exact counted_memVirtInvtlbInit hCpus
  · intro trace s label s' hRun h hStep
    exact h.step hCpus (Shape.run hCpus hRun.ofRestrict) hStep.1 (perform_iff.mp hStep.2)

/-- The countdown is the number of cores that are due, from the first request on. -/
theorem Counted.count_eq (h : Counted s) (hShape : Shape s) (hSome : s.requester.isSome) :
    s.pendingTlbUpdates = (due s).card := by
  have hCount := h.count
  rw [uncounted, if_pos hSome, Nat.add_zero, wrap, Nat.mod_eq_of_lt hShape.bound] at hCount
  exact hCount

end Counting

end Ricerca.Invtlb
