import Mathlib.Data.List.FinRange
import Mathlib.Logic.Function.Basic
import Ricerca.Foundation.Execution
import Ricerca.Foundation.Words

/-! Global TLB invalidation (`mem/virt/invtlb.c`). A section under the subsystem lock is one
step. `mem_virt_invtlb_ack` outside the lock takes three: it reads the pending state, it
compares and stores the entry of its core, which no other core uses, and it counts down.
Steps of other cores can fall in between. -/
namespace Ricerca.Invtlb

open Ricerca.Foundation

/-- `MEM_VIRT_INVTLB_STATE_IDLE`. -/
def memVirtInvtlbStateIdle : Nat := 2

def memVirtInvtlbFlipState (pending : Nat) : Nat := 1 - pending

/-- The function that has called `mem_virt_invtlb_ack` outside the lock. -/
inductive Caller where
  | request
  | updateCr3 (oldCr3 newCr3 : Nat)
  deriving DecidableEq

/-- What a core is about to do. A core that is `counting` has stored its entry and is about
to decrement the countdown. A core that has left idle runs no task before it has been through
`mem_virt_invtlb_update_cr3`. -/
inductive Phase where
  | running
  | loading (caller : Caller)
  | comparing (caller : Caller) (pendingState : Nat)
  | counting (caller : Caller)
  | updating (caller : Caller)
  | writing
  | idle
  | woken
  deriving DecidableEq

/-- What has happened to a core since the last request: `active` if it was not idle then,
`settled` if it has executed `wrcr3` or entered idle, `flushed` if it has executed `wrcr3`.
It `owes` a `wrcr3` if it was idle at some request, or went idle after one, and has not
executed `wrcr3` after that request. -/
structure History where
  active : Bool
  settled : Bool
  flushed : Bool
  owes : Bool
  deriving DecidableEq

/-- The variables of the subsystem, the cores and their histories. `late` are the cores
that were not settled when a generation update ran. -/
structure State (cpus : Nat) where
  pendingState : Nat
  states : Fin cpus → Nat
  idleCores : Nat
  pendingTlbUpdates : Nat
  pending : Bool
  phase : Fin cpus → Phase
  history : Fin cpus → History
  requester : Option (Fin cpus)
  late : List (Fin cpus)

variable {cpus : Nat}

/-- `mem_virt_invtlb_init`. -/
def memVirtInvtlbInit (cpus : Nat) : State cpus where
  pendingState := 0
  states _ := 0
  idleCores := 0
  pendingTlbUpdates := 0
  pending := false
  phase _ := .running
  history _ := ⟨false, false, false, false⟩
  requester := none
  late := []

def State.goto (s : State cpus) (core : Fin cpus) (phase : Phase) : State cpus :=
  { s with phase := Function.update s.phase core phase }

inductive AckStatus where
  | noInvalidationRequired
  | flushCr3
  | genUpdatePending
  deriving DecidableEq

/-- The store of `mem_virt_invtlb_ack`. -/
def memVirtInvtlbAckStore (s : State cpus) (core : Fin cpus) (pendingState : Nat) : State cpus :=
  { s with states := Function.update s.states core (memVirtInvtlbFlipState pendingState) }

/-- The countdown after `ATOMIC_FETCH_DECREMENT`. -/
def coresLeft (s : State cpus) : Nat := wrap (2 ^ 64 - 1 + s.pendingTlbUpdates)

/-- `mem_virt_invtlb_ack` from the decrement on. -/
def memVirtInvtlbAckCount (s : State cpus) : AckStatus × State cpus :=
  (if coresLeft s = 0 then .genUpdatePending else .flushCr3,
    { s with pendingTlbUpdates := coresLeft s })

/-- `mem_virt_invtlb_ack` under the lock, from the comparison on. -/
def memVirtInvtlbAck (s : State cpus) (core : Fin cpus) (pendingState : Nat) :
    AckStatus × State cpus :=
  if s.states core = pendingState then
    memVirtInvtlbAckCount (memVirtInvtlbAckStore s core pendingState)
  else (.noInvalidationRequired, s)

/-- `mem_virt_invtlb_gen_update_nolock`. -/
def memVirtInvtlbGenUpdateNolock (s : State cpus) : State cpus :=
  { s with
    pending := false
    late := s.late ++ (List.finRange cpus).filter fun core =>
      (s.history core).active && !(s.history core).settled }

/-- What follows on the acknowledgement, in `mem_virt_invtlb_request` and
`mem_virt_invtlb_update_cr3`. -/
def afterAck : Caller → AckStatus → Phase
  | caller, .genUpdatePending => .updating caller
  | .request, _ => .running
  | .updateCr3 _ _, .flushCr3 => .writing
  | .updateCr3 oldCr3 newCr3, .noInvalidationRequired =>
      if oldCr3 ≠ newCr3 then .writing else .running

/-- What follows on a generation update. -/
def afterUpdate : Caller → Phase
  | .request => .running
  | .updateCr3 _ _ => .writing

/-- `wrcr3`. -/
def wrcr3 (s : State cpus) (core : Fin cpus) : State cpus :=
  { s with
    history := Function.update s.history core
      { s.history core with settled := true, flushed := true, owes := false } }

/-- The locked part of `mem_virt_invtlb_request`. -/
def memVirtInvtlbRequest (s : State cpus) (core : Fin cpus) : State cpus :=
  if s.pending then s
  else
    { s with
      pendingTlbUpdates := wrap (cpus + (2 ^ 64 - s.idleCores))
      pendingState := 1 - s.pendingState
      phase := Function.update s.phase core (.loading .request)
      requester := some core
      history := fun other =>
        let idle := s.phase other = .idle
        ⟨!idle, false, false, idle || (s.history other).owes⟩ }

/-- `mem_virt_invtlb_on_idle_enter`. -/
def memVirtInvtlbOnIdleEnter (s : State cpus) (core : Fin cpus) : State cpus :=
  let (status, s) := memVirtInvtlbAck s core s.pendingState
  let history := s.history core
  let s := { s with
    history := Function.update s.history core
      { history with
        settled := true
        owes := history.owes || (s.requester.isSome && !history.flushed) } }
  let s := if status = .genUpdatePending then memVirtInvtlbGenUpdateNolock s else s
  { s with
    idleCores := wrap (s.idleCores + 1)
    states := Function.update s.states core memVirtInvtlbStateIdle
    phase := Function.update s.phase core .idle }

/-- `mem_virt_invtlb_on_idle_exit`. -/
def memVirtInvtlbOnIdleExit (s : State cpus) (core : Fin cpus) : State cpus :=
  { s with
    idleCores := wrap (s.idleCores + (2 ^ 64 - 1))
    states := Function.update s.states core (memVirtInvtlbFlipState s.pendingState)
    phase := Function.update s.phase core .woken }

inductive Action where
  | request
  | updateCr3 (oldCr3 newCr3 : Nat)
  | load
  | compare
  | count
  | update
  | write
  | idleEnter
  | idleExit
  deriving DecidableEq

/-- The next step of a core. -/
def perform (s : State cpus) (core : Fin cpus) (action : Action) : Option (State cpus) :=
  match action, s.phase core with
  | .request, .running => some (memVirtInvtlbRequest s core)
  | .updateCr3 oldCr3 newCr3, .running => some (s.goto core (.loading (.updateCr3 oldCr3 newCr3)))
  | .updateCr3 oldCr3 newCr3, .woken => some (s.goto core (.loading (.updateCr3 oldCr3 newCr3)))
  | .load, .loading caller => some (s.goto core (.comparing caller s.pendingState))
  | .compare, .comparing caller pendingState =>
      if s.states core = pendingState then
        some ((memVirtInvtlbAckStore s core pendingState).goto core (.counting caller))
      else some (s.goto core (afterAck caller .noInvalidationRequired))
  | .count, .counting caller =>
      let (status, s) := memVirtInvtlbAckCount s
      some (s.goto core (afterAck caller status))
  | .update, .updating caller =>
      some ((memVirtInvtlbGenUpdateNolock s).goto core (afterUpdate caller))
  | .write, .writing => some ((wrcr3 s core).goto core .running)
  | .idleEnter, .running => some (memVirtInvtlbOnIdleEnter s core)
  | .idleExit, .idle => some (memVirtInvtlbOnIdleExit s core)
  | _, _ => none

def system (cpus : Nat) : System (State cpus) (Fin cpus × Action) where
  init s := s = memVirtInvtlbInit cpus
  step s label s' := perform s label.1 label.2 = some s'

/-- No generation update has run before the cores were ready for it, and a core that owes a
`wrcr3` runs no task. -/
structure NoStaleTlb (s : State cpus) : Prop where
  late : s.late = []
  owes : ∀ core, s.phase core = .running → (s.history core).owes = false

end Ricerca.Invtlb
