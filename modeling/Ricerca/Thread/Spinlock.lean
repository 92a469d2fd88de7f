import Ricerca.Foundation.FifoLock
import Ricerca.Foundation.Words

/-! Spinlocks (`thread/locking/spinlock.c`, `sys/intlevel.c`), one access to shared memory at a
time. A core takes a ticket, waits until it is served, and on its way out serves the next
ticket; only the holder writes `current`, so it may read and write it in two accesses. -/
namespace Ricerca.Spinlock

open Ricerca.Foundation

variable {Core Lock : Type}

/-- `struct thread_spinlock`. -/
structure ThreadSpinlock where
  current : Nat
  allocated : Nat
  deriving DecidableEq

/-- `THREAD_SPINLOCK_INIT`. -/
def threadSpinlockInit : ThreadSpinlock := ⟨0, 0⟩

/-- Where a core is in `thread_spinlock_grab` and `thread_spinlock_ungrab`: before the next load
of `current`, with its ticket, or before the store, with what it has read. -/
inductive Phase (Lock : Type) where
  | running
  | grabbing (lock : Lock) (ticket : Nat)
  | ungrabbing (lock : Lock) (current : Nat)

/-- A core with its interrupt flag. `saved` is what `intlevel_elevate` has returned to the code
that runs and has not been given to `intlevel_recover`, the latest first. -/
structure CoreState (Lock : Type) where
  interrupts : Bool
  saved : List Bool
  held : List Lock
  phase : Phase Lock

/-- `parked` is what the code that runs on no core has saved. -/
structure State (Core Lock : Type) where
  spinlocks : Lock → ThreadSpinlock
  cores : Core → CoreState Lock
  parked : List (List Bool)

/-- `ATOMIC_FETCH_INCREMENT_REL` on `allocated`. -/
def fetchIncrement (spinlock : ThreadSpinlock) : Nat × ThreadSpinlock :=
  (spinlock.allocated, { spinlock with allocated := wrap (spinlock.allocated + 1) })

def intlevelElevate (core : CoreState Lock) : Bool × CoreState Lock :=
  (core.interrupts, { core with interrupts := false })

def intlevelRecover (status : Bool) (core : CoreState Lock) : CoreState Lock :=
  if status then { core with interrupts := true } else core

@[simp]
theorem phase_intlevelRecover (status : Bool) (core : CoreState Lock) :
    (intlevelRecover status core).phase = core.phase := by
  cases status <;> rfl

@[simp]
theorem held_intlevelRecover (status : Bool) (core : CoreState Lock) :
    (intlevelRecover status core).held = core.held := by
  cases status <;> rfl

inductive Event (Core Lock : Type) where
  | elevate (core : Core)
  | recover (core : Core)
  | ticket (core : Core) (lock : Lock)
  | spin (core : Core) (lock : Lock)
  | enter (core : Core) (lock : Lock)
  | load (core : Core) (lock : Lock)
  | store (core : Core) (lock : Lock)
  | interrupts (core : Core) (enabled : Bool)
  | switch (core : Core) (place : Nat)

section Steps

variable [DecidableEq Core]

def State.setCore (s : State Core Lock) (c : Core) (core : CoreState Lock) : State Core Lock :=
  { s with cores := Function.update s.cores c core }

@[simp]
theorem cores_setCore_self {s : State Core Lock} {c : Core} {core : CoreState Lock} :
    (s.setCore c core).cores c = core := Function.update_self ..

theorem cores_setCore_of_ne {s : State Core Lock} {c c' : Core} {core : CoreState Lock}
    (hNe : c' ≠ c) : (s.setCore c core).cores c' = s.cores c' := Function.update_of_ne hNe _ _

def State.setSpinlock [DecidableEq Lock] (s : State Core Lock) (l : Lock)
    (spinlock : ThreadSpinlock) : State Core Lock :=
  { s with spinlocks := Function.update s.spinlocks l spinlock }

/-- The code that was parked at `place` gives its place to other code. -/
def State.park (s : State Core Lock) (place : Nat) (saved : List Bool) : State Core Lock :=
  { s with parked := s.parked.set place saved }

variable [DecidableEq Lock]

/-- `thread_spinlock_lock` is `elevate`, `ticket`, any number of `spin` and `enter`;
`thread_spinlock_unlock` is `load`, `store` and `recover`. Between its calls a core may change
its interrupt flag or go on with other code, where that was parked. -/
inductive Step : State Core Lock → Event Core Lock → State Core Lock → Prop where
  | elevate {s : State Core Lock} {c : Core} (hPhase : (s.cores c).phase = .running) :
      Step s (.elevate c) (s.setCore c { (intlevelElevate (s.cores c)).2 with
        saved := (intlevelElevate (s.cores c)).1 :: (s.cores c).saved })
  | recover {s : State Core Lock} {c : Core} {status : Bool} {rest : List Bool}
      (hPhase : (s.cores c).phase = .running) (hSaved : (s.cores c).saved = status :: rest) :
      Step s (.recover c) (s.setCore c { intlevelRecover status (s.cores c) with saved := rest })
  | ticket {s : State Core Lock} {c : Core} {l : Lock} (hPhase : (s.cores c).phase = .running) :
      Step s (.ticket c l) ((s.setSpinlock l (fetchIncrement (s.spinlocks l)).2).setCore c
        { s.cores c with phase := .grabbing l (fetchIncrement (s.spinlocks l)).1 })
  | spin {s : State Core Lock} {c : Core} {l : Lock} {ticket : Nat}
      (hPhase : (s.cores c).phase = .grabbing l ticket)
      (hOther : (s.spinlocks l).current ≠ ticket) : Step s (.spin c l) s
  | enter {s : State Core Lock} {c : Core} {l : Lock} {ticket : Nat}
      (hPhase : (s.cores c).phase = .grabbing l ticket)
      (hServed : (s.spinlocks l).current = ticket) :
      Step s (.enter c l)
        (s.setCore c { s.cores c with held := l :: (s.cores c).held, phase := .running })
  | load {s : State Core Lock} {c : Core} {l : Lock} (hPhase : (s.cores c).phase = .running)
      (hHeld : l ∈ (s.cores c).held) :
      Step s (.load c l)
        (s.setCore c { s.cores c with phase := .ungrabbing l (s.spinlocks l).current })
  | store {s : State Core Lock} {c : Core} {l : Lock} {current : Nat}
      (hPhase : (s.cores c).phase = .ungrabbing l current) :
      Step s (.store c l)
        ((s.setSpinlock l { s.spinlocks l with current := wrap (current + 1) }).setCore c
          { s.cores c with held := (s.cores c).held.filter (· ≠ l), phase := .running })
  | interrupts {s : State Core Lock} {c : Core} {enabled : Bool}
      (hPhase : (s.cores c).phase = .running) :
      Step s (.interrupts c enabled) (s.setCore c { s.cores c with interrupts := enabled })
  | switch {s : State Core Lock} {c : Core} {place : Nat} {saved : List Bool}
      (hPhase : (s.cores c).phase = .running) (hParked : s.parked[place]? = some saved) :
      Step s (.switch c place)
        ((s.park place (s.cores c).saved).setCore c { s.cores c with saved })

/-- All uses of spinlocks that are initialised, by cores that hold none. Code that has not run
yet has saved nothing. -/
def system : System (State Core Lock) (Event Core Lock) where
  init s := (∀ l, s.spinlocks l = threadSpinlockInit) ∧
    (∀ c, (s.cores c).held = [] ∧ (s.cores c).saved = [] ∧ (s.cores c).phase = .running) ∧
    ∀ saved ∈ s.parked, saved = []
  step := Step

end Steps

/-- What the queue of a lock has to do with an access. -/
def Event.visible : Event Core Lock → Option (FifoLock.Event Core Lock)
  | .ticket core lock => some (.request core lock)
  | .enter core lock => some (.enter core lock)
  | .store core lock => some (.leave core lock)
  | _ => none

end Ricerca.Spinlock
