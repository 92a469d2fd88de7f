import Mathlib.Data.List.Induction
import Ricerca.Foundation.LinkedList

/-! The registry of log subsystems (`lib/log.c`). The links are fields of the subsystems. The
calls are made one after the other. -/
namespace Ricerca.Log

open Ricerca.Foundation

variable {σ : Type}

/-- `struct thread_spinlock`. -/
structure ThreadSpinlock where
  current : UInt64
  allocated : UInt64
  deriving DecidableEq

/-- `thread_spinlock_grab`. No other call is under way that could end the wait for another
ticket than the current one, so nothing is returned then. -/
def threadSpinlockGrab (spinlock : ThreadSpinlock) : Option ThreadSpinlock :=
  if spinlock.current = spinlock.allocated then
    some { spinlock with allocated := spinlock.allocated + 1 }
  else none

def threadSpinlockUngrab (spinlock : ThreadSpinlock) : ThreadSpinlock :=
  { spinlock with current := spinlock.current + 1 }

/-- The static variables of the log, the links of all subsystems and the interrupt flag of the
core. -/
structure State (σ : Type) where
  first : Option σ
  next : σ → Option σ
  logSpinlock : ThreadSpinlock
  interrupts : Bool

/-- Before the first call: the list is empty and the spinlock is `THREAD_SPINLOCK_INIT`. -/
def State.init (next : σ → Option σ) (interrupts : Bool) : State σ :=
  ⟨none, next, ⟨0, 0⟩, interrupts⟩

/-- `thread_spinlock_lock` on the spinlock of the log. -/
def State.lock (state : State σ) : Option (State σ × Bool) :=
  (threadSpinlockGrab state.logSpinlock).map fun logSpinlock =>
    ({ state with logSpinlock := logSpinlock, interrupts := false }, state.interrupts)

/-- `thread_spinlock_unlock`. -/
def State.unlock (state : State σ) (interrupts : Bool) : State σ :=
  { state with
    logSpinlock := threadSpinlockUngrab state.logSpinlock
    interrupts := interrupts || state.interrupts }

/-- A callback that is invoked, with the data that it is given. -/
abbrev Invocation (σ : Type) := σ × List UInt8

/-- `log_write_lockless`. Nothing is returned when the fuel runs out. -/
def logWriteLockless (next : σ → Option σ) (data : List UInt8) :
    Nat → Option σ → Option (List (Invocation σ))
  | 0, _ => none
  | _ + 1, none => some []
  | fuel + 1, some current =>
      (logWriteLockless next data fuel (next current)).map ((current, data) :: ·)

def logWrite (fuel : Nat) (state : State σ) (data : List UInt8) :
    Option (State σ × List (Invocation σ)) := do
  let (state, interrupts) ← state.lock
  let invocations ← logWriteLockless state.next data fuel state.first
  some (state.unlock interrupts, invocations)

def logRegisterSubsystem [DecidableEq σ] (state : State σ) (subsystem : σ) :
    Option (State σ) := do
  let (state, interrupts) ← state.lock
  let state :=
    { state with
      next := Function.update state.next subsystem state.first
      first := some subsystem }
  some (state.unlock interrupts)

/-- The assignment that takes the subsystem out of the list, to the root or to the link of the
subsystem in front of it. -/
def State.erase [DecidableEq σ] (state : State σ) (subsystem : σ) : Option σ → State σ
  | none => { state with first := state.next subsystem }
  | some prev =>
      { state with next := Function.update state.next prev (state.next subsystem) }

/-- The loop of `log_unregister_subsystem`, and whether it is left by the `return` inside. -/
def logUnregisterLoop [DecidableEq σ] (subsystem : σ) (state : State σ) :
    Nat → Option σ → Option σ → Option (State σ × Bool)
  | 0, _, _ => none
  | _ + 1, _, none => some (state, false)
  | fuel + 1, prev, some current =>
      if current = subsystem then some (state.erase subsystem prev, true)
      else logUnregisterLoop subsystem state fuel (some current) (state.next current)

/-- The `return` inside the loop leaves the function with the spinlock held. -/
def logUnregisterSubsystem [DecidableEq σ] (fuel : Nat) (state : State σ) (subsystem : σ) :
    Option (State σ) := do
  let (state, interrupts) ← state.lock
  let (state, returned) ← logUnregisterLoop subsystem state fuel none state.first
  if returned then some state else some (state.unlock interrupts)

/-- The calls that the log is used with. -/
inductive Call (σ : Type) where
  | register (subsystem : σ)
  | unregister (subsystem : σ)
  | write (data : List UInt8)
  deriving DecidableEq

def exec [DecidableEq σ] (fuel : Nat) (state : State σ) : Call σ → Option (State σ)
  | .register subsystem => logRegisterSubsystem state subsystem
  | .unregister subsystem => logUnregisterSubsystem fuel state subsystem
  | .write data => (logWrite fuel state data).map Prod.fst

/-- One call after the other. -/
def run [DecidableEq σ] (fuel : Nat) (state : State σ) (calls : List (Call σ)) :
    Option (State σ) :=
  calls.foldlM (exec fuel) state

/-- What a call does to the subsystems that are registered, the latest one first. -/
def Call.apply [DecidableEq σ] (subsystems : List σ) : Call σ → List σ
  | .register subsystem => subsystem :: subsystems
  | .unregister subsystem => subsystems.erase subsystem
  | .write _ => subsystems

/-- The subsystems that have been registered and not unregistered. -/
def registered [DecidableEq σ] (calls : List (Call σ)) : List σ :=
  calls.foldl Call.apply []

/-- Nobody holds the spinlock. -/
def State.Released (state : State σ) : Prop :=
  state.logSpinlock.current = state.logSpinlock.allocated

/-- Between two calls: the spinlock is free and the list is that of the registered
subsystems. -/
structure Holds (state : State σ) (subsystems : List σ) : Prop where
  released : state.Released
  linked : Linked state.next state.first subsystems
  nodup : subsystems.Nodup

section Calls

variable {state state' : State σ} {subsystems : List σ} {subsystem : σ} {fuel : Nat}
  {interrupts returned : Bool} {data : List UInt8}

theorem State.lock_eq (h : state.Released) :
    state.lock = some ({ state with
      logSpinlock := { state.logSpinlock with allocated := state.logSpinlock.allocated + 1 }
      interrupts := false }, state.interrupts) := by
  rw [State.Released] at h
  rw [State.lock, threadSpinlockGrab, if_pos h, Option.map_some]

/-- Every callback of the list is invoked once, in order. -/
theorem logWriteLockless_eq {next : σ → Option σ} {first : Option σ}
    (h : Linked next first subsystems) (hFuel : subsystems.length < fuel) :
    logWriteLockless next data fuel first = some (subsystems.map (·, data)) := by
  induction h generalizing fuel with
  | nil =>
      obtain ⟨fuel, rfl⟩ := Nat.exists_eq_add_of_lt hFuel
      simp [logWriteLockless]
  | @cons node nodes rest ih =>
      cases fuel with
      | zero => cases hFuel
      | succ fuel =>
          rw [logWriteLockless, ih (Nat.lt_of_succ_lt_succ hFuel), Option.map_some, List.map_cons]

theorem holds_init (next : σ → Option σ) (interrupts : Bool) :
    Holds (State.init next interrupts) [] :=
  ⟨rfl, .nil, List.nodup_nil⟩

theorem Holds.write (h : Holds state subsystems) (data : List UInt8)
    (hFuel : subsystems.length < fuel) :
    ∃ state', logWrite fuel state data = some (state', subsystems.map (·, data)) ∧
      Holds state' subsystems := by
  simp only [logWrite, State.lock_eq h.released, Option.bind_eq_bind, Option.bind_some,
    logWriteLockless_eq h.linked hFuel]
  exact ⟨_, rfl, congrArg (· + 1) h.released, h.linked, h.nodup⟩

theorem Holds.register [DecidableEq σ] (h : Holds state subsystems)
    (hNew : subsystem ∉ subsystems) :
    ∃ state', logRegisterSubsystem state subsystem = some state' ∧
      Holds state' (subsystem :: subsystems) := by
  simp only [logRegisterSubsystem, State.lock_eq h.released, Option.bind_eq_bind,
    Option.bind_some]
  exact ⟨_, rfl, congrArg (· + 1) h.released, h.linked.push hNew,
    List.nodup_cons.mpr ⟨hNew, h.nodup⟩⟩

/-- Taking the node that the loop stands at out of the list. -/
theorem unlinked [DecidableEq σ] {passed rest : List σ}
    (hLinked : Linked state.next state.first (passed ++ subsystem :: rest))
    (hNodup : (passed ++ subsystem :: rest).Nodup)
    (hLoop : logUnregisterLoop subsystem state (fuel + 1) passed.getLast? (some subsystem) =
      some (state', returned)) :
    returned = true ∧ state'.logSpinlock = state.logSpinlock ∧
      Linked state'.next state'.first (passed ++ rest) := by
  rw [logUnregisterLoop, if_pos rfl] at hLoop
  rcases List.eq_nil_or_concat passed with rfl | ⟨before, prev, rfl⟩
  · cases hLoop
    exact ⟨rfl, rfl, hLinked.pop⟩
  · rw [List.concat_eq_append] at hLinked hNodup hLoop ⊢
    rw [List.getLast?_concat] at hLoop
    cases hLoop
    simp only [List.append_assoc, List.singleton_append] at hLinked hNodup ⊢
    exact ⟨trivial, rfl, hLinked.unlink hNodup⟩

/-- The loop finds the subsystem if and only if it is still ahead, and takes it out of the
list. The spinlock is left as it is. -/
theorem logUnregisterLoop_spec [DecidableEq σ] (passed : List σ) {ahead : List σ}
    (hLinked : Linked state.next state.first (passed ++ ahead))
    (hNodup : (passed ++ ahead).Nodup)
    (hLoop : logUnregisterLoop subsystem state fuel passed.getLast? ahead.head? =
      some (state', returned)) :
    (returned = true ↔ subsystem ∈ ahead) ∧ state'.logSpinlock = state.logSpinlock ∧
      Linked state'.next state'.first (passed ++ ahead.erase subsystem) := by
  induction fuel generalizing passed ahead with
  | zero => cases hLoop
  | succ fuel ih =>
      cases ahead with
      | nil =>
          cases hLoop
          exact ⟨by simp, rfl, hLinked⟩
      | cons current rest =>
          by_cases hFound : current = subsystem
          · subst hFound
            obtain ⟨hReturned, hSpinlock, hRest⟩ := unlinked hLinked hNodup hLoop
            rw [List.erase_cons_head]
            exact ⟨by simp [hReturned], hSpinlock, hRest⟩
          · have hNext : state.next current = rest.head? := hLinked.next_eq
            have hAgain : logUnregisterLoop subsystem state fuel (passed ++ [current]).getLast?
                rest.head? = some (state', returned) := by
              rw [List.head?_cons, logUnregisterLoop, if_neg hFound, hNext] at hLoop
              simpa using hLoop
            obtain ⟨hReturned, hSpinlock, hRest⟩ := ih _ (by simpa using hLinked)
              (by simpa using hNodup) hAgain
            refine ⟨?_, hSpinlock, ?_⟩
            · rw [hReturned, List.mem_cons]
              simp [Ne.symm hFound]
            · rw [List.erase_cons_tail (by simpa using hFound)]
              simpa using hRest

theorem logUnregisterLoop_isSome [DecidableEq σ] {first : Option σ} (subsystem : σ)
    (prev : Option σ)
    (hLinked : Linked state.next first subsystems) (hFuel : subsystems.length < fuel) :
    (logUnregisterLoop subsystem state fuel prev first).isSome := by
  induction hLinked generalizing fuel prev with
  | nil =>
      obtain ⟨fuel, rfl⟩ := Nat.exists_eq_add_of_lt hFuel
      simp [logUnregisterLoop]
  | @cons node nodes rest ih =>
      cases fuel with
      | zero => cases hFuel
      | succ fuel =>
          rw [logUnregisterLoop]
          split
          · rfl
          · exact ih (some node) (Nat.lt_of_succ_lt_succ hFuel)

/-- A call of `log_unregister_subsystem` that returns leaves the right list. It leaves the
spinlock free if and only if the subsystem was not registered. -/
theorem Holds.unregister_spec [DecidableEq σ] (h : Holds state subsystems)
    (hCall : logUnregisterSubsystem fuel state subsystem = some state') :
    Linked state'.next state'.first (subsystems.erase subsystem) ∧
      (state'.Released ↔ subsystem ∉ subsystems) := by
  simp only [logUnregisterSubsystem, State.lock_eq h.released, Option.bind_eq_bind,
    Option.bind_some, Option.bind_eq_some_iff] at hCall
  obtain ⟨⟨middle, returned⟩, hLoop, hCall⟩ := hCall
  rw [h.linked.head_eq] at hLoop
  obtain ⟨hReturned, hSpinlock, hRest⟩ :=
    logUnregisterLoop_spec [] (h.linked.head_eq ▸ h.linked) h.nodup hLoop
  have hAllocated : state.logSpinlock.allocated + 1 = state.logSpinlock.current + 1 :=
    congrArg (· + 1) (Eq.symm h.released)
  cases returned with
  | true =>
      cases hCall
      refine ⟨hRest, iff_of_false ?_ (not_not.mpr (hReturned.mp rfl))⟩
      rw [State.Released, hSpinlock]
      simp [hAllocated]
  | false =>
      cases hCall
      refine ⟨hRest, iff_of_true ?_ fun hMem => by simpa using hReturned.mpr hMem⟩
      simp [State.Released, State.unlock, threadSpinlockUngrab, hSpinlock, hAllocated]

theorem Holds.unregister_isSome [DecidableEq σ] (h : Holds state subsystems) (subsystem : σ)
    (hFuel : subsystems.length < fuel) :
    (logUnregisterSubsystem fuel state subsystem).isSome := by
  obtain ⟨locked, interrupts, hLock, hNext, hFirst⟩ : ∃ locked interrupts,
      state.lock = some (locked, interrupts) ∧ locked.next = state.next ∧
        locked.first = state.first :=
    ⟨_, _, State.lock_eq h.released, rfl, rfl⟩
  have hLinked : Linked locked.next locked.first subsystems := by
    rw [hNext, hFirst]
    exact h.linked
  obtain ⟨⟨middle, returned⟩, hLoop⟩ := Option.isSome_iff_exists.mp
    (logUnregisterLoop_isSome subsystem none hLinked hFuel)
  simp only [logUnregisterSubsystem, hLock, Option.bind_eq_bind, Option.bind_some, hLoop]
  cases returned <;> rfl

end Calls

section Runs

variable [DecidableEq σ] {state state' : State σ} {subsystems : List σ} {fuel : Nat}
  {call : Call σ} {calls : List (Call σ)}

/-- The call registers a subsystem that is not in the list. -/
def Call.Fresh (subsystems : List σ) : Call σ → Prop
  | .register subsystem => subsystem ∉ subsystems
  | .unregister _ | .write _ => True

/-- The call does not unregister a subsystem that is in the list. -/
def Call.Misses (subsystems : List σ) : Call σ → Prop
  | .unregister subsystem => subsystem ∉ subsystems
  | .register _ | .write _ => True

/-- A property of a call and of the subsystems registered at that time holds all along. -/
def Along (property : List σ → Call σ → Prop) (calls : List (Call σ)) : Prop :=
  ∀ before call rest, calls = before ++ call :: rest → property (registered before) call

/-- Every call returns, however many come later: with the spinlock released and with exactly
the registered subsystems in the list, so that a message reaches each of them once. -/
def Serves (initial : State σ) (calls : List (Call σ)) : Prop :=
  ∃ fuel, ∀ before, before <+: calls →
    ∃ state, run fuel initial before = some state ∧ state.Released ∧
      Linked state.next state.first (registered before) ∧ (registered before).Nodup ∧
      ∀ data, ∃ state', logWrite fuel state data =
        some (state', (registered before).map (·, data)) ∧ state'.Released

/-- Any call other than one that unregisters a registered subsystem. -/
theorem Holds.exec (h : Holds state subsystems) (hFresh : call.Fresh subsystems)
    (hMisses : call.Misses subsystems) (hFuel : subsystems.length < fuel) :
    ∃ state', Log.exec fuel state call = some state' ∧ Holds state' (call.apply subsystems) := by
  cases call with
  | register subsystem => exact h.register hFresh
  | unregister subsystem =>
      obtain ⟨state', hCall⟩ := Option.isSome_iff_exists.mp
        (h.unregister_isSome subsystem hFuel)
      obtain ⟨hLinked, hReleased⟩ := h.unregister_spec hCall
      exact ⟨state', hCall, hReleased.mpr hMisses, hLinked, h.nodup.erase subsystem⟩
  | write data =>
      obtain ⟨state', hCall, hHolds⟩ := h.write data hFuel
      refine ⟨state', ?_, hHolds⟩
      rw [Log.exec, hCall, Option.map_some]

theorem registered_append (calls : List (Call σ)) (call : Call σ) :
    registered (calls ++ [call]) = call.apply (registered calls) := by
  rw [registered, List.foldl_append]
  rfl

theorem length_registered_le (calls : List (Call σ)) :
    (registered calls).length ≤ calls.length := by
  induction calls using List.reverseRecOn with
  | nil => exact Nat.le_refl 0
  | append_singleton calls call ih =>
      rw [registered_append, List.length_append]
      cases call with
      | register subsystem => exact Nat.succ_le_succ ih
      | unregister subsystem =>
          exact Nat.le_trans (List.length_erase_le ..) (Nat.le_add_right_of_le ih)
      | write data => exact Nat.le_add_right_of_le ih

theorem Along.of_append {property : List σ → Call σ → Prop} {later : List (Call σ)}
    (h : Along property (calls ++ later)) : Along property calls := by
  intro before call rest hSplit
  apply h before call (rest ++ later)
  rw [hSplit, List.append_assoc, List.cons_append]

theorem run_append : run fuel state (calls ++ [call]) =
    (run fuel state calls).bind fun state => exec fuel state call := by
  simp [run, List.foldlM_append]

theorem Holds.run (h : Holds state []) (hFresh : Along Call.Fresh calls)
    (hMisses : Along Call.Misses calls) (hFuel : calls.length < fuel) :
    ∃ state', Log.run fuel state calls = some state' ∧ Holds state' (registered calls) := by
  induction calls using List.reverseRecOn with
  | nil => exact ⟨state, rfl, h⟩
  | append_singleton calls call ih =>
      rw [List.length_append] at hFuel
      obtain ⟨middle, hRun, hHolds⟩ := ih hFresh.of_append hMisses.of_append
        (Nat.lt_of_le_of_lt (Nat.le_add_right ..) hFuel)
      have hEnough : (registered calls).length < fuel :=
        Nat.lt_of_le_of_lt (Nat.le_trans (length_registered_le calls) (Nat.le_add_right ..)) hFuel
      obtain ⟨state', hCall, hHolds'⟩ :=
        hHolds.exec (hFresh calls call [] rfl) (hMisses calls call [] rfl) hEnough
      refine ⟨state', ?_, ?_⟩
      · rw [run_append, hRun, Option.bind_some, hCall]
      · rw [registered_append]
        exact hHolds'

end Runs

/-- The `return` inside the loop of `log_unregister_subsystem` keeps the spinlock. For calls
that register no subsystem twice, the registry serves all of them if and only if none of them
unregisters a subsystem that is registered. -/
theorem log_serves_iff [DecidableEq σ] (next : σ → Option σ) (interrupts : Bool)
    (calls : List (Call σ)) (hFresh : Along Call.Fresh calls) :
    Serves (State.init next interrupts) calls ↔ Along Call.Misses calls := by
  constructor
  · rintro ⟨fuel, hServes⟩ before call rest hCalls
    cases call with
    | register subsystem => trivial
    | write data => trivial
    | unregister subsystem =>
        obtain ⟨state, hRun, hReleased, hLinked, hNodup, -⟩ :=
          hServes before (hCalls ▸ List.prefix_append ..)
        obtain ⟨state', hRun', hReleased', -⟩ :=
          hServes (before ++ [.unregister subsystem]) (by simp [hCalls])
        rw [run_append, hRun, Option.bind_some] at hRun'
        exact (Holds.unregister_spec ⟨hReleased, hLinked, hNodup⟩ hRun').2.mp hReleased'
  · intro hMisses
    refine ⟨calls.length + 1, ?_⟩
    rintro before ⟨rest, rfl⟩
    have hFuel : before.length < (before ++ rest).length + 1 := by
      simp only [List.length_append]
      omega
    obtain ⟨state, hRun, hHolds⟩ :=
      (holds_init next interrupts).run hFresh.of_append hMisses.of_append hFuel
    refine ⟨state, hRun, hHolds.released, hHolds.linked, hHolds.nodup, ?_⟩
    intro data
    obtain ⟨state', hWrite, hHolds'⟩ :=
      hHolds.write data (Nat.lt_of_le_of_lt (length_registered_le before) hFuel)
    exact ⟨state', hWrite, hHolds'.released⟩

/-- A subsystem is registered, another one is not found. -/
theorem log_serves_iff_miss :
    Serves (State.init (fun _ => none) true) [.register true, .unregister false] ↔
      Along Call.Misses [.register true, .unregister false] := by
  apply log_serves_iff
  rintro (_ | ⟨first, before⟩) call rest hCalls
  · cases hCalls
    exact List.not_mem_nil
  · cases before with
    | nil =>
        cases hCalls
        trivial
    | cons => simp at hCalls

/-- The only subsystem is unregistered, and the next message hangs. -/
theorem log_hangs_after_unregister :
    (¬ Serves (State.init (fun _ => none) true) [.register true, .unregister true]) ∧
      ∀ fuel, run fuel (State.init (fun _ => none) true)
        [.register true, .unregister true, .write [10]] = none := by
  constructor
  · rintro ⟨fuel, hServes⟩
    obtain ⟨state, hRun, hReleased, -⟩ := hServes _ (List.prefix_refl _)
    cases fuel with
    | zero => cases hRun
    | succ fuel =>
        cases hRun
        have hHeld : (1 : UInt64) = 2 := hReleased
        exact absurd hHeld (by decide)
  · intro fuel
    cases fuel with
    | zero => rfl
    | succ fuel => rfl

end Ricerca.Log
