import Mathlib.Data.List.Basic
import Ricerca.Thread.Spinlock

/-! Spinlocks and interrupts. `thread_spinlock_lock` turns interrupts off and hands out what they
were, so inside another lock it hands out that they were off. -/
namespace Ricerca.Spinlock

open Ricerca.Foundation

variable {Core Lock : Type}

/-- How the kernel uses its spinlocks. Tickets are taken and other code is resumed with
interrupts off, the state that was saved first is recovered when no lock is held, and interrupts
are turned on in another way, by a return to other code or in the idle loop, only when there is
nothing to unlock. -/
def Masked (s : State Core Lock) : Event Core Lock → Prop
  | .ticket c _ => (s.cores c).interrupts = false
  | .recover c => (s.cores c).saved.length = 1 → (s.cores c).held = []
  | .interrupts c enabled => enabled = true → (s.cores c).saved = [] ∧ (s.cores c).held = []
  | .switch c _ => (s.cores c).interrupts = false
  | _ => True

/-- Only the outermost saved state may be one with interrupts on. -/
structure Masks (core : CoreState Lock) : Prop where
  outermost : true ∉ core.saved.dropLast
  saved : core.saved ≠ [] → core.interrupts = false
  held : core.held ≠ [] → core.interrupts = false
  phase : core.phase ≠ .running → core.interrupts = false

/-- This holds of every core, and of the code that waits to be resumed. -/
structure AllMasks (s : State Core Lock) : Prop where
  cores : ∀ c, Masks (s.cores c)
  parked : ∀ saved ∈ s.parked, true ∉ saved.dropLast

section Interrupts

variable {trace : List (Event Core Lock)} {s s' : State Core Lock} {event : Event Core Lock}
  {c : Core} {core : CoreState Lock} {status : Bool} {rest : List Bool}

theorem Masks.inner (h : Masks core) (hSaved : core.saved = status :: rest)
    (hInner : rest ≠ []) : status = false := by
  have hOutermost := h.outermost
  rw [hSaved, List.dropLast_cons_of_ne_nil hInner, List.mem_cons, not_or] at hOutermost
  exact Bool.eq_false_iff.mpr (Ne.symm hOutermost.1)

theorem Masks.elevate (h : Masks core) :
    Masks { (intlevelElevate core).2 with saved := (intlevelElevate core).1 :: core.saved } := by
  refine ⟨?_, fun _ => rfl, fun _ => rfl, fun _ => rfl⟩
  simp only [intlevelElevate]
  by_cases hSaved : core.saved = []
  · simp [hSaved]
  · rw [List.dropLast_cons_of_ne_nil hSaved, h.saved hSaved, List.mem_cons, not_or]
    exact ⟨by decide, h.outermost⟩

/-- Inside another lock there is nothing to recover. -/
theorem Masks.recover (h : Masks core) (hPhase : core.phase = .running)
    (hSaved : core.saved = status :: rest) (hOutermost : core.saved.length = 1 → core.held = []) :
    Masks { intlevelRecover status core with saved := rest } := by
  by_cases hRest : rest = []
  · have hHeld : core.held = [] := hOutermost (by rw [hSaved, hRest]; rfl)
    refine ⟨by simp [hRest], fun hNe => (hNe hRest).elim, fun hNe => ?_, fun hNe => ?_⟩
    · exact (hNe ((held_intlevelRecover status core).trans hHeld)).elim
    · exact (hNe ((phase_intlevelRecover status core).trans hPhase)).elim
  · obtain rfl := h.inner hSaved hRest
    have hOff : core.interrupts = false := h.saved (by simp [hSaved])
    refine ⟨fun hMem => h.outermost ?_, fun _ => hOff, fun _ => hOff, fun _ => hOff⟩
    rw [hSaved, List.dropLast_cons_of_ne_nil hRest]
    exact List.mem_cons_of_mem _ hMem

theorem AllMasks.setCore [DecidableEq Core] (h : AllMasks s) (hNew : Masks core) :
    AllMasks (s.setCore c core) := by
  refine ⟨fun c' => ?_, h.parked⟩
  by_cases hEq : c' = c
  · subst hEq
    rw [cores_setCore_self]
    exact hNew
  · rw [cores_setCore_of_ne hEq]
    exact h.cores c'

theorem AllMasks.setSpinlock [DecidableEq Lock] (h : AllMasks s) (l : Lock)
    (spinlock : ThreadSpinlock) : AllMasks (s.setSpinlock l spinlock) :=
  ⟨h.cores, h.parked⟩

/-- Code is parked with what it has saved. -/
theorem AllMasks.park (h : AllMasks s) (c : Core) (place : Nat) :
    AllMasks (s.park place (s.cores c).saved) := by
  refine ⟨h.cores, fun saved hMem => ?_⟩
  rcases List.mem_or_eq_of_mem_set hMem with hOld | rfl
  · exact h.parked saved hOld
  · exact (h.cores c).outermost

variable [DecidableEq Core] [DecidableEq Lock]

theorem AllMasks.step (h : AllMasks s) (hMasked : Masked s event) (hStep : Step s event s') :
    AllMasks s' := by
  cases hStep with
  | @elevate c => exact h.setCore (h.cores c).elevate
  | @recover c status rest hPhase hSaved => exact h.setCore ((h.cores c).recover hPhase hSaved hMasked)
  | @ticket c l =>
      have hCore := h.cores c
      exact (h.setSpinlock l _).setCore
        ⟨hCore.outermost, hCore.saved, hCore.held, fun _ => hMasked⟩
  | spin => exact h
  | @enter c l ticket hPhase =>
      have hOff : (s.cores c).interrupts = false := (h.cores c).phase (by simp [hPhase])
      exact h.setCore ⟨(h.cores c).outermost, fun _ => hOff, fun _ => hOff, fun _ => hOff⟩
  | @load c l hPhase hHeld =>
      have hOff : (s.cores c).interrupts = false := (h.cores c).held (List.ne_nil_of_mem hHeld)
      exact h.setCore ⟨(h.cores c).outermost, fun _ => hOff, fun _ => hOff, fun _ => hOff⟩
  | @store c l current hPhase =>
      have hOff : (s.cores c).interrupts = false := (h.cores c).phase (by simp [hPhase])
      exact (h.setSpinlock l _).setCore
        ⟨(h.cores c).outermost, fun _ => hOff, fun _ => hOff, fun _ => hOff⟩
  | @interrupts c enabled hPhase =>
      refine h.setCore ⟨(h.cores c).outermost, fun hSaved => ?_, fun hHeld => ?_, fun hNot => ?_⟩
      · exact Bool.eq_false_iff.mpr fun hOn => hSaved (hMasked hOn).1
      · exact Bool.eq_false_iff.mpr fun hOn => hHeld (hMasked hOn).2
      · exact (hNot hPhase).elim
  | @switch c place saved hPhase hParked =>
      -- What is resumed was parked with interrupts off, by a core that kept to the rules.
      have hOff : (s.cores c).interrupts = false := hMasked
      have hResumed := h.parked saved (List.mem_of_getElem? hParked)
      exact (h.park c place).setCore ⟨hResumed, fun _ => hOff, fun _ => hOff, fun _ => hOff⟩

theorem masked (run : (system.restrict Masked).Execution trace s) (hStep : Step s event s')
    (hMasked : Masked s event) : (system.restrict Masked).Execution (trace ++ [event]) s' :=
  run.step ⟨hMasked, hStep⟩

theorem AllMasks.run (run : (system.restrict Masked).Execution trace s) : AllMasks s := by
  refine run.stateInvariant (P := AllMasks) (fun s hInit => ⟨fun c => ?_, fun saved hMem => ?_⟩)
    fun s event s' h hStep => ?_
  · obtain ⟨hHeld, hSaved, hPhase⟩ := hInit.2.1 c
    exact ⟨by simp [hSaved], fun hNe => (hNe hSaved).elim, fun hNe => (hNe hHeld).elim,
      fun hNe => (hNe hPhase).elim⟩
  · simp [hInit.2.2 saved hMem]
  · exact h.step hStep.1 hStep.2

/-- A core that holds a lock or waits for one has interrupts off, and only its outermost unlock
can turn them on again, in the code that runs as in the code that is parked. -/
theorem locked_with_interrupts_off (run : (system.restrict Masked).Execution trace s) :
    (∀ c, ((s.cores c).held ≠ [] ∨ (s.cores c).phase ≠ .running → (s.cores c).interrupts = false) ∧
      ∀ status rest, (s.cores c).saved = status :: rest → rest ≠ [] →
        (intlevelRecover status (s.cores c)).interrupts = false) ∧
    ∀ saved ∈ s.parked, true ∉ saved.dropLast := by
  have h := AllMasks.run run
  refine ⟨fun c => ⟨fun hLocked => hLocked.elim (h.cores c).held (h.cores c).phase, ?_⟩, h.parked⟩
  intro status rest hSaved hInner
  obtain rfl := (h.cores c).inner hSaved hInner
  exact (h.cores c).saved (by simp [hSaved])

end Interrupts

/-- A core that runs with interrupts on locks and is switched to other code, comes back and locks
again. -/
theorem locked_with_interrupts_off_nested :
    ∃ (trace : List (Event Unit Bool)) (s : State Unit Bool),
      (system.restrict Masked).Execution trace s ∧ (s.cores ()).saved = [false, true] ∧
        (s.cores ()).held = [true, false] ∧ (s.cores ()).interrupts = false := by
  have start : (system.restrict Masked).Execution []
      (⟨fun _ => threadSpinlockInit, fun _ => ⟨true, [], [], .running⟩, [[]]⟩ : State Unit Bool) :=
    .start ⟨fun _ => rfl, fun _ => ⟨rfl, rfl, rfl⟩, by simp⟩
  have elevated := masked start (.elevate (c := ()) rfl) trivial
  have asked := masked elevated (.ticket (c := ()) (l := false) rfl) rfl
  have entered := masked asked (.enter (c := ()) (l := false) rfl rfl) trivial
  have away := masked entered (show Step _ (.switch () 0) _ from .switch rfl rfl) rfl
  have back := masked away (show Step _ (.switch () 0) _ from .switch rfl rfl) rfl
  have elevatedAgain := masked back (.elevate (c := ()) rfl) trivial
  have askedAgain := masked elevatedAgain (.ticket (c := ()) (l := true) rfl) rfl
  have run := masked askedAgain (.enter (c := ()) (l := true) rfl rfl) trivial
  exact ⟨_, _, run, rfl, rfl, ((locked_with_interrupts_off run).1 ()).1 (Or.inl (by decide))⟩

end Ricerca.Spinlock
