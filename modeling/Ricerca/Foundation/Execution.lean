import Mathlib.Tactic.Common

/-! Executions of labelled transition systems. A system fixes its start states
and one transition relation; an execution records the labels of the steps taken
so far, in order. Nothing here depends on what the states are. -/
namespace Ricerca.Foundation

universe u v w

/-- Start states and labelled steps. Nondeterminism, blocking and failed calls
are all expressed by which triples `step` contains. -/
structure System (State : Type u) (Label : Type v) where
  init : State → Prop
  step : State → Label → State → Prop

variable {State : Type u} {Label : Type v}

namespace System

/-- A finite execution from some start state, with the labels it has taken. -/
inductive Execution (S : System State Label) : List Label → State → Prop where
  | start {s : State} (h : S.init s) : Execution S [] s
  | step {trace : List Label} {s s' : State} {label : Label}
      (prior : Execution S trace s) (last : S.step s label s') :
      Execution S (trace ++ [label]) s'

/-- The system that takes only the steps allowed by `guard`. -/
def restrict (S : System State Label) (guard : State → Label → Prop) : System State Label where
  init := S.init
  step s label s' := guard s label ∧ S.step s label s'

/-- Invariant rule. The invariant may speak about the labels already taken. -/
theorem Execution.invariant {S : System State Label} {P : List Label → State → Prop}
    (hInit : ∀ s, S.init s → P [] s)
    (hStep : ∀ trace s label s', S.Execution trace s → P trace s → S.step s label s' →
      P (trace ++ [label]) s')
    {trace : List Label} {s : State} (run : S.Execution trace s) : P trace s := by
  induction run with
  | start h => exact hInit _ h
  | step prior last ih => exact hStep _ _ _ _ prior ih last

/-- Invariant rule for a property of the state alone. -/
theorem Execution.stateInvariant {S : System State Label} {P : State → Prop}
    (hInit : ∀ s, S.init s → P s)
    (hStep : ∀ s label s', P s → S.step s label s' → P s')
    {trace : List Label} {s : State} (run : S.Execution trace s) : P s :=
  run.invariant hInit (fun _ _ _ _ _ hP last => hStep _ _ _ hP last)

/-- Simulation rule. States that are related at the start, and steps that can be followed, make
every execution one of the abstract system. -/
theorem Execution.simulate {Abstract : Type w} {S : System State Label}
    {A : System Abstract Label} {R : State → Abstract → Prop}
    (hInit : ∀ s, S.init s → ∃ a, A.init a ∧ R s a)
    (hStep : ∀ s a label s', R s a → S.step s label s' → ∃ a', A.step a label a' ∧ R s' a')
    {trace : List Label} {s : State} (run : S.Execution trace s) :
    ∃ a, A.Execution trace a ∧ R s a := by
  induction run with
  | start h =>
      obtain ⟨a, hStart, hRelated⟩ := hInit _ h
      exact ⟨a, .start hStart, hRelated⟩
  | step prior last ih =>
      obtain ⟨a, run, hRelated⟩ := ih
      obtain ⟨a', hFollow, hNext⟩ := hStep _ a _ _ hRelated last
      exact ⟨a', .step run hFollow, hNext⟩

/-- Simulation rule for an abstract system that sees some of the labels only. The other steps
leave its state alone. -/
theorem Execution.observe {Abstract : Type w} {Visible : Type v} {S : System State Label}
    {A : System Abstract Visible} {visible : Label → Option Visible}
    {R : State → Abstract → Prop} (hInit : ∀ s, S.init s → ∃ a, A.init a ∧ R s a)
    (hSilent : ∀ s a label s', R s a → S.step s label s' → visible label = none → R s' a)
    (hStep : ∀ s a label s' event, R s a → S.step s label s' → visible label = some event →
      ∃ a', A.step a event a' ∧ R s' a')
    {trace : List Label} {s : State} (run : S.Execution trace s) :
    ∃ a, A.Execution (trace.filterMap visible) a ∧ R s a := by
  induction run with
  | start h =>
      obtain ⟨a, hStart, hRelated⟩ := hInit _ h
      exact ⟨a, .start hStart, hRelated⟩
  | @step trace s s' label prior last ih =>
      obtain ⟨a, run, hRelated⟩ := ih
      rw [List.filterMap_append]
      cases hVisible : visible label with
      | none =>
          refine ⟨a, ?_, hSilent s a label s' hRelated last hVisible⟩
          simpa [hVisible] using run
      | some event =>
          obtain ⟨a', hFollow, hNext⟩ := hStep s a label s' event hRelated last hVisible
          refine ⟨a', ?_, hNext⟩
          simpa [hVisible] using run.step hFollow

/-- A restricted execution is an execution of the whole system, taken with the
same labels. -/
theorem Execution.ofRestrict {S : System State Label} {guard : State → Label → Prop}
    {trace : List Label} {s : State} (run : (S.restrict guard).Execution trace s) :
    S.Execution trace s := by
  induction run with
  | start h => exact .start h
  | step prior last ih => exact .step ih last.2

/-- The system that goes on from a state. -/
def after (S : System State Label) (s : State) : System State Label where
  init s' := s' = s
  step := S.step

/-- An execution, and one that goes on where it ended. -/
theorem Execution.append {S : System State Label} {before later : List Label} {s s' : State}
    (run : S.Execution before s) (rest : (S.after s).Execution later s') :
    S.Execution (before ++ later) s' := by
  induction rest with
  | start h =>
      cases h
      rwa [List.append_nil]
  | step prior last ih =>
      rw [← List.append_assoc]
      exact .step ih last

/-- The system with a history variable: every step notes down something about the state
it starts in. The steps themselves do not look at the notes. -/
def record {Note : Type v} (S : System State Label) (note : State → Label → List Note) :
    System (State × List Note) Label where
  init s := S.init s.1 ∧ s.2 = []
  step s label s' := S.step s.1 label s'.1 ∧ s'.2 = s.2 ++ note s.1 label

/-- Notes can be taken along every execution. -/
theorem Execution.record {Note : Type v} {S : System State Label} (note : State → Label → List Note)
    {trace : List Label} {s : State} (run : S.Execution trace s) :
    ∃ log, (S.record note).Execution trace (s, log) := by
  induction run with
  | start h => exact ⟨[], .start ⟨h, rfl⟩⟩
  | @step trace s s' label prior last ih =>
      obtain ⟨log, run⟩ := ih
      exact ⟨log ++ note s label, .step run ⟨last, rfl⟩⟩

/-- Without the notes it is an execution of the system. -/
theorem Execution.ofRecord {Note : Type v} {S : System State Label}
    {note : State → Label → List Note} {trace : List Label} {s : State × List Note}
    (run : (S.record note).Execution trace s) : S.Execution trace s.1 := by
  induction run with
  | start h => exact .start h.1
  | step prior last ih => exact .step ih last.1

/-- Steps that a partial function finds one after the other. -/
theorem Execution.append_foldlM {S : System State Label} {next : State → Label → Option State}
    (hNext : ∀ s label s', next s label = some s' → S.step s label s') {before labels : List Label}
    {s last : State} (run : S.Execution before s) (h : labels.foldlM next s = some last) :
    S.Execution (before ++ labels) last := by
  induction labels generalizing before s with
  | nil =>
      cases h
      simpa using run
  | cons label labels ih =>
      rw [List.foldlM_cons, Option.bind_eq_bind, Option.bind_eq_some_iff] at h
      obtain ⟨s', hFirst, hRest⟩ := h
      have hRun : S.Execution (before ++ [label]) s' := .step run (hNext s label s' hFirst)
      simpa using ih hRun hRest

variable {Call Outcome : Type v}

/-- The system whose steps are completed calls of a partial function. The label
of a step is the call together with what it returned. -/
def ofExec (start : State) (exec : State → Call → Option (Outcome × State)) :
    System State (Call × Outcome) where
  init s := s = start
  step s label s' := exec s label.1 = some (label.2, s')

/-- One more call, which the restriction allows. -/
theorem Execution.call {start : State} {exec : State → Call → Option (Outcome × State)}
    {guard : State → Call × Outcome → Prop} {trace : List (Call × Outcome)} {s s' : State}
    {outcome : Outcome} (run : ((ofExec start exec).restrict guard).Execution trace s) (call : Call)
    (hGuard : guard s (call, outcome)) (hExec : exec s call = some (outcome, s')) :
    ((ofExec start exec).restrict guard).Execution (trace ++ [(call, outcome)]) s' :=
  .step run ⟨hGuard, hExec⟩

/-- Make a list of calls one after the other. -/
def replay (exec : State → Call → Option (Outcome × State)) :
    State → List Call → Option (List (Call × Outcome) × State)
  | s, [] => some ([], s)
  | s, call :: calls =>
      match exec s call with
      | none => none
      | some (outcome, s') =>
          (replay exec s' calls).map fun (trace, last) => ((call, outcome) :: trace, last)

/-- Calls that were all completed form an execution. -/
theorem Execution.append_replay {start : State}
    {exec : State → Call → Option (Outcome × State)} {calls : List Call}
    {before after : List (Call × Outcome)} {s last : State}
    (run : (ofExec start exec).Execution before s)
    (h : replay exec s calls = some (after, last)) :
    (ofExec start exec).Execution (before ++ after) last := by
  induction calls generalizing before after s with
  | nil =>
      simp only [replay, Option.some.injEq, Prod.mk.injEq] at h
      obtain ⟨rfl, rfl⟩ := h
      simpa using run
  | cons call calls ih =>
      simp only [replay] at h
      split at h
      · cases h
      · rename_i outcome s' hExec
        rw [Option.map_eq_some_iff] at h
        obtain ⟨⟨rest, end'⟩, hRest, hEq⟩ := h
        simp only [Prod.mk.injEq] at hEq
        obtain ⟨rfl, rfl⟩ := hEq
        have hNext : (ofExec start exec).Execution (before ++ [(call, outcome)]) s' :=
          .step run hExec
        simpa using ih hNext hRest

theorem Execution.of_replay {start : State}
    {exec : State → Call → Option (Outcome × State)} (calls : List Call)
    {trace : List (Call × Outcome)} {last : State}
    (h : replay exec start calls = some (trace, last)) :
    (ofExec start exec).Execution trace last :=
  Execution.append_replay (.start rfl) h

end System

end Ricerca.Foundation
