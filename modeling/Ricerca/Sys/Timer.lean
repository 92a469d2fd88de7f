import Mathlib.Data.List.Chain
import Ricerca.Foundation.LinkedList

/-! The list of timers (`sys/timers/timer.c`). The links are fields of the timers, and the
static `timer_list_head` is one more record with a link. -/
namespace Ricerca.Timer

open Ricerca.Foundation

variable {τ δ : Type}

/-- The records that a `struct timer *` of the two loops can point to. -/
inductive Cursor (τ : Type) where
  | timerListHead
  | timer (timer : τ)
  deriving DecidableEq

/-- The `next` fields of the head and of all timers. -/
abbrev NextFields (τ : Type) := Cursor τ → Option τ

/-- What a call of `timer_make_goal` comes to. -/
inductive Outcome (τ : Type) where
  | goal (timer : τ)
  | panic
  deriving DecidableEq

/-- The loop of `timer_register`. Neither branch of the body moves `current`. Nothing is
returned when the fuel runs out. -/
def timerRegisterLoop [DecidableEq τ] (coolness : τ → UInt64) (timer : τ) (current : Cursor τ) :
    Nat → NextFields τ → Option (NextFields τ)
  | 0, _ => none
  | fuel + 1, next =>
      match next current with
      | none => some (Function.update next current (some timer))
      | some following =>
          if coolness following < coolness timer then
            some (Function.update (Function.update next (.timer timer) (some following)) current
              (some timer))
          else timerRegisterLoop coolness timer current fuel next

def timerRegister [DecidableEq τ] (coolness : τ → UInt64) (fuel : Nat) (next : NextFields τ)
    (timer : τ) : Option (NextFields τ) :=
  timerRegisterLoop coolness timer .timerListHead fuel
    (Function.update next (.timer timer) none)

/-- One call of `timer_register` after the other. -/
def registerAll [DecidableEq τ] (coolness : τ → UInt64) (fuel : Nat) :
    NextFields τ → List τ → Option (NextFields τ)
  | next, [] => some next
  | next, timer :: timers =>
      (timerRegister coolness fuel next timer).bind fun next =>
        registerAll coolness fuel next timers

/-- The loop of `timer_make_goal`. A callback that declines sends it round again with the same
`prev`. -/
def timerMakeGoalLoop (makeGoal : τ → UInt32 → Bool) (ms : UInt32) (next : NextFields τ)
    (prev : Cursor τ) : Nat → Option (Outcome τ)
  | 0 => none
  | fuel + 1 =>
      match next prev with
      | none => some .panic
      | some current =>
          if makeGoal current ms then some (.goal current)
          else timerMakeGoalLoop makeGoal ms next prev fuel

def timerMakeGoal (makeGoal : τ → UInt32 → Bool) (fuel : Nat) (next : NextFields τ)
    (ms : UInt32) : Option (Outcome τ) :=
  timerMakeGoalLoop makeGoal ms next .timerListHead fuel

/-- How far a busy wait gets: it may still be waiting after the last poll it made. -/
inductive Waiting where
  | reached (polls : Nat)
  | pending
  | panic
  deriving DecidableEq

/-- A wait in which the poll of this index is the first one to find the goal reached. -/
def Waiting.ofFirst : Option Nat → Waiting
  | some polls => .reached polls
  | none => .pending

/-- `timer_busy_wait_on_goal`, which polls the goal against one state of the machine after the
other. A poll that panics has no answer. -/
def timerBusyWaitOnGoal (timerPollGoal : δ → Option Bool) : Nat → List δ → Waiting
  | _, [] => .pending
  | polls, device :: later =>
      match timerPollGoal device with
      | none => .panic
      | some true => .reached polls
      | some false => timerBusyWaitOnGoal timerPollGoal (polls + 1) later

/-- The timers met from `timer_list_head` on. -/
def Listed (next : NextFields τ) (timers : List τ) : Prop :=
  Linked (fun timer => next (.timer timer)) (next .timerListHead) timers

/-- The first timer of a list that agrees to the wait. -/
def firstWilling (makeGoal : τ → UInt32 → Bool) (ms : UInt32) (timers : List τ) : Outcome τ :=
  match timers.find? fun timer => makeGoal timer ms with
  | some timer => .goal timer
  | none => .panic

/-- A busy wait in which no poll panics ends with the first poll that finds the goal reached. -/
theorem timerBusyWaitOnGoal_eq {ι : Type} {timerPollGoal : δ → Option Bool} (machine : ι → δ)
    (reached : ι → Bool) (polls : List ι)
    (hPolls : ∀ poll ∈ polls, timerPollGoal (machine poll) = some (reached poll)) (before : Nat) :
    timerBusyWaitOnGoal timerPollGoal before (polls.map machine) =
      .ofFirst ((polls.findIdx? reached).map (before + ·)) := by
  induction polls generalizing before with
  | nil => rfl
  | cons poll polls ih =>
      have hFirst := hPolls poll (List.mem_cons_self ..)
      have hRest := ih (fun other hMem => hPolls other (List.mem_cons_of_mem _ hMem)) (before + 1)
      rw [List.map_cons, timerBusyWaitOnGoal, hFirst, List.findIdx?_cons]
      cases hReached : reached poll with
      | true => rfl
      | false =>
          simp only [hRest, Bool.false_eq_true, if_false]
          cases polls.findIdx? reached with
          | none => rfl
          | some later => simp [Waiting.ofFirst, Nat.add_assoc, Nat.add_comm 1]

section Register

variable [DecidableEq τ] {coolness : τ → UInt64} {next next' : NextFields τ} {timers : List τ}
  {timer following : τ} {fuel : Nat}

/-- The first timer goes into the empty list. -/
theorem Listed.register_nil (h : Listed next []) :
    ∃ next', timerRegister coolness (fuel + 1) next timer = some next' ∧
      Listed next' [timer] := by
  have hHead : next .timerListHead = none := h.head_eq
  refine ⟨Function.update (Function.update next (.timer timer) none) .timerListHead (some timer),
    ?_, ?_⟩
  · simp [timerRegister, timerRegisterLoop, hHead]
  · rw [Listed, Function.update_self]
    apply Linked.cons
    simpa using Linked.nil

/-- A cooler timer than the first one goes in front of it. -/
theorem Listed.register_front (h : Listed next (following :: timers))
    (hNew : timer ∉ following :: timers) (hCooler : coolness following < coolness timer) :
    ∃ next', timerRegister coolness (fuel + 1) next timer = some next' ∧
      Listed next' (timer :: following :: timers) := by
  have hHead : next .timerListHead = some following := h.head_eq
  refine ⟨Function.update (Function.update (Function.update next (.timer timer) none)
    (.timer timer) (some following)) .timerListHead (some timer), ?_, ?_⟩
  · simp [timerRegister, timerRegisterLoop, hHead, hCooler]
  · have hPushed := h.push hNew
    rw [Listed, Function.update_self]
    rw [hHead] at hPushed
    apply hPushed.congr
    intro listed _
    simp [Function.update_apply]

/-- Any other timer is never put anywhere: the loop goes on for as long as it is let. -/
theorem Listed.register_stuck (h : Listed next (following :: timers))
    (hNot : ¬ coolness following < coolness timer) (fuel : Nat) :
    timerRegister coolness fuel next timer = none := by
  have hHead : Function.update next (.timer timer) none .timerListHead = some following := by
    rw [Function.update_of_ne (by simp)]
    exact h.head_eq
  rw [timerRegister]
  induction fuel with
  | zero => rfl
  | succ fuel ih => simpa [timerRegisterLoop, h.head_eq, hNot] using ih

/-- A timer that is cooler than all listed ones is registered in one round of the loop. -/
theorem Listed.register (fuel : Nat) (h : Listed next timers) (hNew : timer ∉ timers)
    (hCooler : ∀ first ∈ timers.head?, coolness first < coolness timer) :
    ∃ next', timerRegister coolness (fuel + 1) next timer = some next' ∧
      Listed next' (timer :: timers) := by
  cases timers with
  | nil => exact h.register_nil
  | cons first rest => exact h.register_front hNew (hCooler first (by simp))

theorem Listed.registerAll_of_isChain {listed : List τ} (fuel : Nat) (h : Listed next listed)
    (hNodup : (timers ++ listed).Nodup)
    (hChain : (listed.head?.toList ++ timers).IsChain (coolness · < coolness ·)) :
    ∃ next', registerAll coolness (fuel + 1) next timers = some next' ∧
      Listed next' (timers.reverse ++ listed) := by
  induction timers generalizing next listed with
  | nil => exact ⟨next, rfl, h⟩
  | cons timer timers ih =>
      rw [List.cons_append, List.nodup_cons] at hNodup
      have hNew : timer ∉ listed := fun hMem => hNodup.1 (List.mem_append_right _ hMem)
      have hCooler : ∀ first ∈ listed.head?, coolness first < coolness timer := by
        intro first hFirst
        rw [Option.mem_def.mp hFirst] at hChain
        exact (List.isChain_cons_cons.mp hChain).1
      obtain ⟨next₁, hCall, hListed⟩ := h.register fuel hNew hCooler
      have hRest : ((timer :: listed).head?.toList ++ timers).IsChain
          (coolness · < coolness ·) := by
        cases listed with
        | nil => exact hChain
        | cons first rest => exact (List.isChain_cons_cons.mp hChain).2
      have hApart : (timers ++ timer :: listed).Nodup := by
        rw [List.nodup_middle]
        exact List.nodup_cons.mpr hNodup
      obtain ⟨next', hAll, hFinal⟩ := ih hListed hApart hRest
      refine ⟨next', ?_, ?_⟩
      · rw [Timer.registerAll, hCall]
        exact hAll
      · simpa using hFinal

theorem Listed.isChain_of_registerAll {listed : List τ} (h : Listed next listed)
    (hNodup : (timers ++ listed).Nodup)
    (hAll : registerAll coolness fuel next timers = some next') :
    (listed.head?.toList ++ timers).IsChain (coolness · < coolness ·) := by
  induction timers generalizing next listed with
  | nil => cases listed <;> simp
  | cons timer timers ih =>
      rw [List.cons_append, List.nodup_cons] at hNodup
      have hNew : timer ∉ listed := fun hMem => hNodup.1 (List.mem_append_right _ hMem)
      rw [Timer.registerAll, Option.bind_eq_some_iff] at hAll
      obtain ⟨next₁, hCall, hAll⟩ := hAll
      have hCooler : ∀ first ∈ listed.head?, coolness first < coolness timer := by
        intro first hFirst
        cases listed with
        | nil => cases hFirst
        | cons following rest =>
            cases hFirst
            by_contra hNot
            rw [h.register_stuck hNot] at hCall
            cases hCall
      have hApart : (timers ++ timer :: listed).Nodup := by
        rw [List.nodup_middle]
        exact List.nodup_cons.mpr hNodup
      cases fuel with
      | zero => cases hCall
      | succ fuel =>
          obtain ⟨next₂, hSame, hListed⟩ := h.register fuel hNew hCooler
          rw [hCall] at hSame
          cases hSame
          have hRest := ih hListed hApart hAll
          cases listed with
          | nil => exact hRest
          | cons first rest => exact List.isChain_cons_cons.mpr ⟨hCooler first rfl, hRest⟩

end Register

section MakeGoal

variable {makeGoal : τ → UInt32 → Bool} {next : NextFields τ} {timers : List τ} {timer : τ}
  {ms : UInt32}

theorem Listed.makeGoal_nil (h : Listed next []) (fuel : Nat) :
    timerMakeGoal makeGoal (fuel + 1) next ms = some .panic := by
  have hHead : next .timerListHead = none := h.head_eq
  simp [timerMakeGoal, timerMakeGoalLoop, hHead]

theorem Listed.makeGoal_willing (h : Listed next (timer :: timers))
    (hWilling : makeGoal timer ms = true) (fuel : Nat) :
    timerMakeGoal makeGoal (fuel + 1) next ms = some (.goal timer) := by
  have hHead : next .timerListHead = some timer := h.head_eq
  simp [timerMakeGoal, timerMakeGoalLoop, hHead, hWilling]

/-- The loop keeps on asking a first timer that declines. -/
theorem Listed.makeGoal_stuck (h : Listed next (timer :: timers))
    (hDeclines : makeGoal timer ms = false) (fuel : Nat) :
    timerMakeGoal makeGoal fuel next ms = none := by
  have hHead : next .timerListHead = some timer := h.head_eq
  rw [timerMakeGoal]
  induction fuel with
  | zero => rfl
  | succ fuel ih => simpa [timerMakeGoalLoop, hHead, hDeclines] using ih

theorem Listed.makeGoal_iff (h : Listed next timers) :
    (∃ fuel, timerMakeGoal makeGoal fuel next ms = some (firstWilling makeGoal ms timers)) ↔
      ∀ first ∈ timers.head?, makeGoal first ms = true := by
  cases timers with
  | nil => exact iff_of_true ⟨1, h.makeGoal_nil 0⟩ (by simp)
  | cons first rest =>
      cases hFirst : makeGoal first ms with
      | true =>
          apply iff_of_true
          · refine ⟨1, ?_⟩
            rw [h.makeGoal_willing hFirst, firstWilling, List.find?_cons_of_pos (by simpa)]
          · simp [hFirst]
      | false =>
          apply iff_of_false
          · rintro ⟨fuel, hCall⟩
            rw [h.makeGoal_stuck hFirst] at hCall
            cases hCall
          · simp [hFirst]

end MakeGoal

/-- Cooler than the one before is cooler than all before. -/
theorem isChain_iff_pairwise (coolness : τ → UInt64) (timers : List τ) :
    timers.IsChain (coolness · < coolness ·) ↔ timers.Pairwise (coolness · < coolness ·) := by
  have hTrans : IsTrans τ (coolness · < coolness ·) := ⟨fun _ _ _ => UInt64.lt_trans⟩
  exact List.isChain_iff_pairwise

/-- Both loops stand still at the head. A sequence of registrations ends, with the timers in
non-increasing order of coolness, if and only if each of them is cooler than all before it;
and `timer_make_goal` answers with the first willing timer of a list if and only if the list is
empty or its first timer is willing. -/
theorem timer_list_ordered_iff [DecidableEq τ] (coolness : τ → UInt64)
    (makeGoal : τ → UInt32 → Bool) (ms : UInt32) (timers : List τ) (hDistinct : timers.Nodup)
    (initial next : NextFields τ) (listed : List τ) (hInitial : Listed initial [])
    (hListed : Listed next listed) :
    ((∃ fuel next', registerAll coolness fuel initial timers = some next' ∧
        ∃ sorted, Listed next' sorted ∧ sorted.Perm timers ∧
          sorted.Pairwise (coolness · ≥ coolness ·)) ↔
      timers.Pairwise (coolness · < coolness ·)) ∧
    ((∃ fuel, timerMakeGoal makeGoal fuel next ms = some (firstWilling makeGoal ms listed)) ↔
      ∀ first ∈ listed.head?, makeGoal first ms = true) := by
  refine ⟨⟨?_, ?_⟩, hListed.makeGoal_iff⟩
  · rintro ⟨fuel, next', hAll, -⟩
    apply (isChain_iff_pairwise coolness timers).mp
    exact hInitial.isChain_of_registerAll (by simpa using hDistinct) hAll
  · intro hIncreasing
    have hChain := (isChain_iff_pairwise coolness timers).mpr hIncreasing
    obtain ⟨next', hAll, hFinal⟩ :=
      hInitial.registerAll_of_isChain 0 (by simpa using hDistinct) hChain
    rw [List.append_nil] at hFinal
    refine ⟨1, next', hAll, timers.reverse, hFinal, timers.reverse_perm, ?_⟩
    rw [List.pairwise_reverse]
    exact hIncreasing.imp UInt64.le_of_lt

/-- No timer registered yet: all links are null. -/
theorem listed_null : Listed (fun _ => none : NextFields τ) [] := .nil

/-- A timer and then a cooler one are registered, and the first of two timers, the cooler one,
is willing. -/
theorem timer_list_ordered_iff_two_timers :
    (∃ fuel next', registerAll (fun timer => if timer then 2 else 1) fuel (fun _ => none)
        [false, true] = some next' ∧
      ∃ sorted : List Bool, Listed next' sorted ∧ sorted.Perm [false, true] ∧
        sorted.Pairwise fun one other => (if one then 2 else 1 : UInt64) ≥ if other then 2 else 1) ∧
    ∃ fuel, timerMakeGoal (fun timer _ => timer) fuel (fun cursor =>
        if cursor = .timerListHead then some true
        else if cursor = .timer true then some false else none) 100 = some (.goal true) := by
  have hListed : Listed (fun cursor => if cursor = .timerListHead then some true
      else if cursor = .timer true then some false else none) [true, false] := .cons (.cons .nil)
  obtain ⟨hRegister, hGoal⟩ := timer_list_ordered_iff (fun timer : Bool => if timer then 2 else 1)
    (fun timer _ => timer) 100 [false, true] (by decide) (fun _ => none) _ [true, false]
    listed_null hListed
  exact ⟨hRegister.mpr (by decide), hGoal.mpr (by decide)⟩

/-- A second timer of the same coolness is never registered, and a goal is never made when the
first of two timers declines. -/
theorem timer_second_hangs :
    (¬ ∃ fuel next', registerAll (fun _ : Bool => 1) fuel (fun _ => none) [false, true] =
      some next') ∧
    ∃ next : NextFields Bool, Listed next [true, false] ∧
      ¬ ∃ fuel outcome, timerMakeGoal (fun timer _ => !timer) fuel next 100 = some outcome := by
  constructor
  · rintro ⟨fuel, next', hAll⟩
    have hChain := listed_null.isChain_of_registerAll (by decide) hAll
    exact absurd hChain (by decide)
  · have hListed : Listed (fun cursor => if cursor = .timerListHead then some true else
        if cursor = .timer true then some false else none) [true, false] :=
      .cons (.cons .nil)
    refine ⟨_, hListed, ?_⟩
    rintro ⟨fuel, outcome, hCall⟩
    rw [hListed.makeGoal_stuck rfl] at hCall
    cases hCall

end Ricerca.Timer
