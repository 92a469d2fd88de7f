import Mathlib.Algebra.Group.Nat.Defs
import Mathlib.Tactic.Common

/-! Programs that read a memory they do not write, and loops of them. A program returns its
result and the list of addresses it has read. A loop may run for ever; it is given by its
finite unfoldings. -/
namespace Ricerca.Foundation

universe u

variable {α β σ ρ : Type u} {A V : Type u}

/-- A program that reads cells of a memory with addresses `A` and contents `V`. -/
def Reading (A V α : Type u) := (A → V) → α × List A

namespace Reading

instance : Monad (Reading A V) where
  pure a := fun _ => (a, [])
  bind x f := fun m => ((f (x m).1 m).1, (x m).2 ++ (f (x m).1 m).2)

/-- Read one cell. -/
def cell (addr : A) : Reading A V V := fun m => (m addr, [addr])

/-- What a program returns. -/
def result (m : A → V) (x : Reading A V α) : α := (x m).1

/-- It reads allowed addresses only, and its result is as it should be. -/
def Safe (m : A → V) (p : A → Prop) (x : Reading A V α) (Q : α → Prop) : Prop :=
  (∀ addr ∈ (x m).2, p addr) ∧ Q (result m x)

section Rules

variable {m : A → V} {p : A → Prop} {x : Reading A V α} {f : α → Reading A V β}

@[simp] theorem result_pure (a : α) : result m (pure a : Reading A V α) = a := rfl

@[simp] theorem result_bind : result m (x >>= f) = result m (f (result m x)) := rfl

@[simp] theorem result_cell (addr : A) : result m (cell addr) = m addr := rfl

@[simp] theorem result_ite {c : Prop} [Decidable c] {y : Reading A V α} :
    result m (if c then x else y) = if c then result m x else result m y := by
  split_ifs <;> rfl

@[simp] theorem safe_pure {a : α} {Q : α → Prop} : Safe m p (pure a : Reading A V α) Q ↔ Q a :=
  ⟨fun h => h.2, fun h => ⟨fun _ hRead => (List.not_mem_nil hRead).elim, h⟩⟩

@[simp] theorem safe_bind {Q : β → Prop} :
    Safe m p (x >>= f) Q ↔ Safe m p x fun a => Safe m p (f a) Q := by
  constructor
  · rintro ⟨hReads, hResult⟩
    exact ⟨fun addr hRead => hReads addr (List.mem_append_left _ hRead),
      fun addr hRead => hReads addr (List.mem_append_right _ hRead), hResult⟩
  · rintro ⟨hFirst, hSecond, hResult⟩
    refine ⟨?_, hResult⟩
    intro addr hRead
    rcases List.mem_append.mp hRead with hRead | hRead
    · exact hFirst addr hRead
    · exact hSecond addr hRead

@[simp] theorem safe_cell {addr : A} {Q : V → Prop} :
    Safe m p (cell addr) Q ↔ p addr ∧ Q (m addr) :=
  and_congr_left' ⟨fun h => h addr (List.mem_singleton.mpr rfl),
    fun h _ hRead => List.mem_singleton.mp hRead ▸ h⟩

@[simp] theorem safe_ite {c : Prop} [Decidable c] {y : Reading A V α} {Q : α → Prop} :
    Safe m p (if c then x else y) Q ↔ if c then Safe m p x Q else Safe m p y Q := by
  split_ifs <;> rfl

theorem Safe.weaken {Q Q' : α → Prop} (h : Safe m p x Q) (hPost : Q (result m x) → Q' (result m x)) :
    Safe m p x Q' :=
  ⟨h.1, hPost h.2⟩

end Rules

end Reading

/-- What one round of a loop leads to. -/
inductive Outcome (σ ρ : Type u) where
  | again (s : σ)
  | stop (r : ρ)
  deriving DecidableEq

namespace Reading

/-- A loop, stopped after `n` rounds. -/
def loop (body : σ → Reading A V (Outcome σ ρ)) : Nat → σ → Reading A V (Option ρ)
  | 0, _ => pure none
  | n + 1, s => do
      match ← body s with
      | .again s => loop body n s
      | .stop r => pure (some r)

variable {body : σ → Reading A V (Outcome σ ρ)} {m : A → V} {p : A → Prop} {s : σ}

/-- The loop comes to an end, and reads allowed addresses only. -/
def Ends (m : A → V) (p : A → Prop) (body : σ → Reading A V (Outcome σ ρ)) (s : σ) : Prop :=
  ∃ n, Safe m p (loop body n s) fun r => r.isSome

/-- The loop comes to an end with a result. -/
def Finishes (m : A → V) (body : σ → Reading A V (Outcome σ ρ)) (s : σ) (r : ρ) : Prop :=
  ∃ n, result m (loop body n s) = some r

theorem result_loop_succ (n : Nat) : result m (loop body (n + 1) s) =
    match result m (body s) with
    | .again s' => result m (loop body n s')
    | .stop r => some r := by
  rw [loop, result_bind]
  cases result m (body s) <;> rfl

theorem safe_loop_succ {n : Nat} {Q : Option ρ → Prop} :
    Safe m p (loop body (n + 1) s) Q ↔ Safe m p (body s) fun next =>
      match next with
      | .again s' => Safe m p (loop body n s') Q
      | .stop r => Q (some r) := by
  rw [loop, safe_bind]
  apply and_congr_right'
  cases result m (body s) with
  | again s' => rfl
  | stop r => exact safe_pure

/-- A loop is its first round and the rest. -/
theorem ends_iff : Ends m p body s ↔ Safe m p (body s) fun next =>
    match next with
    | .again s' => Ends m p body s'
    | .stop _ => True := by
  constructor
  · rintro ⟨n, hLoop⟩
    cases n with
    | zero => simp [loop] at hLoop
    | succ n =>
        refine (safe_loop_succ.mp hLoop).weaken ?_
        cases result m (body s) with
        | again s' => exact fun hRest => ⟨n, hRest⟩
        | stop r => exact fun _ => trivial
  · rintro ⟨hReads, hRest⟩
    cases hNext : result m (body s) with
    | again s' =>
        rw [hNext] at hRest
        obtain ⟨n, hLoop⟩ := hRest
        refine ⟨n + 1, safe_loop_succ.mpr ⟨hReads, ?_⟩⟩
        rw [hNext]
        exact hLoop
    | stop r =>
        refine ⟨1, safe_loop_succ.mpr ⟨hReads, ?_⟩⟩
        rw [hNext]
        rfl

theorem Ends.again {s' : σ} (h : Ends m p body s) (hNext : result m (body s) = .again s') :
    Ends m p body s' := by
  have hRest := (ends_iff.mp h).2
  rw [hNext] at hRest
  exact hRest

/-- Termination rule: an invariant of the rounds, and a bound on how many are left. -/
theorem ends_of_measure {I : σ → Prop} (bound : σ → Nat)
    (hRound : ∀ s, I s → Safe m p (body s) fun next =>
      match next with
      | .again s' => I s' ∧ bound s' < bound s
      | .stop _ => True) (hs : I s) : Ends m p body s := by
  induction hBound : bound s using Nat.strongRecOn generalizing s with
  | _ n ih =>
      subst hBound
      refine ends_iff.mpr ((hRound s hs).weaken ?_)
      cases result m (body s) with
      | again s' => exact fun h => ih _ h.2 h.1 rfl
      | stop r => exact fun _ => trivial

/-- A loop does not come to an end that goes on in every state it comes to. -/
theorem not_ends {I : σ → Prop} (hRound : ∀ s, I s → ∃ s', result m (body s) = .again s' ∧ I s')
    (hs : I s) : ¬ Ends m p body s := by
  have hNone : ∀ n s, I s → result m (loop body n s) = none := by
    intro n
    induction n with
    | zero => exact fun _ _ => rfl
    | succ n ih =>
        intro s hs
        obtain ⟨s', hNext, hs'⟩ := hRound s hs
        rw [result_loop_succ, hNext]
        exact ih s' hs'
  rintro ⟨n, hLoop⟩
  have hSome := hLoop.2
  rw [hNone n s hs] at hSome
  cases hSome

theorem finishes_iff {r : ρ} : Finishes m body s r ↔
    match result m (body s) with
    | .again s' => Finishes m body s' r
    | .stop r' => r' = r := by
  constructor
  · rintro ⟨n, hLoop⟩
    cases n with
    | zero => cases hLoop
    | succ n =>
        rw [result_loop_succ] at hLoop
        cases hNext : result m (body s) with
        | again s' =>
            rw [hNext] at hLoop
            exact ⟨n, hLoop⟩
        | stop r' =>
            rw [hNext] at hLoop
            exact Option.some.inj hLoop
  · intro hRest
    cases hNext : result m (body s) with
    | again s' =>
        rw [hNext] at hRest
        obtain ⟨n, hLoop⟩ := hRest
        refine ⟨n + 1, ?_⟩
        rw [result_loop_succ, hNext]
        exact hLoop
    | stop r' =>
        rw [hNext] at hRest
        refine ⟨1, ?_⟩
        rw [result_loop_succ, hNext]
        exact congrArg some hRest

/-- Rule for results: an invariant of the rounds gives the result its property. -/
theorem Finishes.invariant {r : ρ} {I : σ → Prop} {Q : ρ → Prop} (h : Finishes m body s r)
    (hs : I s) (hRound : ∀ s, I s →
      match result m (body s) with
      | .again s' => I s'
      | .stop r => Q r) : Q r := by
  obtain ⟨n, hLoop⟩ := h
  induction n generalizing s with
  | zero => cases hLoop
  | succ n ih =>
      have hNext := hRound s hs
      rw [result_loop_succ] at hLoop
      cases hCase : result m (body s) with
      | again s' =>
          rw [hCase] at hNext hLoop
          exact ih hNext hLoop
      | stop r' =>
          rw [hCase] at hNext hLoop
          exact Option.some.inj hLoop ▸ hNext

/-- The states that calls of a loop come to, one after the other. Each call returns the state
in which the next one starts. -/
inductive Calls (m : A → V) (body : σ → Reading A V (Outcome σ (ρ × σ))) (init : σ) : σ → Prop where
  | start : Calls m body init init
  | call {s s' : σ} {r : ρ} (prior : Calls m body init s) (last : Finishes m body s (r, s')) :
      Calls m body init s'

end Reading

end Ricerca.Foundation
