import Mathlib.Tactic.Common

/-! Rules of pre- and postconditions for programs that run on a state and may not
return. A triple says nothing about runs without an answer; which runs have one is a
property of the program. -/
namespace Ricerca.Foundation

universe u

/-- A program on states of type `σ`; `none` when it does not return. -/
abbrev Prog (σ α : Type u) := StateT σ Option α

variable {σ α β : Type u}

namespace Prog

/-- Look something up in the state, which has to be there. -/
def read (f : σ → Option α) : Prog σ α := fun s => (f s).map fun a => (a, s)

/-- Go on from the states with the property only. -/
def guard (p : σ → Bool) : Prog σ PUnit := fun s => if p s then some (⟨⟩, s) else none

variable {s s' : σ}

/-! Programs that run step by step. -/

@[simp]
theorem bind_apply (x : Prog σ α) (f : α → Prog σ β) :
    (x >>= f) s = (x s).bind fun p => f p.1 p.2 := rfl

@[simp]
theorem map_apply (f : α → β) (x : Prog σ α) : (f <$> x) s = (x s).map fun p => (f p.1, p.2) :=
  (Option.map_eq_bind ..).symm

@[simp]
theorem pure_apply (a : α) : (Pure.pure a : Prog σ α) s = some (a, s) := rfl

@[simp]
theorem get_apply : (get : Prog σ σ) s = some (s, s) := rfl

@[simp]
theorem read_apply (f : σ → Option α) : read f s = (f s).map fun a => (a, s) := rfl

@[simp]
theorem guard_apply (p : σ → Bool) : guard p s = if p s then some (⟨⟩, s) else none := rfl

/-- A run of two programs in a row, taken apart. -/
theorem bind_eq_some {x : Prog σ α} {f : α → Prog σ β} {b : β} :
    (x >>= f) s = some (b, s') ↔ ∃ a t, x s = some (a, t) ∧ f a t = some (b, s') := by
  show (x s >>= fun p => f p.1 p.2) = some (b, s') ↔ _
  simp only [Option.bind_eq_bind, Option.bind_eq_some_iff, Prod.exists]

theorem read_eq_some {f : σ → Option α} {a : α} :
    Prog.read f s = some (a, s') ↔ f s = some a ∧ s' = s := by
  simp only [Prog.read, Option.map_eq_some_iff, Prod.mk.injEq]
  constructor
  · rintro ⟨b, hb, rfl, rfl⟩
    exact ⟨hb, rfl⟩
  · rintro ⟨ha, rfl⟩
    exact ⟨a, ha, rfl, rfl⟩

theorem guard_eq_some {p : σ → Bool} {u : PUnit} :
    Prog.guard p s = some (u, s') ↔ p s = true ∧ s' = s := by
  simp only [Prog.guard]
  split_ifs with hp
  · simp [hp, eq_comm]
  · simp [hp]

end Prog

/-- What a program returns, and the state it leaves, from every state with `P`. -/
def Triple (P : σ → Prop) (x : Prog σ α) (Q : α → σ → Prop) : Prop :=
  ∀ s, P s → ∀ a s', x s = some (a, s') → Q a s'

namespace Triple

variable {P P' : σ → Prop} {x : Prog σ α} {Q Q' : α → σ → Prop} {R : β → σ → Prop}

theorem pure {a : α} (h : ∀ s, P s → Q a s) : Triple P (Pure.pure a) Q := by
  intro s hP a' s' hRun
  cases hRun
  exact h s hP

/-- What holds between two programs is the postcondition of the first one. -/
theorem bind {f : α → Prog σ β} (hx : Triple P x Q) (hf : ∀ a, Triple (Q a) (f a) R) :
    Triple P (x >>= f) R := by
  intro s hP b s'' hRun
  have hRun : (x s >>= fun p => f p.1 p.2) = some (b, s'') := hRun
  rw [Option.bind_eq_bind, Option.bind_eq_some_iff] at hRun
  obtain ⟨⟨a, s'⟩, hFirst, hSecond⟩ := hRun
  exact hf a s' (hx s hP a s' hFirst) b s'' hSecond

theorem weaken (hx : Triple P x Q) (hPost : ∀ a s, Q a s → Q' a s) : Triple P x Q' :=
  fun s hP a s' hRun => hPost a s' (hx s hP a s' hRun)

theorem strengthen (hx : Triple P x Q) (hPre : ∀ s, P' s → P s) : Triple P' x Q :=
  fun s hP => hx s (hPre s hP)

/-- A result that is only written in another way. -/
theorem map {f : α → β} (hx : Triple P x fun a => R (f a)) : Triple P (f <$> x) R := by
  intro s hP b s' hRun
  have hRun : (x s >>= fun p => some (f p.1, p.2)) = some (b, s') := hRun
  rw [Option.bind_eq_bind, Option.bind_eq_some_iff] at hRun
  obtain ⟨⟨a, s''⟩, hFirst, hEq⟩ := hRun
  cases hEq
  exact hx s hP a s'' hFirst

/-- What was looked up is known from then on. -/
theorem read_bind {f : σ → Option α} {g : α → Prog σ β}
    (h : ∀ a, Triple (fun s => P s ∧ f s = some a) (g a) R) : Triple P (Prog.read f >>= g) R := by
  refine bind (Q := fun a s => P s ∧ f s = some a) ?_ h
  intro s hP a s' hRun
  simp only [Prog.read, Option.map_eq_some_iff] at hRun
  obtain ⟨a', hSome, hEq⟩ := hRun
  cases hEq
  exact ⟨hP, hSome⟩

theorem guard_bind {p : σ → Bool} {g : PUnit → Prog σ β}
    (h : Triple (fun s => P s ∧ p s = true) (g ⟨⟩) R) : Triple P (Prog.guard p >>= g) R := by
  refine bind (Q := fun _ s => P s ∧ p s = true) ?_ fun _ => h
  intro s hP a s' hRun
  simp only [Prog.guard] at hRun
  split_ifs at hRun with hp
  cases hRun
  exact ⟨hP, hp⟩

theorem get_bind {g : σ → Prog σ β} (h : ∀ s, P s → Triple (fun s' => s' = s) (g s) R) :
    Triple P (get >>= g) R := by
  intro s hP b s' hRun
  exact h s hP s rfl b s' hRun

end Triple

end Ricerca.Foundation
