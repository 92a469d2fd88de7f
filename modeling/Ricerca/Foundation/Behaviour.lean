import Mathlib.Order.WellFounded
import Ricerca.Foundation.Execution

/-! Infinite behaviours of labelled transition systems. At every moment a behaviour takes a
step or stutters, so that every finite execution is the beginning of one. What must happen at
last is shown with a rank. -/
namespace Ricerca.Foundation

universe u v w

variable {State : Type u} {Label : Type v} {ι : Type w}

namespace System

/-- One infinite run; `label n` is the step taken at time `n`, if one is taken. -/
structure Behaviour (S : System State Label) where
  state : ℕ → State
  label : ℕ → Option Label
  init : S.init (state 0)
  moves : ∀ n l, label n = some l → S.step (state n) l (state (n + 1))
  stutters : ∀ n, label n = none → state (n + 1) = state n

namespace Behaviour

variable {S : System State Label}

/-- A property that every step keeps, unless it reaches the goal or a smaller index, and that
does not last, gives way to one of the two. -/
theorem descends (b : S.Behaviour) {r : ι → ι → Prop} {P : ι → State → Prop} {Q : State → Prop}
    {i : ι} (hStep : ∀ s l s', P i s → S.step s l s' → Q s' ∨ P i s' ∨ ∃ j, r j i ∧ P j s')
    {n m : ℕ} (hStart : P i (b.state n)) (hLe : n ≤ m) :
    P i (b.state m) ∨ ∃ k, n ≤ k ∧ (Q (b.state k) ∨ ∃ j, r j i ∧ P j (b.state k)) := by
  induction m, hLe using Nat.le_induction with
  | base => exact .inl hStart
  | succ m hLe ih =>
      rcases ih with hKept | hDone
      · cases hLabel : b.label m with
        | none =>
            rw [b.stutters m hLabel]
            exact .inl hKept
        | some l =>
            rcases hStep _ l _ hKept (b.moves m l hLabel) with hGoal | hKept | hLower
            · exact .inr ⟨m + 1, by omega, .inl hGoal⟩
            · exact .inl hKept
            · exact .inr ⟨m + 1, by omega, .inr hLower⟩
      · exact .inr hDone

/-- Leads-to rule. From each index the steps lead nowhere but to the goal and to smaller
indices, and no index lasts for ever. -/
theorem leadsTo (b : S.Behaviour) {r : ι → ι → Prop} (hWf : WellFounded r)
    {P : ι → State → Prop} {Q : State → Prop}
    (hStep : ∀ i s l s', P i s → S.step s l s' → Q s' ∨ P i s' ∨ ∃ j, r j i ∧ P j s')
    (hFair : ∀ i n, P i (b.state n) → ∃ m, n ≤ m ∧ ¬ P i (b.state m))
    {i : ι} {n : ℕ} (hStart : P i (b.state n)) : ∃ m, n ≤ m ∧ Q (b.state m) := by
  induction i using hWf.induction generalizing n with
  | _ i ih =>
      obtain ⟨m, hLe, hLeft⟩ := hFair i n hStart
      rcases b.descends (hStep i) hStart hLe with hKept | ⟨k, hk, hGoal | ⟨j, hLower, hNext⟩⟩
      · exact (hLeft hKept).elim
      · exact ⟨k, hk, hGoal⟩
      · obtain ⟨m', hm', hGoal⟩ := ih j hLower hNext
        exact ⟨m', hk.trans hm', hGoal⟩

end Behaviour

end System

end Ricerca.Foundation
