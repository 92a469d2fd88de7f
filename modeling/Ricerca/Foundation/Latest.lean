import Mathlib.Tactic.Common

/-! The latest event of a kind in a history. Looking for it from the end of a history, one
passes events of other kinds only. -/
namespace Ricerca.Foundation

universe u

variable {α : Type u}

/-- The latest event of the history with property `p` has property `q` too. -/
def Latest (p q : α → Prop) (history : List α) : Prop :=
  ∃ before event after, history = before ++ event :: after ∧ p event ∧ q event ∧
    ∀ later ∈ after, ¬p later

theorem latest_nil (p q : α → Prop) : ¬Latest p q [] := by
  rintro ⟨before, event, after, hEq, -⟩
  simp at hEq

/-- What the last event of a history changes. -/
theorem latest_append {p q : α → Prop} {history : List α} {last : α} :
    Latest p q (history ++ [last]) ↔ p last ∧ q last ∨ ¬p last ∧ Latest p q history := by
  constructor
  · rintro ⟨before, event, after, hEq, hp, hq, hLater⟩
    rcases List.eq_nil_or_concat after with rfl | ⟨rest, other, rfl⟩
    · obtain ⟨-, hSame⟩ := List.append_inj' hEq rfl
      obtain rfl := List.singleton_inj.mp hSame
      exact Or.inl ⟨hp, hq⟩
    · have hSplit : history ++ [last] = (before ++ event :: rest) ++ [other] := by
        simpa using hEq
      obtain ⟨rfl, hSame⟩ := List.append_inj' hSplit rfl
      obtain rfl := List.singleton_inj.mp hSame
      refine Or.inr ⟨hLater last (by simp), before, event, rest, rfl, hp, hq, ?_⟩
      exact fun later hMem => hLater later (by simp [hMem])
  · rintro (⟨hp, hq⟩ | ⟨hNot, before, event, after, rfl, hp, hq, hLater⟩)
    · exact ⟨history, last, [], rfl, hp, hq, by simp⟩
    · refine ⟨before, event, after ++ [last], by simp, hp, hq, fun later hMem => ?_⟩
      rcases List.mem_append.mp hMem with hOld | hNew
      · exact hLater later hOld
      · exact List.mem_singleton.mp hNew ▸ hNot

end Ricerca.Foundation
