import Mathlib.Logic.Relation
import Mathlib.Order.Basic
import Mathlib.Order.Defs.Unbundled

/-! Relations along which a rank strictly increases. -/
namespace Ricerca.Foundation

universe u

variable {α : Type u} {r : α → α → Prop} {rank : α → Nat}

/-- Such a relation has no cycles. -/
theorem transGen_irrefl_of_rank (hRank : ∀ a b, r a b → rank a < rank b) (a : α) :
    ¬Relation.TransGen r a a := by
  intro hCycle
  have hLt : ∀ b, Relation.TransGen r a b → rank a < rank b := by
    intro b h
    induction h with
    | single hStep => exact hRank _ _ hStep
    | tail _ hStep ih => exact Nat.lt_trans ih (hRank _ _ hStep)
  exact Nat.lt_irrefl _ (hLt a hCycle)

/-- If everything that is no root has a predecessor, everything hangs on a root. -/
theorem exists_root_of_rank (hRank : ∀ a b, r a b → rank a < rank b) {live root : α → Prop}
    (hPred : ∀ a, live a → root a ∨ ∃ b, live b ∧ r b a) {a : α} (hLive : live a) :
    ∃ b, live b ∧ root b ∧ Relation.ReflTransGen r b a := by
  induction hSize : rank a using Nat.strongRecOn generalizing a with
  | ind n ih =>
      rcases hPred a hLive with hRoot | ⟨b, hLive', hStep⟩
      · exact ⟨a, hLive, hRoot, .refl⟩
      · obtain ⟨c, hc, hRoot, hPath⟩ := ih (rank b) (hSize ▸ hRank b a hStep) hLive' rfl
        exact ⟨c, hc, hRoot, hPath.tail hStep⟩

end Ricerca.Foundation
