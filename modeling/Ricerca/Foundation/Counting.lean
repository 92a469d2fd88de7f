import Mathlib.Data.Fintype.Card
import Mathlib.Data.Set.Card

/-! Bounds on the number of holders of a reference, as one holder comes or goes. -/
namespace Ricerca.Foundation

universe u

variable {α : Type u} {S T : Set α} {a b : α} {n : Nat}

/-- The set has at most `n` members. -/
def AtMost (S : Set α) (n : Nat) : Prop := S.encard ≤ n

namespace AtMost

theorem mono (h : AtMost S n) (hSub : T ⊆ S) : AtMost T n :=
  (Set.encard_le_encard hSub).trans h

theorem pos (h : AtMost S n) (ha : a ∈ S) : 0 < n := by
  have hOne : (1 : ℕ∞) ≤ n := (Set.one_le_encard_iff_nonempty.mpr ⟨a, ha⟩).trans h
  exact_mod_cast hOne

/-- One member comes. -/
theorem add (h : AtMost S n) (hSub : T ⊆ insert a S) : AtMost T (n + 1) := by
  refine (Set.encard_le_encard hSub).trans ((Set.encard_insert_le S a).trans ?_)
  rw [Nat.cast_add, Nat.cast_one]
  exact add_le_add_left h 1

/-- One member goes. -/
theorem drop (h : AtMost S n) (ha : a ∈ S) (hSub : T ⊆ S \ {a}) : AtMost T (n - 1) := by
  have hPos : 0 < n := h.pos ha
  have hLess : (S \ {a}).encard + 1 ≤ (n - 1 : Nat) + 1 := by
    rw [Set.encard_sdiff_singleton_add_one ha]
    have hCast : ((n - 1 : Nat) : ℕ∞) + 1 = n := by exact_mod_cast Nat.sub_add_cancel hPos
    rw [hCast]
    exact h
  exact (Set.encard_le_encard hSub).trans ((ENat.add_le_add_iff_right (by simp)).mp hLess)

/-- One member goes and another one comes. -/
theorem swap (h : AtMost S n) (ha : a ∈ S) (hSub : T ⊆ insert b (S \ {a})) : AtMost T n := by
  have hDropped : AtMost (S \ {a}) (n - 1) := h.drop ha subset_rfl
  have hSame : n - 1 + 1 = n := Nat.sub_add_cancel (h.pos ha)
  exact hSame ▸ hDropped.add hSub

end AtMost

/-- The set has at least `n` members. -/
def AtLeast (S : Set α) (n : Nat) : Prop := n ≤ S.encard

namespace AtLeast

theorem mono (h : AtLeast S n) (hSub : S ⊆ T) : AtLeast T n :=
  h.trans (Set.encard_le_encard hSub)

/-- One member comes. -/
theorem add (h : AtLeast S n) (ha : a ∉ S) (hSub : insert a S ⊆ T) : AtLeast T (n + 1) := by
  refine le_trans ?_ (Set.encard_le_encard hSub)
  rw [Set.encard_insert_of_notMem ha, Nat.cast_add, Nat.cast_one]
  exact add_le_add_left h 1

/-- One member goes. -/
theorem drop (h : AtLeast S (n + 1)) (hSub : S \ {a} ⊆ T) : AtLeast T n := by
  have hLess : (n : ℕ∞) + 1 ≤ (S \ {a}).encard + 1 := by
    refine le_trans ?_ (Set.encard_le_encard_sdiff_add_encard S {a}) |>.trans ?_
    · exact_mod_cast h
    · rw [Set.encard_singleton]
  exact ((ENat.add_le_add_iff_right (by simp)).mp hLess).trans (Set.encard_le_encard hSub)

/-- One member goes and another one comes. -/
theorem swap (h : AtLeast S n) (hb : b ∉ S) (hSub : insert b (S \ {a}) ⊆ T) : AtLeast T n := by
  cases n with
  | zero => simp [AtLeast]
  | succ n =>
      have hDropped : AtLeast (S \ {a}) n := h.drop subset_rfl
      exact hDropped.add (fun hMem => hb hMem.1) hSub

/-- Both bounds together give the number of members. -/
theorem ncard_eq (h : AtLeast S n) (hMost : AtMost S n) : S.Finite ∧ S.ncard = n := by
  have hEq : S.encard = n := le_antisymm hMost h
  refine ⟨Set.finite_of_encard_eq_coe hEq, ?_⟩
  rw [Set.ncard, hEq, ENat.toNat_natCast]

end AtLeast

section Finite

variable [Fintype α] {P Q : α → Prop} [DecidablePred P] [DecidablePred Q]

/-- One element stops to count. -/
theorem card_filter_eq_succ [DecidableEq α] (hP : P a) (hQ : ¬Q a) (hSame : ∀ b, b ≠ a → (Q b ↔ P b)) :
    (Finset.univ.filter P).card = (Finset.univ.filter Q).card + 1 := by
  have hInsert : Finset.univ.filter P = insert a (Finset.univ.filter Q) := by
    ext b
    by_cases hb : b = a
    · simp [hb, hP]
    · simp [hb, hSame b hb]
  rw [hInsert, Finset.card_insert_of_notMem (by simp [hQ])]

/-- What does not count makes up the rest. -/
theorem card_filter_not_eq_sub : (Finset.univ.filter fun b => ¬P b).card =
    Fintype.card α - (Finset.univ.filter P).card := by
  have hSum := Finset.card_filter_add_card_filter_not (s := Finset.univ) (p := P)
  rw [Finset.card_univ] at hSum
  omega

end Finite

end Ricerca.Foundation
