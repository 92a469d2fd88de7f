import Mathlib.Data.List.Nodup
import Mathlib.Logic.Equiv.Basic
import Mathlib.Order.Lattice
import Mathlib.Order.Nat

/-! Selection sort in place, by a key. The cells of an array are a function of their index, and a
loop is given by its state after a number of rounds. -/
namespace Ricerca.Foundation.SelectionSort

universe u v

variable {α : Type u} {β : Type v} [LinearOrder β]

/-- The search for the least key from cell `i` on, after `k` more cells: the cell with the first
of the least keys and this key. -/
def minimumAfter (key : α → β) (cells : Nat → α) (i : Nat) : Nat → Nat × β
  | 0 => (i, key (cells i))
  | k + 1 =>
      let best := minimumAfter key cells i k
      let newKey := key (cells (i + 1 + k))
      if newKey < best.2 then (i + 1 + k, newKey) else best

/-- Cells `i` and `j` are exchanged, through a temporary. -/
def swapCells (cells : Nat → α) (i j : Nat) : Nat → α :=
  Function.update (Function.update cells i (cells j)) j (cells i)

/-- The cells after the rounds for `0`, …, `i - 1`, of an array of `n` cells. -/
def sortAfter (key : α → β) (n : Nat) (cells : Nat → α) : Nat → Nat → α
  | 0 => cells
  | i + 1 =>
      let sorted := sortAfter key n cells i
      swapCells sorted i (minimumAfter key sorted i (n - (i + 1))).1

/-- The first `n` cells of an array. -/
def contents (n : Nat) (cells : Nat → α) : List α := (List.range n).map cells

/-- The array after the whole sort. -/
def sorted (key : α → β) (n : Nat) (cells : Nat → α) : List α :=
  contents n (sortAfter key n cells n)

section Order

variable {key : α → β} {cells : Nat → α} {n i j k a b : Nat}

@[simp]
theorem length_contents (n : Nat) (cells : Nat → α) : (contents n cells).length = n := by
  rw [contents, List.length_map, List.length_range]

/-- An element is stored behind the others. -/
theorem contents_update (n : Nat) (cells : Nat → α) (x : α) :
    contents (n + 1) (Function.update cells n x) = contents n cells ++ [x] := by
  rw [contents, List.range_succ, List.map_append, List.map_singleton, Function.update_self]
  congr 1
  apply List.map_congr_left
  intro i hi
  exact Function.update_of_ne (List.mem_range.mp hi).ne x cells

theorem swapCells_apply (cells : Nat → α) (i j a : Nat) :
    swapCells cells i j a = cells (Equiv.swap i j a) := by
  rw [swapCells, Function.update_apply, Function.update_apply, Equiv.swap_apply_def]
  split_ifs with hSecond hFirst hFirst
  · rw [← hFirst, hSecond]
  · rfl
  · rfl
  · rfl

theorem swap_mem (hi : k ≤ i ∧ i < n) (hj : k ≤ j ∧ j < n) (ha : k ≤ a ∧ a < n) :
    k ≤ Equiv.swap i j a ∧ Equiv.swap i j a < n := by
  rw [Equiv.swap_apply_def]
  split_ifs
  · exact hj
  · exact hi
  · exact ha

theorem swap_lt (ha : a < i) (hj : i ≤ j) : Equiv.swap i j a = a :=
  Equiv.swap_apply_of_ne_of_ne ha.ne (ha.trans_le hj).ne

/-- An exchange only reorders the array. -/
theorem swapCells_perm (hi : i < n) (hj : j < n) :
    (contents n (swapCells cells i j)).Perm (contents n cells) := by
  have hIndices : ((List.range n).map (Equiv.swap i j)).Perm (List.range n) := by
    apply (List.perm_ext_iff_of_nodup
      (List.nodup_range.map (Equiv.swap i j).injective) List.nodup_range).mpr
    intro a
    rw [List.mem_map, List.mem_range]
    constructor
    · rintro ⟨b, hb, rfl⟩
      exact (swap_mem (k := 0) ⟨Nat.zero_le _, hi⟩ ⟨Nat.zero_le _, hj⟩
        ⟨Nat.zero_le _, List.mem_range.mp hb⟩).2
    · intro ha
      exact ⟨Equiv.swap i j a, List.mem_range.mpr (swap_mem (k := 0) ⟨Nat.zero_le _, hi⟩
        ⟨Nat.zero_le _, hj⟩ ⟨Nat.zero_le _, ha⟩).2, Equiv.swap_apply_self i j a⟩
  have hSame : contents n (swapCells cells i j) = ((List.range n).map (Equiv.swap i j)).map cells := by
    rw [contents, List.map_map]
    apply List.map_congr_left
    intro a _
    exact swapCells_apply cells i j a
  rw [hSame]
  exact hIndices.map cells

/-- The search gives a cell that was looked at, and its key is the least of these. -/
theorem minimumAfter_spec (key : α → β) (cells : Nat → α) (i k : Nat) :
    (i ≤ (minimumAfter key cells i k).1 ∧ (minimumAfter key cells i k).1 ≤ i + k) ∧
    (minimumAfter key cells i k).2 = key (cells (minimumAfter key cells i k).1) ∧
    ∀ j, i ≤ j → j ≤ i + k → (minimumAfter key cells i k).2 ≤ key (cells j) := by
  induction k with
  | zero =>
      refine ⟨⟨le_rfl, le_rfl⟩, rfl, ?_⟩
      intro j hi hj
      rw [minimumAfter, Nat.le_antisymm hj hi]
      rfl
  | succ k ih =>
      obtain ⟨⟨hFrom, hTo⟩, hKey, hLeast⟩ := ih
      have hLast : ∀ j, j ≤ i + (k + 1) → j ≤ i + k ∨ j = i + 1 + k := by
        intro j hj
        omega
      rw [minimumAfter]
      split_ifs with hLess
      · refine ⟨⟨by omega, by omega⟩, rfl, ?_⟩
        intro j hi hj
        rcases hLast j hj with hj | rfl
        · exact hLess.le.trans (hLeast j hi hj)
        · exact le_rfl
      · refine ⟨⟨hFrom, by omega⟩, hKey, ?_⟩
        intro j hi hj
        rcases hLast j hj with hj | rfl
        · exact hLeast j hi hj
        · exact not_lt.mp hLess

/-- The search over the rest of the array. -/
theorem minimumAfter_rest (hi : i < n) :
    (i ≤ (minimumAfter key cells i (n - (i + 1))).1 ∧
      (minimumAfter key cells i (n - (i + 1))).1 < n) ∧
    ∀ j, i ≤ j → j < n →
      key (cells (minimumAfter key cells i (n - (i + 1))).1) ≤ key (cells j) := by
  obtain ⟨⟨hFrom, hTo⟩, hKey, hLeast⟩ := minimumAfter_spec key cells i (n - (i + 1))
  refine ⟨⟨hFrom, by omega⟩, ?_⟩
  intro j hFirst hj
  rw [← hKey]
  exact hLeast j hFirst (by omega)

/-- The cells before `i` are in their final places. -/
def Settled (key : α → β) (n i : Nat) (cells : Nat → α) : Prop :=
  ∀ a b, a < i → a < b → b < n → key (cells a) ≤ key (cells b)

/-- One round settles one more cell. -/
theorem Settled.step (h : Settled key n i cells) (hi : i < n) :
    Settled key n (i + 1) (swapCells cells i (minimumAfter key cells i (n - (i + 1))).1) := by
  obtain ⟨hPlace, hLeast⟩ := @minimumAfter_rest _ _ _ key cells n i hi
  intro a b ha hab hb
  rw [swapCells_apply, swapCells_apply]
  have hRest : i ≤ b → i ≤ Equiv.swap i (minimumAfter key cells i (n - (i + 1))).1 b ∧
      Equiv.swap i (minimumAfter key cells i (n - (i + 1))).1 b < n := by
    intro hib
    exact swap_mem ⟨le_rfl, hi⟩ hPlace ⟨hib, hb⟩
  rcases Nat.lt_succ_iff_lt_or_eq.mp ha with ha | rfl
  · rw [swap_lt ha hPlace.1]
    rcases Nat.lt_or_ge b i with hbi | hib
    · rw [swap_lt hbi hPlace.1]
      exact h a b ha hab hb
    · exact h a _ ha (ha.trans_le (hRest hib).1) (hRest hib).2
  · rw [Equiv.swap_apply_left]
    exact hLeast _ (hRest hab.le).1 (hRest hab.le).2

theorem sortAfter_settled (key : α → β) (cells : Nat → α) (hi : i ≤ n) :
    Settled key n i (sortAfter key n cells i) := by
  induction i with
  | zero =>
      intro a b ha
      exact absurd ha (Nat.not_lt_zero a)
  | succ i ih => exact (ih (Nat.le_of_succ_le hi)).step hi

theorem sortAfter_perm (key : α → β) (cells : Nat → α) (hi : i ≤ n) :
    (contents n (sortAfter key n cells i)).Perm (contents n cells) := by
  induction i with
  | zero => rfl
  | succ i ih =>
      exact (swapCells_perm hi (minimumAfter_rest hi).1.2).trans (ih (Nat.le_of_succ_le hi))

/-- The sorted array has the elements of the array. -/
theorem sorted_perm (key : α → β) (n : Nat) (cells : Nat → α) :
    (sorted key n cells).Perm (contents n cells) := sortAfter_perm key cells le_rfl

/-- The keys in the sorted array do not decrease. -/
theorem sorted_pairwise (key : α → β) (n : Nat) (cells : Nat → α) :
    (sorted key n cells).Pairwise fun x y => key x ≤ key y := by
  rw [sorted, contents, List.pairwise_map]
  apply List.pairwise_lt_range.imp_of_mem
  intro a b ha hb hab
  exact sortAfter_settled key cells le_rfl a b (List.mem_range.mp ha) hab (List.mem_range.mp hb)

/-- An element whose key is less than all others comes first. -/
theorem head_of_pairwise {l : List α} {x : α} (h : l.Pairwise fun x y => key x ≤ key y)
    (hx : x ∈ l) (hLess : ∀ y ∈ l, y ≠ x → key x < key y) : l.head? = some x := by
  cases l with
  | nil => exact absurd hx (List.not_mem_nil)
  | cons y l =>
      rw [List.head?_cons]
      by_contra hNe
      have hOther : y ≠ x := fun hSame => hNe (congrArg some hSame)
      have hTail : x ∈ l := (List.mem_cons.mp hx).resolve_left (Ne.symm hOther)
      exact absurd ((List.pairwise_cons.mp h).1 x hTail)
        (not_le.mpr (hLess y List.mem_cons_self hOther))

end Order

end Ricerca.Foundation.SelectionSort
