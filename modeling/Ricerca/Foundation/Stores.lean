import Mathlib.Algebra.Group.Int.Defs
import Mathlib.Algebra.GroupWithZero.Nat
import Mathlib.Data.List.GetD
import Mathlib.Tactic.Common

/-! A memory that keeps a record of what is stored to. Addresses are relative, so that a program
may also store below the start of a buffer. -/
namespace Ricerca.Foundation

variable {V : Type}

/-- The contents of a memory, and the first address and the length of every store. -/
structure Stored (V : Type) where
  contents : Int → V
  stores : List (Int × Nat)

/-- The contents with some values in place of those from an address on. -/
def overlay (contents : Int → V) (addr : Int) (values : List V) : Int → V :=
  fun a => if addr ≤ a then values.getD (a - addr).toNat (contents a) else contents a

section Overlay

variable {contents : Int → V} {addr a : Int} {values others : List V}

@[simp] theorem overlay_nil : overlay contents addr [] = contents := by
  funext a
  simp [overlay]

theorem overlay_get {i : Nat} (hIndex : i < values.length) :
    overlay contents addr values (addr + i) = values[i] := by
  have hPlace : (addr + i - addr).toNat = i := by omega
  rw [overlay, if_pos (by omega), hPlace, List.getD_eq_getElem _ _ hIndex]

theorem overlay_outside (hOutside : ¬ (addr ≤ a ∧ a < addr + values.length)) :
    overlay contents addr values a = contents a := by
  rw [overlay]
  split
  · exact List.getD_eq_default _ _ (by omega)
  · rfl

/-- Values that follow on one another. -/
theorem overlay_append :
    overlay (overlay contents addr values) (addr + values.length) others =
      overlay contents addr (values ++ others) := by
  funext a
  by_cases hSecond : addr + values.length ≤ a
  · have hPlace : (a - addr).toNat = values.length + (a - (addr + values.length)).toNat := by omega
    have hFirst : overlay contents addr values a = contents a := overlay_outside (by omega)
    rw [overlay, if_pos hSecond, hFirst, overlay, if_pos (by omega), hPlace,
      List.getD_append_right _ _ _ _ (Nat.le_add_right ..), Nat.add_sub_cancel_left]
  · rw [overlay, if_neg hSecond, overlay, overlay]
    split
    · exact (List.getD_append _ _ _ _ (by omega)).symm
    · rfl

end Overlay

namespace Stored

variable {b : Stored V} {lo hi addr : Int} {v : V} {source : Nat → V} {n : Nat}

def fresh (contents : Int → V) : Stored V := ⟨contents, []⟩

def store (b : Stored V) (addr : Int) (v : V) : Stored V :=
  ⟨fun a => if a = addr then v else b.contents a, (addr, 1) :: b.stores⟩

/-- Store `n` values one after the other. -/
def copy (b : Stored V) (addr : Int) (source : Nat → V) (n : Nat) : Stored V :=
  ⟨fun a => if addr ≤ a ∧ a < addr + n then source (a - addr).toNat else b.contents a,
    (addr, n) :: b.stores⟩

/-- All stores are from `lo` on and below `hi`. -/
def Within (b : Stored V) (lo hi : Int) : Prop :=
  ∀ range ∈ b.stores, ∀ a, range.1 ≤ a → a < range.1 + range.2 → lo ≤ a ∧ a < hi

@[simp] theorem within_fresh {contents : Int → V} : (fresh contents).Within lo hi :=
  fun _ hRange => (List.not_mem_nil hRange).elim

@[simp] theorem store_contents : (b.store addr v).contents addr = v := if_pos rfl

theorem contents_store : (b.store addr v).contents = overlay b.contents addr [v] := by
  funext a
  by_cases hPlace : a = addr
  · simp [store, overlay, hPlace]
  · rw [overlay_outside (by simp; omega)]
    exact if_neg hPlace

theorem contents_copy :
    (b.copy addr source n).contents = overlay b.contents addr ((List.range n).map source) := by
  funext a
  simp only [copy]
  by_cases hInside : addr ≤ a ∧ a < addr + n
  · rw [if_pos hInside, overlay, if_pos hInside.1, List.getD_eq_getElem _ _ (by simp; omega)]
    simp
  · rw [overlay_outside (by simpa using hInside), if_neg hInside]

@[simp] theorem within_store :
    (b.store addr v).Within lo hi ↔ (lo ≤ addr ∧ addr < hi) ∧ b.Within lo hi := by
  rw [store, Within, List.forall_mem_cons]
  apply and_congr_left'
  constructor
  · exact fun h => h addr (Int.le_refl _) (Int.lt_succ addr)
  · intro h a hLe hLt
    simp only at hLe hLt
    omega

@[simp] theorem within_copy :
    (b.copy addr source n).Within lo hi ↔
      (n = 0 ∨ lo ≤ addr ∧ addr + n ≤ hi) ∧ b.Within lo hi := by
  rw [copy, Within, List.forall_mem_cons]
  apply and_congr_left'
  constructor
  · intro h
    by_cases hZero : n = 0
    · exact .inl hZero
    · have hFirst := h addr (Int.le_refl _) (by simp only; omega)
      have hLast := h (addr + n - 1) (by simp only; omega) (by simp only; omega)
      exact .inr ⟨hFirst.1, by omega⟩
  · intro h a hLe hLt
    simp only at hLe hLt
    omega

/-- What is stored to later has all of what is stored to before. -/
def Grows (b b' : Stored V) : Prop := b.stores <:+ b'.stores

variable {b' b'' : Stored V}

theorem Grows.refl (b : Stored V) : b.Grows b := List.suffix_refl b.stores

theorem Grows.trans (h : b.Grows b') (h' : b'.Grows b'') : b.Grows b'' := List.IsSuffix.trans h h'

theorem grows_store : b.Grows (b.store addr v) := List.suffix_cons (addr, 1) b.stores

theorem grows_copy : b.Grows (b.copy addr source n) := List.suffix_cons (addr, n) b.stores

theorem Grows.within (h : b.Grows b') (hWithin : b'.Within lo hi) : b.Within lo hi :=
  fun range hRange => hWithin range (h.subset hRange)

end Stored

end Ricerca.Foundation
