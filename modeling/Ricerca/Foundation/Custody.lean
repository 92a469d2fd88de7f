import Mathlib.Data.Finset.Basic
import Mathlib.Data.Finset.Lattice.Lemmas
import Mathlib.Logic.Function.Basic

/-! Resources in the custody of slots. A slot holds one resource or none; a resource that is
allocated is in one slot, or it has been given away for good. Nothing here depends on what the
resources are. -/
namespace Ricerca.Foundation

universe u v

variable {ι : Type u} {α : Type v}

/-- What is allocated is in one slot or among `given`, and not in both. -/
structure Custody (null : α) (dom : ι → Prop) (slots : ι → α) (given allocated : Finset α) : Prop where
  mem : ∀ a, a ∈ allocated ↔ a ∈ given ∨ ∃ i, dom i ∧ slots i ≠ null ∧ slots i = a
  apart : ∀ i, dom i → slots i ≠ null → slots i ∉ given
  once : ∀ i j, dom i → dom j → slots i ≠ null → slots i = slots j → i = j

namespace Custody

variable {null a : α} {dom : ι → Prop} {slots : ι → α} {given allocated : Finset α} {i : ι}

/-- Nothing is in custody. -/
theorem empty (hEmpty : ∀ i, dom i → slots i = null) (given : Finset α) :
    Custody null dom slots given given := by
  constructor
  case mem =>
    intro a
    constructor
    · exact .inl
    · rintro (hGiven | ⟨i, hi, hSome, -⟩)
      · exact hGiven
      · exact (hSome (hEmpty i hi)).elim
  case apart =>
    intro i hi hSome
    exact (hSome (hEmpty i hi)).elim
  case once =>
    intro i j hi _ hSome
    exact (hSome (hEmpty i hi)).elim

variable [DecidableEq α]

/-- Remove resources one after the other. -/
theorem mem_foldl_erase {l : List ι} {f : ι → α} :
    a ∈ l.foldl (fun left i => left.erase (f i)) allocated ↔ a ∈ allocated ∧ ∀ i ∈ l, f i ≠ a := by
  induction l generalizing allocated with
  | nil => simp
  | cons i l ih =>
      rw [List.foldl_cons, ih, Finset.mem_erase, List.forall_mem_cons]
      tauto

/-- Once everything in custody is released, what was given away is left. -/
theorem releaseAll (h : Custody null dom slots given allocated) {l : List ι} {f : ι → α}
    (hAll : ∀ i, dom i → slots i ≠ null → i ∈ l)
    (hOnly : ∀ i ∈ l, dom i ∧ slots i ≠ null ∧ f i = slots i) :
    l.foldl (fun left i => left.erase (f i)) allocated = given := by
  ext a
  rw [mem_foldl_erase, h.mem a]
  constructor
  · rintro ⟨hGiven | ⟨i, hi, hSome, hSame⟩, hLeft⟩
    · exact hGiven
    · have hFull := hAll i hi hSome
      exact (hLeft i hFull ((hOnly i hFull).2.2.trans hSame)).elim
  · intro hGiven
    refine ⟨.inl hGiven, ?_⟩
    rintro i hi rfl
    obtain ⟨hDom, hSome, hSame⟩ := hOnly i hi
    rw [hSame] at hGiven
    exact h.apart i hDom hSome hGiven

variable [DecidableEq ι]

/-- A new resource is put into an empty slot. -/
theorem fill (h : Custody null dom slots given allocated) (hi : dom i) (hNone : slots i = null)
    (hSome : a ≠ null) (hNew : a ∉ allocated) :
    Custody null dom (Function.update slots i a) given (insert a allocated) := by
  have hGiven : a ∉ given := fun hGiven => hNew ((h.mem a).mpr (.inl hGiven))
  have hOther : ∀ j, dom j → slots j ≠ null → slots j ≠ a := by
    rintro j hj hFull rfl
    exact hNew ((h.mem _).mpr (.inr ⟨j, hj, hFull, rfl⟩))
  constructor
  case mem =>
    intro b
    rw [Finset.mem_insert, h.mem b]
    constructor
    · rintro (rfl | hGiven | ⟨j, hj, hFull, rfl⟩)
      · exact .inr ⟨i, hi, by rwa [Function.update_self], Function.update_self ..⟩
      · exact .inl hGiven
      · have hji : j ≠ i := by
          rintro rfl
          exact hFull hNone
        exact .inr ⟨j, hj, by rwa [Function.update_of_ne hji], Function.update_of_ne hji ..⟩
    · rintro (hGiven | ⟨j, hj, hFull, rfl⟩)
      · exact .inr (.inl hGiven)
      · by_cases hji : j = i
        · subst hji
          rw [Function.update_self]
          exact .inl rfl
        · rw [Function.update_of_ne hji] at hFull ⊢
          exact .inr (.inr ⟨j, hj, hFull, rfl⟩)
  case apart =>
    intro j hj hFull
    by_cases hji : j = i
    · rw [hji, Function.update_self]
      exact hGiven
    · rw [Function.update_of_ne hji] at hFull ⊢
      exact h.apart j hj hFull
  case once =>
    intro j k hj hk hFull hSame
    by_cases hji : j = i
    · by_cases hki : k = i
      · rw [hji, hki]
      · rw [hji, Function.update_self, Function.update_of_ne hki] at hSame
        exact (hOther k hk (hSame ▸ hSome) hSame.symm).elim
    · rw [Function.update_of_ne hji] at hFull hSame
      by_cases hki : k = i
      · rw [hki, Function.update_self] at hSame
        exact (hOther j hj hFull hSame).elim
      · rw [Function.update_of_ne hki] at hSame
        exact h.once j k hj hk hFull hSame

/-- The resource in a slot is given away. -/
theorem give (h : Custody null dom slots given allocated) (hi : dom i) (hSome : slots i ≠ null) :
    Custody null dom (Function.update slots i null) (insert (slots i) given) allocated := by
  have hOther : ∀ j, Function.update slots i null j ≠ null →
      j ≠ i ∧ Function.update slots i null j = slots j := by
    intro j hFull
    have hji : j ≠ i := by
      rintro rfl
      exact hFull (Function.update_self ..)
    exact ⟨hji, Function.update_of_ne hji ..⟩
  constructor
  case mem =>
    intro b
    rw [h.mem b, Finset.mem_insert]
    constructor
    · rintro (hGiven | ⟨j, hj, hFull, rfl⟩)
      · exact .inl (.inr hGiven)
      · by_cases hji : j = i
        · subst hji
          exact .inl (.inl rfl)
        · exact .inr ⟨j, hj, by rwa [Function.update_of_ne hji], Function.update_of_ne hji ..⟩
    · rintro ((rfl | hGiven) | ⟨j, hj, hFull, rfl⟩)
      · exact .inr ⟨i, hi, hSome, rfl⟩
      · exact .inl hGiven
      · obtain ⟨-, hSame⟩ := hOther j hFull
        rw [hSame] at hFull ⊢
        exact .inr ⟨j, hj, hFull, rfl⟩
  case apart =>
    intro j hj hFull
    obtain ⟨hji, hSame⟩ := hOther j hFull
    rw [hSame] at hFull ⊢
    rw [Finset.mem_insert, not_or]
    exact ⟨fun hSlots => hji (h.once j i hj hi hFull hSlots), h.apart j hj hFull⟩
  case once =>
    intro j k hj hk hFull hSame
    obtain ⟨-, hJ⟩ := hOther j hFull
    obtain ⟨-, hK⟩ := hOther k (hSame ▸ hFull)
    rw [hJ, hK] at hSame
    rw [hJ] at hFull
    exact h.once j k hj hk hFull hSame

end Custody

end Ricerca.Foundation
