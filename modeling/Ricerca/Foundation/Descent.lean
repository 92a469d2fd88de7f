import Mathlib.Data.List.Induction
import Mathlib.Tactic.Common

/-! Trees of tables in memory. A table has entries, and an entry may lead to another table;
a table is reached from a root along a path of indices. Nothing is known about what the
tables are made of. As long as no table is reached along two paths, a change of one entry
changes only what lies behind it. -/
namespace Ricerca.Foundation

universe u v

variable {α : Type u} {ι : Type v}

/-- The table at the end of a path. -/
def descend (next : α → ι → Option α) (a : α) : List ι → Option α
  | [] => some a
  | i :: path => (next a i).bind fun b => descend next b path

section Paths

variable {next next' : α → ι → Option α} {r a : α} {path : List ι} {i : ι}

@[simp] theorem descend_nil : descend next r [] = some r := rfl

theorem descend_append (path rest : List ι) : descend next r (path ++ rest) =
    (descend next r path).bind fun b => descend next b rest := by
  induction path generalizing r with
  | nil => rfl
  | cons i path ih =>
      simp only [List.cons_append, descend, Option.bind_assoc]
      congr 1
      funext b
      exact ih

theorem descend_snoc : descend next r (path ++ [i]) =
    (descend next r path).bind fun b => next b i := by
  rw [descend_append]
  congr 1
  funext b
  simp [descend]

/-- Only the entries on the way matter. -/
theorem descend_congr (hSame : ∀ before j c, before ++ [j] <+: path →
    descend next r before = some c → next' c j = next c j) :
    descend next' r path = descend next r path := by
  induction path using List.reverseRecOn with
  | nil => rfl
  | append_singleton path j ih =>
      have hShorter : descend next' r path = descend next r path := by
        apply ih
        intro before k c hPrefix
        exact hSame before k c (hPrefix.trans (List.prefix_append path [j]))
      rw [descend_snoc, descend_snoc, hShorter]
      cases hTable : descend next r path with
      | none => rfl
      | some c => exact hSame path j c (List.prefix_refl _) hTable

end Paths

/-- Among the paths of a domain no two lead to the same table, and the domain has with a
path also its beginnings. -/
structure Unshared (next : α → ι → Option α) (dom : α → List ι → Prop) : Prop where
  before : ∀ r path rest, dom r (path ++ rest) → dom r path
  once : ∀ r path r' path' a, dom r path → dom r' path' → descend next r path = some a →
    descend next r' path' = some a → r = r' ∧ path = path'

namespace Unshared

variable {next next' : α → ι → Option α} {dom : α → List ι → Prop} {r₀ r a b : α}
  {path₀ path : List ι} {i : ι}

theorem before_of_prefix (h : Unshared next dom) {before : List ι} (hPath : dom r path)
    (hPrefix : before <+: path) : dom r before := by
  obtain ⟨rest, rfl⟩ := hPrefix
  exact h.before r before rest hPath

/-- Entries change that no path of the domain uses. -/
theorem congr (h : Unshared next dom)
    (hSame : ∀ r path j c, dom r (path ++ [j]) → descend next r path = some c →
      next' c j = next c j) (hPath : dom r path) :
    descend next' r path = descend next r path := by
  apply descend_congr
  intro before j c hPrefix hTable
  exact hSame r before j c (h.before_of_prefix hPath hPrefix) hTable

/-- A change of one entry does not matter for the paths that do not use it. -/
theorem frame (h : Unshared next dom) (hDom : dom r₀ path₀) (hAt : descend next r₀ path₀ = some a)
    (hSame : ∀ r path j c, dom r (path ++ [j]) → descend next r path = some c →
      ¬ (c = a ∧ j = i) → next' c j = next c j)
    (hPath : dom r path) (hOther : ¬ (r = r₀ ∧ path₀ ++ [i] <+: path)) :
    descend next' r path = descend next r path := by
  apply descend_congr
  intro before j c hPrefix hTable
  have hStep := h.before_of_prefix hPath hPrefix
  apply hSame r before j c hStep hTable
  rintro ⟨rfl, rfl⟩
  obtain ⟨rfl, rfl⟩ :=
    h.once r before r₀ path₀ c (h.before r before [j] hStep) hDom hTable hAt
  exact hOther ⟨rfl, hPrefix⟩

/-- An empty entry gets a new table, which is empty and which no path has led to. -/
theorem attach_descend [DecidableEq α] [DecidableEq ι] (h : Unshared next dom) (hDom : dom r₀ path₀)
    (hAt : descend next r₀ path₀ = some a) (hEmpty : next a i = none) (hNew : next' a i = some b)
    (hSame : ∀ r path j c, dom r (path ++ [j]) → descend next r path = some c →
      ¬ (c = a ∧ j = i) → next' c j = next c j)
    (hZero : ∀ j, dom r₀ (path₀ ++ [i] ++ [j]) → next' b j = none) (hPath : dom r path) :
    descend next' r path =
      if r = r₀ ∧ path = path₀ ++ [i] then some b else descend next r path := by
  by_cases hBehind : r = r₀ ∧ path₀ ++ [i] <+: path
  · obtain ⟨rfl, rest, rfl⟩ := hBehind
    have hKept : descend next' r path₀ = some a := by
      rw [h.frame hDom hAt hSame hDom, hAt]
      rintro ⟨-, hPrefix⟩
      have hLength := hPrefix.length_le
      rw [List.length_append, List.length_singleton] at hLength
      omega
    have hChild : descend next' r (path₀ ++ [i]) = some b := by
      rw [descend_snoc, hKept]
      exact hNew
    have hGone : descend next r (path₀ ++ [i]) = none := by
      rw [descend_snoc, hAt]
      exact hEmpty
    rw [descend_append, hChild, descend_append, hGone]
    cases rest with
    | nil => simp
    | cons j rest =>
        have hLeaf : next' b j = none := by
          apply hZero j
          apply h.before r _ rest
          simpa using hPath
        simp [descend, hLeaf]
  · rw [h.frame hDom hAt hSame hPath hBehind, if_neg]
    rintro ⟨hRoot, rfl⟩
    exact hBehind ⟨hRoot, List.prefix_refl _⟩

/-- Paths lead where they led, apart from those to a table that no path has led to. -/
theorem attach (h : Unshared next dom) {p : α → List ι → Prop}
    (hDescend : ∀ r path c, dom r path → descend next' r path = some c →
      p r path ∧ c = b ∨ descend next r path = some c)
    (hNew : ∀ r path r' path', p r path → p r' path' → r = r' ∧ path = path')
    (hUnused : ∀ r path, dom r path → descend next r path ≠ some b) : Unshared next' dom := by
  refine ⟨h.before, ?_⟩
  intro r path r' path' c hPath hPath' hTable hTable'
  rcases hDescend r path c hPath hTable with ⟨hFirst, rfl⟩ | hTable
  · rcases hDescend r' path' c hPath' hTable' with ⟨hSecond, -⟩ | hTable'
    · exact hNew r path r' path' hFirst hSecond
    · exact (hUnused r' path' hPath' hTable').elim
  · rcases hDescend r' path' c hPath' hTable' with ⟨-, rfl⟩ | hTable'
    · exact (hUnused r path hPath hTable).elim
    · exact h.once r path r' path' c hPath hPath' hTable hTable'

end Unshared

end Ricerca.Foundation
