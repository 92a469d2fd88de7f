import Mathlib.Data.List.Nodup
import Mathlib.Logic.Function.Basic
import Mathlib.Order.Defs.Unbundled
import Mathlib.Tactic.Common

/-! Forests in left-child, right-sibling form, melding of trees in the manner of pairing
heaps, and how two pointer fields lay a forest out in memory. -/
namespace Ricerca.Foundation

universe u

/-- A list of trees: the first tree has a node and children, the others are its siblings. -/
inductive Forest (τ : Type u) where
  | nil
  | cons (node : τ) (children siblings : Forest τ)

namespace Forest

variable {τ : Type u}

/-- All nodes, each parent before its children. -/
def elems : Forest τ → List τ
  | nil => []
  | cons node children siblings => node :: (children.elems ++ siblings.elems)

@[simp] theorem elems_nil : (nil : Forest τ).elems = [] := rfl

@[simp] theorem elems_cons {node : τ} {children siblings : Forest τ} :
    (cons node children siblings).elems = node :: (children.elems ++ siblings.elems) := rfl

/-- No tree, or one tree. -/
def Single : Forest τ → Prop
  | nil => True
  | cons _ _ siblings => siblings = nil

theorem single_cons {node : τ} {children : Forest τ} : (cons node children nil).Single := rfl

/-- The number of trees. -/
def trees : Forest τ → Nat
  | nil => 0
  | cons _ _ siblings => siblings.trees + 1

theorem trees_le_length_elems (f : Forest τ) : f.trees ≤ f.elems.length := by
  induction f with
  | nil => exact Nat.le_refl _
  | cons node children siblings _ ih =>
      simp only [trees, elems, List.length_cons, List.length_append]
      omega

/-- Hang the tree with the larger root below the other one, in front of its children. -/
def meld (cmp : τ → τ → Bool) : Forest τ → Forest τ → Forest τ
  | nil, g => g
  | cons a c s, nil => cons a c s
  | cons a c _, cons b d _ => if cmp a b then cons a (cons b d c) nil else cons b (cons a c d) nil

/-- Meld neighbours pairwise, then meld the results from the back. -/
def mergePairs (cmp : τ → τ → Bool) : Forest τ → Forest τ
  | nil => nil
  | cons a c nil => cons a c nil
  | cons a c (cons b d rest) =>
      meld cmp (meld cmp (cons a c nil) (cons b d nil)) (mergePairs cmp rest)

variable {cmp : τ → τ → Bool} {f g : Forest τ}

theorem Single.meld (hf : f.Single) (hg : g.Single) : (meld cmp f g).Single := by
  cases f with
  | nil => exact hg
  | cons a c s =>
      cases g with
      | nil => exact hf
      | cons b d t =>
          rw [Forest.meld]
          split <;> rfl

theorem single_mergePairs (f : Forest τ) : (mergePairs cmp f).Single := by
  induction f using mergePairs.induct with
  | case1 => trivial
  | case2 a c => rfl
  | case3 a c b d rest ih =>
      rw [mergePairs]
      exact (single_cons.meld single_cons).meld ih

/-- Melding keeps the nodes. -/
theorem elems_meld (hf : f.Single) (hg : g.Single) :
    (meld cmp f g).elems.Perm (f.elems ++ g.elems) := by
  cases f with
  | nil => exact List.Perm.refl _
  | cons a c s =>
      cases g with
      | nil =>
          rw [meld, elems_nil, List.append_nil]
      | cons b d t =>
          have hs : s = nil := hf
          have ht : t = nil := hg
          subst hs ht
          rw [meld]
          split
          · simp only [elems_cons, elems_nil, List.append_nil, List.cons_append]
            have hSwap : (b :: d.elems ++ c.elems).Perm (c.elems ++ b :: d.elems) :=
              List.perm_append_comm
            exact hSwap.cons a
          · simp only [elems_cons, elems_nil, List.append_nil, List.cons_append]
            have hSwap : (a :: c.elems ++ b :: d.elems).Perm (b :: (a :: c.elems ++ d.elems)) :=
              List.perm_middle
            exact hSwap.symm

theorem elems_mergePairs (cmp : τ → τ → Bool) (f : Forest τ) : (mergePairs cmp f).elems.Perm f.elems := by
  induction f using mergePairs.induct with
  | case1 => exact List.Perm.refl _
  | case2 a c => exact List.Perm.refl _
  | case3 a c b d rest ih =>
      have hPair : (meld cmp (cons a c nil) (cons b d nil)).elems.Perm
          ((cons a c nil).elems ++ (cons b d nil).elems) := elems_meld rfl rfl
      rw [mergePairs]
      have hSingle : (meld cmp (cons a c nil) (cons b d nil)).Single :=
        single_cons.meld single_cons
      refine (elems_meld hSingle (single_mergePairs rest)).trans ?_
      refine (hPair.append ih).trans ?_
      simp only [elems_cons, elems_nil, List.append_nil, List.append_assoc, List.cons_append]
      exact List.Perm.refl _

/-- The nodes at the top. -/
def roots : Forest τ → List τ
  | nil => []
  | cons node _ siblings => node :: siblings.roots

/-- No node is smaller than its parent. -/
def Ordered (cmp : τ → τ → Bool) : Forest τ → Prop
  | nil => True
  | cons node children siblings =>
      (∀ x ∈ children.roots, cmp x node = false) ∧ children.Ordered cmp ∧ siblings.Ordered cmp

theorem mem_elems_of_mem_roots {x : τ} (hx : x ∈ f.roots) : x ∈ f.elems := by
  induction f with
  | nil => exact hx
  | cons node children siblings _ ih =>
      rcases List.mem_cons.mp hx with rfl | hx
      · exact List.mem_cons_self ..
      · exact List.mem_cons_of_mem _ (List.mem_append_right _ (ih hx))

section Order

/-- The comparison is a strict weak order: nodes none of which is smaller are equivalent. -/
abbrev StrictWeak (cmp : τ → τ → Bool) : Prop := IsStrictWeakOrder τ fun a b => cmp a b = true

theorem StrictWeak.asymm (h : StrictWeak cmp) {a b : τ} (hLess : cmp a b = true) : cmp b a = false := by
  rw [Bool.eq_false_iff]
  intro hMore
  exact h.irrefl a (h.trans a b a hLess hMore)

/-- If `a` is not smaller than `b`, and `b` not smaller than `c`, then `a` is not smaller
than `c`. -/
theorem StrictWeak.not_less_trans (h : StrictWeak cmp) {a b c : τ} (hab : cmp a b = false)
    (hbc : cmp b c = false) : cmp a c = false := by
  rw [Bool.eq_false_iff] at hab hbc ⊢
  intro hac
  have hba : ¬cmp b a = true := fun hba => hbc (h.trans b a c hba hac)
  have hcb : ¬cmp c b = true := fun hcb => hab (h.trans a c b hac hcb)
  exact (h.incomp_trans a b c ⟨hab, hba⟩ ⟨hbc, hcb⟩).1 hac

/-- A lower bound of the roots is a lower bound of all nodes. -/
theorem Ordered.not_less (h : StrictWeak cmp) (hOrdered : f.Ordered cmp) {bound : τ}
    (hRoots : ∀ x ∈ f.roots, cmp x bound = false) : ∀ x ∈ f.elems, cmp x bound = false := by
  induction f generalizing bound with
  | nil =>
      intro x hx
      cases hx
  | cons node children siblings ihChildren ihSiblings =>
      obtain ⟨hNode, hChildren, hSiblings⟩ := hOrdered
      have hBound : cmp node bound = false := hRoots node (List.mem_cons_self ..)
      intro x hx
      rw [elems_cons, List.mem_cons, List.mem_append] at hx
      rcases hx with rfl | hx | hx
      · exact hBound
      · exact h.not_less_trans (ihChildren hChildren hNode x hx) hBound
      · exact ihSiblings hSiblings (fun y hy => hRoots y (List.mem_cons_of_mem _ hy)) x hx

/-- Only how the nodes of the forest compare matters. -/
theorem Ordered.congr {cmp' : τ → τ → Bool} (hOrdered : f.Ordered cmp)
    (hSame : ∀ x ∈ f.elems, ∀ y ∈ f.elems, cmp' x y = cmp x y) : f.Ordered cmp' := by
  induction f with
  | nil => trivial
  | cons node children siblings ihChildren ihSiblings =>
      obtain ⟨hNode, hChildren, hSiblings⟩ := hOrdered
      rw [elems_cons] at hSame
      refine ⟨fun x hx => ?_, ?_, ?_⟩
      · rw [hSame x (by simp [mem_elems_of_mem_roots hx]) node (by simp)]
        exact hNode x hx
      · exact ihChildren hChildren fun x hx y hy => hSame x (by simp [hx]) y (by simp [hy])
      · exact ihSiblings hSiblings fun x hx y hy => hSame x (by simp [hx]) y (by simp [hy])

/-- The tree that is hung below the other one has the root that is not smaller. -/
theorem Ordered.meld (h : StrictWeak cmp) (hf : f.Ordered cmp) (hg : g.Ordered cmp) :
    (f.meld cmp g).Ordered cmp := by
  cases f with
  | nil => exact hg
  | cons a c s =>
      cases g with
      | nil => exact hf
      | cons b d t =>
          rw [Forest.meld]
          split_ifs with hLess
          · refine ⟨fun x hx => ?_, ⟨hg.1, hg.2.1, hf.2.1⟩, trivial⟩
            rcases List.mem_cons.mp hx with rfl | hx
            · exact h.asymm hLess
            · exact hf.1 x hx
          · refine ⟨fun x hx => ?_, ⟨hf.1, hf.2.1, hg.2.1⟩, trivial⟩
            rcases List.mem_cons.mp hx with rfl | hx
            · exact Bool.eq_false_iff.mpr hLess
            · exact hg.1 x hx

theorem Ordered.mergePairs (h : StrictWeak cmp) (hOrdered : f.Ordered cmp) :
    (f.mergePairs cmp).Ordered cmp := by
  induction f using mergePairs.induct with
  | case1 => trivial
  | case2 a c => exact hOrdered
  | case3 a c b d rest ih =>
      obtain ⟨hA, hC, hB, hD, hRest⟩ := hOrdered
      have hPair : (Forest.meld cmp (cons a c nil) (cons b d nil)).Ordered cmp :=
        Ordered.meld h ⟨hA, hC, trivial⟩ ⟨hB, hD, trivial⟩
      rw [Forest.mergePairs]
      exact hPair.meld h (ih hRest)

end Order

section Memory

variable {child next child' next' : τ → Option τ} {p : Option τ}

/-- From the pointer `p` on, the two pointer fields lay out exactly this forest. -/
def Rep (child next : τ → Option τ) : Forest τ → Option τ → Prop
  | nil, p => p = none
  | cons node children siblings, p =>
      p = some node ∧ Rep child next children (child node) ∧ Rep child next siblings (next node)

/-- Only the fields of the forest's own nodes matter. -/
theorem Rep.congr (h : Rep child next f p) (hChild : ∀ x ∈ f.elems, child' x = child x)
    (hNext : ∀ x ∈ f.elems, next' x = next x) : Rep child' next' f p := by
  induction f generalizing p with
  | nil => exact h
  | cons node children siblings ihChildren ihSiblings =>
      obtain ⟨hNode, hChildren, hSiblings⟩ := h
      refine ⟨hNode, ?_, ?_⟩
      · rw [hChild node (by simp)]
        exact ihChildren hChildren (fun x hx => hChild x (by simp [hx]))
          fun x hx => hNext x (by simp [hx])
      · rw [hNext node (by simp)]
        exact ihSiblings hSiblings (fun x hx => hChild x (by simp [hx]))
          fun x hx => hNext x (by simp [hx])

/-- The memory determines the forest. -/
theorem Rep.unique (h : Rep child next f p) (h' : Rep child next g p) : f = g := by
  induction f generalizing g p with
  | nil =>
      cases g with
      | nil => rfl
      | cons node children siblings =>
          have hNone : p = none := h
          rw [hNone] at h'
          cases h'.1
  | cons node children siblings ihChildren ihSiblings =>
      cases g with
      | nil =>
          have hNone : p = none := h'
          rw [hNone] at h
          cases h.1
      | cons node' children' siblings' =>
          obtain ⟨hNode, hChildren, hSiblings⟩ := h
          obtain ⟨hNode', hChildren', hSiblings'⟩ := h'
          rw [hNode, Option.some.injEq] at hNode'
          subst hNode'
          rw [ihChildren hChildren hChildren', ihSiblings hSiblings hSiblings']

/-- The children of a node of a forest are a forest in the same memory. -/
theorem Rep.child_of_mem {x : τ} (h : Rep child next f p) (hMem : x ∈ f.elems) :
    ∃ g, Rep child next g (child x) ∧ g.elems.Sublist f.elems := by
  induction f generalizing p with
  | nil => cases hMem
  | cons node children siblings ihChildren ihSiblings =>
      obtain ⟨-, hChildren, hSiblings⟩ := h
      have hFirst : children.elems.Sublist (cons node children siblings).elems :=
        (List.sublist_append_left ..).cons node
      have hRest : siblings.elems.Sublist (cons node children siblings).elems :=
        (List.sublist_append_right ..).cons node
      rw [elems_cons, List.mem_cons, List.mem_append] at hMem
      rcases hMem with rfl | hMem | hMem
      · exact ⟨children, hChildren, hFirst⟩
      · obtain ⟨g, hRep, hSub⟩ := ihChildren hChildren hMem
        exact ⟨g, hRep, hSub.trans hFirst⟩
      · obtain ⟨g, hRep, hSub⟩ := ihSiblings hSiblings hMem
        exact ⟨g, hRep, hSub.trans hRest⟩

end Memory

end Forest

end Ricerca.Foundation
