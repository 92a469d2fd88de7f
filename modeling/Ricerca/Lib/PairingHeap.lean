import Ricerca.Foundation.PairingForest

/-! The intrusive pairing heap of `lib/pairing_heap.h`. The nodes are objects of the caller
with a hook in them; a heap is the pointer to its root and the hooks of its nodes. -/
namespace Ricerca.PairingHeap

open Foundation

universe u

variable {τ : Type u} [DecidableEq τ]

/-- The hooks of all nodes there are. -/
structure Hooks (τ : Type u) where
  next : τ → Option τ
  child : τ → Option τ

namespace Hooks

def setNext (hooks : Hooks τ) (node : τ) (value : Option τ) : Hooks τ :=
  { hooks with next := Function.update hooks.next node value }

def setChild (hooks : Hooks τ) (node : τ) (value : Option τ) : Hooks τ :=
  { hooks with child := Function.update hooks.child node value }

end Hooks

variable (cmp : τ → τ → Bool)

def pairingHeapMeld (hooks : Hooks τ) : Option τ → Option τ → Option τ × Hooks τ
  | none, heap2 => (heap2, hooks)
  | some heap1, none => (some heap1, hooks)
  | some heap1, some heap2 =>
      let min := if cmp heap1 heap2 then heap1 else heap2
      let max := if min = heap1 then heap2 else heap1
      (some min, (hooks.setNext max (hooks.child min)).setChild min (some max))

/-- The recursion follows `next` pointers, so it is bounded by the depth of the stack. The
arguments of the outer meld are evaluated from left to right; they work on different
nodes. -/
def pairingHeapTreeify : Nat → Hooks τ → Option τ → Option (Option τ × Hooks τ)
  | 0, _, _ => none
  | _ + 1, hooks, none => some (none, hooks)
  | depth + 1, hooks, some children =>
      let next := hooks.next children
      let hooks := hooks.setNext children none
      match next with
      | none => some (some children, hooks)
      | some next =>
          let nn := hooks.next next
          let hooks := hooks.setNext next none
          let pair := pairingHeapMeld cmp hooks (some children) (some next)
          (pairingHeapTreeify depth pair.2 nn).map fun rest =>
            pairingHeapMeld cmp rest.2 pair.1 rest.1

/-- Returns the new root. -/
def pairingHeapInsert (hooks : Hooks τ) (heapRoot : Option τ) (node : τ) : Option τ × Hooks τ :=
  pairingHeapMeld cmp ((hooks.setNext node none).setChild node none) heapRoot (some node)

def pairingHeapGetMin (heapRoot : Option τ) : Option τ := heapRoot

/-- Returns the removed node, the new root and the hooks. -/
def pairingHeapRemoveMin (depth : Nat) (hooks : Hooks τ) (heapRoot : Option τ) :
    Option (Option τ × Option τ × Hooks τ) :=
  match heapRoot with
  | none => some (none, none, hooks)
  | some res => (pairingHeapTreeify cmp depth hooks (hooks.child res)).map fun rest =>
      (some res, rest)

variable {cmp} {hooks hooks' : Hooks τ} {f g : Forest τ} {p q heapRoot : Option τ} {node : τ}
  {elements elements' : List τ}

/-- Outside these nodes no hook differs. -/
def Same (hooks hooks' : Hooks τ) (elements : List τ) : Prop :=
  ∀ x, x ∉ elements → hooks'.next x = hooks.next x ∧ hooks'.child x = hooks.child x

namespace Same

omit [DecidableEq τ] in
theorem trans {hooks'' : Hooks τ} (h : Same hooks hooks' elements) (h' : Same hooks' hooks'' elements) :
    Same hooks hooks'' elements :=
  fun x hx => ⟨(h' x hx).1.trans (h x hx).1, (h' x hx).2.trans (h x hx).2⟩

omit [DecidableEq τ] in
theorem mono (h : Same hooks hooks' elements) (hSub : elements ⊆ elements') :
    Same hooks hooks' elements' :=
  fun x hx => h x fun hMem => hx (hSub hMem)

theorem setNext {value : Option τ} (hMem : node ∈ elements) :
    Same hooks (hooks.setNext node value) elements := by
  intro x hx
  refine ⟨Function.update_of_ne ?_ _ _, rfl⟩
  exact fun hEq => hx (hEq ▸ hMem)

theorem setChild {value : Option τ} (hMem : node ∈ elements) :
    Same hooks (hooks.setChild node value) elements := by
  intro x hx
  refine ⟨rfl, Function.update_of_ne ?_ _ _⟩
  exact fun hEq => hx (hEq ▸ hMem)

end Same

/-- The forest that hangs on a pointer. -/
abbrev Hangs (hooks : Hooks τ) (f : Forest τ) (p : Option τ) : Prop :=
  f.Rep hooks.child hooks.next p

omit [DecidableEq τ] in
theorem Hangs.frame (h : Hangs hooks f p) (hSame : Same hooks hooks' elements)
    (hDisjoint : ∀ x ∈ f.elems, x ∉ elements) : Hangs hooks' f p :=
  Forest.Rep.congr h (fun x hx => (hSame x (hDisjoint x hx)).2)
    fun x hx => (hSame x (hDisjoint x hx)).1

omit [DecidableEq τ] in
theorem Hangs.eq_none (h : Hangs hooks .nil p) : p = none := h

/-- Hang the tree of `max` below `min`. -/
theorem hangs_link {min max : τ} {c d : Forest τ}
    (hNodup : (min :: max :: (c.elems ++ d.elems)).Nodup) (hNext : hooks.next min = none)
    (hMin : Hangs hooks c (hooks.child min)) (hMax : Hangs hooks d (hooks.child max)) :
    Hangs ((hooks.setNext max (hooks.child min)).setChild min (some max))
      (.cons min (.cons max d c) .nil) (some min) := by
  simp only [List.nodup_cons, List.mem_cons, List.mem_append, not_or] at hNodup
  obtain ⟨⟨hNe, hMinC, hMinD⟩, ⟨hMaxC, hMaxD⟩, -⟩ := hNodup
  have hSame : Same hooks ((hooks.setNext max (hooks.child min)).setChild min (some max))
      [min, max] :=
    (Same.setNext (by simp)).trans (Same.setChild (by simp))
  refine ⟨rfl, ⟨?_, ?_, ?_⟩, ?_⟩
  · simp [Hooks.setChild]
  · have hChild : ((hooks.setNext max (hooks.child min)).setChild min (some max)).child max =
        hooks.child max := by
      simp [Hooks.setChild, Hooks.setNext, Ne.symm hNe]
    rw [hChild]
    apply hMax.frame hSame
    intro x hx
    simp only [List.mem_cons, List.not_mem_nil, or_false, not_or]
    exact ⟨fun hEq => hMinD (hEq ▸ hx), fun hEq => hMaxD (hEq ▸ hx)⟩
  · have hNextMax : ((hooks.setNext max (hooks.child min)).setChild min (some max)).next max =
        hooks.child min := by
      simp [Hooks.setChild, Hooks.setNext]
    rw [hNextMax]
    apply hMin.frame hSame
    intro x hx
    simp only [List.mem_cons, List.not_mem_nil, or_false, not_or]
    exact ⟨fun hEq => hMinC (hEq ▸ hx), fun hEq => hMaxC (hEq ▸ hx)⟩
  · simp [Forest.Rep, Hooks.setChild, Hooks.setNext, hNe, hNext]

/-- The pointers are melded as the trees are. -/
theorem hangs_meld (cmp : τ → τ → Bool) (hf : f.Single) (hg : g.Single) (hp : Hangs hooks f p) (hq : Hangs hooks g q)
    (hNodup : (f.elems ++ g.elems).Nodup) :
    Hangs (pairingHeapMeld cmp hooks p q).2 (f.meld cmp g) (pairingHeapMeld cmp hooks p q).1 ∧
      Same hooks (pairingHeapMeld cmp hooks p q).2 (f.elems ++ g.elems) := by
  cases f with
  | nil =>
      rw [hp.eq_none]
      exact ⟨hq, fun x _ => ⟨rfl, rfl⟩⟩
  | cons a c s =>
      cases g with
      | nil =>
          have hEq := hp.1
          subst hEq
          rw [hq.eq_none]
          exact ⟨hp, fun x _ => ⟨rfl, rfl⟩⟩
      | cons b d t =>
          have hs : s = .nil := hf
          have ht : t = .nil := hg
          subst hs ht
          obtain ⟨rfl, hChildA, hNextA⟩ := hp
          obtain ⟨rfl, hChildB, hNextB⟩ := hq
          simp only [Forest.elems_cons, Forest.elems_nil, List.append_nil] at hNodup ⊢
          have hNe : a ≠ b := by
            intro hEq
            subst hEq
            simp at hNodup
          have hSame : ∀ min max : τ, min ∈ a :: c.elems ++ b :: d.elems →
              max ∈ a :: c.elems ++ b :: d.elems →
              Same hooks ((hooks.setNext max (hooks.child min)).setChild min (some max))
                (a :: c.elems ++ b :: d.elems) :=
            fun min max hMin hMax => (Same.setNext hMax).trans (Same.setChild hMin)
          by_cases hCmp : cmp a b = true
          · simp only [pairingHeapMeld, Forest.meld, hCmp, if_true]
            refine ⟨hangs_link ?_ hNextA hChildA hChildB, hSame a b (by simp) (by simp)⟩
            have hPerm : (a :: c.elems ++ b :: d.elems).Perm (a :: b :: (c.elems ++ d.elems)) :=
              List.perm_middle.cons a
            exact hPerm.nodup_iff.mp hNodup
          · simp only [pairingHeapMeld, Forest.meld, hCmp, if_neg (Ne.symm hNe), Bool.false_eq_true,
              if_false]
            refine ⟨hangs_link ?_ hNextB hChildB hChildA, hSame b a (by simp) (by simp)⟩
            have hSwap : (a :: c.elems ++ b :: d.elems).Perm (b :: d.elems ++ a :: c.elems) :=
              List.perm_append_comm
            have hPerm : (b :: d.elems ++ a :: c.elems).Perm (b :: a :: (d.elems ++ c.elems)) :=
              List.perm_middle.cons b
            exact (hSwap.trans hPerm).nodup_iff.mp hNodup

/-- The first tree of a list is cut off from its siblings. -/
theorem hangs_cut {a : τ} {c s : Forest τ} (h : Hangs hooks (.cons a c s) p)
    (hNodup : (Forest.cons a c s).elems.Nodup) :
    Hangs (hooks.setNext a none) (.cons a c .nil) (some a) ∧
      Hangs (hooks.setNext a none) s (hooks.next a) := by
  obtain ⟨-, hChild, hNext⟩ := h
  rw [Forest.elems_cons, List.nodup_cons, List.mem_append, not_or] at hNodup
  have hSame : Same hooks (hooks.setNext a none) [a] := Same.setNext (by simp)
  refine ⟨⟨rfl, ?_, by simp [Forest.Rep, Hooks.setNext]⟩, ?_⟩
  · apply Hangs.frame hChild hSame
    intro x hx hMem
    exact hNodup.1.1 (List.mem_singleton.mp hMem ▸ hx)
  · apply Hangs.frame hNext hSame
    intro x hx hMem
    exact hNodup.1.2 (List.mem_singleton.mp hMem ▸ hx)

/-- With enough stack the list of children becomes the tree that pairwise melding gives. -/
theorem hangs_treeify (cmp : τ → τ → Bool) {depth : Nat} (hDepth : f.trees < depth) (h : Hangs hooks f p)
    (hNodup : f.elems.Nodup) :
    ∃ rest, pairingHeapTreeify cmp depth hooks p = some rest ∧
      Hangs rest.2 (f.mergePairs cmp) rest.1 ∧ Same hooks rest.2 f.elems := by
  induction f using Forest.mergePairs.induct generalizing depth hooks p with
  | case1 =>
      obtain ⟨depth, rfl⟩ := Nat.exists_eq_add_one_of_ne_zero (Nat.ne_zero_of_lt hDepth)
      rw [h.eq_none]
      exact ⟨_, rfl, rfl, fun x _ => ⟨rfl, rfl⟩⟩
  | case2 a c =>
      obtain ⟨depth, rfl⟩ := Nat.exists_eq_add_one_of_ne_zero (Nat.ne_zero_of_lt hDepth)
      have hNext : hooks.next a = none := h.2.2
      have hPtr := h.1
      subst hPtr
      refine ⟨(some a, hooks.setNext a none), ?_, (hangs_cut h hNodup).1, Same.setNext (by simp)⟩
      simp [pairingHeapTreeify, hNext]
  | case3 a c b d rest ih =>
      obtain ⟨depth, rfl⟩ := Nat.exists_eq_add_one_of_ne_zero (Nat.ne_zero_of_lt hDepth)
      have hPtr := h.1
      subst hPtr
      have hNext : hooks.next a = some b := h.2.2.1
      obtain ⟨hA, hTail⟩ := hangs_cut h hNodup
      have hNodupTail : (Forest.cons b d rest).elems.Nodup := by
        rw [Forest.elems_cons, List.nodup_cons] at hNodup
        exact hNodup.2.of_append_right
      obtain ⟨hB, hRest⟩ := hangs_cut hTail hNodupTail
      have hApart : ∀ x ∈ (Forest.cons a c .nil).elems, x ∉ (Forest.cons b d rest).elems := by
        simp only [Forest.elems_cons, Forest.elems_nil, List.append_nil] at hNodup ⊢
        rw [← List.cons_append] at hNodup
        exact List.disjoint_of_nodup_append hNodup
      have hApartRest : ∀ x ∈ (Forest.cons b d .nil).elems, x ∉ rest.elems := by
        simp only [Forest.elems_cons, Forest.elems_nil, List.append_nil] at hNodupTail ⊢
        rw [← List.cons_append] at hNodupTail
        exact List.disjoint_of_nodup_append hNodupTail
      have hA' : Hangs ((hooks.setNext a none).setNext b none) (.cons a c .nil) (some a) :=
        Hangs.frame hA (Same.setNext (by simp)) hApart
      have hAll : ((Forest.cons a c .nil).elems ++ (Forest.cons b d .nil).elems ++ rest.elems).Nodup := by
        simpa using hNodup
      have hSub : ∀ x, x ∈ (Forest.cons a c .nil).elems ++ (Forest.cons b d .nil).elems ∨
          x ∈ rest.elems → x ∈ (Forest.cons a c (.cons b d rest)).elems := by
        intro x hx
        simpa [or_assoc] using hx
      obtain ⟨hPair, hSamePair⟩ := hangs_meld cmp (f := .cons a c .nil)
        (g := .cons b d .nil) rfl rfl hA' hB hAll.of_append_left
      have hRest' := Hangs.frame hRest hSamePair fun x hx hMem =>
        List.disjoint_of_nodup_append hAll hMem hx
      have hDepthRest : rest.trees < depth := by
        simp only [Forest.trees] at hDepth
        omega
      obtain ⟨last, hLast, hLastHangs, hSameLast⟩ := ih hDepthRest hRest' hAll.of_append_right
      have hPerm : (Forest.meld cmp (.cons a c .nil) (.cons b d .nil)).elems.Perm
          ((Forest.cons a c .nil).elems ++ (Forest.cons b d .nil).elems) :=
        Forest.elems_meld rfl rfl
      have hPermRest := Forest.elems_mergePairs cmp rest
      have hPair' := Hangs.frame hPair hSameLast fun x hx =>
        List.disjoint_of_nodup_append hAll (hPerm.mem_iff.mp hx)
      obtain ⟨hDone, hSameDone⟩ := hangs_meld cmp (Forest.single_cons.meld Forest.single_cons)
        (Forest.single_mergePairs rest) hPair' hLastHangs
        ((hPerm.append hPermRest).nodup_iff.mpr hAll)
      refine ⟨_, ?_, hDone, ?_⟩
      · simp only [pairingHeapTreeify, hNext, hLast, Option.map_some]
      · have hCut : Same hooks ((hooks.setNext a none).setNext b none)
            (Forest.cons a c (.cons b d rest)).elems :=
          (Same.setNext (by simp)).trans (Same.setNext (by simp))
        refine hCut.trans ((hSamePair.mono fun x hx => hSub x (.inl hx)).trans ?_)
        refine (hSameLast.mono fun x hx => hSub x (.inr hx)).trans (hSameDone.mono fun x hx => ?_)
        rw [List.mem_append, hPerm.mem_iff, hPermRest.mem_iff] at hx
        exact hSub x hx

/-- A new node is melded with the tree that is there. -/
theorem hangs_insert (cmp : τ → τ → Bool) (hSingle : f.Single) (h : Hangs hooks f heapRoot)
    (hNodup : (node :: f.elems).Nodup) :
    Hangs (pairingHeapInsert cmp hooks heapRoot node).2 (f.meld cmp (.cons node .nil .nil))
        (pairingHeapInsert cmp hooks heapRoot node).1 ∧
      Same hooks (pairingHeapInsert cmp hooks heapRoot node).2 (node :: f.elems) := by
  have hNew : node ∉ f.elems := (List.nodup_cons.mp hNodup).1
  have hSame : Same hooks ((hooks.setNext node none).setChild node none) [node] :=
    (Same.setNext (by simp)).trans (Same.setChild (by simp))
  have hOld : Hangs ((hooks.setNext node none).setChild node none) f heapRoot :=
    h.frame hSame fun x hx hMem => hNew (List.mem_singleton.mp hMem ▸ hx)
  have hNode : Hangs ((hooks.setNext node none).setChild node none) (.cons node .nil .nil)
      (some node) :=
    ⟨rfl, by simp [Forest.Rep, Hooks.setChild], by simp [Forest.Rep, Hooks.setChild, Hooks.setNext]⟩
  have hAll : (f.elems ++ (Forest.cons node .nil .nil).elems).Perm (node :: f.elems) :=
    List.perm_append_comm
  obtain ⟨hMeld, hSameMeld⟩ := hangs_meld cmp (g := .cons node .nil .nil) hSingle rfl hOld hNode
    (hAll.nodup_iff.mpr hNodup)
  exact ⟨hMeld, (hSame.mono (by simp)).trans (hSameMeld.mono fun x hx => hAll.mem_iff.mp hx)⟩

/-- With enough stack the root is taken off, and its children become one tree. -/
theorem hangs_removeMin (cmp : τ → τ → Bool) {depth : Nat} {root : τ} {children siblings : Forest τ}
    (hDepth : children.trees < depth) (h : Hangs hooks (.cons root children siblings) heapRoot)
    (hNodup : (Forest.cons root children siblings).elems.Nodup) :
    ∃ rest, pairingHeapRemoveMin cmp depth hooks heapRoot = some (some root, rest) ∧
      Hangs rest.2 (children.mergePairs cmp) rest.1 ∧ Same hooks rest.2 children.elems := by
  obtain ⟨rfl, hChild, -⟩ := h
  have hNodupChildren : children.elems.Nodup := (List.nodup_cons.mp hNodup).2.of_append_left
  obtain ⟨rest, hRest, hHangsRest, hSame⟩ := hangs_treeify cmp hDepth hChild hNodupChildren
  refine ⟨rest, ?_, hHangsRest, hSame⟩
  simp [pairingHeapRemoveMin, hRest]

/-- More stack does not change the result. -/
theorem treeify_mono {depth depth' : Nat} {r : Option τ × Hooks τ} (hLe : depth ≤ depth')
    (h : pairingHeapTreeify cmp depth hooks p = some r) :
    pairingHeapTreeify cmp depth' hooks p = some r := by
  induction depth generalizing depth' hooks p r with
  | zero => cases h
  | succ depth ih =>
      obtain ⟨more, rfl⟩ := Nat.exists_eq_add_one_of_ne_zero (Nat.ne_zero_of_lt hLe)
      cases p with
      | none => exact h
      | some children =>
          simp only [pairingHeapTreeify] at h ⊢
          split at h
          · exact h
          · rw [Option.map_eq_some_iff] at h ⊢
            obtain ⟨rest, hRest, hEq⟩ := h
            exact ⟨rest, ih (by omega) hRest, hEq⟩

theorem removeMin_mono {depth depth' : Nat} {r : Option τ × Option τ × Hooks τ}
    (hLe : depth ≤ depth') (h : pairingHeapRemoveMin cmp depth hooks heapRoot = some r) :
    pairingHeapRemoveMin cmp depth' hooks heapRoot = some r := by
  cases heapRoot with
  | none => exact h
  | some res =>
      rw [pairingHeapRemoveMin, Option.map_eq_some_iff] at h ⊢
      obtain ⟨rest, hRest, hEq⟩ := h
      exact ⟨rest, treeify_mono hLe hRest, hEq⟩

/-- The heap with this root has these nodes, in any order. -/
def Heap (hooks : Hooks τ) (heapRoot : Option τ) (elements : List τ) : Prop :=
  ∃ f : Forest τ, f.Single ∧ Hangs hooks f heapRoot ∧ f.elems.Perm elements ∧ elements.Nodup

namespace Heap

omit [DecidableEq τ] in
theorem empty : Heap hooks none [] := ⟨.nil, trivial, rfl, List.Perm.refl _, List.nodup_nil⟩

omit [DecidableEq τ] in
theorem root_eq_none_iff (h : Heap hooks heapRoot elements) : heapRoot = none ↔ elements = [] := by
  obtain ⟨f, -, hHangs, hPerm, -⟩ := h
  cases f with
  | nil => exact ⟨fun _ => hPerm.symm.eq_nil, fun _ => hHangs⟩
  | cons node children siblings =>
      obtain ⟨rfl, -⟩ := hHangs
      constructor
      · intro hNone
        cases hNone
      · intro hNil
        rw [hNil] at hPerm
        cases hPerm.eq_nil

omit [DecidableEq τ] in
/-- A heap is not touched when the hooks of other nodes change. -/
theorem frame (h : Heap hooks heapRoot elements) (hSame : Same hooks hooks' elements')
    (hDisjoint : ∀ x ∈ elements, x ∉ elements') : Heap hooks' heapRoot elements := by
  obtain ⟨f, hSingle, hHangs, hPerm, hNodup⟩ := h
  exact ⟨f, hSingle, hHangs.frame hSame fun x hx => hDisjoint x (hPerm.mem_iff.mp hx), hPerm, hNodup⟩

/-- A new node is inserted. -/
theorem insert (cmp : τ → τ → Bool) (h : Heap hooks heapRoot elements) (hNew : node ∉ elements) :
    Heap (pairingHeapInsert cmp hooks heapRoot node).2 (pairingHeapInsert cmp hooks heapRoot node).1
        (node :: elements) ∧
      Same hooks (pairingHeapInsert cmp hooks heapRoot node).2 (node :: elements) := by
  obtain ⟨f, hSingle, hHangs, hPerm, hNodup⟩ := h
  have hAll : (node :: f.elems).Perm (node :: elements) := hPerm.cons node
  have hNodupAll : (node :: elements).Nodup := List.nodup_cons.mpr ⟨hNew, hNodup⟩
  obtain ⟨hInserted, hSame⟩ := hangs_insert cmp hSingle hHangs (hAll.nodup_iff.mpr hNodupAll)
  have hElems : (f.meld cmp (.cons node .nil .nil)).elems.Perm (node :: f.elems) :=
    (Forest.elems_meld hSingle Forest.single_cons).trans List.perm_append_comm
  refine ⟨⟨_, hSingle.meld Forest.single_cons, hInserted, hElems.trans hAll, hNodupAll⟩, ?_⟩
  exact hSame.mono hAll.subset

/-- With enough stack the root is removed. -/
theorem exists_removeMin (cmp : τ → τ → Bool) (h : Heap hooks heapRoot elements) :
    ∃ depth, ∀ depth', depth ≤ depth' → ∃ rest elements',
      pairingHeapRemoveMin cmp depth' hooks heapRoot = some (heapRoot, rest) ∧
        elements.Perm (heapRoot.toList ++ elements') ∧ Heap rest.2 rest.1 elements' ∧
          Same hooks rest.2 elements' := by
  obtain ⟨f, hSingle, hHangs, hPerm, hNodup⟩ := h
  cases f with
  | nil =>
      rw [hHangs.eq_none]
      refine ⟨0, fun depth' _ => ⟨(none, hooks), [], rfl, hPerm.symm, Heap.empty, ?_⟩⟩
      exact fun x _ => ⟨rfl, rfl⟩
  | cons root children siblings =>
      have hNil : siblings = .nil := hSingle
      subst hNil
      have hNodupAll := hPerm.nodup_iff.mpr hNodup
      have hNodupChildren := (List.nodup_cons.mp hNodupAll).2.of_append_left
      have hRoot : heapRoot = some root := hHangs.1
      subst hRoot
      rw [Forest.elems_cons, Forest.elems_nil, List.append_nil] at hPerm
      refine ⟨children.trees + 1, fun depth' hDepth => ?_⟩
      obtain ⟨rest, hRest, hHangsRest, hSame⟩ := hangs_removeMin cmp (Nat.lt_of_succ_le hDepth) hHangs
        hNodupAll
      refine ⟨rest, children.elems, hRest, hPerm.symm, ?_, hSame⟩
      exact ⟨_, Forest.single_mergePairs children, hHangsRest, Forest.elems_mergePairs cmp children,
        hNodupChildren⟩

/-- Whenever the removal returns, it has removed the root and nothing else. -/
theorem removeMin {depth : Nat} {res : Option τ} {rest : Option τ × Hooks τ}
    (h : Heap hooks heapRoot elements)
    (hRemove : pairingHeapRemoveMin cmp depth hooks heapRoot = some (res, rest)) :
    res = heapRoot ∧ ∃ elements', elements.Perm (heapRoot.toList ++ elements') ∧
      Heap rest.2 rest.1 elements' ∧ Same hooks rest.2 elements' := by
  obtain ⟨enough, hEnough⟩ := h.exists_removeMin cmp
  obtain ⟨rest', elements', hEq, hSpec⟩ := hEnough (max enough depth) (Nat.le_max_left ..)
  have hMono := removeMin_mono (Nat.le_max_right enough depth) hRemove
  rw [hMono, Option.some.injEq, Prod.mk.injEq] at hEq
  obtain ⟨rfl, rfl⟩ := hEq
  exact ⟨rfl, elements', hSpec⟩

end Heap

end Ricerca.PairingHeap
