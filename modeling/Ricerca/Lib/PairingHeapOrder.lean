import Ricerca.Foundation.Execution
import Ricerca.Lib.PairingHeap

/-! The pairing heap as a priority queue. Whatever was inserted and removed before, the heap
is an ordered tree of the nodes that are in it, and its root is one of the smallest. -/
namespace Ricerca.PairingHeap

open Foundation

universe u

variable {τ : Type u} [DecidableEq τ]

/-- `struct pairing_heap` without the comparator, and the hooks of all nodes. -/
structure State (τ : Type u) where
  hooks : Hooks τ
  heapRoot : Option τ

def pairingHeapInit (hooks : Hooks τ) : State τ := ⟨hooks, none⟩

inductive Call (τ : Type u) where
  | insert (node : τ)
  | removeMin

/-- The result of an insertion is `none`. -/
def exec (cmp : τ → τ → Bool) (depth : Nat) (heap : State τ) :
    Call τ → Option (Option τ × State τ)
  | .insert node =>
      let heap' := pairingHeapInsert cmp heap.hooks heap.heapRoot node
      some (none, ⟨heap'.2, heap'.1⟩)
  | .removeMin =>
      (pairingHeapRemoveMin cmp depth heap.hooks heap.heapRoot).map
        fun removed => (removed.1, ⟨removed.2.2, removed.2.1⟩)

/-- Calls and what they returned, on a heap that was just initialised. -/
def system (cmp : τ → τ → Bool) (depth : Nat) (hooks : Hooks τ) :
    System (State τ) (Call τ × Option τ) :=
  System.ofExec (pairingHeapInit hooks) (exec cmp depth)

def contentsAfter (nodes : List τ) : Call τ × Option τ → List τ
  | (.insert node, _) => node :: nodes
  | (.removeMin, res) => nodes.filter fun node => some node ≠ res

/-- The nodes that were inserted and not removed. -/
def contents (trace : List (Call τ × Option τ)) : List τ := trace.foldl contentsAfter []

/-- No node was inserted while it was in the heap. -/
def Fresh (trace : List (Call τ × Option τ)) : Prop :=
  ∀ before node res, before ++ [(.insert node, res)] <+: trace → node ∉ contents before

variable {cmp : τ → τ → Bool} {hooks : Hooks τ} {heap heap' : State τ} {nodes : List τ}
  {node : τ} {f : Forest τ} {depth : Nat} {trace : List (Call τ × Option τ)}

theorem contents_append (entry : Call τ × Option τ) :
    contents (trace ++ [entry]) = contentsAfter (contents trace) entry := by
  rw [contents, List.foldl_append]
  rfl

/-- The heap is one ordered tree of exactly these nodes. -/
structure Holds (cmp : τ → τ → Bool) (heap : State τ) (nodes : List τ) (f : Forest τ) :
    Prop where
  single : f.Single
  ordered : f.Ordered cmp
  hangs : Hangs heap.hooks f heap.heapRoot
  perm : f.elems.Perm nodes
  nodup : nodes.Nodup

namespace Holds

omit [DecidableEq τ] in
theorem init : Holds cmp (pairingHeapInit hooks) [] .nil :=
  ⟨trivial, trivial, rfl, .refl _, .nil⟩

omit [DecidableEq τ] in
theorem root_next {root : τ} (h : Holds cmp heap nodes f) (hRoot : heap.heapRoot = some root) :
    heap.hooks.next root = none := by
  obtain ⟨hSingle, -, hHangs, -, -⟩ := h
  rw [hRoot] at hHangs
  cases f with
  | nil => cases hHangs
  | cons top children siblings =>
      have hNil : siblings = .nil := hSingle
      subst hNil
      obtain ⟨hTop, -, hNext⟩ := hHangs
      cases hTop
      exact hNext

omit [DecidableEq τ] in
theorem getMin_eq_none_iff (h : Holds cmp heap nodes f) :
    pairingHeapGetMin heap.heapRoot = none ↔ nodes = [] := by
  have hHeap : Heap heap.hooks heap.heapRoot nodes := ⟨f, h.single, h.hangs, h.perm, h.nodup⟩
  exact hHeap.root_eq_none_iff

omit [DecidableEq τ] in
/-- No node is smaller than the root. -/
theorem getMin_spec (hCmp : Forest.StrictWeak cmp) (h : Holds cmp heap nodes f)
    (hMin : pairingHeapGetMin heap.heapRoot = some node) :
    node ∈ nodes ∧ ∀ x ∈ nodes, cmp x node = false := by
  obtain ⟨hSingle, hOrdered, hHangs, hPerm, -⟩ := h
  rw [pairingHeapGetMin] at hMin
  rw [hMin] at hHangs
  cases f with
  | nil => cases hHangs
  | cons top children siblings =>
      have hNil : siblings = .nil := hSingle
      subst hNil
      obtain ⟨hTop, -, -⟩ := hHangs
      cases hTop
      have hRoots : ∀ x ∈ (Forest.cons node children .nil).roots, cmp x node = false := by
        intro x hx
        rw [List.mem_singleton.mp hx, Bool.eq_false_iff]
        exact hCmp.irrefl node
      have hLeast := hOrdered.not_less hCmp hRoots
      refine ⟨hPerm.mem_iff.mp (List.mem_cons_self ..), fun x hx => ?_⟩
      exact hLeast x (hPerm.mem_iff.mpr hx)

theorem insert (hCmp : Forest.StrictWeak cmp) (h : Holds cmp heap nodes f) (hNew : node ∉ nodes) :
    Holds cmp ⟨(pairingHeapInsert cmp heap.hooks heap.heapRoot node).2,
        (pairingHeapInsert cmp heap.hooks heap.heapRoot node).1⟩ (node :: nodes)
      (f.meld cmp (.cons node .nil .nil)) := by
  obtain ⟨hSingle, hOrdered, hHangs, hPerm, hNodup⟩ := h
  have hAll : (node :: f.elems).Perm (node :: nodes) := hPerm.cons node
  have hNodupAll : (node :: nodes).Nodup := List.nodup_cons.mpr ⟨hNew, hNodup⟩
  have hElems : (f.meld cmp (.cons node .nil .nil)).elems.Perm (node :: f.elems) :=
    (Forest.elems_meld hSingle Forest.single_cons).trans List.perm_append_comm
  have hNode : (Forest.cons node .nil .nil).Ordered cmp :=
    ⟨fun x hx => absurd hx List.not_mem_nil, trivial, trivial⟩
  exact ⟨hSingle.meld Forest.single_cons, hOrdered.meld hCmp hNode,
    (hangs_insert cmp hSingle hHangs (hAll.nodup_iff.mpr hNodupAll)).1, hElems.trans hAll, hNodupAll⟩

/-- With enough stack a removal returns the root and leaves a heap of the others. -/
theorem removeMin (hCmp : Forest.StrictWeak cmp) (h : Holds cmp heap nodes f)
    (hDepth : nodes.length < depth) :
    ∃ heap' f', exec cmp depth heap .removeMin = some (heap.heapRoot, heap') ∧
      Holds cmp heap' (nodes.filter fun x => some x ≠ heap.heapRoot) f' := by
  obtain ⟨hSingle, hOrdered, hHangs, hPerm, hNodup⟩ := h
  obtain ⟨hooks, heapRoot⟩ := heap
  cases f with
  | nil =>
      have hNone : heapRoot = none := hHangs.eq_none
      have hNodes : nodes = [] := hPerm.symm.eq_nil
      subst hNone hNodes
      exact ⟨⟨hooks, none⟩, .nil, rfl, ⟨trivial, trivial, rfl, .refl _, .nil⟩⟩
  | cons top children siblings =>
      have hNil : siblings = .nil := hSingle
      subst hNil
      have hRoot : heapRoot = some top := hHangs.1
      subst hRoot
      have hNodupAll := hPerm.nodup_iff.mpr hNodup
      have hEnough : children.trees < depth := by
        have hTrees := Forest.trees_le_length_elems children
        have hLength := hPerm.length_eq
        simp only [Forest.elems_cons, Forest.elems_nil, List.append_nil, List.length_cons] at hLength
        omega
      obtain ⟨rest, hRest, hHangsRest, -⟩ := hangs_removeMin cmp hEnough hHangs hNodupAll
      rw [Forest.elems_cons, Forest.elems_nil, List.append_nil] at hPerm hNodupAll
      have hTop : top ∉ children.elems := (List.nodup_cons.mp hNodupAll).1
      have hKeep : (top :: children.elems).filter (fun x => some x ≠ some top) = children.elems := by
        rw [List.filter_cons_of_neg (by simp), List.filter_eq_self]
        intro x hx
        have hNe : x ≠ top := fun hEq => hTop (hEq ▸ hx)
        simpa using hNe
      refine ⟨⟨rest.2, rest.1⟩, children.mergePairs cmp, ?_, ?_⟩
      · simp only [exec, hRest, Option.map_some]
      · refine ⟨Forest.single_mergePairs children, hOrdered.2.1.mergePairs hCmp, hHangsRest, ?_,
          hNodup.filter _⟩
        refine (Forest.elems_mergePairs cmp children).trans ?_
        rw [← hKeep]
        exact hPerm.filter _

/-- However much stack there was: a removal that returns has returned the root. -/
theorem removeMin_returned (hCmp : Forest.StrictWeak cmp) (h : Holds cmp heap nodes f)
    {res : Option τ} (hExec : exec cmp depth heap .removeMin = some (res, heap')) :
    res = heap.heapRoot ∧ ∃ f', Holds cmp heap' (nodes.filter fun x => some x ≠ res) f' := by
  have hLt : nodes.length < max depth (nodes.length + 1) := Nat.le_max_right ..
  obtain ⟨last, f', hEnough, hHolds⟩ := h.removeMin hCmp hLt
  rw [exec, Option.map_eq_some_iff] at hExec
  obtain ⟨removed, hRemove, hEq⟩ := hExec
  have hMono := removeMin_mono (Nat.le_max_left depth (nodes.length + 1)) hRemove
  rw [exec, hMono, Option.map_some, hEq, Option.some.injEq, Prod.mk.injEq] at hEnough
  obtain ⟨rfl, rfl⟩ := hEnough
  exact ⟨rfl, f', hHolds⟩

/-- The list of children of each node becomes a tree when there is enough stack. -/
theorem treeify_returns (h : Holds cmp heap nodes f) (hMem : node ∈ nodes)
    (hDepth : nodes.length < depth) :
    (pairingHeapTreeify cmp depth heap.hooks (heap.hooks.child node)).isSome := by
  obtain ⟨-, -, hHangs, hPerm, hNodup⟩ := h
  obtain ⟨g, hChildren, hSub⟩ := hHangs.child_of_mem (hPerm.mem_iff.mpr hMem)
  have hNodupChildren : g.elems.Nodup := (hPerm.nodup_iff.mpr hNodup).sublist hSub
  have hEnough : g.trees < depth := by
    have hTrees := Forest.trees_le_length_elems g
    have hLength := hSub.length_le
    rw [hPerm.length_eq] at hLength
    omega
  obtain ⟨rest, hRest, -⟩ := hangs_treeify cmp hEnough hChildren hNodupChildren
  rw [hRest, Option.isSome_some]

/-- Removing as often as there are nodes gives all of them in order. -/
theorem drain (hCmp : Forest.StrictWeak cmp) (h : Holds cmp heap nodes f)
    (hDepth : nodes.length < depth) :
    ∃ (sorted : List τ) (last : State τ), System.replay (exec cmp depth) heap (List.replicate nodes.length .removeMin) =
        some (sorted.map fun node => (.removeMin, some node), last) ∧
      sorted.Perm nodes ∧ sorted.Pairwise (fun a b => cmp b a = false) ∧ last.heapRoot = none := by
  induction hLength : nodes.length generalizing heap nodes f with
  | zero =>
      have hNodes : nodes = [] := List.eq_nil_of_length_eq_zero hLength
      refine ⟨[], heap, rfl, hNodes ▸ .refl _, .nil, ?_⟩
      exact h.getMin_eq_none_iff.mpr hNodes
  | succ n ih =>
      obtain ⟨heap', f', hExec, hHolds⟩ := h.removeMin hCmp hDepth
      cases hRoot : heap.heapRoot with
      | none =>
          have hNodes := h.getMin_eq_none_iff.mp hRoot
          rw [hNodes] at hLength
          cases hLength
      | some root =>
          obtain ⟨hMem, hLeast⟩ := h.getMin_spec hCmp hRoot
          rw [hRoot] at hExec hHolds
          have hPerm : (root :: nodes.filter fun x => some x ≠ some root).Perm nodes := by
            have hErase : nodes.erase root = nodes.filter fun x => some x ≠ some root := by
              rw [h.nodup.erase_eq_filter]
              apply List.filter_congr
              intro x _
              rw [Bool.eq_iff_iff]
              simp
            rw [← hErase]
            exact (List.perm_cons_erase hMem).symm
          have hRest : (nodes.filter fun x => some x ≠ some root).length = n := by
            have hCount := hPerm.length_eq
            rw [List.length_cons, hLength] at hCount
            exact Nat.succ.inj hCount
          obtain ⟨sorted, last, hReplay, hSorted, hPairwise, hEmpty⟩ :=
            ih hHolds (by omega) hRest
          refine ⟨root :: sorted, last, ?_, (hSorted.cons root).trans hPerm, ?_, hEmpty⟩
          · rw [List.replicate_succ, System.replay, hExec]
            simp only [hReplay, Option.map_some, List.map_cons]
          · refine List.pairwise_cons.mpr ⟨fun x hx => ?_, hPairwise⟩
            exact hLeast x (List.mem_of_mem_filter (hSorted.mem_iff.mp hx))

end Holds

theorem fresh_nil : Fresh ([] : List (Call τ × Option τ)) := by
  intro before node res hPrefix
  have hNil := List.prefix_nil.mp hPrefix
  simp at hNil

theorem Fresh.snoc {entry : Call τ × Option τ} (h : Fresh trace)
    (hNew : ∀ node, entry.1 = .insert node → node ∉ contents trace) : Fresh (trace ++ [entry]) := by
  intro before node res hPrefix
  rcases List.prefix_concat_iff.mp hPrefix with hAll | hPrefix
  · obtain ⟨rfl, hEntry⟩ := List.append_inj' hAll rfl
    cases hEntry
    exact hNew node rfl
  · exact h before node res hPrefix

theorem Fresh.before {entry : Call τ × Option τ} (h : Fresh (trace ++ [entry])) : Fresh trace :=
  fun before node res hPrefix => h before node res (hPrefix.trans (List.prefix_append ..))

/-- Whatever forest hangs on the root, it is ordered. -/
def Sorted (cmp : τ → τ → Bool) (hooks : Hooks τ) (heapRoot : Option τ) : Prop :=
  ∀ f : Forest τ, Hangs hooks f heapRoot → f.Ordered cmp

namespace Sorted

variable {hooks' : Hooks τ} {heapRoot : Option τ} {elements touched : List τ}

omit [DecidableEq τ] in
theorem empty : Sorted cmp hooks none := by
  intro f hHangs
  have hNil : f = .nil := hHangs.unique (g := .nil) rfl
  subst hNil
  trivial

omit [DecidableEq τ] in
/-- The hooks of other nodes change. -/
theorem frame (h : Sorted cmp hooks heapRoot) (hHeap : Heap hooks heapRoot elements)
    (hSame : Same hooks hooks' touched) (hDisjoint : ∀ x ∈ elements, x ∉ touched) :
    Sorted cmp hooks' heapRoot := by
  obtain ⟨f, -, hHangs, hPerm, -⟩ := hHeap
  intro g hAfter
  have hFrame : Hangs hooks' f heapRoot :=
    hHangs.frame hSame fun x hx => hDisjoint x (hPerm.mem_iff.mp hx)
  rw [← hFrame.unique hAfter]
  exact h f hHangs

omit [DecidableEq τ] in
/-- Only how the nodes of the heap compare matters. -/
theorem congr {cmp' : τ → τ → Bool} (h : Sorted cmp hooks heapRoot)
    (hHeap : Heap hooks heapRoot elements)
    (hSame : ∀ x ∈ elements, ∀ y ∈ elements, cmp' x y = cmp x y) : Sorted cmp' hooks heapRoot := by
  obtain ⟨f, -, hHangs, hPerm, -⟩ := hHeap
  intro g hAfter
  rw [← hHangs.unique hAfter]
  apply (h f hHangs).congr
  intro x hx y hy
  exact hSame x (hPerm.mem_iff.mp hx) y (hPerm.mem_iff.mp hy)

theorem insert (hCmp : Forest.StrictWeak cmp) (h : Sorted cmp hooks heapRoot)
    (hHeap : Heap hooks heapRoot elements) (hNew : node ∉ elements) :
    Sorted cmp (pairingHeapInsert cmp hooks heapRoot node).2
      (pairingHeapInsert cmp hooks heapRoot node).1 := by
  obtain ⟨f, hSingle, hHangs, hPerm, hNodup⟩ := hHeap
  have hHolds : Holds cmp ⟨hooks, heapRoot⟩ elements f := ⟨hSingle, h f hHangs, hHangs, hPerm, hNodup⟩
  have hInserted := hHolds.insert hCmp hNew
  intro g hAfter
  rw [← hInserted.hangs.unique hAfter]
  exact hInserted.ordered

/-- The node that comes out is not larger than the one that is at the root afterwards. -/
theorem removeMin (hCmp : Forest.StrictWeak cmp) (h : Sorted cmp hooks heapRoot)
    (hHeap : Heap hooks heapRoot elements) {res : Option τ} {rest : Option τ × Hooks τ}
    (hRemove : pairingHeapRemoveMin cmp depth hooks heapRoot = some (res, rest)) :
    Sorted cmp rest.2 rest.1 ∧
      ∀ first next, res = some first → rest.1 = some next → cmp next first = false := by
  obtain ⟨f, hSingle, hHangs, hPerm, hNodup⟩ := hHeap
  have hHolds : Holds cmp ⟨hooks, heapRoot⟩ elements f := ⟨hSingle, h f hHangs, hHangs, hPerm, hNodup⟩
  have hExec : exec cmp depth ⟨hooks, heapRoot⟩ .removeMin = some (res, ⟨rest.2, rest.1⟩) := by
    rw [exec, hRemove, Option.map_some]
  obtain ⟨hRoot, g, hAfter⟩ := hHolds.removeMin_returned hCmp hExec
  constructor
  · intro f' hHangs'
    rw [← hAfter.hangs.unique hHangs']
    exact hAfter.ordered
  · intro first next hFirst hNext
    have hMin : pairingHeapGetMin heapRoot = some first := hRoot.symm.trans hFirst
    have hMem : next ∈ elements.filter fun x => some x ≠ res := (hAfter.getMin_spec hCmp hNext).1
    exact (hHolds.getMin_spec hCmp hMin).2 next (List.mem_of_mem_filter hMem)

end Sorted

omit [DecidableEq τ] in
theorem lessThan_strictWeak (key : τ → Nat) : Forest.StrictWeak fun a b => decide (key a < key b) where
  irrefl a := by simp
  trans a b c hab hbc := by
    rw [decide_eq_true_eq] at hab hbc ⊢
    exact Nat.lt_trans hab hbc
  incomp_trans a b c hab hbc := by
    simp only [decide_eq_true_eq] at hab hbc ⊢
    omega

/-- One completed call. -/
theorem Holds.step (hCmp : Forest.StrictWeak cmp) {entry : Call τ × Option τ}
    (h : Holds cmp heap (contents trace) f) (hFresh : Fresh (trace ++ [entry]))
    (hExec : exec cmp depth heap entry.1 = some (entry.2, heap')) :
    ∃ f', Holds cmp heap' (contents (trace ++ [entry])) f' := by
  obtain ⟨call, res⟩ := entry
  rw [contents_append]
  cases call with
  | insert node =>
      have hNew : node ∉ contents trace := hFresh trace node res (List.prefix_refl _)
      cases hExec
      exact ⟨_, h.insert hCmp hNew⟩
  | removeMin => exact (h.removeMin_returned hCmp hExec).2

theorem holds_run (hCmp : Forest.StrictWeak cmp) (run : (system cmp depth hooks).Execution trace heap)
    (hFresh : Fresh trace) : ∃ f, Holds cmp heap (contents trace) f := by
  induction run with
  | start hInit =>
      cases hInit
      exact ⟨.nil, Holds.init⟩
  | step prior last ih =>
      obtain ⟨f, hHolds⟩ := ih hFresh.before
      exact hHolds.step hCmp hFresh last

/-- After every sequence of insertions of new nodes and removals the heap is a tree of exactly
the nodes that were inserted and not removed, in which no node is smaller than its parent and
whose root has no sibling. `getMin` and `removeMin` return a node such that no node in the heap
is smaller, or nothing if the heap is empty; removing until the heap is empty gives all nodes in
non-decreasing order, and `treeify` comes to an end on the children of every node. -/
theorem pairing_heap_is_priority_queue (hCmp : Forest.StrictWeak cmp)
    (run : (system cmp depth hooks).Execution trace heap) (hFresh : Fresh trace) :
    (contents trace).Nodup ∧
    (∃ f : Forest τ, f.Single ∧ f.Ordered cmp ∧ Hangs heap.hooks f heap.heapRoot ∧
      f.elems.Perm (contents trace)) ∧
    (∀ root, heap.heapRoot = some root → heap.hooks.next root = none) ∧
    (pairingHeapGetMin heap.heapRoot = none ↔ contents trace = []) ∧
    (∀ node, pairingHeapGetMin heap.heapRoot = some node →
      node ∈ contents trace ∧ ∀ x ∈ contents trace, cmp x node = false) ∧
    (∀ depth res heap', exec cmp depth heap .removeMin = some (res, heap') →
      res = pairingHeapGetMin heap.heapRoot) ∧
    ∀ depth, (contents trace).length < depth →
      (exec cmp depth heap .removeMin).isSome ∧
      (∀ node ∈ contents trace,
        (pairingHeapTreeify cmp depth heap.hooks (heap.hooks.child node)).isSome) ∧
      ∃ (sorted : List τ) (last : State τ),
        System.replay (exec cmp depth) heap (List.replicate (contents trace).length .removeMin) =
          some (sorted.map fun node => (.removeMin, some node), last) ∧
        sorted.Perm (contents trace) ∧ sorted.Pairwise (fun a b => cmp b a = false) ∧
        last.heapRoot = none := by
  obtain ⟨f, h⟩ := holds_run hCmp run hFresh
  refine ⟨h.nodup, ⟨f, h.single, h.ordered, h.hangs, h.perm⟩, fun root => h.root_next,
    h.getMin_eq_none_iff, fun node => h.getMin_spec hCmp, ?_, fun depth hDepth => ⟨?_, ?_, ?_⟩⟩
  · intro depth res heap' hExec
    exact (h.removeMin_returned hCmp hExec).1
  · obtain ⟨heap', f', hExec, -⟩ := h.removeMin hCmp hDepth
    rw [hExec, Option.isSome_some]
  · intro node hMem
    exact h.treeify_returns hMem hDepth
  · exact h.drain hCmp hDepth

/-- Three numbers go in and the smallest comes out. -/
theorem pairing_heap_is_priority_queue_three :
    ∃ heap : State Nat,
      (system (fun a b => decide (a < b)) 4 ⟨fun _ => none, fun _ => none⟩).Execution
        [(.insert 2, none), (.insert 1, none), (.insert 3, none), (.removeMin, some 1)] heap ∧
      pairingHeapGetMin heap.heapRoot = some 2 ∧
      ∃ f : Forest Nat, f.Ordered (fun a b => decide (a < b)) ∧ f.elems.Perm [3, 2] := by
  obtain ⟨heap, hRun, hMin⟩ : ∃ heap : State Nat,
      (system (fun a b => decide (a < b)) 4 ⟨fun _ => none, fun _ => none⟩).Execution
        [(.insert 2, none), (.insert 1, none), (.insert 3, none), (.removeMin, some 1)] heap ∧
      pairingHeapGetMin heap.heapRoot = some 2 :=
    ⟨_, System.Execution.of_replay [.insert 2, .insert 1, .insert 3, .removeMin] rfl, rfl⟩
  have hFresh : Fresh [((Call.insert 2 : Call Nat), (none : Option Nat)), (.insert 1, none),
      (.insert 3, none), (.removeMin, some 1)] := by
    apply (((fresh_nil.snoc ?_).snoc ?_).snoc ?_).snoc
    all_goals
      intro node hNode
      cases hNode
      try decide
  obtain ⟨-, ⟨f, -, hOrdered, -, hPerm⟩, -⟩ :=
    pairing_heap_is_priority_queue (lessThan_strictWeak id) hRun hFresh
  exact ⟨heap, hRun, hMin, f, hOrdered, hPerm⟩

end Ricerca.PairingHeap
