import Mathlib.Data.List.Nodup
import Mathlib.Logic.Function.Basic
import Mathlib.Tactic.Common

/-! Intrusive doubly linked lists. The links are fields of the nodes and live in a
memory that is shared by all lists; a list itself is a pair of pointers. A list
represents a sequence of nodes when its links run through them both ways. -/
namespace Ricerca.Foundation

universe u

/-- The link fields of all nodes. -/
structure Links (α : Type u) where
  next : α → Option α
  prev : α → Option α

/-- Head and tail of one list. -/
structure DList (α : Type u) where
  head : Option α
  tail : Option α
  deriving DecidableEq

variable {α : Type u}

/-- `LIST_INIT`. -/
def DList.empty : DList α := ⟨none, none⟩

namespace Links

variable [DecidableEq α]

def setNext (m : Links α) (node : α) (v : Option α) : Links α :=
  { m with next := Function.update m.next node v }

def setPrev (m : Links α) (node : α) (v : Option α) : Links α :=
  { m with prev := Function.update m.prev node v }

end Links

namespace DList

variable [DecidableEq α]

/-- Append a node after the tail. -/
def appendTail (l : DList α) (m : Links α) (node : α) : DList α × Links α :=
  let m := m.setNext node none
  match l.tail with
  | none => (⟨some node, some node⟩, m.setPrev node none)
  | some tail => (⟨l.head, some node⟩, (m.setNext tail (some node)).setPrev node (some tail))

/-- Take the node at the head off the list. -/
def removeHead (l : DList α) (m : Links α) : Option α × DList α × Links α :=
  match l.head with
  | none => (none, l, m)
  | some result =>
      match m.next result with
      | none => (some result, ⟨none, none⟩, m)
      | some next => (some result, ⟨some next, l.tail⟩, m.setPrev next none)

end DList

/-- The links run through `nodes` in both directions, entering after `before`. -/
def LinksThrough (m : Links α) : (before : Option α) → (nodes : List α) → Prop
  | _, [] => True
  | before, node :: nodes =>
      m.prev node = before ∧ m.next node = nodes.head? ∧ LinksThrough m (some node) nodes

/-- The list with these links is the sequence `nodes`. -/
structure Represents (m : Links α) (l : DList α) (nodes : List α) : Prop where
  head_eq : l.head = nodes.head?
  tail_eq : l.tail = nodes.getLast?
  nodup : nodes.Nodup
  linked : LinksThrough m none nodes

/-- Links only depend on the fields of the nodes that they run through. -/
theorem LinksThrough.congr {m m' : Links α} {before : Option α} {nodes : List α}
    (h : LinksThrough m before nodes)
    (hSame : ∀ a ∈ nodes, m'.next a = m.next a ∧ m'.prev a = m.prev a) :
    LinksThrough m' before nodes := by
  induction nodes generalizing before with
  | nil => trivial
  | cons node nodes ih =>
      obtain ⟨hPrev, hNext, hRest⟩ := h
      obtain ⟨hSameNext, hSamePrev⟩ := hSame node (List.mem_cons_self ..)
      refine ⟨hSamePrev.trans hPrev, hSameNext.trans hNext, ih hRest fun a ha => ?_⟩
      exact hSame a (List.mem_cons_of_mem _ ha)

theorem Represents.congr {m m' : Links α} {l : DList α} {nodes : List α}
    (h : Represents m l nodes)
    (hSame : ∀ a ∈ nodes, m'.next a = m.next a ∧ m'.prev a = m.prev a) :
    Represents m' l nodes :=
  ⟨h.head_eq, h.tail_eq, h.nodup, h.linked.congr hSame⟩

theorem Represents.empty (m : Links α) : Represents m DList.empty [] :=
  ⟨rfl, rfl, List.nodup_nil, trivial⟩

/-- The same links with the directions exchanged. -/
def Links.flip (m : Links α) : Links α := ⟨m.prev, m.next⟩

/-- The same list, entered from the other end. -/
def DList.flip (l : DList α) : DList α := ⟨l.tail, l.head⟩

/-- Each node is linked to its neighbours in the sequence. -/
theorem LinksThrough.split {m : Links α} {before : Option α} {front back : List α} {node : α}
    (h : LinksThrough m before (front ++ node :: back)) :
    m.prev node = front.getLast?.or before ∧ m.next node = back.head? := by
  induction front generalizing before with
  | nil => exact ⟨h.1, h.2.1⟩
  | cons first front ih =>
      obtain ⟨-, -, hRest⟩ := h
      obtain ⟨hPrev, hNext⟩ := ih hRest
      refine ⟨?_, hNext⟩
      rw [hPrev, List.getLast?_cons]
      cases front.getLast? <;> rfl

theorem LinksThrough.of_split {m : Links α} {before : Option α} {nodes : List α}
    (h : ∀ front node back, nodes = front ++ node :: back →
      m.prev node = front.getLast?.or before ∧ m.next node = back.head?) :
    LinksThrough m before nodes := by
  induction nodes generalizing before with
  | nil => trivial
  | cons first nodes ih =>
      obtain ⟨hPrev, hNext⟩ := h [] first nodes rfl
      refine ⟨hPrev, hNext, ih fun front node back hSplit => ?_⟩
      obtain ⟨hPrev', hNext'⟩ := h (first :: front) node back (by rw [hSplit, List.cons_append])
      refine ⟨?_, hNext'⟩
      rw [hPrev', List.getLast?_cons]
      cases front.getLast? <;> rfl

theorem Represents.split {m : Links α} {l : DList α} {front back : List α} {node : α}
    (h : Represents m l (front ++ node :: back)) :
    m.prev node = front.getLast? ∧ m.next node = back.head? := by
  simpa using h.linked.split

theorem Represents.of_split {m : Links α} {l : DList α} {nodes : List α}
    (hHead : l.head = nodes.head?) (hTail : l.tail = nodes.getLast?) (hNodup : nodes.Nodup)
    (h : ∀ front node back, nodes = front ++ node :: back →
      m.prev node = front.getLast? ∧ m.next node = back.head?) : Represents m l nodes := by
  refine ⟨hHead, hTail, hNodup, .of_split fun front node back hSplit => ?_⟩
  simpa using h front node back hSplit

/-- Entered from the other end, the list is the reversed sequence. -/
theorem Represents.flip {m : Links α} {l : DList α} {nodes : List α} (h : Represents m l nodes) :
    Represents m.flip l.flip nodes.reverse := by
  apply Represents.of_split
  · rw [List.head?_reverse]
    exact h.tail_eq
  · rw [List.getLast?_reverse]
    exact h.head_eq
  · exact List.nodup_reverse.mpr h.nodup
  · intro front node back hSplit
    have hNodes : nodes = back.reverse ++ node :: front.reverse := by
      have hReverse := congrArg List.reverse hSplit
      simpa using hReverse
    obtain ⟨hPrev, hNext⟩ := (hNodes ▸ h).split
    rw [List.getLast?_reverse] at hPrev
    rw [List.head?_reverse] at hNext
    exact ⟨hNext, hPrev⟩

variable [DecidableEq α]

/-- Hanging a new node behind the last one. -/
theorem LinksThrough.append {m : Links α} {before : Option α} {nodes : List α} {last node : α}
    (h : LinksThrough m before (nodes ++ [last])) (hNodup : (nodes ++ [last]).Nodup)
    (hNew : node ∉ nodes ++ [last]) :
    LinksThrough (((m.setNext node none).setNext last (some node)).setPrev node (some last)) before
      (nodes ++ [last] ++ [node]) := by
  induction nodes generalizing before with
  | nil =>
      obtain ⟨hPrev, -, -⟩ := h
      have hNe : last ≠ node := fun hEq => hNew (by simp [hEq])
      have hNe' : node ≠ last := Ne.symm hNe
      simp [LinksThrough, Links.setNext, Links.setPrev, hNe, hNe', hPrev]
  | cons first nodes ih =>
      rw [List.cons_append] at h hNodup hNew
      obtain ⟨hPrev, hNext, hRest⟩ := h
      simp only [List.nodup_cons, List.mem_cons, not_or] at hNodup hNew
      have hLast : first ≠ last := fun hEq => hNodup.1 (by simp [hEq])
      have hNode : first ≠ node := Ne.symm hNew.1
      rw [List.cons_append, List.cons_append]
      refine ⟨?_, ?_, ih hRest hNodup.2 hNew.2⟩
      · simpa [Links.setNext, Links.setPrev, hNode] using hPrev
      · have hHead : (nodes ++ [last] ++ [node]).head? = (nodes ++ [last]).head? := by
          cases nodes <;> simp
        rw [hHead, ← hNext]
        simp [Links.setNext, Links.setPrev, hNode, hLast]

/-- `appendTail` puts the node at the end of the sequence. -/
theorem Represents.appendTail {m : Links α} {l : DList α} {nodes : List α} {node : α}
    (h : Represents m l nodes) (hNew : node ∉ nodes) :
    Represents (l.appendTail m node).2 (l.appendTail m node).1 (nodes ++ [node]) := by
  rcases List.eq_nil_or_concat nodes with rfl | ⟨front, last, rfl⟩
  · have hTail : l.tail = none := h.tail_eq
    refine ⟨?_, ?_, List.nodup_singleton _, ?_⟩
    · simp [DList.appendTail, hTail]
    · simp [DList.appendTail, hTail]
    · simp [DList.appendTail, hTail, LinksThrough, Links.setNext, Links.setPrev]
  · rw [List.concat_eq_append] at h hNew ⊢
    have hTail : l.tail = some last := by simpa using h.tail_eq
    have hHead := h.head_eq
    refine ⟨?_, ?_, ?_, ?_⟩
    · cases front <;> simp [DList.appendTail, hTail, hHead]
    · simp [DList.appendTail, hTail]
    · exact List.nodup_append'.mpr ⟨h.nodup, List.nodup_singleton _, by simpa using hNew⟩
    · simp only [DList.appendTail, hTail]
      exact h.linked.append h.nodup hNew

/-- Links of nodes outside the list do not change when a node is appended. -/
theorem Represents.appendTail_frame {m : Links α} {l : DList α} {nodes : List α} {node a : α}
    (h : Represents m l nodes) (hOut : a ∉ nodes) (hNe : a ≠ node) :
    (l.appendTail m node).2.next a = m.next a ∧ (l.appendTail m node).2.prev a = m.prev a := by
  cases hTail : l.tail with
  | none => simp [DList.appendTail, hTail, Links.setNext, Links.setPrev, hNe]
  | some tail =>
      have hMem : tail ∈ nodes := List.mem_of_getLast? (h.tail_eq ▸ hTail)
      have hOther : a ≠ tail := fun hEq => hOut (hEq ▸ hMem)
      simp [DList.appendTail, hTail, Links.setNext, Links.setPrev, hNe, hOther]

theorem Represents.removeHead_nil {m : Links α} {l : DList α} (h : Represents m l []) :
    l.removeHead m = (none, l, m) := by
  have hHead : l.head = none := h.head_eq
  simp [DList.removeHead, hHead]

/-- `removeHead` takes the first node of the sequence and changes the links of
nodes of this list only. -/
theorem Represents.removeHead_cons {m : Links α} {l : DList α} {node : α} {nodes : List α}
    (h : Represents m l (node :: nodes)) :
    (l.removeHead m).1 = some node ∧
    Represents (l.removeHead m).2.2 (l.removeHead m).2.1 nodes ∧
    ∀ a, a ∉ nodes →
      (l.removeHead m).2.2.next a = m.next a ∧ (l.removeHead m).2.2.prev a = m.prev a := by
  have hHead : l.head = some node := h.head_eq
  obtain ⟨-, hNext, hRest⟩ := h.linked
  have hNodup := h.nodup
  cases nodes with
  | nil =>
      simp only [DList.removeHead, hHead, hNext, List.head?_nil]
      exact ⟨trivial, Represents.empty m, fun _ _ => ⟨trivial, trivial⟩⟩
  | cons second rest =>
      simp only [DList.removeHead, hHead, hNext, List.head?_cons]
      obtain ⟨hPrev, hNext', hRest'⟩ := hRest
      have hOut : second ∉ rest := (List.nodup_cons.mp (List.nodup_cons.mp hNodup).2).1
      refine ⟨trivial, ⟨rfl, ?_, (List.nodup_cons.mp hNodup).2, ?_, hNext', ?_⟩, ?_⟩
      · simpa using h.tail_eq
      · simp [Links.setPrev]
      · refine hRest'.congr fun a ha => ⟨rfl, ?_⟩
        have hNe : a ≠ second := fun hEq => hOut (hEq ▸ ha)
        simp [Links.setPrev, hNe]
      · intro a ha
        have hNe : a ≠ second := fun hEq => ha (by simp [hEq])
        simp [Links.setPrev, hNe]

/-- Taking a node out from between its neighbours. -/
theorem LinksThrough.unlink {m : Links α} {before : Option α} {front back : List α}
    {prev node next : α} (h : LinksThrough m before (front ++ prev :: node :: next :: back))
    (hNodup : (front ++ prev :: node :: next :: back).Nodup) :
    LinksThrough ((m.setNext prev (some next)).setPrev next (some prev)) before
      (front ++ prev :: next :: back) := by
  induction front generalizing before with
  | nil =>
      obtain ⟨hPrev, -, -, -, -, hNext, hRest⟩ := h
      simp only [List.nil_append, List.nodup_cons, List.mem_cons, not_or] at hNodup
      obtain ⟨⟨-, hNe, hPrevOut⟩, -, hNextOut, -⟩ := hNodup
      refine ⟨?_, ?_, ?_, ?_, hRest.congr fun a ha => ⟨?_, ?_⟩⟩
      · simpa [Links.setNext, Links.setPrev, hNe] using hPrev
      · simp [Links.setNext, Links.setPrev]
      · simp [Links.setNext, Links.setPrev]
      · simpa [Links.setNext, Links.setPrev, Ne.symm hNe] using hNext
      · have hOther : a ≠ prev := fun hEq => hPrevOut (hEq ▸ ha)
        simp [Links.setNext, Links.setPrev, hOther]
      · have hOther : a ≠ next := fun hEq => hNextOut (hEq ▸ ha)
        simp [Links.setNext, Links.setPrev, hOther]
  | cons first front ih =>
      rw [List.cons_append] at h hNodup ⊢
      obtain ⟨hPrev, hNext, hRest⟩ := h
      obtain ⟨hOut, hNodup⟩ := List.nodup_cons.mp hNodup
      have hNePrev : first ≠ prev := fun hEq => hOut (by simp [hEq])
      have hNeNext : first ≠ next := fun hEq => hOut (by simp [hEq])
      refine ⟨?_, ?_, ih hRest hNodup⟩
      · simpa [Links.setNext, Links.setPrev, hNeNext] using hPrev
      · have hHead : (front ++ prev :: next :: back).head? =
            (front ++ prev :: node :: next :: back).head? := by
          cases front <;> rfl
        rw [hHead, ← hNext]
        simp [Links.setNext, Links.setPrev, hNePrev]

theorem Represents.unlink {m : Links α} {l : DList α} {front back : List α} {prev node next : α}
    (h : Represents m l (front ++ prev :: node :: next :: back)) :
    Represents ((m.setNext prev (some next)).setPrev next (some prev)) l
      (front ++ prev :: next :: back) := by
  refine ⟨?_, ?_, ?_, h.linked.unlink h.nodup⟩
  · rw [h.head_eq]
    cases front <;> rfl
  · simpa using h.tail_eq
  · have hSub : List.Sublist (front ++ prev :: next :: back) (front ++ prev :: node :: next :: back) := by
      apply List.Sublist.append_left
      exact .cons_cons prev (.cons node (List.Sublist.refl _))
    exact h.nodup.sublist hSub

/-- Singly linked: `next` runs from `head` through `nodes` to the end. -/
inductive Linked (next : α → Option α) : Option α → List α → Prop where
  | nil : Linked next none []
  | cons {node : α} {nodes : List α} (rest : Linked next (next node) nodes) :
      Linked next (some node) (node :: nodes)

namespace Linked

variable {next next' : α → Option α} {head : Option α} {nodes : List α} {node last : α}

omit [DecidableEq α] in
theorem congr (h : Linked next head nodes) (hSame : ∀ a ∈ nodes, next' a = next a) :
    Linked next' head nodes := by
  induction h with
  | nil => exact .nil
  | @cons node nodes _ ih =>
      refine .cons ?_
      rw [hSame node (List.mem_cons_self ..)]
      exact ih fun a ha => hSame a (List.mem_cons_of_mem _ ha)

omit [DecidableEq α] in
theorem head_eq (h : Linked next head nodes) : head = nodes.head? := by
  cases h <;> rfl

omit [DecidableEq α] in
theorem pop (h : Linked next head (node :: nodes)) : Linked next (next node) nodes := by
  cases h with
  | cons rest => exact rest

omit [DecidableEq α] in
/-- The link of a node leads to the nodes behind it. -/
theorem next_eq {before after : List α} (h : Linked next head (before ++ node :: after)) :
    next node = after.head? := by
  induction before generalizing head with
  | nil => exact h.pop.head_eq
  | cons first before ih =>
      cases h with
      | cons rest => exact ih rest

/-- A node is taken out behind another one. -/
theorem unlink {before after : List α} {prev : α}
    (h : Linked next head (before ++ prev :: node :: after))
    (hNodup : (before ++ prev :: node :: after).Nodup) :
    Linked (Function.update next prev (next node)) head (before ++ prev :: after) := by
  induction before generalizing head with
  | nil =>
      cases h with
      | cons rest =>
          have hOut : prev ∉ after := by
            intro hMem
            exact (List.nodup_cons.mp hNodup).1 (List.mem_cons_of_mem _ hMem)
          apply Linked.cons
          rw [Function.update_self]
          apply rest.pop.congr
          intro other hMem
          apply Function.update_of_ne
          rintro rfl
          exact hOut hMem
  | cons first before ih =>
      cases h with
      | cons rest =>
          obtain ⟨hFirst, hRest⟩ := List.nodup_cons.mp hNodup
          have hNe : first ≠ prev := by
            rintro rfl
            simp at hFirst
          apply Linked.cons
          rw [Function.update_of_ne hNe]
          exact ih rest hRest

/-- A new node in front. -/
theorem push (h : Linked next head nodes) (hNew : node ∉ nodes) :
    Linked (Function.update next node head) (some node) (node :: nodes) := by
  refine .cons ?_
  rw [Function.update_self]
  refine h.congr fun a ha => Function.update_of_ne ?_ _ _
  rintro rfl
  exact hNew ha

/-- A new node behind the last one. -/
theorem append (h : Linked next head (nodes ++ [last])) (hNodup : (nodes ++ [last]).Nodup)
    (hNew : node ∉ nodes ++ [last]) :
    Linked (Function.update (Function.update next node none) last (some node)) head
      (nodes ++ [last] ++ [node]) := by
  induction nodes generalizing head with
  | nil =>
      cases h
      have hNe : node ≠ last := by simpa using hNew
      refine .cons ?_
      rw [Function.update_self]
      refine .cons ?_
      rw [Function.update_of_ne hNe, Function.update_self]
      exact .nil
  | cons first nodes ih =>
      cases h with
      | cons rest =>
          simp only [List.cons_append, List.nodup_cons, List.mem_cons, not_or] at hNodup hNew
          have hLast : first ≠ last := fun hEq => hNodup.1 (by simp [hEq])
          refine .cons ?_
          rw [Function.update_of_ne hLast, Function.update_of_ne (Ne.symm hNew.1)]
          exact ih rest hNodup.2 hNew.2

end Linked

omit [DecidableEq α] in
theorem LinksThrough.linked {m : Links α} {before : Option α} {nodes : List α}
    (h : LinksThrough m before nodes) : Linked m.next nodes.head? nodes := by
  induction nodes generalizing before with
  | nil => exact .nil
  | cons node nodes ih =>
      obtain ⟨-, hNext, hRest⟩ := h
      refine .cons ?_
      rw [hNext]
      exact ih hRest

omit [DecidableEq α] in
/-- What one sees of a list by following its links from either end. -/
theorem Represents.follow {m : Links α} {l : DList α} {nodes : List α} (h : Represents m l nodes) :
    Linked m.next l.head nodes ∧ Linked m.prev l.tail nodes.reverse := by
  have hForward : Linked m.next l.head nodes := h.head_eq ▸ h.linked.linked
  have hBackward : Linked m.flip.next l.flip.head nodes.reverse := h.flip.head_eq ▸ h.flip.linked.linked
  exact ⟨hForward, hBackward⟩

end Ricerca.Foundation
