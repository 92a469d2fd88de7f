import Ricerca.Lib.Lists

/-! Intrusive lists and queues refine sequences: each operation has its effect on one
sequence, and the links of all other nodes stay as they are. -/
namespace Ricerca.Lib

open Ricerca.Foundation

variable {ι κ α β : Type}

/-- The links of all nodes outside `nodes` are the same. -/
def Spares (m m' : Links α) (nodes : List α) : Prop :=
  ∀ a ∉ nodes, m'.next a = m.next a ∧ m'.prev a = m.prev a

section Operations

variable [DecidableEq α] {l : DList α} {m : Links α} {node : α} {nodes : List α}

theorem listAppendTail_spec (h : Represents m l nodes) (hNew : node ∉ nodes) :
    Represents (listAppendTail l m node).2 (listAppendTail l m node).1 (nodes ++ [node]) ∧
    Spares m (listAppendTail l m node).2 (nodes ++ [node]) := by
  refine ⟨h.appendTail hNew, fun a hOut => ?_⟩
  rw [List.mem_append, not_or, List.mem_singleton] at hOut
  exact h.appendTail_frame hOut.1 hOut.2

/-- Both ends of a list are treated alike. -/
theorem listAppendHead_flip : listAppendHead l m node =
    ((listAppendTail l.flip m.flip node).1.flip, (listAppendTail l.flip m.flip node).2.flip) := by
  cases hHead : l.head with
  | none =>
      simp only [listAppendHead, listAppendTail, DList.appendTail, DList.flip, hHead]
      rfl
  | some head =>
      simp only [listAppendHead, listAppendTail, DList.appendTail, DList.flip, hHead]
      rfl

theorem listAppendHead_spec (h : Represents m l nodes) (hNew : node ∉ nodes) :
    Represents (listAppendHead l m node).2 (listAppendHead l m node).1 (node :: nodes) ∧
    Spares m (listAppendHead l m node).2 (node :: nodes) := by
  obtain ⟨hTail, hSpares⟩ := listAppendTail_spec h.flip (by simpa using hNew)
  rw [listAppendHead_flip]
  refine ⟨?_, fun a hOut => ?_⟩
  · simpa using hTail.flip
  · obtain ⟨hNext, hPrev⟩ := hSpares a (by simpa [or_comm] using hOut)
    exact ⟨hPrev, hNext⟩

theorem listRemoveHead_spec (h : Represents m l nodes) :
    (listRemoveHead l m).1 = nodes.head? ∧
    Represents (listRemoveHead l m).2.2 (listRemoveHead l m).2.1 nodes.tail ∧
    Spares m (listRemoveHead l m).2.2 nodes.tail := by
  cases nodes with
  | nil =>
      rw [listRemoveHead, h.removeHead_nil]
      exact ⟨rfl, h, fun _ _ => ⟨rfl, rfl⟩⟩
  | cons first rest => exact h.removeHead_cons

theorem listRemoveTail_flip : listRemoveTail l m =
    ((listRemoveHead l.flip m.flip).1, (listRemoveHead l.flip m.flip).2.1.flip,
      (listRemoveHead l.flip m.flip).2.2.flip) := by
  cases hTail : l.tail with
  | none =>
      cases l
      cases hTail
      rfl
  | some tail =>
      cases hPrev : m.prev tail with
      | none =>
          simp only [listRemoveTail, listRemoveHead, DList.removeHead, DList.flip, Links.flip, hTail,
            hPrev]
      | some prev =>
          simp only [listRemoveTail, listRemoveHead, DList.removeHead, DList.flip, Links.flip, hTail,
            hPrev]
          rfl

theorem listRemoveTail_spec (h : Represents m l nodes) :
    (listRemoveTail l m).1 = nodes.getLast? ∧
    Represents (listRemoveTail l m).2.2 (listRemoveTail l m).2.1 nodes.dropLast ∧
    Spares m (listRemoveTail l m).2.2 nodes.dropLast := by
  obtain ⟨hResult, hHead, hSpares⟩ := listRemoveHead_spec h.flip
  rw [List.tail_reverse] at hHead hSpares
  rw [listRemoveTail_flip]
  refine ⟨?_, ?_, fun a hOut => ?_⟩
  · rw [hResult, List.head?_reverse]
  · simpa using hHead.flip
  · obtain ⟨hNext, hPrev⟩ := hSpares a (by simpa using hOut)
    exact ⟨hPrev, hNext⟩

/-- The node is at the head, at the tail, or between two neighbours. -/
theorem listRemove_spec (h : Represents m l nodes) (hMem : node ∈ nodes) :
    ∃ list, listRemove l m node = some list ∧ Represents list.2 list.1 (nodes.erase node) ∧
      Spares m list.2 (nodes.erase node) := by
  obtain ⟨front, back, rfl⟩ := List.append_of_mem hMem
  have hNodup := h.nodup
  have hFront : node ∉ front := by
    intro hIn
    exact (List.disjoint_of_nodup_append hNodup) hIn (List.mem_cons_self ..)
  have hBack : node ∉ back := (List.nodup_cons.mp hNodup.of_append_right).1
  have hErase : (front ++ node :: back).erase node = front ++ back := by
    rw [List.erase_append_right _ hFront, List.erase_cons_head]
  rw [hErase]
  rcases List.eq_nil_or_concat front with rfl | ⟨front, prev, rfl⟩
  · have hHead : l.head = some node := h.head_eq
    obtain ⟨-, hRest, hSpares⟩ := listRemoveHead_spec h
    exact ⟨(listRemoveHead l m).2, by rw [listRemove, if_pos hHead], hRest, hSpares⟩
  · rw [List.concat_eq_append] at h hFront ⊢
    have hHead : l.head ≠ some node := by
      rw [h.head_eq]
      intro hEq
      cases front with
      | nil =>
          cases hEq
          exact hFront (List.mem_singleton_self _)
      | cons first front =>
          cases hEq
          exact hFront (List.mem_cons_self ..)
    cases back with
    | nil =>
        have hTail : l.tail = some node := by simpa using h.tail_eq
        obtain ⟨-, hRest, hSpares⟩ := listRemoveTail_spec h
        rw [List.dropLast_concat] at hRest hSpares
        rw [List.append_nil]
        exact ⟨(listRemoveTail l m).2, by rw [listRemove, if_neg hHead, if_pos hTail], hRest, hSpares⟩
    | cons next back =>
        have hTail : l.tail ≠ some node := by
          rw [h.tail_eq]
          intro hEq
          rw [List.getLast?_append_of_ne_nil _ (by simp), List.getLast?_cons_cons] at hEq
          exact hBack (List.mem_of_getLast? hEq)
        have hLinks := h.split
        have hPrev : m.prev node = some prev := by simpa using hLinks.1
        have hNext : m.next node = some next := hLinks.2
        have hNe : node ≠ prev := by
          rintro rfl
          simp at hFront
        have hResult : listRemove l m node =
            some (l, (m.setNext prev (some next)).setPrev next (some prev)) := by
          rw [listRemove, if_neg hHead, if_neg hTail]
          simp [hPrev, hNext, Links.setNext, hNe]
        refine ⟨_, hResult, ?_, fun a hOut => ?_⟩
        · rw [List.append_assoc] at h ⊢
          exact h.unlink
        · have hOther : a ≠ prev ∧ a ≠ next := by
            constructor
            · rintro rfl
              simp at hOut
            · rintro rfl
              simp at hOut
          simp [Links.setNext, Links.setPrev, hOther.1, hOther.2]

/-- What `queue_dequeue` returns and leaves. -/
theorem dequeue_spec {queue : Queue β} {next : β → Option β} {nodes : List β}
    (h : queue.Holds next nodes) :
    (queueDequeue queue next).1 = nodes.head? ∧
    (queueDequeue queue next).2.Holds next nodes.tail := by
  cases nodes with
  | nil =>
      rw [h.dequeue_nil]
      exact ⟨rfl, h⟩
  | cons first rest =>
      obtain ⟨queue', hDequeue, hRest⟩ := h.dequeue_cons
      rw [hDequeue]
      exact ⟨rfl, hRest⟩

theorem linked_of_chain {next : β → Option β} {head : Option β} {nodes : List β}
    (h : Chain (fun link => link.bind next) none head (nodes.map some)) : Linked next head nodes := by
  induction nodes generalizing head with
  | nil =>
      cases h
      exact .nil
  | cons node nodes ih =>
      obtain ⟨rfl, -, hRest⟩ := h.pop
      exact .cons (ih hRest)

end Operations

/-- The memory holds the sequences, each in its list or queue and apart from the others. -/
structure Refines (s : Memory ι κ α β) (q : Sequences ι κ α β) : Prop where
  lists : ∀ i, Represents s.links (s.lists i) (q.lists i)
  lists_apart : ∀ i j, i ≠ j → (q.lists i).Disjoint (q.lists j)
  queues : ∀ k, (s.queues k).Holds s.next (q.queues k)
  queues_apart : ∀ k j, k ≠ j → (q.queues k).Disjoint (q.queues j)

/-- Lists and queues other than those of the operation, and the links of their nodes, stay
as they are. -/
def Untouched (s s' : Memory ι κ α β) (q : Sequences ι κ α β) (op : Operation ι κ α β) : Prop :=
  (∀ j, op.list? ≠ some j → s'.lists j = s.lists j ∧
    ∀ a ∈ q.lists j, s'.links.next a = s.links.next a ∧ s'.links.prev a = s.links.prev a) ∧
  ∀ j, op.queue? ≠ some j → s'.queues j = s.queues j ∧ ∀ a ∈ q.queues j, s'.next a = s.next a

section Steps

variable {s : Memory ι κ α β} {q : Sequences ι κ α β} {i : ι} {k : κ}

/-- A sequence is put in the place of another one, apart from the rest. -/
theorem apart_update [DecidableEq ι] {seqs : ι → List α} {nodes : List α}
    (h : ∀ i j, i ≠ j → (seqs i).Disjoint (seqs j))
    (hApart : ∀ j, j ≠ i → nodes.Disjoint (seqs j)) (j j' : ι) (hNe : j ≠ j') :
    (Function.update seqs i nodes j).Disjoint (Function.update seqs i nodes j') := by
  by_cases hEq : j = i
  · subst hEq
    rw [Function.update_self, Function.update_of_ne (Ne.symm hNe)]
    exact hApart j' (Ne.symm hNe)
  · rw [Function.update_of_ne hEq]
    by_cases hEq' : j' = i
    · subst hEq'
      rw [Function.update_self]
      exact fun a ha hNodes => hApart j hEq hNodes ha
    · rw [Function.update_of_ne hEq']
      exact h j j' hNe

/-- A list is put in the place of the old one. -/
theorem Refines.putList [DecidableEq ι] (h : Refines s q) {list : DList α × Links α}
    {nodes : List α} (hList : Represents list.2 list.1 nodes) (hSpares : Spares s.links list.2 nodes)
    (hApart : ∀ j, j ≠ i → nodes.Disjoint (q.lists j)) :
    Refines (s.putList i list) (q.putList i nodes) ∧
    ∀ j, j ≠ i → (s.putList i list).lists j = s.lists j ∧
      ∀ a ∈ q.lists j, list.2.next a = s.links.next a ∧ list.2.prev a = s.links.prev a := by
  have hFrame : ∀ j, j ≠ i → ∀ a ∈ q.lists j,
      list.2.next a = s.links.next a ∧ list.2.prev a = s.links.prev a :=
    fun j hNe a ha => hSpares a fun hIn => hApart j hNe hIn ha
  refine ⟨⟨fun j => ?_, apart_update h.lists_apart hApart, h.queues, h.queues_apart⟩,
    fun j hNe => ⟨Function.update_of_ne hNe _ _, hFrame j hNe⟩⟩
  by_cases hEq : j = i
  · subst hEq
    simpa [Memory.putList, Sequences.putList] using hList
  · simp only [Memory.putList, Sequences.putList, Function.update_of_ne hEq]
    exact (h.lists j).congr (hFrame j hEq)

/-- And so is a queue. -/
theorem Refines.putQueue [DecidableEq κ] (h : Refines s q) {queue : Queue β} {next : β → Option β}
    {nodes : List β} (hQueue : queue.Holds next nodes) (hSpares : ∀ a ∉ nodes, next a = s.next a)
    (hApart : ∀ j, j ≠ k → nodes.Disjoint (q.queues j)) :
    Refines (s.putQueue k queue next) (q.putQueue k nodes) ∧
    ∀ j, j ≠ k → (s.putQueue k queue next).queues j = s.queues j ∧
      ∀ a ∈ q.queues j, next a = s.next a := by
  have hFrame : ∀ j, j ≠ k → ∀ a ∈ q.queues j, next a = s.next a :=
    fun j hNe a ha => hSpares a fun hIn => hApart j hNe hIn ha
  refine ⟨⟨h.lists, h.lists_apart, fun j => ?_, apart_update h.queues_apart hApart⟩,
    fun j hNe => ⟨Function.update_of_ne hNe _ _, hFrame j hNe⟩⟩
  by_cases hEq : j = k
  · subst hEq
    simpa [Memory.putQueue, Sequences.putQueue] using hQueue
  · simp only [Memory.putQueue, Sequences.putQueue, Function.update_of_ne hEq]
    exact (h.queues j).congr (hFrame j hEq)

end Steps

section Programs

variable [DecidableEq ι] [DecidableEq κ] [DecidableEq α] [DecidableEq β]
  {s : Memory ι κ α β} {q q' : Sequences ι κ α β} {op : Operation ι κ α β} {r : Returned α β}

/-- A list operation whose effect on the one list is known. -/
theorem Refines.listStep (h : Refines s q) {i : ι} {list : DList α × Links α} {nodes : List α}
    (hList : Represents list.2 list.1 nodes) (hSpares : Spares s.links list.2 nodes)
    (hNodes : ∀ a ∈ nodes, a ∈ q.lists i ∨ ∀ j, a ∉ q.lists j) (hOp : op.list? = some i)
    (hPerform : perform s op = some (r, s.putList i list)) :
    ∃ s', perform s op = some (r, s') ∧ Refines s' (q.putList i nodes) ∧ Untouched s s' q op := by
  have hApart : ∀ j, j ≠ i → nodes.Disjoint (q.lists j) := by
    intro j hNe a ha hOther
    rcases hNodes a ha with hOld | hNew
    · exact h.lists_apart j i hNe hOther hOld
    · exact hNew j hOther
  obtain ⟨hRefines, hFrame⟩ := h.putList hList hSpares hApart
  refine ⟨_, hPerform, hRefines, fun j hNe => hFrame j ?_, fun j _ => ⟨rfl, fun _ _ => rfl⟩⟩
  rintro rfl
  exact hNe hOp

theorem Refines.queueStep (h : Refines s q) {k : κ} {queue : Queue β} {next : β → Option β}
    {nodes : List β} (hQueue : queue.Holds next nodes) (hSpares : ∀ a ∉ nodes, next a = s.next a)
    (hNodes : ∀ a ∈ nodes, a ∈ q.queues k ∨ ∀ j, a ∉ q.queues j) (hOp : op.queue? = some k)
    (hPerform : perform s op = some (r, s.putQueue k queue next)) :
    ∃ s', perform s op = some (r, s') ∧ Refines s' (q.putQueue k nodes) ∧ Untouched s s' q op := by
  have hApart : ∀ j, j ≠ k → nodes.Disjoint (q.queues j) := by
    intro j hNe a ha hOther
    rcases hNodes a ha with hOld | hNew
    · exact h.queues_apart j k hNe hOther hOld
    · exact hNew j hOther
  obtain ⟨hRefines, hFrame⟩ := h.putQueue hQueue hSpares hApart
  refine ⟨_, hPerform, hRefines, fun j _ => ⟨rfl, fun _ _ => ⟨rfl, rfl⟩⟩, fun j hNe => hFrame j ?_⟩
  rintro rfl
  exact hNe hOp

/-- Every operation does to the memory what it does to the sequences. -/
theorem Refines.step (h : Refines s q) (hEffect : Effect q op r q') :
    ∃ s', perform s op = some (r, s') ∧ Refines s' q' ∧ Untouched s s' q op := by
  cases hEffect with
  | @appendHead i node hNew =>
      obtain ⟨hList, hSpares⟩ := listAppendHead_spec (h.lists i) (hNew i)
      refine h.listStep hList hSpares ?_ rfl rfl
      intro a ha
      rcases List.mem_cons.mp ha with rfl | hOld
      · exact Or.inr hNew
      · exact Or.inl hOld
  | @appendTail i node hNew =>
      obtain ⟨hList, hSpares⟩ := listAppendTail_spec (h.lists i) (hNew i)
      refine h.listStep hList hSpares ?_ rfl rfl
      intro a ha
      rcases List.mem_append.mp ha with hOld | hLast
      · exact Or.inl hOld
      · rw [List.mem_singleton.mp hLast]
        exact Or.inr hNew
  | @removeHead i =>
      obtain ⟨hResult, hList, hSpares⟩ := listRemoveHead_spec (h.lists i)
      rw [← hResult]
      exact h.listStep hList hSpares (fun a ha => Or.inl (List.mem_of_mem_tail ha)) rfl rfl
  | @removeTail i =>
      obtain ⟨hResult, hList, hSpares⟩ := listRemoveTail_spec (h.lists i)
      rw [← hResult]
      exact h.listStep hList hSpares (fun a ha => Or.inl (List.dropLast_subset _ ha)) rfl rfl
  | @remove i node hMem =>
      obtain ⟨list, hRemove, hList, hSpares⟩ := listRemove_spec (h.lists i) hMem
      refine h.listStep hList hSpares (fun a ha => Or.inl (List.mem_of_mem_erase ha)) rfl ?_
      simp only [perform, hRemove, Option.map_some]
  | @enqueue k node hNew =>
      obtain ⟨queue, next, hEnqueue, hQueue, hFrame⟩ := (h.queues k).enqueue (hNew k)
      refine h.queueStep hQueue ?_ ?_ rfl (by simp only [perform, hEnqueue, Option.map_some])
      · intro a hOut
        rw [List.mem_append, not_or, List.mem_singleton] at hOut
        exact hFrame a hOut.1 hOut.2
      · intro a ha
        rcases List.mem_append.mp ha with hOld | hLast
        · exact Or.inl hOld
        · rw [List.mem_singleton.mp hLast]
          exact Or.inr hNew
  | @dequeue k =>
      obtain ⟨hResult, hQueue⟩ := dequeue_spec (h.queues k)
      rw [← hResult]
      exact h.queueStep hQueue (fun _ _ => rfl) (fun a ha => Or.inl (List.mem_of_mem_tail ha)) rfl rfl
  | @reuseNode node next prev hFree =>
      have hSame : ∀ j, ∀ a ∈ q.lists j,
          ((s.links.setNext node next).setPrev node prev).next a = s.links.next a ∧
          ((s.links.setNext node next).setPrev node prev).prev a = s.links.prev a := by
        intro j a ha
        have hNe : a ≠ node := by
          rintro rfl
          exact hFree j ha
        simp [Links.setNext, Links.setPrev, hNe]
      exact ⟨_, rfl, ⟨fun i => (h.lists i).congr (hSame i), h.lists_apart, h.queues, h.queues_apart⟩,
        fun j _ => ⟨rfl, hSame j⟩, fun _ _ => ⟨rfl, fun _ _ => rfl⟩⟩
  | @reuseQueueNode node next hFree =>
      have hSame : ∀ j, ∀ a ∈ q.queues j, Function.update s.next node next a = s.next a := by
        intro j a ha
        apply Function.update_of_ne
        rintro rfl
        exact hFree j ha
      exact ⟨_, rfl, ⟨h.lists, h.lists_apart, fun k => (h.queues k).congr (hSame k), h.queues_apart⟩,
        fun _ _ => ⟨rfl, fun _ _ => ⟨rfl, rfl⟩⟩, fun j _ => ⟨rfl, hSame j⟩⟩

/-- One list as its user sees it: the sequence forwards from the head and backwards from
the tail, both of which are null exactly when it is empty. -/
def ListShows (m : Links α) (list : DList α) (nodes : List α) : Prop :=
  Linked m.next list.head nodes ∧ Linked m.prev list.tail nodes.reverse ∧ nodes.Nodup ∧
  (list.head = none ↔ nodes = []) ∧ (list.tail = none ↔ nodes = [])

def QueueShows (next : β → Option β) (queue : Queue β) (nodes : List β) : Prop :=
  Linked next queue.head nodes ∧ queue.tail = nodes.getLast? ∧ nodes.Nodup ∧
  (queue.head = none ↔ nodes = []) ∧ (queue.tail = none ↔ nodes = [])

omit [DecidableEq α] in
theorem listShows {m : Links α} {list : DList α} {nodes : List α} (h : Represents m list nodes) :
    ListShows m list nodes := by
  refine ⟨h.follow.1, h.follow.2, h.nodup, ?_, ?_⟩
  · rw [h.head_eq, List.head?_eq_none_iff]
  · rw [h.tail_eq, List.getLast?_eq_none_iff]

omit [DecidableEq β] in
theorem queueShows {next : β → Option β} {queue : Queue β} {nodes : List β}
    (h : queue.Holds next nodes) : QueueShows next queue nodes := by
  refine ⟨linked_of_chain h.chain, h.tail, h.nodup, ?_, ?_⟩
  · rw [h.head, List.head?_eq_none_iff]
  · rw [h.tail, List.getLast?_eq_none_iff]

omit [DecidableEq ι] [DecidableEq κ] [DecidableEq α] [DecidableEq β] in
theorem refines_start (links : Links α) (next : β → Option β) :
    Refines (⟨fun _ => DList.empty, links, fun _ => queueInit, next⟩ : Memory ι κ α β)
      ⟨fun _ => [], fun _ => []⟩ where
  lists _ := .empty links
  lists_apart _ _ _ := List.disjoint_nil_left []
  queues _ := .init next
  queues_apart _ _ _ := List.disjoint_nil_left []

/-- Along every run, whatever the links were at the start. -/
theorem refines_run (links : Links α) (next : β → Option β)
    {trace : List (Operation ι κ α β × Returned α β)} {q : Sequences ι κ α β}
    (run : sequences.Execution trace q) :
    ∃ s, (machine links next).Execution trace s ∧ Refines s q := by
  induction run with
  | start h =>
      cases h
      exact ⟨_, .start rfl, refines_start links next⟩
  | step prior last ih =>
      obtain ⟨s, hRun, hRefines⟩ := ih
      obtain ⟨s', hPerform, hRefines', -⟩ := hRefines.step last
      exact ⟨s', hRun.step hPerform, hRefines'⟩

/-- From any memory of nodes on, lists and queues do and return what sequences do. In every
state that is reached each list shows its sequence, and each further operation succeeds,
has its effect on one sequence and leaves the other lists and queues untouched. -/
theorem lists_refine_sequences (links : Links α) (next : β → Option β)
    {trace : List (Operation ι κ α β × Returned α β)} {q : Sequences ι κ α β}
    (run : sequences.Execution trace q) :
    ∃ s, (machine links next).Execution trace s ∧
      (∀ i, ListShows s.links (s.lists i) (q.lists i)) ∧
      (∀ k, QueueShows s.next (s.queues k) (q.queues k)) ∧
      ∀ op r q', Effect q op r q' →
        ∃ s', perform s op = some (r, s') ∧ Untouched s s' q op ∧
          (∀ i, ListShows s'.links (s'.lists i) (q'.lists i)) ∧
          ∀ k, QueueShows s'.next (s'.queues k) (q'.queues k) := by
  obtain ⟨s, hRun, hRefines⟩ := refines_run links next run
  refine ⟨s, hRun, fun i => listShows (hRefines.lists i), fun k => queueShows (hRefines.queues k), ?_⟩
  intro op r q' hEffect
  obtain ⟨s', hPerform, hRefines', hUntouched⟩ := hRefines.step hEffect
  exact ⟨s', hPerform, hUntouched, fun i => listShows (hRefines'.lists i),
    fun k => queueShows (hRefines'.queues k)⟩

end Programs

/-- Two lists over nodes whose links all lead to themselves: a node is taken out of the
middle of the first list and put into the second. -/
theorem lists_refine_sequences_move :
    ∃ s : Memory Bool Unit Nat Nat, ListShows s.links (s.lists false) [1, 3] ∧
      ListShows s.links (s.lists true) [2] := by
  let empty : Sequences Bool Unit Nat Nat := ⟨fun _ => [], fun _ => []⟩
  let one := empty.putList false [1]
  let two := one.putList false [1, 2]
  let three := two.putList false [1, 2, 3]
  let removed := three.putList false [1, 3]
  let moved := removed.putList true [2]
  have first : sequences.step empty (.appendTail false 1, .nothing) one :=
    Effect.appendTail (by simp [empty])
  have second : sequences.step one (.appendTail false 2, .nothing) two :=
    Effect.appendTail (by simp [one, empty, Sequences.putList])
  have third : sequences.step two (.appendTail false 3, .nothing) three :=
    Effect.appendTail (by simp [two, one, empty, Sequences.putList])
  have fourth : sequences.step three (.remove false 2, .nothing) removed :=
    Effect.remove (by simp [three, Sequences.putList])
  have fifth : sequences.step removed (.appendHead true 2, .nothing) moved :=
    Effect.appendHead (by simp [removed, three, two, one, empty, Sequences.putList])
  have run := ((((System.Execution.start rfl).step first).step second).step third).step fourth
  let links : Links Nat := ⟨some, some⟩
  obtain ⟨s, -, hShows, -⟩ := lists_refine_sequences links some (run.step fifth)
  exact ⟨s, hShows false, hShows true⟩

end Ricerca.Lib
