import Ricerca.Foundation.Chain

/-! Intrusive queues (`lib/queue.h`). The link to the next node is a field of the node,
so the functions get the links of all nodes as `next`. -/
namespace Ricerca.Lib

open Ricerca.Foundation

variable {ν : Type}

/-- `struct queue`. -/
structure Queue (ν : Type) where
  head : Option ν
  tail : Option ν
  deriving DecidableEq

/-- `QUEUE_INIT`. -/
def queueInit : Queue ν := ⟨none, none⟩

/-- The queue and the links afterwards. Nothing is returned where the code follows a null
pointer. -/
def queueEnqueue [DecidableEq ν] (queue : Queue ν) (next : ν → Option ν) (node : ν) :
    Option (Queue ν × (ν → Option ν)) :=
  let next := Function.update next node none
  match queue.head with
  | none => some (⟨some node, some node⟩, next)
  | some _ => queue.tail.map fun tail =>
      (⟨queue.head, some node⟩, Function.update next tail (some node))

/-- The node that was taken off, and the queue afterwards. -/
def queueDequeue (queue : Queue ν) (next : ν → Option ν) : Option ν × Queue ν :=
  match queue.head with
  | none => (none, queue)
  | some result =>
      match next result with
      | none => (some result, ⟨none, none⟩)
      | some head => (some result, ⟨some head, queue.tail⟩)

/-- The nodes of a queue, from the head on. -/
structure Queue.Holds (queue : Queue ν) (next : ν → Option ν) (nodes : List ν) : Prop where
  chain : Chain (fun link => link.bind next) none queue.head (nodes.map some)
  tail : queue.tail = nodes.getLast?
  nodup : nodes.Nodup

namespace Queue.Holds

variable {queue : Queue ν} {next next' : ν → Option ν} {nodes : List ν} {node : ν}

theorem init (next : ν → Option ν) : (queueInit : Queue ν).Holds next [] :=
  ⟨.nil, rfl, List.nodup_nil⟩

theorem head (h : queue.Holds next nodes) : queue.head = nodes.head? := by
  cases nodes with
  | nil => exact h.chain.eq_nil_iff.mp rfl
  | cons first rest => exact h.chain.pop.1

/-- A queue does not notice what happens to the links of other nodes. -/
theorem congr (h : queue.Holds next nodes) (hSame : ∀ n ∈ nodes, next' n = next n) :
    queue.Holds next' nodes := by
  refine ⟨h.chain.congr ?_, h.tail, h.nodup⟩
  intro link hLink
  obtain ⟨n, hMem, rfl⟩ := List.mem_map.mp hLink
  exact hSame n hMem

/-- A node goes to the end of the queue. Only its own link and the one of the former last
node change. -/
theorem enqueue [DecidableEq ν] (h : queue.Holds next nodes) (hNew : node ∉ nodes) :
    ∃ queue' next', queueEnqueue queue next node = some (queue', next') ∧
      queue'.Holds next' (nodes ++ [node]) ∧
      ∀ n, n ∉ nodes → n ≠ node → next' n = next n := by
  rcases List.eq_nil_or_concat nodes with rfl | ⟨before, last, rfl⟩
  · have hHead : queue.head = none := h.head
    refine ⟨⟨some node, some node⟩, Function.update next node none, ?_, ?_, ?_⟩
    · simp [queueEnqueue, hHead]
    · refine ⟨.cons (by simp) ?_, rfl, List.nodup_singleton node⟩
      simpa using Chain.nil
    · intro n _ hNe
      exact Function.update_of_ne hNe _ _
  · rw [List.concat_eq_append] at h hNew ⊢
    have hTail : queue.tail = some last := by simpa using h.tail
    have hNe : node ≠ last := by
      rintro rfl
      simp at hNew
    obtain ⟨first, hHead⟩ : ∃ first, queue.head = some first := by
      rw [h.head]
      exact Option.isSome_iff_exists.mp (by simp)
    refine ⟨⟨queue.head, some node⟩,
      Function.update (Function.update next node none) last (some node), ?_, ?_, ?_⟩
    · simp [queueEnqueue, hHead, hTail]
    · have hChain := h.chain
      rw [List.map_append] at hChain
      refine ⟨?_, by simp, ?_⟩
      · suffices hLonger : Chain (fun link => link.bind
            (Function.update (Function.update next node none) last (some node))) none queue.head
            (before.map some ++ [some last, some node]) by
          simpa using hLonger
        apply hChain.snoc
        · simp
        · intro link hLink
          obtain ⟨n, hMem, rfl⟩ := List.mem_map.mp hLink
          have hLast : n ≠ last := by
            rintro rfl
            exact (List.disjoint_of_nodup_append h.nodup) hMem (List.mem_singleton_self n)
          have hNode : n ≠ node := by
            rintro rfl
            simp [hMem] at hNew
          simp [hLast, hNode]
        · simp
        · simp [hNe]
      · rw [List.nodup_append_comm]
        exact List.nodup_cons.mpr ⟨hNew, h.nodup⟩
    · intro n hMem hNode
      have hLast : n ≠ last := by
        rintro rfl
        simp at hMem
      rw [Function.update_of_ne hLast, Function.update_of_ne hNode]

theorem dequeue_nil (h : queue.Holds next []) : queueDequeue queue next = (none, queue) := by
  have hHead : queue.head = none := h.head
  simp [queueDequeue, hHead]

/-- The node that has been in the queue longest is taken off. -/
theorem dequeue_cons {rest : List ν} (h : queue.Holds next (node :: rest)) :
    ∃ queue', queueDequeue queue next = (some node, queue') ∧ queue'.Holds next rest := by
  have hHead : queue.head = some node := h.head
  obtain ⟨-, -, hRest⟩ := h.chain.pop
  have hNodup := (List.nodup_cons.mp h.nodup).2
  cases rest with
  | nil =>
      have hEnd : next node = none := hRest.eq_nil_iff.mp rfl
      exact ⟨queueInit, by simp only [queueDequeue, hHead, hEnd, queueInit], .init next⟩
  | cons second rest =>
      have hSecond : next node = some second := hRest.pop.1
      refine ⟨⟨some second, queue.tail⟩, by simp only [queueDequeue, hHead, hSecond], ?_, ?_, hNodup⟩
      · exact hSecond ▸ hRest
      · simpa using h.tail

end Queue.Holds

end Ricerca.Lib
