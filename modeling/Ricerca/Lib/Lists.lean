import Ricerca.Foundation.Execution
import Ricerca.Foundation.LinkedList
import Ricerca.Lib.Queue

/-! Intrusive lists (`lib/list.h`) beside the intrusive queues: the operations, and the
programs that keep many lists and queues over one memory of nodes. A node that was taken
off keeps the links it had. -/
namespace Ricerca.Lib

open Ricerca.Foundation

variable {ι κ α β : Type}

section Operations

variable [DecidableEq α]

def listAppendHead (list : DList α) (m : Links α) (node : α) : DList α × Links α :=
  let m := m.setPrev node none
  match list.head with
  | none => (⟨some node, some node⟩, m.setNext node none)
  | some head => (⟨some node, list.tail⟩, (m.setPrev head (some node)).setNext node (some head))

def listAppendTail (list : DList α) (m : Links α) (node : α) : DList α × Links α :=
  list.appendTail m node

def listRemoveHead (list : DList α) (m : Links α) : Option α × DList α × Links α :=
  list.removeHead m

def listRemoveTail (list : DList α) (m : Links α) : Option α × DList α × Links α :=
  match list.tail with
  | none => (none, list, m)
  | some result =>
      match m.prev result with
      | none => (some result, ⟨none, none⟩, m)
      | some prev => (some result, ⟨list.head, some prev⟩, m.setNext prev none)

/-- `list_remove`. Nothing is returned where the code follows a null pointer. -/
def listRemove (list : DList α) (m : Links α) (node : α) : Option (DList α × Links α) :=
  if list.head = some node then some (listRemoveHead list m).2
  else if list.tail = some node then some (listRemoveTail list m).2
  else do
    let prev ← m.prev node
    let m := m.setNext prev (m.next node)
    let next ← m.next node
    some (list, m.setPrev next (m.prev node))

end Operations

/-- Lists and queues, by name, and the link fields of all nodes. -/
structure Memory (ι κ α β : Type) where
  lists : ι → DList α
  links : Links α
  queues : κ → Queue β
  next : β → Option β

/-- The operations on a list or a queue. What removed nodes keep in their links may change
as well: their owners put them to other uses. -/
inductive Operation (ι κ α β : Type) where
  | appendHead (list : ι) (node : α)
  | appendTail (list : ι) (node : α)
  | removeHead (list : ι)
  | removeTail (list : ι)
  | remove (list : ι) (node : α)
  | enqueue (queue : κ) (node : β)
  | dequeue (queue : κ)
  | reuseNode (node : α) (next prev : Option α)
  | reuseQueueNode (node : β) (next : Option β)

/-- The list that an operation is on. -/
def Operation.list? : Operation ι κ α β → Option ι
  | .appendHead i _ | .appendTail i _ | .removeHead i | .removeTail i | .remove i _ => some i
  | _ => none

/-- The queue that an operation is on. -/
def Operation.queue? : Operation ι κ α β → Option κ
  | .enqueue k _ | .dequeue k => some k
  | _ => none

inductive Returned (α β : Type) where
  | nothing
  | node (result : Option α)
  | queueNode (result : Option β)

section Programs

variable [DecidableEq ι] [DecidableEq κ] [DecidableEq α] [DecidableEq β]

def Memory.putList (s : Memory ι κ α β) (i : ι) (list : DList α × Links α) : Memory ι κ α β :=
  { s with lists := Function.update s.lists i list.1, links := list.2 }

def Memory.putQueue (s : Memory ι κ α β) (k : κ) (queue : Queue β) (next : β → Option β) :
    Memory ι κ α β :=
  { s with queues := Function.update s.queues k queue, next := next }

/-- What an operation returns and does. -/
def perform (s : Memory ι κ α β) : Operation ι κ α β → Option (Returned α β × Memory ι κ α β)
  | .appendHead i node => some (.nothing, s.putList i (listAppendHead (s.lists i) s.links node))
  | .appendTail i node => some (.nothing, s.putList i (listAppendTail (s.lists i) s.links node))
  | .removeHead i =>
      let removed := listRemoveHead (s.lists i) s.links
      some (.node removed.1, s.putList i removed.2)
  | .removeTail i =>
      let removed := listRemoveTail (s.lists i) s.links
      some (.node removed.1, s.putList i removed.2)
  | .remove i node =>
      (listRemove (s.lists i) s.links node).map fun list => (.nothing, s.putList i list)
  | .enqueue k node =>
      (queueEnqueue (s.queues k) s.next node).map fun queue =>
        (.nothing, s.putQueue k queue.1 queue.2)
  | .dequeue k =>
      let removed := queueDequeue (s.queues k) s.next
      some (.queueNode removed.1, s.putQueue k removed.2 s.next)
  | .reuseNode node next prev =>
      some (.nothing, { s with links := (s.links.setNext node next).setPrev node prev })
  | .reuseQueueNode node next => some (.nothing, { s with next := Function.update s.next node next })

/-- Programs that start with empty lists and queues over any memory of nodes. -/
def machine (links : Links α) (next : β → Option β) :
    System (Memory ι κ α β) (Operation ι κ α β × Returned α β) where
  init s := s = ⟨fun _ => DList.empty, links, fun _ => queueInit, next⟩
  step s label s' := perform s label.1 = some (label.2, s')

/-- What lists and queues are for: sequences of nodes. -/
structure Sequences (ι κ α β : Type) where
  lists : ι → List α
  queues : κ → List β

def Sequences.putList (q : Sequences ι κ α β) (i : ι) (nodes : List α) : Sequences ι κ α β :=
  { q with lists := Function.update q.lists i nodes }

def Sequences.putQueue (q : Sequences ι κ α β) (k : κ) (nodes : List β) : Sequences ι κ α β :=
  { q with queues := Function.update q.queues k nodes }

/-- The effect of each operation on the sequences. Nodes are inserted only when they are
in no list, and taken out of a list that they are in. -/
inductive Effect (q : Sequences ι κ α β) :
    Operation ι κ α β → Returned α β → Sequences ι κ α β → Prop where
  | appendHead {i : ι} {node : α} (hNew : ∀ j, node ∉ q.lists j) :
      Effect q (.appendHead i node) .nothing (q.putList i (node :: q.lists i))
  | appendTail {i : ι} {node : α} (hNew : ∀ j, node ∉ q.lists j) :
      Effect q (.appendTail i node) .nothing (q.putList i (q.lists i ++ [node]))
  | removeHead {i : ι} :
      Effect q (.removeHead i) (.node (q.lists i).head?) (q.putList i (q.lists i).tail)
  | removeTail {i : ι} :
      Effect q (.removeTail i) (.node (q.lists i).getLast?) (q.putList i (q.lists i).dropLast)
  | remove {i : ι} {node : α} (hMem : node ∈ q.lists i) :
      Effect q (.remove i node) .nothing (q.putList i ((q.lists i).erase node))
  | enqueue {k : κ} {node : β} (hNew : ∀ j, node ∉ q.queues j) :
      Effect q (.enqueue k node) .nothing (q.putQueue k (q.queues k ++ [node]))
  | dequeue {k : κ} :
      Effect q (.dequeue k) (.queueNode (q.queues k).head?) (q.putQueue k (q.queues k).tail)
  | reuseNode {node : α} {next prev : Option α} (hFree : ∀ j, node ∉ q.lists j) :
      Effect q (.reuseNode node next prev) .nothing q
  | reuseQueueNode {node : β} {next : Option β} (hFree : ∀ j, node ∉ q.queues j) :
      Effect q (.reuseQueueNode node next) .nothing q

/-- The programs as they act on sequences. -/
def sequences : System (Sequences ι κ α β) (Operation ι κ α β × Returned α β) where
  init q := q = ⟨fun _ => [], fun _ => []⟩
  step q label q' := Effect q label.1 label.2 q'

end Programs

end Ricerca.Lib
