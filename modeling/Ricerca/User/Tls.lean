import Ricerca.Foundation.Execution
import Ricerca.Lib.IntmapBuckets
import Ricerca.User.Cookie

/-! Thread-local storage (`user/tls.c`): a table from 64-bit keys to 64-bit values, kept in
a map of 16 buckets whose nodes come from the heap. -/
namespace Ricerca.Tls

open Ricerca.Foundation Ricerca.Lib Ricerca.Lib.Buckets
open Ricerca.Cookie (Status)

variable {ν : Type}

/-- `USER_TLS_BUCKETS`. -/
def userTlsBuckets : Nat := 16

/-- `struct user_tls_node`, less the links. -/
structure UserTlsNode where
  key : UInt64
  value : UInt64

/-- What is given back to the heap. -/
inductive Freed (ν : Type) where
  | node (node : ν)
  | buckets
  | table

/-- `struct user_tls_table` and the memory of nodes, with the nodes that the heap has handed
out for the table and all that was given back. -/
structure State (ν : Type) where
  keys : Buckets.Intmap ν
  links : Links ν
  nodes : ν → UserTlsNode
  allocated : List ν
  freed : List (Freed ν)

def State.key (s : State ν) (node : ν) : UInt64 := (s.nodes node).key

/-- `user_tls_table_create`, when there is memory for the table and for the buckets. The
links and fields are what the memory of the nodes happens to hold. -/
def userTlsTableCreate (links : Links ν) (nodes : ν → UserTlsNode)
    (tableMemory bucketsMemory : Bool) : Except Status (State ν) :=
  if tableMemory then
    if bucketsMemory then .ok ⟨Buckets.intmapInit userTlsBuckets, links, nodes, [], []⟩
    else .error .outOfMemory
  else .error .outOfMemory

section Operations

variable [DecidableEq ν]

/-- `user_tls_table_set_key`; `answer` is the node that the heap returns when it is asked. -/
def userTlsTableSetKey (fuel : Nat) (s : State ν) (key value : UInt64) (answer : Option ν) :
    Option (Status × State ν) := do
  match ← Buckets.intmapSearch s.keys s.links s.key fuel key with
  | some node =>
      let fields := { s.nodes node with value := value }
      some (.success, { s with nodes := Function.update s.nodes node fields })
  | none =>
      match answer with
      | none => some (.outOfMemory, s)
      | some node =>
          let s := { s with
            nodes := Function.update s.nodes node ⟨key, value⟩
            allocated := node :: s.allocated }
          let inserted := Buckets.intmapInsert s.keys s.links s.key node
          some (.success, { s with keys := inserted.1, links := inserted.2 })

def userTlsTableGetKey (fuel : Nat) (s : State ν) (key : UInt64) : Option UInt64 := do
  match ← Buckets.intmapSearch s.keys s.links s.key fuel key with
  | some node => some (s.nodes node).value
  | none => some 0

/-- `LIST_REMOVE_HEAD` on one bucket. -/
def State.removeHead (s : State ν) (i : Nat) : Option ν × State ν :=
  let removed := listRemoveHead (s.keys.nodes i) s.links
  let put := s.keys.put i removed.2
  (removed.1, { s with keys := put.1, links := put.2 })

/-- The inner loop of `user_tls_table_destroy`: the nodes of one bucket. -/
def destroyBucket (i : Nat) : (fuel : Nat) → State ν → Option (State ν)
  | 0, _ => none
  | fuel + 1, s =>
      match s.removeHead i with
      | (none, s) => some s
      | (some node, s) => destroyBucket i fuel { s with freed := s.freed ++ [.node node] }

def userTlsTableDestroy (fuel : Nat) (s : State ν) : Option (State ν) := do
  let s ← (List.range userTlsBuckets).foldlM (fun s i => destroyBucket i fuel s) s
  some { s with freed := s.freed ++ [.buckets, .table] }

/-- A call of `user_tls_table_set_key` and what it returned. -/
structure SetKey where
  key : UInt64
  value : UInt64
  status : Status

/-- All sequences of calls on a new table. The heap does not hand out a node that the table
still has. -/
def system (links : Links ν) (nodes : ν → UserTlsNode) : System (State ν) SetKey where
  init s := userTlsTableCreate links nodes true true = .ok s
  step s call s' := ∃ fuel answer, (∀ node, answer = some node → node ∉ s.allocated) ∧
    userTlsTableSetKey fuel s call.key call.value answer = some (call.status, s')

end Operations

/-- The value of the last successful call for a key, or 0. -/
def lastSet (trace : List SetKey) (key : UInt64) : UInt64 :=
  trace.foldl (fun value call => if call.key = key ∧ call.status = .success then call.value else value) 0

end Ricerca.Tls
