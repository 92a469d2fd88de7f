import Mathlib.Logic.Function.Basic
import Ricerca.Foundation.Execution

/-! Locks that are handed over in the order of the requests. A lock is its holder and the queue
of those who wait for it, and the first of the queue enters when there is no holder. -/
namespace Ricerca.Foundation.FifoLock

universe u

variable {Agent Key : Type u} [DecidableEq Key]

structure Lock (Agent : Type u) where
  holder : Option Agent
  waiting : List Agent

inductive Event (Agent Key : Type u) where
  | request (agent : Agent) (key : Key)
  | enter (agent : Agent) (key : Key)
  | leave (agent : Agent) (key : Key)

/-- The lock that an event is about. -/
def Event.key : Event Agent Key → Key
  | .request _ key | .enter _ key | .leave _ key => key

inductive Step : (Key → Lock Agent) → Event Agent Key → (Key → Lock Agent) → Prop where
  | request {locks : Key → Lock Agent} {agent : Agent} {key : Key} :
      Step locks (.request agent key) (Function.update locks key
        { locks key with waiting := (locks key).waiting ++ [agent] })
  | enter {locks : Key → Lock Agent} {agent : Agent} {key : Key} {rest : List Agent}
      (hFree : (locks key).holder = none) (hFirst : (locks key).waiting = agent :: rest) :
      Step locks (.enter agent key) (Function.update locks key ⟨some agent, rest⟩)
  | leave {locks : Key → Lock Agent} {agent : Agent} {key : Key}
      (hHolds : (locks key).holder = some agent) :
      Step locks (.leave agent key) (Function.update locks key { locks key with holder := none })

/-- All uses of a family of locks that are free at the start. -/
def system : System (Key → Lock Agent) (Event Agent Key) where
  init locks := locks = fun _ => ⟨none, []⟩
  step := Step

/-- Who has asked for a lock, in this order. -/
def requests (key : Key) (trace : List (Event Agent Key)) : List Agent :=
  trace.filterMap fun
    | .request agent k => if k = key then some agent else none
    | _ => none

/-- Who has entered. -/
def entries (key : Key) (trace : List (Event Agent Key)) : List Agent :=
  trace.filterMap fun
    | .enter agent k => if k = key then some agent else none
    | _ => none

/-- Who has left. -/
def exits (key : Key) (trace : List (Event Agent Key)) : List Agent :=
  trace.filterMap fun
    | .leave agent k => if k = key then some agent else none
    | _ => none

/-- Agents enter in the order of their requests, and one after the other. -/
theorem entered_in_order {trace : List (Event Agent Key)} {locks : Key → Lock Agent}
    (run : system.Execution trace locks) (key : Key) :
    requests key trace = entries key trace ++ (locks key).waiting ∧
      entries key trace = exits key trace ++ (locks key).holder.toList := by
  induction run with
  | start hInit =>
      rw [hInit]
      exact ⟨rfl, rfl⟩
  | @step trace locks locks' event prior last ih =>
      obtain ⟨hRequests, hEntries⟩ := ih
      simp only [requests, entries, exits] at hRequests hEntries ⊢
      simp only [List.filterMap_append, List.filterMap_cons, List.filterMap_nil]
      cases last with
      | @request agent k =>
          by_cases hKey : k = key
          · subst hKey
            simp [hRequests, hEntries]
          · simp [hKey, Function.update_of_ne (Ne.symm hKey), hRequests, hEntries]
      | @enter agent k rest hFree hFirst =>
          by_cases hKey : k = key
          · subst hKey
            rw [hFirst] at hRequests
            rw [hFree] at hEntries
            simp [hRequests, hEntries]
          · simp [hKey, Function.update_of_ne (Ne.symm hKey), hRequests, hEntries]
      | @leave agent k hHolds =>
          by_cases hKey : k = key
          · subst hKey
            rw [hHolds] at hEntries
            simp [hRequests, hEntries]
          · simp [hKey, Function.update_of_ne (Ne.symm hKey), hRequests, hEntries]

end Ricerca.Foundation.FifoLock
