import Mathlib.Logic.Function.Basic
import Mathlib.Tactic.Common

/-! Initialisation targets of `lib/target.c`. The targets are the elements of a type; their
dependency arrays never change, the other fields are the state. Both the stack of the
search and the plan are threaded through the targets. -/
namespace Ricerca.Target

variable {τ : Type} [DecidableEq τ]

/-- The fields of all targets that a search changes. -/
structure Targets (τ : Type) where
  next : τ → Option τ
  nextToBeVisited : τ → Option τ
  depIndex : τ → Nat
  resolved : τ → Bool

/-- The local variables of `target_compute_plan` beside the targets. -/
structure Search (τ : Type) where
  head : Option τ
  tail : Option τ
  stack : Option τ
  targets : Targets τ

/-- How the search can end. `outOfBounds` is a read behind the end of a dependency array. -/
inductive Result (τ : Type) where
  | plan (head : Option τ) (targets : Targets τ)
  | panic (dependency tos : τ)
  | outOfBounds

/-- The target on top of the stack is resolved and appended to the plan. -/
def resolve (search : Search τ) (tos : τ) : Search τ :=
  let next := Function.update search.targets.next tos none
  { head := search.head.or (some tos)
    tail := some tos
    stack := search.targets.nextToBeVisited tos
    targets := { search.targets with
      resolved := Function.update search.targets.resolved tos true
      next :=
        match search.head, search.tail with
        | some _, some tail => Function.update next tail (some tos)
        | _, _ => next } }

/-- The next dependency of the target on top of the stack is looked at. -/
def visit (search : Search τ) (tos dependency : τ) : Search τ ⊕ Result τ :=
  let targets := { search.targets with
    depIndex := Function.update search.targets.depIndex tos (search.targets.depIndex tos + 1) }
  if targets.resolved dependency then .inl { search with targets }
  else if targets.depIndex dependency ≠ 0 then .inr (.panic dependency tos)
  else .inl { search with
    stack := some dependency
    targets := { targets with
      nextToBeVisited := Function.update targets.nextToBeVisited dependency search.stack } }

/-- One turn of the loop. -/
def turn (deps : τ → List τ) (search : Search τ) : Search τ ⊕ Result τ :=
  match search.stack with
  | none => .inr (.plan search.head search.targets)
  | some tos =>
      if search.targets.depIndex tos = (deps tos).length then .inl (resolve search tos)
      else
        match (deps tos)[search.targets.depIndex tos]? with
        | none => .inr .outOfBounds
        | some dependency => visit search tos dependency

/-- The loop, for at most `fuel` turns. -/
def loop (deps : τ → List τ) : Nat → Search τ → Option (Result τ)
  | 0, _ => none
  | fuel + 1, search =>
      match turn deps search with
      | .inl search => loop deps fuel search
      | .inr result => some result

/-- `none` when the loop takes more than `fuel` turns. -/
def targetComputePlan (deps : τ → List τ) (fuel : Nat) (targets : Targets τ) (target : τ) :
    Option (Result τ) :=
  loop deps fuel
    { head := none
      tail := none
      stack := some target
      targets := { targets with
        nextToBeVisited := Function.update targets.nextToBeVisited target none } }

end Ricerca.Target
