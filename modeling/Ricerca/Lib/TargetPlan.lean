import Mathlib.Algebra.Order.BigOperators.Group.Finset
import Mathlib.Data.Fintype.BigOperators
import Ricerca.Foundation.Execution
import Ricerca.Foundation.LinkedList
import Ricerca.Foundation.Reachability
import Ricerca.Lib.Target

/-! The plan. The stack is a path from the root to the target on top of it, and a target
that is not resolved has a dependency index other than zero exactly when it is on that
path. -/
namespace Ricerca.Target

open Ricerca.Foundation

variable {τ : Type} (deps : τ → List τ)

/-- `b` is a dependency of `a`. -/
def DependsOn (a b : τ) : Prop := b ∈ deps a

/-- The target needs the other one, directly or not, or is it. -/
abbrev Needs : τ → τ → Prop := Relation.ReflTransGen (DependsOn deps)

def CycleReachable (root : τ) : Prop :=
  ∃ target, Needs deps root target ∧ Relation.TransGen (DependsOn deps) target target

/-- Every target comes after its dependencies, of which some are there from the start. -/
def DependenciesFirst (there : τ → Prop) (order : List τ) : Prop :=
  ∀ front target back, order = front ++ target :: back →
    ∀ dependency ∈ deps target, dependency ∈ front ∨ there dependency

/-- The first `count` dependencies of the target are resolved. -/
def Explored (targets : Targets τ) (target : τ) (count : Nat) : Prop :=
  ∀ dependency ∈ (deps target).take count, targets.resolved dependency = true

/-- The targets below `above` on the stack wait each for the one above it. -/
def Waiting (targets : Targets τ) : τ → List τ → Prop
  | _, [] => True
  | above, target :: rest =>
      (∃ index, targets.depIndex target = index + 1 ∧ (deps target)[index]? = some above ∧
        Explored deps targets target index) ∧ Waiting targets target rest

/-- The stack is a path whose targets are explored up to their indices. -/
def OnPath (targets : Targets τ) : List τ → Prop
  | [] => True
  | tos :: rest => targets.depIndex tos ≤ (deps tos).length ∧
      Explored deps targets tos (targets.depIndex tos) ∧ Waiting deps targets tos rest

/-- The invariant of the loop: `path` is on the stack and `plan` is the plan so far. -/
structure Searching (start : Targets τ) (root : τ) (search : Search τ) (path plan : List τ) :
    Prop where
  stack : Linked search.targets.nextToBeVisited search.stack path
  list : Linked search.targets.next search.head plan
  tail : search.tail = plan.getLast?
  nodup : (path ++ plan).Nodup
  resolved : ∀ target, search.targets.resolved target = true ↔
    start.resolved target = true ∨ target ∈ plan
  fresh : ∀ target ∈ path ++ plan, start.resolved target = false
  index : ∀ target, target ∉ path → search.targets.resolved target = false →
    search.targets.depIndex target = 0
  onPath : OnPath deps search.targets path
  needed : ∀ target ∈ path ++ plan, Needs deps root target
  first : DependenciesFirst deps (start.resolved · = true) plan
  last : path.getLast?.or plan.getLast? = some root

variable {deps} {targets targets' start : Targets τ} {search : Search τ} {path plan rest : List τ}
  {root tos above dependency : τ}

section Paths

theorem Explored.mono {count : Nat} (h : Explored deps targets tos count)
    (hResolved : ∀ target, targets.resolved target = true → targets'.resolved target = true) :
    Explored deps targets' tos count :=
  fun dependency hDependency => hResolved dependency (h dependency hDependency)

/-- One dependency more is resolved. -/
theorem Explored.succ {count : Nat} (h : Explored deps targets tos count)
    (hNext : (deps tos)[count]? = some dependency) (hResolved : targets.resolved dependency = true) :
    Explored deps targets tos (count + 1) := by
  intro other hOther
  rw [List.take_add_one, hNext, List.mem_append] at hOther
  rcases hOther with hOther | hOther
  · exact h other hOther
  · rw [List.mem_singleton.mp hOther]
    exact hResolved

theorem Waiting.congr (h : Waiting deps targets above rest)
    (hIndex : ∀ target ∈ rest, targets'.depIndex target = targets.depIndex target)
    (hResolved : ∀ target, targets.resolved target = true → targets'.resolved target = true) :
    Waiting deps targets' above rest := by
  induction rest generalizing above with
  | nil => trivial
  | cons target rest ih =>
      obtain ⟨⟨index, hCount, hAbove, hExplored⟩, hRest⟩ := h
      refine ⟨⟨index, ?_, hAbove, hExplored.mono hResolved⟩, ih hRest fun other hOther => ?_⟩
      · rw [hIndex target (List.mem_cons_self ..), hCount]
      · exact hIndex other (List.mem_cons_of_mem _ hOther)

theorem Waiting.index_ne_zero (h : Waiting deps targets above rest) :
    ∀ target ∈ rest, targets.depIndex target ≠ 0 := by
  induction rest generalizing above with
  | nil => simp
  | cons target rest ih =>
      obtain ⟨⟨index, hCount, -, -⟩, hRest⟩ := h
      intro other hOther
      rcases List.mem_cons.mp hOther with rfl | hOther
      · omega
      · exact ih hRest other hOther

/-- What waits on the stack needs what is above it. -/
theorem Waiting.needs (h : Waiting deps targets above rest) :
    ∀ target ∈ rest, Relation.TransGen (DependsOn deps) target above := by
  induction rest generalizing above with
  | nil => simp
  | cons target rest ih =>
      obtain ⟨⟨index, -, hAbove, -⟩, hRest⟩ := h
      have hStep : DependsOn deps target above := List.mem_of_getElem? hAbove
      intro other hOther
      rcases List.mem_cons.mp hOther with rfl | hOther
      · exact .single hStep
      · exact (ih hRest other hOther).tail hStep

/-- The target on top is resolved, and the one below it goes on. -/
theorem Waiting.onPath (h : Waiting deps targets tos rest) (hTos : targets.resolved tos = true) :
    OnPath deps targets rest := by
  cases rest with
  | nil => trivial
  | cons target rest =>
      obtain ⟨⟨index, hCount, hAbove, hExplored⟩, hRest⟩ := h
      have hBound := (List.getElem?_eq_some_iff.mp hAbove).1
      refine ⟨by omega, ?_, hRest⟩
      rw [hCount]
      exact hExplored.succ hAbove hTos

end Paths

section Order

variable {there : τ → Prop} {order : List τ}

theorem DependenciesFirst.append (h : DependenciesFirst deps there order) {target : τ}
    (hTarget : ∀ dependency ∈ deps target, dependency ∈ order ∨ there dependency) :
    DependenciesFirst deps there (order ++ [target]) := by
  intro front other back hSplit
  rcases List.eq_nil_or_concat back with rfl | ⟨middle, last, rfl⟩
  · obtain ⟨rfl, hEq⟩ := List.append_inj' hSplit rfl
    obtain rfl : target = other := by simpa using hEq
    exact hTarget
  · rw [List.concat_eq_append, ← List.cons_append, ← List.append_assoc] at hSplit
    exact h front other middle (List.append_inj' hSplit rfl).1

theorem DependenciesFirst.closed (h : DependenciesFirst deps there order) {target : τ}
    (hTarget : target ∈ order) (hDependency : dependency ∈ deps target) :
    dependency ∈ order ∨ there dependency := by
  obtain ⟨front, back, rfl⟩ := List.append_of_mem hTarget
  rcases h front target back rfl dependency hDependency with hFront | hThere
  · exact .inl (List.mem_append_left _ hFront)
  · exact .inr hThere

/-- An order that goes on after another one. -/
theorem DependenciesFirst.extend {before after : List τ}
    (hBefore : DependenciesFirst deps (fun _ => False) before)
    (hAfter : DependenciesFirst deps there after) (hThere : ∀ target, there target → target ∈ before) :
    DependenciesFirst deps (fun _ => False) (before ++ after) := by
  intro front target back hSplit dependency hDependency
  refine .inl ?_
  rcases List.append_eq_append_iff.mp hSplit with ⟨middle, rfl, hBack⟩ | ⟨middle, rfl, hMiddle⟩
  · rcases hAfter middle target back hBack dependency hDependency with hMem | hMem
    · exact List.mem_append_right _ hMem
    · exact List.mem_append_left _ (hThere dependency hMem)
  · cases middle with
    | nil =>
        obtain rfl : target :: back = after := by simpa using hMiddle
        rcases hAfter [] target back rfl dependency hDependency with hMem | hMem
        · cases hMem
        · simpa using hThere dependency hMem
    | cons first middle =>
        obtain ⟨rfl, -⟩ : target = first ∧ back = middle ++ after := by simpa using hMiddle
        exact (hBefore front target middle rfl dependency hDependency).resolve_right id

/-- There is no cycle among targets that come after their dependencies. -/
theorem DependenciesFirst.not_cycle [DecidableEq τ] (h : DependenciesFirst deps (fun _ => False) order)
    {target : τ} (hTarget : target ∈ order) : ¬Relation.TransGen (DependsOn deps) target target := by
  have hStep : ∀ a ∈ order, ∀ b, DependsOn deps a b → b ∈ order ∧ order.idxOf b < order.idxOf a := by
    intro a ha b hDepends
    obtain ⟨front, back, rfl, hNew⟩ := List.eq_append_cons_of_mem ha
    have hFront : b ∈ front := (h front a back rfl b hDepends).resolve_right id
    refine ⟨List.mem_append_left _ hFront, ?_⟩
    rw [List.idxOf_append_of_mem hFront, List.idxOf_append_of_notMem hNew, List.idxOf_cons_self]
    exact List.idxOf_lt_length_of_mem hFront
  have hPath : ∀ b, Relation.TransGen (DependsOn deps) target b →
      b ∈ order ∧ order.idxOf b < order.idxOf target := by
    intro b hb
    induction hb with
    | single hDepends => exact hStep target hTarget _ hDepends
    | tail _ hDepends ih =>
        have hNext := hStep _ ih.1 _ hDepends
        exact ⟨hNext.1, hNext.2.trans ih.2⟩
  intro hCycle
  exact Nat.lt_irrefl _ (hPath target hCycle).2

end Order

section Turns

variable [DecidableEq τ]

/-- The plan is a linked list with the new target at its end. -/
theorem linked_resolve (hList : Linked search.targets.next search.head plan)
    (hTail : search.tail = plan.getLast?) (hNodup : plan.Nodup) (hNew : tos ∉ plan) :
    Linked (resolve search tos).targets.next (resolve search tos).head (plan ++ [tos]) := by
  rcases List.eq_nil_or_concat plan with rfl | ⟨front, last, rfl⟩
  · have hHead : search.head = none := hList.head_eq
    simp only [resolve, hHead, Option.none_or, List.nil_append]
    refine .cons ?_
    rw [Function.update_self]
    exact .nil
  · rw [List.concat_eq_append] at hList hTail hNodup hNew ⊢
    have hLinked := hList.append hNodup hNew
    obtain ⟨first, hHead⟩ : ∃ first, search.head = some first := by
      rw [hList.head_eq]
      cases front <;> exact ⟨_, rfl⟩
    rw [List.getLast?_append, List.getLast?_singleton, Option.some_or] at hTail
    simp only [resolve, hHead, hTail, Option.some_or] at hLinked ⊢
    exact hLinked

theorem Searching.resolve (h : Searching deps start root search (tos :: rest) plan)
    (hIndex : search.targets.depIndex tos = (deps tos).length) :
    Searching deps start root (resolve search tos) rest (plan ++ [tos]) := by
  have hPerm : (rest ++ (plan ++ [tos])).Perm (tos :: rest ++ plan) := by
    rw [← List.append_assoc]
    exact List.perm_append_singleton ..
  have hNodup := h.nodup
  simp only [List.cons_append, List.nodup_cons, List.mem_append, not_or] at hNodup
  obtain ⟨⟨hRest, hNew⟩, hApart⟩ := hNodup
  obtain ⟨-, hExplored, hWaiting⟩ := h.onPath
  have hResolved : ∀ target, search.targets.resolved target = true →
      (Target.resolve search tos).targets.resolved target = true := by
    intro target hTarget
    simp only [Target.resolve, Function.update_apply]
    split_ifs <;> simp [hTarget]
  have hBelow : Waiting deps (Target.resolve search tos).targets tos rest :=
    hWaiting.congr (fun _ _ => rfl) hResolved
  refine ⟨h.stack.pop, linked_resolve h.list h.tail (hApart.of_append_right) hNew, by simp [Target.resolve],
    hPerm.nodup_iff.mpr h.nodup, fun target => ?_, fun target hTarget => ?_, fun target hOff hOpen => ?_,
    ?_, fun target hTarget => ?_, ?_, ?_⟩
  · simp only [Target.resolve, Function.update_apply, List.mem_append, List.mem_singleton]
    split_ifs with hEq
    · simp [hEq]
    · simp [hEq, h.resolved target]
  · exact h.fresh target (hPerm.mem_iff.mp hTarget)
  · simp only [Target.resolve, Function.update_apply] at hOpen
    split_ifs at hOpen with hEq
    exact h.index target (by simp [hEq, hOff]) hOpen
  · exact hBelow.onPath (by simp [Target.resolve])
  · exact h.needed target (hPerm.mem_iff.mp hTarget)
  · refine h.first.append fun dependency hDependency => ?_
    rw [hIndex, Explored, List.take_length] at hExplored
    exact ((h.resolved dependency).mp (hExplored dependency hDependency)).symm
  · have hLast := h.last
    cases rest with
    | nil => simpa using hLast
    | cons below rest =>
        rw [List.getLast?_cons_cons] at hLast
        rw [List.getLast?_cons, Option.some_or] at hLast ⊢
        exact hLast

/-- The search with the index of the target on top moved on. -/
def Search.advance (search : Search τ) (tos : τ) : Search τ :=
  { search with
    targets := { search.targets with
      depIndex := Function.update search.targets.depIndex tos (search.targets.depIndex tos + 1) } }

theorem Search.advance_depIndex_of_ne {target : τ} (hNe : target ≠ tos) :
    (search.advance tos).targets.depIndex target = search.targets.depIndex target :=
  Function.update_of_ne hNe _ _

theorem Search.advance_depIndex_self :
    (search.advance tos).targets.depIndex tos = search.targets.depIndex tos + 1 :=
  Function.update_self ..

/-- The targets below the top wait as before. -/
theorem Searching.waiting (h : Searching deps start root search (tos :: rest) plan) :
    Waiting deps (search.advance tos).targets tos rest := by
  have hNodup := h.nodup
  simp only [List.cons_append, List.nodup_cons, List.mem_append, not_or] at hNodup
  refine h.onPath.2.2.congr (fun target hTarget => Search.advance_depIndex_of_ne ?_) fun _ => id
  rintro rfl
  exact hNodup.1.1 hTarget

/-- The dependency is resolved already. -/
theorem Searching.skip (h : Searching deps start root search (tos :: rest) plan)
    (hNext : (deps tos)[search.targets.depIndex tos]? = some dependency)
    (hResolved : search.targets.resolved dependency = true) :
    Searching deps start root (search.advance tos) (tos :: rest) plan := by
  have hBound := (List.getElem?_eq_some_iff.mp hNext).1
  refine ⟨h.stack, h.list, h.tail, h.nodup, h.resolved, h.fresh, fun target hOff hOpen => ?_,
    ⟨?_, ?_, h.waiting⟩, h.needed, h.first, h.last⟩
  · rw [Search.advance_depIndex_of_ne fun hEq => hOff (by simp [hEq])]
    exact h.index target hOff hOpen
  · rw [Search.advance_depIndex_self]
    exact hBound
  · rw [Search.advance_depIndex_self]
    exact h.onPath.2.1.succ hNext hResolved

/-- A dependency that is neither resolved nor on the stack is put on top of it. -/
theorem Searching.descend (h : Searching deps start root search (tos :: rest) plan)
    (hNext : (deps tos)[search.targets.depIndex tos]? = some dependency)
    (hOpen : search.targets.resolved dependency = false)
    (hIndex : (search.advance tos).targets.depIndex dependency = 0) :
    Searching deps start root
      { search.advance tos with
        stack := some dependency
        targets := { (search.advance tos).targets with
          nextToBeVisited :=
            Function.update search.targets.nextToBeVisited dependency search.stack } }
      (dependency :: tos :: rest) plan := by
  have hOff : dependency ∉ tos :: rest := by
    intro hOn
    rcases List.mem_cons.mp hOn with rfl | hOn
    · rw [Search.advance_depIndex_self] at hIndex
      omega
    · exact h.waiting.index_ne_zero dependency hOn hIndex
  have hStart : ¬(start.resolved dependency = true ∨ dependency ∈ plan) := by
    rw [← h.resolved, hOpen]
    simp
  rw [not_or, Bool.not_eq_true] at hStart
  refine ⟨h.stack.push hOff, h.list, h.tail, ?_, h.resolved, ?_, fun target hTarget hUnresolved => ?_,
    ⟨?_, ?_, ⟨_, Search.advance_depIndex_self, hNext, h.onPath.2.1⟩,
      h.waiting.congr (fun _ _ => rfl) fun _ => id⟩, ?_, h.first, ?_⟩
  · rw [List.cons_append, List.nodup_cons, List.mem_append, not_or]
    exact ⟨⟨hOff, hStart.2⟩, h.nodup⟩
  · rw [List.cons_append, List.forall_mem_cons]
    exact ⟨hStart.1, h.fresh⟩
  · rw [List.mem_cons, not_or] at hTarget
    have hNe : target ≠ tos := fun hEq => hTarget.2 (by simp [hEq])
    exact (Search.advance_depIndex_of_ne hNe).trans (h.index target hTarget.2 hUnresolved)
  · simp only [hIndex]
    exact Nat.zero_le _
  · simp only [hIndex, Explored, List.take_zero]
    simp
  · rw [List.cons_append, List.forall_mem_cons]
    refine ⟨?_, h.needed⟩
    exact (h.needed tos (by simp)).tail (List.mem_of_getElem? hNext)
  · rw [List.getLast?_cons_cons]
    exact h.last

/-- A dependency that is not resolved and has been explored in part is on the stack. -/
theorem Searching.cycle (h : Searching deps start root search (tos :: rest) plan)
    (hNext : (deps tos)[search.targets.depIndex tos]? = some dependency)
    (hOpen : search.targets.resolved dependency = false)
    (hIndex : (search.advance tos).targets.depIndex dependency ≠ 0) : CycleReachable deps root := by
  have hStep : DependsOn deps tos dependency := List.mem_of_getElem? hNext
  have hOn : dependency ∈ tos :: rest := by
    by_contra hOff
    have hNe : dependency ≠ tos := fun hEq => hOff (by simp [hEq])
    rw [Search.advance_depIndex_of_ne hNe] at hIndex
    exact hIndex (h.index dependency hOff hOpen)
  refine ⟨dependency, h.needed dependency (List.mem_append_left _ hOn), ?_⟩
  rcases List.mem_cons.mp hOn with rfl | hRest
  · exact .single hStep
  · exact (h.onPath.2.2.needs dependency hRest).tail hStep

theorem visit_eq (search : Search τ) (tos dependency : τ) :
    visit search tos dependency =
      if search.targets.resolved dependency = true then .inl (search.advance tos)
      else if (search.advance tos).targets.depIndex dependency ≠ 0 then .inr (.panic dependency tos)
      else .inl { search.advance tos with
        stack := some dependency
        targets := { (search.advance tos).targets with
          nextToBeVisited :=
            Function.update search.targets.nextToBeVisited dependency search.stack } } := rfl

/-- What the result of a search means. -/
def Ends (deps : τ → List τ) (start : Targets τ) (root : τ) : Result τ → Prop
  | .plan head targets => ∃ plan tail,
      Searching deps start root ⟨head, tail, none, targets⟩ [] plan
  | .panic _ _ => CycleReachable deps root
  | .outOfBounds => False

/-- No index goes back, no target is unresolved again, and something has moved on. -/
def Progress (deps : τ → List τ) (targets targets' : Targets τ) : Prop :=
  (∀ target, targets.depIndex target ≤ targets'.depIndex target ∧
    (targets.resolved target = true → targets'.resolved target = true)) ∧
  ∃ tos, (targets.resolved tos = false ∧ targets'.resolved tos = true) ∨
    (targets.depIndex tos < (deps tos).length ∧ targets.depIndex tos < targets'.depIndex tos)

theorem Searching.progress_resolve (h : Searching deps start root search (tos :: rest) plan) :
    Progress deps search.targets (Target.resolve search tos).targets := by
  have hNodup := h.nodup
  simp only [List.cons_append, List.nodup_cons, List.mem_append, not_or] at hNodup
  have hOpen : ¬search.targets.resolved tos = true := by
    rw [h.resolved, h.fresh tos (by simp)]
    simp [hNodup.1.2]
  refine ⟨fun target => ⟨Nat.le_refl _, fun hResolved => ?_⟩, tos, .inl ⟨by simpa using hOpen, ?_⟩⟩
  · simp only [Target.resolve, Function.update_apply]
    split_ifs <;> simp [hResolved]
  · simp [Target.resolve]

theorem progress_advance (hNext : (deps tos)[search.targets.depIndex tos]? = some dependency) :
    Progress deps search.targets (search.advance tos).targets := by
  refine ⟨fun target => ⟨?_, id⟩, tos, .inr ⟨(List.getElem?_eq_some_iff.mp hNext).1, ?_⟩⟩
  · by_cases hEq : target = tos
    · rw [hEq, Search.advance_depIndex_self]
      omega
    · rw [Search.advance_depIndex_of_ne hEq]
  · rw [Search.advance_depIndex_self]
    omega

/-- One turn goes on with the search, or ends it with a result that means what it says. -/
theorem Searching.turn (h : Searching deps start root search path plan) :
    match turn deps search with
    | .inl search' => (∃ path' plan', Searching deps start root search' path' plan') ∧
        Progress deps search.targets search'.targets
    | .inr result => Ends deps start root result := by
  have hStack := h.stack.head_eq
  cases path with
  | nil =>
      obtain ⟨head, tail, stack, targets⟩ := search
      obtain rfl : stack = none := hStack
      exact ⟨plan, tail, h⟩
  | cons tos rest =>
      simp only [Target.turn, hStack, List.head?_cons]
      split_ifs with hIndex
      · exact ⟨⟨rest, plan ++ [tos], h.resolve hIndex⟩, h.progress_resolve⟩
      · have hBound := h.onPath.1
        cases hNext : (deps tos)[search.targets.depIndex tos]? with
        | none =>
            rw [List.getElem?_eq_none_iff] at hNext
            omega
        | some dependency =>
            have hVisit := visit_eq search tos dependency
            simp only [hVisit]
            split_ifs with hResolved hOn
            · exact ⟨⟨_, _, h.skip hNext hResolved⟩, progress_advance hNext⟩
            · exact h.cycle hNext (by simpa using hResolved) hOn
            · exact ⟨⟨_, _, h.descend hNext (by simpa using hResolved) (by simpa using hOn)⟩,
                progress_advance hNext⟩

/-- If the search ends, its result means what it says. -/
theorem Searching.ends {fuel : Nat} {result : Result τ}
    (h : Searching deps start root search path plan) (hLoop : loop deps fuel search = some result) :
    Ends deps start root result := by
  induction fuel generalizing search path plan with
  | zero => cases hLoop
  | succ fuel ih =>
      have hTurn := h.turn
      rw [Target.loop] at hLoop
      split at hLoop <;> rename_i hEq <;> rw [hEq] at hTurn
      · obtain ⟨⟨path', plan', h'⟩, -⟩ := hTurn
        exact ih h' hLoop
      · cases hLoop
        exact hTurn

end Turns

section Termination

variable [Fintype τ]

/-- An upper bound for the number of turns that are left before the stack is empty. -/
def remaining (deps : τ → List τ) (targets : Targets τ) : Nat :=
  ∑ target, ((deps target).length - targets.depIndex target +
    if targets.resolved target = true then 0 else 1)

theorem Progress.remaining_lt (h : Progress deps targets targets') :
    remaining deps targets' < remaining deps targets := by
  obtain ⟨hLe, tos, hLt⟩ := h
  refine Finset.sum_lt_sum (fun target _ => ?_) ⟨tos, Finset.mem_univ _, ?_⟩
  · obtain ⟨hIndex, hResolved⟩ := hLe target
    split_ifs <;> first | omega | simp_all
  · obtain ⟨hIndex, hResolved⟩ := hLe tos
    rcases hLt with ⟨hBefore, hAfter⟩ | ⟨hBound, hMore⟩
    · simp only [hBefore, hAfter, if_true, Bool.false_eq_true, if_false]
      omega
    · split_ifs <;> first | omega | simp_all

variable [DecidableEq τ]

/-- With enough fuel the search ends. -/
theorem Searching.terminates {fuel : Nat} (h : Searching deps start root search path plan)
    (hFuel : remaining deps search.targets < fuel) :
    ∃ result, loop deps fuel search = some result := by
  induction fuel generalizing search path plan with
  | zero => omega
  | succ fuel ih =>
      have hTurn := h.turn
      rw [Target.loop]
      split <;> rename_i hEq <;> rw [hEq] at hTurn
      · obtain ⟨⟨path', plan', h'⟩, hProgress⟩ := hTurn
        have hLess := hProgress.remaining_lt
        exact ih h' (by omega)
      · exact ⟨_, rfl⟩

/-- The targets between two searches: what is resolved comes with its dependencies, and
what is not has not been looked at. -/
structure Settled (deps : τ → List τ) (targets : Targets τ) : Prop where
  fresh : ∀ target, targets.resolved target = false → targets.depIndex target = 0
  ordered : ∃ order : List τ, (∀ target, targets.resolved target = true ↔ target ∈ order) ∧
    DependenciesFirst deps (fun _ => False) order

omit [Fintype τ] in
theorem Settled.searching (h : Settled deps targets) (hRoot : targets.resolved root = false) :
    Searching deps targets root
      { head := none
        tail := none
        stack := some root
        targets := { targets with
          nextToBeVisited := Function.update targets.nextToBeVisited root none } } [root] [] := by
  refine ⟨?_, .nil, rfl, by simp, by simp, by simpa using hRoot, fun target _ => h.fresh target,
    ⟨?_, ?_, trivial⟩, by simpa using .refl, ?_, rfl⟩
  · exact Linked.nil.push (by simp)
  · simp [h.fresh root hRoot]
  · simp [h.fresh root hRoot, Explored]
  · intro front target back hSplit
    simp at hSplit

omit [DecidableEq τ] [Fintype τ] in
/-- What the search leaves behind is settled again. -/
theorem Searching.settled (h : Searching deps start root search [] plan) (hStart : Settled deps start) :
    Settled deps search.targets := by
  obtain ⟨order, hOrder, hFirst⟩ := hStart.ordered
  refine ⟨fun target => h.index target List.not_mem_nil, order ++ plan, fun target => ?_, ?_⟩
  · rw [h.resolved, hOrder, List.mem_append]
  · exact hFirst.extend h.first fun target => (hOrder target).mp

omit [DecidableEq τ] [Fintype τ] in
theorem Searching.resolved_of_needs (h : Searching deps start root search [] plan)
    (hStart : Settled deps start) {target : τ} (hNeeds : Needs deps root target) :
    start.resolved target = true ∨ target ∈ plan := by
  obtain ⟨order, hOrder, hFirst⟩ := hStart.ordered
  induction hNeeds with
  | refl => exact .inr (List.mem_of_getLast? (by simpa using h.last))
  | tail _ hDepends ih =>
      rcases ih with hBefore | hPlan
      · rw [hOrder] at hBefore
        exact .inl ((hOrder _).mpr ((hFirst.closed hBefore hDepends).resolve_right id))
      · exact (h.first.closed hPlan hDepends).symm

omit [DecidableEq τ] [Fintype τ] in
/-- The plan has all targets that the root needs and that were not resolved before. -/
theorem Searching.mem_plan_iff (h : Searching deps start root search [] plan)
    (hStart : Settled deps start) (target : τ) :
    target ∈ plan ↔ Needs deps root target ∧ start.resolved target = false := by
  constructor
  · intro hTarget
    exact ⟨h.needed target hTarget, h.fresh target hTarget⟩
  · rintro ⟨hNeeds, hOpen⟩
    exact (h.resolved_of_needs hStart hNeeds).resolve_left (by simp [hOpen])

omit [Fintype τ] in
/-- A search that ends with a plan has seen no cycle. -/
theorem Searching.not_cycle (h : Searching deps start root search [] plan)
    (hStart : Settled deps start) : ¬CycleReachable deps root := by
  rintro ⟨target, hNeeds, hCycle⟩
  obtain ⟨order, hOrder, hFirst⟩ := (h.settled hStart).ordered
  have hResolved : search.targets.resolved target = true := by
    rw [h.resolved]
    exact h.resolved_of_needs hStart hNeeds
  exact hFirst.not_cycle ((hOrder target).mp hResolved) hCycle

end Termination

section Calls

variable [DecidableEq τ]

/-- Completed calls for unresolved roots, one after the other, on a graph whose targets are
as `TARGET` defines them. -/
def system (deps : τ → List τ) : System (Targets τ) τ where
  init targets := ∀ target, targets.depIndex target = 0 ∧ targets.resolved target = false
  step targets root targets' := targets.resolved root = false ∧
    ∃ fuel head, targetComputePlan deps fuel targets root = some (.plan head targets')

theorem Settled.call {targets' : Targets τ} {fuel : Nat} {head : Option τ} (h : Settled deps targets)
    (hRoot : targets.resolved root = false)
    (hCall : targetComputePlan deps fuel targets root = some (.plan head targets')) :
    Settled deps targets' := by
  obtain ⟨plan, tail, hEnd⟩ := (h.searching hRoot).ends hCall
  exact hEnd.settled h

theorem Settled.run {roots : List τ} (run : (system deps).Execution roots targets) :
    Settled deps targets := by
  refine run.stateInvariant (fun targets hInit => ?_) fun targets root targets' h hStep => ?_
  · refine ⟨fun target _ => (hInit target).1, [], fun target => ?_, fun front target back hSplit => ?_⟩
    · simp [(hInit target).2]
    · simp at hSplit
  · obtain ⟨hRoot, fuel, head, hCall⟩ := hStep
    exact h.call hRoot hCall

/-- On every finite graph of targets, after any number of completed calls, a call for an
unresolved root terminates. When the root can reach no cycle, it returns the list of the
targets that the root reaches and that no earlier call has resolved, each once, the root
at the end and every target behind its dependencies; otherwise it panics. -/
theorem target_compute_plan_correct [Fintype τ] {roots : List τ}
    (run : (system deps).Execution roots targets) (root : τ) (hRoot : targets.resolved root = false)
    (fuel : Nat) (hFuel : remaining deps targets < fuel) :
    (¬CycleReachable deps root → ∃ head targets' plan,
      targetComputePlan deps fuel targets root = some (.plan head targets') ∧
      Linked targets'.next head plan ∧ plan.Nodup ∧
      (∀ target, target ∈ plan ↔ Needs deps root target ∧ targets.resolved target = false) ∧
      plan.getLast? = some root ∧ DependenciesFirst deps (targets.resolved · = true) plan ∧
      ∀ target, targets'.resolved target = true ↔ targets.resolved target = true ∨ target ∈ plan) ∧
    (CycleReachable deps root → ∃ dependency tos,
      targetComputePlan deps fuel targets root = some (.panic dependency tos)) := by
  have hSettled := Settled.run run
  have hSearch := hSettled.searching hRoot
  obtain ⟨result, hResult⟩ := hSearch.terminates hFuel
  have hEnds := hSearch.ends hResult
  cases result with
  | plan head targets' =>
      obtain ⟨plan, tail, hEnd⟩ := hEnds
      refine ⟨fun _ => ⟨head, targets', plan, hResult, hEnd.list, hEnd.nodup, ?_, ?_, hEnd.first,
        hEnd.resolved⟩, fun hCycle => (hEnd.not_cycle hSettled hCycle).elim⟩
      · exact hEnd.mem_plan_iff hSettled
      · simpa using hEnd.last
  | panic dependency tos =>
      exact ⟨fun hNone => (hNone hEnds).elim, fun _ => ⟨dependency, tos, hResult⟩⟩
  | outOfBounds => exact hEnds.elim

/-- Three targets of which the first one names a dependency twice. The plan for the second
one comes first. -/
theorem target_compute_plan_correct_shared_dependency :
    let deps : Fin 3 → List (Fin 3) := fun target => [[1, 2, 1], [2], []].getD target []
    ∃ targets, (system deps).Execution [1] targets ∧ ∃ head targets' plan,
      targetComputePlan deps 9 targets 0 = some (.plan head targets') ∧
      Linked targets'.next head plan ∧ plan.getLast? = some 0 ∧ 1 ∉ plan := by
  intro deps
  let targets₀ : Targets (Fin 3) := ⟨fun _ => none, fun _ => none, fun _ => 0, fun _ => false⟩
  have start : (system deps).Execution [] targets₀ := .start fun _ => ⟨rfl, rfl⟩
  have run : (system deps).Execution [1] _ := start.step ⟨rfl, 9, some 2, rfl⟩
  have hUp : ∀ a b : Fin 3, DependsOn deps a b → a.val < b.val := by
    simp only [DependsOn]
    decide
  have hAcyclic : ¬CycleReachable deps 0 := fun ⟨target, _, hCycle⟩ =>
    transGen_irrefl_of_rank hUp target hCycle
  obtain ⟨head, targets', plan, hCall, hList, -, hMem, hLast, -⟩ :=
    (target_compute_plan_correct run 0 rfl 9 (by decide)).1 hAcyclic
  refine ⟨_, run, head, targets', plan, hCall, hList, hLast, fun hOne => ?_⟩
  have hOpen := ((hMem 1).mp hOne).2
  revert hOpen
  decide

end Calls

end Ricerca.Target
