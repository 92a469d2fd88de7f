import Ricerca.Foundation.Chain
import Ricerca.Foundation.Reading

/-! Circular lists, and loops that go round one of them. A circular list is a chain that ends
where it starts, so it can be entered at any of its nodes. -/
namespace Ricerca.Foundation

universe u

variable {α : Type u}

/-- The nodes met behind `root`, in order, until `root` comes again. -/
structure Ring (next : α → α) (root : α) (rest : List α) : Prop where
  chain : Chain next root (next root) rest
  nodup : (root :: rest).Nodup

/-- A chain up to one node of a ring, and on to another one. -/
theorem Chain.onward {next : α → α} {root stop head : α} {cells : List α}
    (h : Chain next root head cells) (hStop : stop ∉ cells) (hNe : root ≠ stop)
    (hNext : next root = stop) : Chain next stop head (cells ++ [root]) := by
  induction h with
  | nil =>
      apply Chain.cons hNe
      rw [hNext]
      exact .nil
  | @cons a cells _ rest ih =>
      simp only [List.mem_cons, not_or] at hStop
      exact .cons (Ne.symm hStop.1) (ih hStop.2)

/-- The link of a cell, by its place in the chain. -/
theorem Chain.next_eq {next : α → α} {stop head a : α} {cells : List α}
    (h : Chain next stop head cells) :
    head = cells[0]?.getD stop ∧ ∀ i, cells[i]? = some a → next a = cells[i + 1]?.getD stop := by
  induction h with
  | nil => exact ⟨rfl, fun i hAt => by cases hAt⟩
  | @cons b cells _ rest ih =>
      refine ⟨rfl, fun i hAt => ?_⟩
      cases i with
      | zero =>
          cases hAt
          simpa using ih.1
      | succ i =>
          rw [List.getElem?_cons_succ] at hAt ⊢
          exact ih.2 i hAt

namespace Ring

variable {next next' : α → α} {root a : α} {rest : List α}

/-- One node is linked to itself. -/
theorem single (h : next root = root) : Ring next root [] := by
  refine ⟨?_, List.nodup_singleton root⟩
  rw [h]
  exact .nil

/-- The link of a node, by its place; behind the last one comes the first one again. -/
theorem next_eq (h : Ring next root rest) {i : Nat} (hAt : (root :: rest)[i]? = some a) :
    next a = ((root :: rest)[i + 1]?).getD root := by
  obtain ⟨hHead, hNext⟩ := h.chain.next_eq (a := a)
  cases i with
  | zero =>
      cases hAt
      exact hHead
  | succ i => exact hNext i hAt

/-- A new node is linked in behind the last one. -/
theorem append {last : α} (h : Ring next root rest) (hLast : (root :: rest).getLast? = some last)
    (hNew : a ∉ root :: rest) (hSame : ∀ b ∈ root :: rest, b ≠ last → next' b = next b)
    (hLink : next' last = a) (hEnd : next' a = root) : Ring next' root (rest ++ [a]) := by
  have hRoot : a ≠ root := fun hEq => hNew (hEq ▸ List.mem_cons_self ..)
  have hNodup : (root :: (rest ++ [a])).Nodup := by
    rw [← List.cons_append]
    refine List.nodup_append.mpr ⟨h.nodup, List.nodup_singleton a, ?_⟩
    intro b hb c hc hEq
    rw [List.mem_singleton.mp hc] at hEq
    exact hNew (hEq ▸ hb)
  refine ⟨?_, hNodup⟩
  rcases List.eq_nil_or_concat rest with rfl | ⟨front, last', rfl⟩
  · have hEq : root = last := by simpa using hLast
    subst hEq
    rw [hLink]
    apply Chain.cons hRoot
    rw [hEnd]
    exact .nil
  · rw [List.concat_eq_append] at h hLast hSame ⊢
    have hEq : last' = last := by
      rw [← List.cons_append, List.getLast?_concat] at hLast
      exact Option.some.inj hLast
    subst hEq
    have hApart : last' ∉ root :: front := by
      have hSplit : (root :: front ++ [last']).Nodup := h.nodup
      intro hMem
      exact (List.nodup_append.mp hSplit).2.2 _ hMem _ (List.mem_singleton.mpr rfl) rfl
    simp only [List.mem_cons, not_or] at hApart
    have hFirst : next' root = next root :=
      hSame root (List.mem_cons_self ..) (Ne.symm hApart.1)
    rw [hFirst, List.append_assoc]
    apply h.chain.snoc hRoot _ hLink hEnd
    intro b hb
    apply hSame b (by simp [hb])
    rintro rfl
    exact hApart.2 hb

/-- The next node sees the same ring. -/
theorem rotate (h : Ring next root (a :: rest)) : Ring next a (rest ++ [root]) := by
  obtain ⟨hNext, hNe, hChain⟩ := h.chain.pop
  obtain ⟨hRoot, hRest⟩ := List.nodup_cons.mp h.nodup
  refine ⟨hChain.onward (List.nodup_cons.mp hRest).1 (Ne.symm hNe) hNext, ?_⟩
  have hPerm : (a :: (rest ++ [root])).Perm (root :: a :: rest) := by
    rw [← List.cons_append]
    exact List.perm_append_singleton root (a :: rest)
  exact hPerm.nodup_iff.mpr h.nodup

/-- So does every other node. -/
theorem from_mem (h : Ring next root rest) (ha : a ∈ root :: rest) :
    ∃ rest', Ring next a rest' ∧ (a :: rest').Perm (root :: rest) := by
  obtain ⟨before, after, hSplit⟩ := List.append_of_mem ha
  induction before generalizing root rest after with
  | nil =>
      cases hSplit
      exact ⟨rest, h, .refl _⟩
  | cons first before ih =>
      cases hSplit
      cases before with
      | nil =>
          exact ⟨_, h.rotate, List.perm_append_singleton first (a :: after)⟩
      | cons second before =>
          have hMem : a ∈ second :: (before ++ a :: after ++ [first]) := by simp
          obtain ⟨rest', hRing, hPerm⟩ := ih h.rotate hMem (after ++ [first]) (by simp)
          exact ⟨rest', hRing, hPerm.trans
            (List.perm_append_singleton first (second :: (before ++ a :: after)))⟩

end Ring

variable [DecidableEq α] {V σ : Type u} {m : α → V} {next : V → α} {visit : σ → α → V → σ}
  {root a : α} {rest : List α}

/-- The body of a `do`-`while` loop that visits a node, goes on to the next one and stops when
it is back at `root`. -/
def visitRound (next : V → α) (visit : σ → α → V → σ) (root : α) (s : σ × α) :
    Reading α V (Outcome (σ × α) σ) := do
  let node ← Reading.cell s.2
  let acc := visit s.1 s.2 node
  if next node = root then pure (.stop acc) else pure (.again (acc, next node))

/-- The loop is its first round and the rest. -/
theorem loop_visitRound_succ (n : Nat) (acc : σ) :
    Reading.loop (visitRound next visit root) (n + 1) (acc, a) m =
      if next (m a) = root then (some (visit acc a (m a)), [a])
      else
        ((Reading.loop (visitRound next visit root) n (visit acc a (m a), next (m a)) m).1,
          a :: (Reading.loop (visitRound next visit root) n (visit acc a (m a), next (m a)) m).2) := by
  by_cases hEnd : next (m a) = root
  · rw [if_pos hEnd]
    simp [Reading.loop, visitRound, Reading.cell, bind, pure, hEnd]
  · rw [if_neg hEnd]
    simp [Reading.loop, visitRound, Reading.cell, bind, pure, hEnd]

theorem Chain.loop_visitRound (h : Chain (fun b => next (m b)) root (next (m a)) rest) (acc : σ)
    {n : Nat} (hRounds : rest.length < n) :
    Reading.loop (visitRound next visit root) n (acc, a) m =
      (some ((a :: rest).foldl (fun acc b => visit acc b (m b)) acc), a :: rest) := by
  induction rest generalizing a acc n with
  | nil =>
      obtain ⟨k, rfl⟩ := Nat.exists_eq_succ_of_ne_zero (Nat.ne_of_gt hRounds)
      have hEnd : next (m a) = root := h.eq_nil_iff.mp rfl
      rw [loop_visitRound_succ, if_pos hEnd]
      rfl
  | cons b rest ih =>
      obtain ⟨k, rfl⟩ := Nat.exists_eq_succ_of_ne_zero (Nat.ne_zero_of_lt hRounds)
      obtain ⟨hNext, hNe, hRest⟩ := h.pop
      have hMore : next (m a) ≠ root := fun hEnd => hNe (hNext.symm.trans hEnd)
      rw [loop_visitRound_succ, if_neg hMore, hNext,
        ih hRest (visit acc a (m a)) (Nat.lt_of_succ_lt_succ hRounds)]
      rfl

/-- The loop visits every node of the ring once, and then it ends. -/
theorem Ring.loop_visitRound (h : Ring (fun b => next (m b)) root rest) (acc : σ) {n : Nat}
    (hRounds : rest.length < n) :
    Reading.loop (visitRound next visit root) n (acc, root) m =
      (some ((root :: rest).foldl (fun acc b => visit acc b (m b)) acc), root :: rest) :=
  h.chain.loop_visitRound acc hRounds

end Ricerca.Foundation
