import Ricerca.Mem.InvtlbSafety

/-! What the countdown counts: from the first request on, the cores that have the pending
state and those that have stored the other one and not counted down yet, as long as requests
wait for the acknowledgements of the one before. Before the first request it is off by the
number of cores, because `mem_virt_invtlb_init` gives all cores the pending state and does
not count them. -/
namespace Ricerca.Invtlb

open Ricerca.Foundation

variable {cpus : Nat} {s s' : State cpus} {core other : Fin cpus}
  {trace : List (Fin cpus × Action)}

/-- The cores that have not acknowledged the last request. -/
def unacknowledged (s : State cpus) : Finset (Fin cpus) :=
  Finset.univ.filter fun core => s.states core = s.pendingState

/-- The cores between the store and the decrement of `mem_virt_invtlb_ack`. -/
def counting (s : State cpus) : Finset (Fin cpus) :=
  Finset.univ.filter fun core => (s.phase core).counts

theorem mem_unacknowledged : core ∈ unacknowledged s ↔ s.states core = s.pendingState := by
  simp [unacknowledged]

theorem mem_counting : core ∈ counting s ↔ (s.phase core).counts = true := by
  simp [counting]

/-- Both counters count. -/
structure Exact (s : State cpus) : Prop where
  pendingTlbUpdates : s.pendingTlbUpdates = (unacknowledged s).card
  idleCores : s.idleCores =
    (Finset.univ.filter fun core => s.states core = memVirtInvtlbStateIdle).card

section Unrequested

theorem requested (hShape : Shape s) (hStep : Performed s core .request s') :
    s'.requester.isSome := by
  cases hStep with
  | request =>
      rw [memVirtInvtlbRequest_eq hShape.pending]
      rfl

/-- A request is not taken back. -/
theorem requester_isSome {action : Action} (hSome : s.requester.isSome) (hShape : Shape s)
    (hStep : Performed s core action s') : s'.requester.isSome := by
  by_cases hRequest : action = .request
  · subst hRequest
    exact requested hShape hStep
  · rw [(hStep.alone hRequest).requester]
    exact hSome

/-- No request has been made too early before the first one. -/
theorem unrequested_run (hCpus : cpus < 2 ^ 64) (run : (system cpus).Execution trace s)
    (hNone : s.requester = none) : ((system cpus).restrict Acknowledged).Execution trace s := by
  revert hNone
  apply run.invariant (P := fun trace s => s.requester = none →
    ((system cpus).restrict Acknowledged).Execution trace s)
  · rintro s rfl -
    exact .start rfl
  · rintro trace s ⟨core, action⟩ s' hRun ih hStep hNone
    have hShape := Shape.run hCpus hRun
    have hOld : s.requester = none := by
      by_contra hSome
      have hKept := requester_isSome (Option.isSome_iff_ne_none.mpr hSome) hShape
        (perform_iff.mp hStep)
      simp [hNone] at hKept
    refine (ih hOld).step ⟨?_, hStep⟩
    cases action
    case request => simpa [hNone] using requested hShape (perform_iff.mp hStep)
    all_goals trivial

end Unrequested

section Requested

/-- No core has the pending state while it is about to count down. -/
theorem Counted.due_card (h : Counted s) :
    (due s).card = (unacknowledged s).card + (counting s).card := by
  have hDisjoint : Disjoint (unacknowledged s) (counting s) := by
    rw [Finset.disjoint_left]
    intro core hState hCounts
    exact h.counts core (mem_counting.mp hCounts) (mem_unacknowledged.mp hState)
  rw [← Finset.card_union_of_disjoint hDisjoint]
  congr 1
  ext core
  rw [mem_due, Finset.mem_union, mem_unacknowledged, mem_counting]
  rfl

theorem Shape.exact_idleCores (h : Shape s) : s.idleCores =
    (Finset.univ.filter fun core => s.states core = memVirtInvtlbStateIdle).card := by
  rw [h.idleCores]
  congr 1
  ext other
  rw [Finset.mem_filter, Finset.mem_filter, h.idle]
  rfl

theorem counting_eq_empty : counting s = ∅ ↔ ∀ core, (s.phase core).counts = false := by
  simp [counting, Finset.filter_eq_empty_iff]

/-- The countdown is exact while no core is about to count down. -/
theorem Counted.exact_iff (h : Counted s) (hShape : Shape s) (hSome : s.requester.isSome) :
    Exact s ↔ ∀ core, (s.phase core).counts = false := by
  have hCount := h.count_eq hShape hSome
  rw [h.due_card] at hCount
  rw [← counting_eq_empty, ← Finset.card_eq_zero]
  constructor
  · intro hExact
    have hLeft := hExact.pendingTlbUpdates
    omega
  · intro hNone
    exact ⟨by omega, hShape.exact_idleCores⟩

/-- Before the first request the countdown is exact only by accident. -/
theorem Counted.exact_iff_unrequested (hCpus : cpus < 2 ^ 64) (h : Counted s) (hShape : Shape s)
    (hNone : s.requester = none) : Exact s ↔ ∀ core, (s.phase core).counts = true := by
  have hCount := h.count
  have hBound := hShape.bound
  have hLe : (due s).card ≤ cpus := card_le_cpus _
  rw [uncounted, hNone, h.due_card] at hCount
  rw [h.due_card] at hLe
  simp only [Option.isSome_none, Bool.false_eq_true, if_false, wrap] at hCount
  have hAll : (∀ core, (s.phase core).counts = true) ↔ (counting s).card = cpus := by
    have hUniv := Finset.card_eq_iff_eq_univ (counting s)
    rw [Fintype.card_fin] at hUniv
    rw [hUniv, Finset.eq_univ_iff_forall]
    exact forall_congr' fun core => mem_counting.symm
  rw [hAll]
  constructor
  · intro hExact
    have hLeft := hExact.pendingTlbUpdates
    omega
  · intro hEvery
    exact ⟨by omega, hShape.exact_idleCores⟩

/-- A request makes the countdown exact just when every core has stored its acknowledgement
of the one before. -/
theorem Shape.exact_request (hCpus : cpus < 2 ^ 64) (h : Shape s) (hFrom : s.phase core = .running) :
    Exact (memVirtInvtlbRequest s core) ↔ ∀ other, s.states other ≠ s.pendingState := by
  have hBit := h.bit
  have hBusy : s.phase core ≠ .idle := by simp [hFrom]
  have hLe := h.idleCores_le
  have hIdleCores := h.idleCores
  have hCount : (s.asked core).pendingTlbUpdates =
      (Finset.univ.filter fun other => ¬ s.phase other = .idle).card := by
    have hLeft : (s.asked core).pendingTlbUpdates = wrap (cpus + (2 ^ 64 - s.idleCores)) := rfl
    rw [hLeft, card_filter_not_eq_sub, Fintype.card_fin, ← hIdleCores, wrap]
    omega
  have hSubset : unacknowledged (s.asked core) ⊆
      Finset.univ.filter fun other => ¬ s.phase other = .idle := by
    intro other hOther
    have hState : s.states other = 1 - s.pendingState := mem_unacknowledged.mp hOther
    have hNotTwo : s.states other ≠ 2 := by omega
    simpa [h.idle] using hNotTwo
  rw [memVirtInvtlbRequest_eq h.pending]
  constructor
  · intro hExact other hState
    have hAll := Finset.eq_of_subset_of_card_le hSubset
      (Nat.le_of_eq (hCount.symm.trans hExact.pendingTlbUpdates))
    have hOther : s.phase other ≠ .idle := by
      rw [Ne, h.idle]
      omega
    have hMem : other ∈ unacknowledged (s.asked core) := by
      rw [hAll]
      simpa using hOther
    have hNew : s.states other = 1 - s.pendingState := mem_unacknowledged.mp hMem
    omega
  · intro hAcked
    refine ⟨?_, (h.asked hBusy).exact_idleCores⟩
    rw [hCount]
    congr 1
    apply Finset.Subset.antisymm _ hSubset
    intro other hOther
    have hNotIdle : s.phase other ≠ .idle := by simpa using hOther
    have hOne := h.busy other hNotIdle
    have hNew := hAcked other
    have hState : s.states other = 1 - s.pendingState := by omega
    exact mem_unacknowledged.mpr hState

/-- A core that counts down when the countdown is exact makes it wrong. -/
theorem Exact.not_count (h : Exact s) (hStep : Performed s core .count s') : ¬Exact s' := by
  intro hExact
  have hNow := hExact.pendingTlbUpdates
  cases hStep with
  | @count caller hFrom =>
      have hSame : (memVirtInvtlbAckCount s).2.pendingTlbUpdates = (unacknowledged s).card := hNow
      have hLeft : (memVirtInvtlbAckCount s).2.pendingTlbUpdates = coresLeft s := rfl
      rw [← h.pendingTlbUpdates, hLeft, coresLeft, wrap] at hSame
      omega

/-- A core that counts down with its next step, or does so when it enters idle. -/
def Acks (s : State cpus) (core : Fin cpus) : Prop :=
  (s.phase core).counts = true ∨ s.phase core = .running ∧ s.states core = s.pendingState

theorem Acks.due (h : Acks s core) : Due s core := by
  rcases h with hCounts | ⟨-, hState⟩
  · exact .inr hCounts
  · exact .inl hState

theorem due_card_pos (h : Acks s core) : 0 < (due s).card :=
  Finset.card_pos.mpr ⟨core, mem_due.mpr h.due⟩

/-- There is something to count down. -/
theorem Counted.pos (h : Counted s) (hShape : Shape s) (hSome : s.requester.isSome)
    (hAcks : Acks s core) : 0 < s.pendingTlbUpdates := by
  rw [h.count_eq hShape hSome]
  exact due_card_pos hAcks

end Requested

section Updates

/-- What happens on the way of a request to its generation update. -/
inductive Note where
  | request
  | genUpdatePending
  deriving DecidableEq

/-- Requests that are accepted, and acknowledgements that complete a countdown. -/
def note (s : State cpus) (label : Fin cpus × Action) : List Note :=
  match label.2, s.phase label.1 with
  | .request, .running => if s.pending then [] else [.request]
  | .count, .counting _ =>
      if (memVirtInvtlbAckCount s).1 = .genUpdatePending then [.genUpdatePending] else []
  | .idleEnter, .running =>
      if (memVirtInvtlbAck s label.1 s.pendingState).1 = .genUpdatePending then [.genUpdatePending]
      else []
  | _, _ => []

/-- How often a countdown was completed since the last request. -/
def updatesSince (log : List Note) : Nat :=
  log.foldl (fun n note => match note with
    | .request => 0
    | .genUpdatePending => n + 1) 0

/-- A countdown that is not completed has not been completed. -/
structure Once (s : State cpus) (log : List Note) : Prop where
  fresh : s.requester = none → updatesSince log = 0
  left : 0 < s.pendingTlbUpdates → updatesSince log = 0
  most : updatesSince log ≤ 1

theorem updatesSince_append (log : List Note) (last : Note) :
    updatesSince (log ++ [last]) = match last with
      | .request => 0
      | .genUpdatePending => updatesSince log + 1 := by
  cases last <;> simp [updatesSince]

variable {log : List Note}

/-- A step that leaves the countdown alone. -/
theorem Once.same (h : Once s log) (hRequester : s'.requester = s.requester)
    (hLeft : s'.pendingTlbUpdates = s.pendingTlbUpdates) : Once s' log := by
  refine ⟨?_, ?_, h.most⟩
  · rw [hRequester]
    exact h.fresh
  · rw [hLeft]
    exact h.left

theorem memVirtInvtlbAckCount_status :
    (memVirtInvtlbAckCount s).1 = .genUpdatePending ↔ coresLeft s = 0 := by
  rw [memVirtInvtlbAckCount]
  simp only
  split_ifs with hZero
  · exact iff_of_true rfl hZero
  · exact iff_of_false (by simp) hZero

/-- An acknowledgement outside the lock or on the way to idle. -/
theorem Once.ack (h : Once s log) (hShape : Shape s) (hCounted : Counted s) (hCpus : cpus < 2 ^ 64)
    (hAcks : Acks s core) (hRequester : s'.requester = s.requester)
    (hLeft : s'.pendingTlbUpdates = coresLeft s) :
    Once s' (log ++ if (memVirtInvtlbAckCount s).1 = .genUpdatePending then
      [.genUpdatePending] else []) := by
  simp only [memVirtInvtlbAckCount_status]
  have hBound := hShape.bound
  cases hAsked : s.requester with
  | none =>
      -- The countdown has wrapped around, and is far from its end.
      have hCount := hCounted.count
      have hLe : (due s).card ≤ cpus := card_le_cpus _
      have hPos := due_card_pos hAcks
      have hNotLast : ¬ coresLeft s = 0 := by
        rw [uncounted, hAsked] at hCount
        simp only [Option.isSome_none, Bool.false_eq_true, if_false, wrap, coresLeft] at hCount ⊢
        omega
      rw [if_neg hNotLast, List.append_nil]
      have hZero := h.fresh hAsked
      exact ⟨fun _ => hZero, fun _ => hZero, h.most⟩
  | some requester =>
      have hPos : 0 < s.pendingTlbUpdates := hCounted.pos hShape (by simp [hAsked]) hAcks
      have hZero := h.left hPos
      split_ifs with hLast
      · refine ⟨?_, ?_, ?_⟩
        · simp [hRequester, hAsked]
        · rw [hLeft, hLast]
          simp
        · rw [updatesSince_append, hZero]
      · rw [List.append_nil]
        exact ⟨fun _ => hZero, fun _ => hZero, h.most⟩

theorem Once.step {action : Action} (h : Once s log) (hShape : Shape s) (hCounted : Counted s)
    (hCpus : cpus < 2 ^ 64) (hStep : Performed s core action s') :
    Once s' (log ++ note s (core, action)) := by
  cases hStep with
  | request hFrom =>
      simp only [note, hFrom]
      rw [memVirtInvtlbRequest_eq hShape.pending, if_neg (by simp [hShape.pending])]
      have hReset : updatesSince (log ++ [.request]) = 0 := updatesSince_append log .request
      exact ⟨fun _ => hReset, fun _ => hReset, by omega⟩
  | count hFrom =>
      simp only [note, hFrom]
      exact h.ack hShape hCounted hCpus (.inl (by rw [hFrom]; rfl)) rfl rfl
  | idleEnter hFrom =>
      simp only [note, hFrom]
      by_cases hMatch : s.states core = s.pendingState
      · have hAck := h.ack hShape hCounted hCpus (.inr ⟨hFrom, hMatch⟩) alone_idleEnter.requester
          (memVirtInvtlbOnIdleEnter_left hMatch)
        rw [memVirtInvtlbAck, if_pos hMatch]
        exact hAck
      · rw [memVirtInvtlbOnIdleEnter_of_ne hMatch, memVirtInvtlbAck_of_ne hMatch]
        simp only [reduceCtorEq, if_false, List.append_nil]
        exact h.same rfl rfl
  | updateCr3 | load | store | skip | update | write | idleExit =>
      -- These steps are not noted.
      simp only [note, List.append_nil]
      exact h.same rfl rfl

theorem Once.run (hCpus : cpus < 2 ^ 64) {t : State cpus × List Note}
    (run : (((system cpus).restrict Acknowledged).record note).Execution trace t) :
    Once t.1 t.2 := by
  apply run.invariant (P := fun _ t => Once t.1 t.2)
  · rintro ⟨s, log⟩ ⟨hStart, hLog⟩
    obtain rfl : log = [] := hLog
    constructor <;> simp [updatesSince]
  · intro trace t label t' hRun h hStep
    have hRestricted := hRun.ofRecord
    have hOnce := h.step (Shape.run hCpus hRestricted.ofRestrict) (Counted.run hCpus hRestricted)
      hCpus (perform_iff.mp hStep.1.2)
    rw [hStep.2]
    exact hOnce

end Updates

/-- As long as a request waits until all cores have acknowledged the one before and counted
down, the countdown is from the first request on the number of cores with the pending state
and of those that have still to count down, so it is exact while there are none of these; an
acknowledgement counts down from a positive number, and a request leads to at most one
generation update. The number of idle cores is exact in every run. Before the first request
the countdown is exact only when all cores are about to count down. After a request it is
exact only if no core had the pending state, and a core that was about to count down then
makes it wrong. -/
theorem invtlb_counter_exact_when_acknowledged (cpus : Nat) (hCpus : cpus < 2 ^ 64) :
    (∀ trace s log,
      (((system cpus).restrict Acknowledged).record note).Execution trace (s, log) →
      updatesSince log ≤ 1 ∧ (s.requester.isSome →
        s.pendingTlbUpdates = (unacknowledged s).card + (counting s).card ∧
        (Exact s ↔ ∀ core, (s.phase core).counts = false) ∧
        ∀ core, Acks s core → 0 < s.pendingTlbUpdates)) ∧
    ∀ trace s, (system cpus).Execution trace s →
      s.idleCores = (Finset.univ.filter fun core => s.states core = memVirtInvtlbStateIdle).card ∧
      (s.requester = none → (Exact s ↔ ∀ core, (s.phase core).counts = true)) ∧
      (∀ core, s.phase core = .running →
        (Exact (memVirtInvtlbRequest s core) ↔ ∀ other, s.states other ≠ s.pendingState)) ∧
      ∀ core s', (s.phase core).counts = true → perform s core .count = some s' →
        Exact s → ¬Exact s' := by
  constructor
  · intro trace s log run
    have hRestricted := run.ofRecord
    have hCounted := Counted.run hCpus hRestricted
    have hShape := Shape.run hCpus hRestricted.ofRestrict
    refine ⟨(Once.run hCpus run).most, fun hSome => ⟨?_, hCounted.exact_iff hShape hSome, ?_⟩⟩
    · rw [← hCounted.due_card]
      exact hCounted.count_eq hShape hSome
    · exact fun core hAcks => hCounted.pos hShape hSome hAcks
  · intro trace s run
    have hShape := Shape.run hCpus run
    refine ⟨hShape.exact_idleCores, fun hNone => ?_, fun core hRunning => ?_,
      fun core s' _ => ?_⟩
    · have hCounted := Counted.run hCpus (unrequested_run hCpus run hNone)
      exact hCounted.exact_iff_unrequested hCpus hShape hNone
    · exact hShape.exact_request hCpus hRunning
    · exact fun hStep hExact => hExact.not_count (perform_iff.mp hStep)

/-- Two cores acknowledge, then the first one makes a request and both have to acknowledge
again. -/
theorem invtlb_counter_exact_when_acknowledged_two_cores :
    ∃ trace s, ((system 2).restrict Acknowledged).Execution trace s ∧ (0, .request) ∈ trace ∧
      s.pendingTlbUpdates = 2 ∧ Exact s := by
  have start : ((system 2).restrict Acknowledged).Execution [] (memVirtInvtlbInit 2) := .start rfl
  have calls₀ := performed_allowed start 0 (.updateCr3 0 1) trivial rfl
  have loads₀ := performed_allowed calls₀ 0 .load trivial rfl
  have stores₀ := performed_allowed loads₀ 0 .compare trivial rfl
  have acks₀ := performed_allowed stores₀ 0 .count trivial rfl
  have writes₀ := performed_allowed acks₀ 0 .write trivial rfl
  have calls₁ := performed_allowed writes₀ 1 (.updateCr3 0 1) trivial rfl
  have loads₁ := performed_allowed calls₁ 1 .load trivial rfl
  have stores₁ := performed_allowed loads₁ 1 .compare trivial rfl
  have acks₁ := performed_allowed stores₁ 1 .count trivial rfl
  have run := performed_allowed acks₁ 0 .request (show ∀ core, _ by decide) rfl
  obtain ⟨log, recorded⟩ := run.record note
  have hExact := ((invtlb_counter_exact_when_acknowledged 2 (by omega)).1 _ _ _ recorded).2 rfl
  exact ⟨_, _, run, by decide, rfl, hExact.2.1.mpr (by decide)⟩

/-- After `mem_virt_invtlb_init` every core has the pending state, and nobody is counted. -/
theorem invtlb_init_not_exact : ¬ ∀ cpus trace s, (system cpus).Execution trace s → Exact s := by
  intro h
  have hExact := h 1 [] (memVirtInvtlbInit 1) (.start rfl)
  have hCount := hExact.pendingTlbUpdates
  revert hCount
  decide

end Ricerca.Invtlb
