import Ricerca.User.CookieLocks

/-! When the locks of entry cookies are given up. As long as every removal finds the key of its
group, a task outside has no lock, and whoever sleeps for one gets it at last. A removal that
does not find the key keeps the lock for ever. -/
namespace Ricerca.CookieLocks

open Ricerca.Foundation Ricerca.Cookie Ricerca.Mutex

variable {Task : Type} {s s' : State Task} {sleepers sleepers' : Nat → List Task}

section Phases

variable {phase : Phase} {entry : Nat}

theorem Phase.resume_waits (phase : Phase) : phase.resume.waits = none := by
  cases phase <;> rfl

theorem Phase.of_waits (h : phase.waits = some entry) : ∃ call, phase = .sleeping entry call := by
  cases phase with
  | sleeping entry' call =>
      obtain rfl : entry' = entry := Option.some.inj h
      exact ⟨call, rfl⟩
  | outside | inside | unlocking => cases h

/-- How many steps the holder is away from the call to `thread_mutex_unlock`. -/
def Phase.pending : Phase → Nat
  | .inside .. => 1
  | .outside | .sleeping .. | .unlocking .. => 0

theorem Phase.waits_of_uses (h : phase.uses = some entry) : phase.waits = none := by
  cases phase with
  | outside | sleeping => cases h
  | inside | unlocking => rfl

end Phases

/-- What holds in every reachable state: the mutexes are those of their holders and sleepers,
and a task between its calls to `thread_mutex_lock` and `thread_mutex_unlock` is the holder. -/
structure Locks (s : State Task) (sleepers : Nat → List Task) : Prop where
  table : MutexTable s.lock s.next s.holder (Phase.waits ∘ s.phase) sleepers
  uses : ∀ task entry, (s.phase task).uses = some entry → s.holder entry = some task
  created : ∀ entry, s.holder entry ≠ none → entry < s.entries.length

/-- The part of `Locks` that not every step keeps: a holder is on its way to the call to
`thread_mutex_unlock`. -/
def OnTheWay (s : State Task) : Prop :=
  ∀ task entry, s.holder entry = some task → (s.phase task).uses = some entry

/-- Who is on the way is not outside. -/
theorem OnTheWay.released (h : OnTheWay s) : Released s := by
  intro task entry hOutside hHolder
  have hUses := h task entry hHolder
  rw [hOutside] at hUses
  cases hUses

/-- What one step does to a lock whose holder is on the way: nothing, or the holder runs its
section, or the holder passes the lock on. -/
inductive Moves (s : State Task) (event : Event Task) (s' : State Task)
    (sleepers sleepers' : Nat → List Task) (entry : Nat) (holder : Task) : Prop where
  | same (hHolder : s'.holder entry = some holder) (hPhase : s'.phase holder = s.phase holder)
      (hSleepers : sleepers entry <+: sleepers' entry)
      (hOthers : ∀ task ∈ sleepers entry, s'.phase task = s.phase task)
  | body {call : Call} {cookie : UserEntryCookie} {memory : Bool}
      (hEvent : event = .body holder (call.locked cookie memory).reply)
      (hInside : s.phase holder = .inside entry call) (hEntry : s.entries[entry]? = some cookie)
      (hHolder : s'.holder entry = some holder)
      (hPhase : s'.phase holder = if (call.locked cookie memory).unlock then
        .unlocking entry (call.locked cookie memory).reply else .outside)
      (hSleepers : sleepers' entry = sleepers entry)
      (hOthers : ∀ task ∈ sleepers entry, s'.phase task = s.phase task)
  | unlock {reply : Reply} (hUnlocking : s.phase holder = .unlocking entry reply)
      (hHolder : s'.holder entry = (sleepers entry).head?)
      (hSleepers : sleepers' entry = (sleepers entry).tail)
      (hFirst : ∀ task, (sleepers entry).head? = some task → s'.phase task = (s.phase task).resume)
      (hOthers : ∀ task ∈ (sleepers entry).tail, s'.phase task = s.phase task)

section Steps

variable {task : Task} {entry : Nat} {call : Call} {phase : Phase}

/-- A task that sleeps in the queue of an entry is in a call on this entry. -/
theorem Locks.sleeping (h : Locks s sleepers) (hMem : task ∈ sleepers entry) :
    ∃ call, s.phase task = .sleeping entry call :=
  Phase.of_waits ((h.table.waits entry task).mp hMem)

theorem Locks.ne_of_mem (h : Locks s sleepers) {other : Task} (hMem : task ∈ sleepers entry)
    (hRuns : (s.phase other).waits = none) : task ≠ other := by
  rintro rfl
  exact h.table.awake hRuns entry hMem

/-- A step that changes neither locks nor phases. -/
theorem moves_same {event : Event Task} {holder : Task} (hHolds : s.holder entry = some holder)
    (hHolder : s'.holder = s.holder) (hPhase : s'.phase = s.phase) :
    Moves s event s' sleepers sleepers entry holder := by
  apply Moves.same
  · rw [hHolder, hHolds]
  · rw [hPhase]
  · exact List.prefix_refl _
  · intro task _
    rw [hPhase]

/-- The holder of a lock is not on the way to give it up. -/
def Stuck (s : State Task) (entry : Nat) : Prop :=
  ∃ holder, s.holder entry = some holder ∧ (s.phase holder).uses ≠ some entry

/-- Nobody uses a lock that is stuck. -/
theorem Locks.uses_ne (h : Locks s sleepers) (hStuck : Stuck s entry) (task : Task) :
    (s.phase task).uses ≠ some entry := by
  obtain ⟨holder, hHolder, hNot⟩ := hStuck
  intro hUses
  obtain rfl : holder = task := Option.some.inj (hHolder.symm.trans (h.uses task entry hUses))
  exact hNot hUses

theorem Locks.createEntry (h : Locks s sleepers) :
    Locks { s with
      userCookieLast := s.userCookieLast.next
      entries := s.entries ++ [⟨s.userCookieLast, []⟩]
      lock := Function.update s.lock s.entries.length threadMutexInit } sleepers := by
  have hFree : s.holder s.entries.length = none := by
    by_contra hHeld
    exact Nat.lt_irrefl _ (h.created _ hHeld)
  refine ⟨h.table.create hFree, h.uses, ?_⟩
  intro entry hHeld
  have hOld := h.created entry hHeld
  simp only [List.length_append, List.length_singleton]
  omega

variable [DecidableEq Task]

/-- A task that runs goes from one phase to another without sleep. -/
theorem waits_update (phase : Phase) (hRuns : (s.phase task).waits = none)
    (hNext : phase.waits = none) : Phase.waits ∘ Function.update s.phase task phase = Phase.waits ∘ s.phase := by
  rw [Function.comp_update, hNext, ← hRuns]
  exact Function.update_eq_self task (Phase.waits ∘ s.phase)

/-- Whoever sleeps stays in its phase when a task that runs goes on. -/
theorem Locks.sleepers_kept (h : Locks s sleepers) (hRuns : (s.phase task).waits = none)
    (phase : Phase) (entry : Nat) :
    ∀ other ∈ sleepers entry, Function.update s.phase task phase other = s.phase other := by
  intro other hMem
  exact Function.update_of_ne (h.ne_of_mem hMem hRuns) phase s.phase

theorem sleeping_kept {other : Task} (hRuns : (s.phase task).waits = none) (phase : Phase)
    (hSleeps : s.phase other = .sleeping entry call) :
    Function.update s.phase task phase other = .sleeping entry call := by
  have hOther : other ≠ task := by
    rintro rfl
    rw [hSleeps] at hRuns
    cases hRuns
  rw [Function.update_of_ne hOther]
  exact hSleeps

/-- A step to a phase that does not use an entry makes nobody use it. -/
theorem uses_update_ne {holder : Task} (hNot : (s.phase holder).uses ≠ some entry)
    (hNext : phase.uses ≠ some entry) :
    (Function.update s.phase task phase holder).uses ≠ some entry := by
  by_cases hTask : holder = task
  · rw [hTask, Function.update_self]
    exact hNext
  · rw [Function.update_of_ne hTask]
    exact hNot

theorem Locks.lock_taken (h : Locks s sleepers) {mutex : ThreadMutex Task}
    {next : Task → Option Task} (hOutside : s.phase task = .outside)
    (hLt : entry < s.entries.length) (hFree : s.holder entry = none)
    (hTable : MutexTable (Function.update s.lock entry mutex) next
      (Function.update s.holder entry (some task)) (Phase.waits ∘ s.phase) sleepers) :
    Locks { s with
      lock := Function.update s.lock entry mutex
      next := next
      phase := Function.update s.phase task (.inside entry call)
      holder := Function.update s.holder entry (some task) } sleepers := by
  have hRuns : (s.phase task).waits = none := by simp [hOutside, Phase.waits]
  constructor
  case table => exact (waits_update (.inside entry call) hRuns rfl).symm ▸ hTable
  case uses =>
    intro a e hUses
    dsimp only at hUses ⊢
    by_cases ha : a = task
    · subst ha
      obtain rfl : entry = e := by simpa [Phase.uses] using hUses
      exact Function.update_self ..
    · rw [Function.update_of_ne ha] at hUses
      have hHeld := h.uses a e hUses
      have he : e ≠ entry := by
        rintro rfl
        rw [hFree] at hHeld
        cases hHeld
      rw [Function.update_of_ne he]
      exact hHeld
  case created =>
    intro e hHeld
    dsimp only at hHeld ⊢
    by_cases he : e = entry
    · exact he ▸ hLt
    · rw [Function.update_of_ne he] at hHeld
      exact h.created e hHeld

theorem Locks.lock_sleeps (h : Locks s sleepers) {mutex : ThreadMutex Task}
    {next : Task → Option Task} (hTable : MutexTable (Function.update s.lock entry mutex) next
      s.holder (Function.update (Phase.waits ∘ s.phase) task (some entry)) sleepers') :
    Locks { s with
      lock := Function.update s.lock entry mutex
      next := next
      phase := Function.update s.phase task (.sleeping entry call) } sleepers' := by
  constructor
  case table =>
    have hWaits : Phase.waits ∘ Function.update s.phase task (.sleeping entry call) =
        Function.update (Phase.waits ∘ s.phase) task (some entry) := Function.comp_update ..
    exact hWaits.symm ▸ hTable
  case uses =>
    intro a e hUses
    dsimp only at hUses ⊢
    by_cases ha : a = task
    · simp [ha, Phase.uses] at hUses
    · rw [Function.update_of_ne ha] at hUses
      exact h.uses a e hUses
  case created => exact h.created

theorem Locks.body (h : Locks s sleepers) {cookie : UserEntryCookie}
    (hInside : s.phase task = .inside entry call) (hWaits : phase.waits = none)
    (hUses : ∀ e, phase.uses = some e → e = entry) :
    Locks { s with
      entries := s.entries.set entry cookie
      phase := Function.update s.phase task phase } sleepers := by
  have hRuns : (s.phase task).waits = none := by simp [hInside, Phase.waits]
  constructor
  case table => exact (waits_update phase hRuns hWaits).symm ▸ h.table
  case uses =>
    intro a e hNew
    dsimp only at hNew ⊢
    by_cases ha : a = task
    · subst ha
      rw [Function.update_self] at hNew
      obtain rfl := hUses e hNew
      exact h.uses a e (by simp [hInside, Phase.uses])
    · rw [Function.update_of_ne ha] at hNew
      exact h.uses a e hNew
  case created => simpa using h.created

theorem Locks.unlock (h : Locks s sleepers) {reply : Reply} {woken : Option Task}
    {mutex : ThreadMutex Task} (hUnlocking : s.phase task = .unlocking entry reply)
    (hUnlock : threadMutexUnlock (s.lock entry) s.next = (woken, mutex)) :
    woken = (sleepers entry).head? ∧ Locks { s with
      lock := Function.update s.lock entry mutex
      phase := fun other =>
        if woken = some other then (s.phase other).resume
        else Function.update s.phase task .outside other
      holder := Function.update s.holder entry woken }
      (Function.update sleepers entry (sleepers entry).tail) := by
  obtain ⟨hWoken, hTable⟩ := h.table.unlock hUnlock
  have hOwn : s.holder entry = some task := h.uses task entry (by simp [hUnlocking, Phase.uses])
  have hRuns : (s.phase task).waits = none := by simp [hUnlocking, Phase.waits]
  refine ⟨hWoken, ?_, ?_, ?_⟩
  · have hWaits : (Phase.waits ∘ fun other => if woken = some other then (s.phase other).resume
        else Function.update s.phase task .outside other) =
        fun a => if woken = some a then none else (Phase.waits ∘ s.phase) a := by
      funext a
      by_cases ha : woken = some a
      · simp [ha, Phase.resume_waits]
      · have hSame := congrFun (waits_update .outside hRuns rfl) a
        simpa [ha] using hSame
    exact hWaits.symm ▸ hTable
  · intro a e hUses
    by_cases ha : woken = some a
    · have hMem : a ∈ sleepers entry := List.mem_of_mem_head? (hWoken ▸ ha)
      obtain ⟨call, hSleeping⟩ := h.sleeping hMem
      obtain rfl : entry = e := by simpa [ha, hSleeping, Phase.resume, Phase.uses] using hUses
      simp [ha]
    · by_cases hTask : a = task
      · subst hTask
        simp [ha, Phase.uses] at hUses
      · have hHeld := h.uses a e (by simpa [ha, hTask] using hUses)
        have he : e ≠ entry := by
          rintro rfl
          exact hTask (Option.some.inj (hHeld.symm.trans hOwn))
        simpa [he] using hHeld
  · intro e hHeld
    by_cases he : e = entry
    · subst he
      exact h.created e (by simp [hOwn])
    · exact h.created e (by simpa [he] using hHeld)

/-- Every step keeps what is known of the locks, and moves one whose holder is on the way as
described. -/
theorem Locks.step (h : Locks s sleepers) {event : Event Task} (hStep : Step s event s') :
    ∃ sleepers', Locks s' sleepers' ∧ ∀ entry holder, s.holder entry = some holder →
      (s.phase holder).uses = some entry → Moves s event s' sleepers sleepers' entry holder := by
  cases hStep with
  | createGroup =>
      exact ⟨sleepers, ⟨h.table, h.uses, h.created⟩, fun entry holder hHolds _ =>
        moves_same hHolds (by rfl) (by rfl)⟩
  | createEntry =>
      exact ⟨sleepers, h.createEntry, fun entry holder hHolds _ =>
        moves_same hHolds (by rfl) (by rfl)⟩
  | answer =>
      exact ⟨sleepers, h, fun entry holder hHolds _ => moves_same hHolds (by rfl) (by rfl)⟩
  | @lock task entry cookie call outcome mutex next hPhase hEntry hLocks hLock =>
      have hRuns : (s.phase task).waits = none := by simp [hPhase, Phase.waits]
      have hLt : entry < s.entries.length := (List.getElem?_eq_some_iff.mp hEntry).1
      have hOther : ∀ e holder, (s.phase holder).uses = some e → holder ≠ task := by
        rintro e holder hUses rfl
        simp [hPhase, Phase.uses] at hUses
      rcases h.table.lock hRuns hLock with ⟨rfl, hFree, hTable⟩ | ⟨rfl, hHeld, hTable⟩
      · refine ⟨sleepers, h.lock_taken hPhase hLt hFree hTable, ?_⟩
        intro e holder hHolds hUses
        have he : e ≠ entry := by
          rintro rfl
          rw [hFree] at hHolds
          cases hHolds
        apply Moves.same
        · simpa [he] using hHolds
        · simp [hOther e holder hUses]
        · exact List.prefix_refl _
        · exact h.sleepers_kept hRuns _ e
      · refine ⟨_, h.lock_sleeps hTable, ?_⟩
        intro e holder hHolds hUses
        apply Moves.same
        · exact hHolds
        · simp [hOther e holder hUses]
        · by_cases he : e = entry
          · simp [he]
          · simp [he]
        · exact h.sleepers_kept hRuns _ e
  | @body task entry cookie call memory hPhase hEntry =>
      have hRuns : (s.phase task).waits = none := by simp [hPhase, Phase.waits]
      refine ⟨sleepers, h.body hPhase ?_ ?_, ?_⟩
      · split <;> rfl
      · intro e hUses
        split at hUses
        · exact (Option.some.inj hUses).symm
        · cases hUses
      · intro e holder hHolds hUses
        by_cases hHolder : holder = task
        · subst hHolder
          obtain rfl : entry = e := by simpa [hPhase, Phase.uses] using hUses
          apply Moves.body rfl hPhase hEntry
          · exact hHolds
          · exact Function.update_self ..
          · rfl
          · exact h.sleepers_kept hRuns _ entry
        · apply Moves.same
          · exact hHolds
          · simp [hHolder]
          · exact List.prefix_refl _
          · exact h.sleepers_kept hRuns _ e
  | @unlock task entry reply woken mutex hPhase hUnlock =>
      have hRuns : (s.phase task).waits = none := by simp [hPhase, Phase.waits]
      have hOwn : s.holder entry = some task := h.uses task entry (by simp [hPhase, Phase.uses])
      obtain ⟨hWoken, hLocks⟩ := h.unlock hPhase hUnlock
      have hOthers : ∀ a, woken ≠ some a → a ≠ task →
          (if woken = some a then (s.phase a).resume
            else Function.update s.phase task .outside a) = s.phase a := by
        intro a hNot ha
        rw [if_neg hNot, Function.update_of_ne ha]
      refine ⟨_, hLocks, ?_⟩
      intro e holder hHolds hUses
      by_cases he : e = entry
      · subst he
        obtain rfl : task = holder := Option.some.inj (hOwn.symm.trans hHolds)
        apply Moves.unlock hPhase
        · simp [hWoken]
        · simp
        · intro a ha
          simp [hWoken, ha]
        · intro a hMem
          apply hOthers a
          · intro ha
            have hNodup := (h.table.queued e).holds.nodup
            rw [hWoken] at ha
            obtain ⟨rest, hRest⟩ := List.head?_eq_some_iff.mp ha
            rw [hRest] at hNodup hMem
            exact (List.nodup_cons.mp hNodup).1 hMem
          · exact h.ne_of_mem (List.mem_of_mem_tail hMem) hRuns
      · have hWaits : ∀ a, woken = some a → (s.phase a).waits = some entry := by
          intro a ha
          exact (h.table.waits entry a).mp (List.mem_of_mem_head? (hWoken ▸ ha))
        apply Moves.same
        · simpa [he] using hHolds
        · apply hOthers
          · intro hHolder
            have hNone := Phase.waits_of_uses hUses
            rw [hWaits holder hHolder] at hNone
            cases hNone
          · rintro rfl
            simp [hPhase, Phase.uses] at hUses
            exact he hUses.symm
        · simp [he]
        · intro a hMem
          apply hOthers
          · intro ha
            have hBoth := (h.table.waits e a).mp hMem
            exact he (Option.some.inj (hBoth.symm.trans (hWaits a ha)))
          · exact h.ne_of_mem hMem hRuns
  | @write task link hRuns =>
      exact ⟨sleepers, ⟨h.table.write hRuns link, h.uses, h.created⟩, fun entry holder hHolds _ =>
        moves_same hHolds (by rfl) (by rfl)⟩

theorem Locks.run {trace : List (Event Task)} (run : system.Execution trace s) :
    ∃ sleepers, Locks s sleepers := by
  apply run.stateInvariant
  · rintro s ⟨-, -, -, hLock, hPhase, hHolder⟩
    refine ⟨fun _ => [], ⟨?_, ?_, ?_⟩, ?_, ?_⟩
    · simp [hLock, hHolder, threadMutexInit]
    · intro entry
      rw [hLock]
      exact .init s.next
    · simp [hPhase, Phase.waits]
    · simp [hPhase, Phase.uses]
    · simp [hHolder]
  · rintro s event s' ⟨sleepers, h⟩ hStep
    obtain ⟨sleepers', h', -⟩ := h.step hStep
    exact ⟨sleepers', h'⟩

/-- Whoever gets a lock that nobody had is behind its call to `thread_mutex_lock`. -/
theorem Locks.uses_of_new (h : Locks s sleepers) {event : Event Task} (hStep : Step s event s')
    (hFree : s.holder entry = none) (hHolder : s'.holder entry = some task) :
    (s'.phase task).uses = some entry := by
  cases hStep with
  | createGroup | createEntry | answer | body | write =>
      exact (Option.some_ne_none task (hHolder.symm.trans hFree)).elim
  | @lock other e cookie call outcome mutex next hPhase hEntry hLocks hLock =>
      cases outcome with
      | sleeps => exact (Option.some_ne_none task (hHolder.symm.trans hFree)).elim
      | taken =>
          by_cases he : entry = e
          · subst he
            obtain rfl : other = task := by simpa using hHolder
            simp [Phase.uses]
          · simp [he, hFree] at hHolder
  | @unlock other e reply woken mutex hPhase hUnlock =>
      have hOwn : s.holder e = some other := h.uses other e (by simp [hPhase, Phase.uses])
      have he : entry ≠ e := by
        rintro rfl
        exact Option.some_ne_none other (hOwn.symm.trans hFree)
      simp [he, hFree] at hHolder

/-- Careful steps keep every holder on the way. -/
theorem Locks.onTheWay (h : Locks s sleepers) (hWay : OnTheWay s) {event : Event Task}
    (hCareful : careful s event) (hStep : Step s event s') : OnTheWay s' := by
  obtain ⟨sleepers', h', hMoves⟩ := h.step hStep
  intro task entry hHolder
  cases hOld : s.holder entry with
  | none => exact h.uses_of_new hStep hOld hHolder
  | some holder =>
      have hUses := hWay holder entry hOld
      cases hMoves entry holder hOld hUses with
      | same hSame hPhase =>
          obtain rfl : holder = task := Option.some.inj (hSame.symm.trans hHolder)
          rw [hPhase]
          exact hUses
      | @body call cookie memory hEvent hInside hEntry hSame hPhase =>
          obtain rfl : holder = task := Option.some.inj (hSame.symm.trans hHolder)
          have hUnlock : (call.locked cookie memory).unlock = true := by
            apply call.locked_unlock.mpr
            rintro group rfl
            subst hEvent
            exact hCareful entry cookie group hInside hEntry
          rw [hPhase, if_pos hUnlock]
          rfl
      | unlock _ hNext _ hFirst =>
          have hHead := hNext.symm.trans hHolder
          obtain ⟨call, hSleeping⟩ := h.sleeping (List.mem_of_mem_head? hHead)
          rw [hFirst task hHead, hSleeping]
          rfl

/-- A removal that does not find the key leaves the lock with a task outside. -/
theorem Locks.careless (h : Locks s sleepers) {event : Event Task} (hCareless : ¬ careful s event)
    (hStep : Step s event s') :
    ∃ task entry, s'.phase task = .outside ∧ s'.holder entry = some task := by
  cases hStep with
  | createGroup | createEntry | answer | lock | unlock | write => exact (hCareless trivial).elim
  | @body task entry cookie call memory hPhase hEntry =>
      have hUnlock : ¬ (call.locked cookie memory).unlock = true := by
        rw [call.locked_unlock]
        intro hFound
        apply hCareless
        intro e c group hInside hE
        rw [hPhase] at hInside
        cases hInside
        obtain rfl : cookie = c := Option.some.inj (hEntry.symm.trans hE)
        exact hFound group rfl
      refine ⟨task, entry, ?_, ?_⟩
      · simp [hUnlock]
      · exact h.uses task entry (by simp [hPhase, Phase.uses])

/-- A lock that is stuck remains so, and everybody who sleeps for it sleeps on. -/
theorem Locks.stuck (h : Locks s sleepers) (hStuck : Stuck s entry) {event : Event Task}
    (hStep : Step s event s') : Stuck s' entry ∧ ∀ task call, s.phase task = .sleeping entry call →
      s'.phase task = .sleeping entry call := by
  obtain ⟨holder, hHolder, hNot⟩ := hStuck
  have hNobody := h.uses_ne ⟨holder, hHolder, hNot⟩
  cases hStep with
  | createGroup | createEntry | answer | write => exact ⟨⟨holder, hHolder, hNot⟩, fun _ _ h => h⟩
  | @lock task e cookie call outcome mutex next hPhase hEntry hLocks hLock =>
      have hRuns : (s.phase task).waits = none := by simp [hPhase, Phase.waits]
      rcases h.table.lock hRuns hLock with ⟨rfl, hFree, -⟩ | ⟨rfl, hHeld, -⟩
      · have he : e ≠ entry := by
          rintro rfl
          exact Option.some_ne_none holder (hHolder.symm.trans hFree)
        have hUses : (Phase.inside e call).uses ≠ some entry := by simpa [Phase.uses] using he
        refine ⟨⟨holder, ?_, uses_update_ne hNot hUses⟩, fun a c => sleeping_kept hRuns _⟩
        simpa [Ne.symm he] using hHolder
      · have hUses : (Phase.sleeping e call).uses ≠ some entry := by simp [Phase.uses]
        exact ⟨⟨holder, hHolder, uses_update_ne hNot hUses⟩, fun a c => sleeping_kept hRuns _⟩
  | @body task e cookie call memory hPhase hEntry =>
      have hRuns : (s.phase task).waits = none := by simp [hPhase, Phase.waits]
      have he : e ≠ entry := by
        rintro rfl
        exact hNobody task (by simp [hPhase, Phase.uses])
      refine ⟨⟨holder, hHolder, uses_update_ne hNot ?_⟩, fun a c => sleeping_kept hRuns _⟩
      split
      · simpa [Phase.uses] using he
      · simp [Phase.uses]
  | @unlock task e reply woken mutex hPhase hUnlock =>
      have he : e ≠ entry := by
        rintro rfl
        exact hNobody task (by simp [hPhase, Phase.uses])
      obtain ⟨hWoken, -⟩ := h.unlock hPhase hUnlock
      have hRuns : (s.phase task).waits = none := by simp [hPhase, Phase.waits]
      have hWokenWaits : ∀ a, woken = some a → ∃ call, s.phase a = .sleeping e call :=
        fun a ha => h.sleeping (List.mem_of_mem_head? (hWoken ▸ ha))
      refine ⟨⟨holder, by simpa [Ne.symm he] using hHolder, ?_⟩, ?_⟩
      · dsimp only
        split
        · rename_i ha
          obtain ⟨call, hSleeps⟩ := hWokenWaits holder ha
          simpa [hSleeps, Phase.resume, Phase.uses] using he
        · exact uses_update_ne hNot (by simp [Phase.uses])
      · intro a c hSleeps
        have hNotWoken : woken ≠ some a := by
          intro hEq
          obtain ⟨call, hOther⟩ := hWokenWaits a hEq
          rw [hSleeps] at hOther
          cases hOther
          exact he rfl
        dsimp only
        rw [if_neg hNotWoken]
        exact sleeping_kept hRuns _ hSleeps

/-- A lock that is stuck is not given up in any later state. -/
theorem stuck_forever {before later : List (Event Task)} (run : system.Execution before s)
    (hStuck : Stuck s entry) (rest : (system.after s).Execution later s') :
    Stuck s' entry ∧ ∀ task call, s.phase task = .sleeping entry call →
      s'.phase task = .sleeping entry call := by
  induction rest with
  | start h =>
      cases h
      exact ⟨hStuck, fun _ _ h => h⟩
  | step prior last ih =>
      obtain ⟨sleepers, h⟩ := Locks.run (run.append prior)
      obtain ⟨hNext, hSleeps⟩ := h.stuck ih.1 last
      exact ⟨hNext, fun task call hOld => hSleeps task call (ih.2 task call hOld)⟩

/-- A task that has got the lock can go on with its call. -/
theorem Locks.goes_on (h : Locks s sleepers) (hUses : (s.phase task).uses = some entry) :
    ∃ event s', Step s event s' ∧ s'.phase task ≠ s.phase task := by
  have hHolder := h.uses task entry hUses
  have hLt := h.created entry (by simp [hHolder])
  cases hPhase : s.phase task with
  | outside | sleeping => simp [hPhase, Phase.uses] at hUses
  | inside e call =>
      obtain rfl : e = entry := by simpa [hPhase, Phase.uses] using hUses
      refine ⟨_, _, Step.body task true hPhase (List.getElem?_eq_getElem hLt), ?_⟩
      dsimp only
      rw [Function.update_self]
      split <;> simp
  | unlocking e reply =>
      have hRuns : (s.phase task).waits = none := by simp [hPhase, Phase.waits]
      cases hUnlock : threadMutexUnlock (s.lock e) s.next with
      | mk woken mutex =>
          have hNot : woken ≠ some task := by
            intro hWoken
            have hHead := (h.unlock hPhase hUnlock).1
            apply h.table.awake hRuns e
            exact List.mem_of_mem_head? (hHead ▸ hWoken)
          refine ⟨_, _, Step.unlock task hPhase hUnlock, ?_⟩
          simp [hNot]

/-- A task is asleep behind `rank / 2` others, and the holder is on its way. -/
structure Waits (entry : Nat) (task : Task) (call : Call) (holder : Task) (phase : Phase)
    (rank : Nat) (s : State Task) : Prop where
  locks : ∃ sleepers before behind, Locks s sleepers ∧ sleepers entry = before ++ task :: behind ∧
    rank = 2 * before.length + phase.pending
  onTheWay : OnTheWay s
  holds : s.holder entry = some holder
  reached : s.phase holder = phase
  sleeps : s.phase task = .sleeping entry call

/-- A careful step wakes the task up, brings it nearer to the lock, or does nothing to it. -/
theorem Waits.step {holder : Task} {rank : Nat} (h : Waits entry task call holder phase rank s)
    {event : Event Task} (hCareful : careful s event) (hStep : Step s event s') :
    s'.phase task = .inside entry call ∨ Waits entry task call holder phase rank s' ∨
      ∃ holder' phase' rank', rank' < rank ∧ Waits entry task call holder' phase' rank' s' := by
  obtain ⟨⟨sleepers, before, behind, hLocks, hSleepers, hRank⟩, hWay, hHolder, hPhase, hSleeps⟩ := h
  have hWay' := hLocks.onTheWay hWay hCareful hStep
  obtain ⟨sleepers', hLocks', hMoves⟩ := hLocks.step hStep
  have hMem : task ∈ sleepers entry := by simp [hSleepers]
  have hUses := hWay holder entry hHolder
  cases hMoves entry holder hHolder hUses with
  | same hSame hSamePhase hPrefix hOthers =>
      right
      left
      obtain ⟨more, hMore⟩ := hPrefix
      refine ⟨⟨sleepers', before, behind ++ more, hLocks', ?_, hRank⟩, hWay', hSame, ?_, ?_⟩
      · rw [← hMore, hSleepers]
        simp
      · rw [hSamePhase, hPhase]
      · rw [hOthers task hMem, hSleeps]
  | @body c cookie memory hEvent hInside hEntry hSame hNext hKept hOthers =>
      right
      right
      have hUnlocking : s'.phase holder = .unlocking entry (c.locked cookie memory).reply := by
        have hUses' := hWay' holder entry hSame
        rw [hNext] at hUses' ⊢
        split
        · rfl
        · rename_i hNot
          simp [hNot, Phase.uses] at hUses'
      refine ⟨holder, _, 2 * before.length, ?_,
        ⟨sleepers', before, behind, hLocks', ?_, ?_⟩, hWay', hSame, hUnlocking, ?_⟩
      · rw [hRank, ← hPhase, hInside, Phase.pending]
        omega
      · rw [hKept, hSleepers]
      · rw [Phase.pending, Nat.add_zero]
      · rw [hOthers task hMem, hSleeps]
  | @unlock reply hUnlocking hNext hKept hFirst hOthers =>
      cases before with
      | nil =>
          left
          rw [hFirst task (by simp [hSleepers]), hSleeps]
          rfl
      | cons first before =>
          right
          right
          have hHead : (sleepers entry).head? = some first := by simp [hSleepers]
          obtain ⟨c, hFirstSleeps⟩ := hLocks.sleeping (List.mem_of_mem_head? hHead)
          refine ⟨first, .inside entry c, 2 * before.length + 1, ?_,
            ⟨sleepers', before, behind, hLocks', ?_, rfl⟩, hWay', ?_, ?_, ?_⟩
          · rw [hRank, ← hPhase, hUnlocking, Phase.pending, List.length_cons]
            omega
          · rw [hKept, hSleepers]
            rfl
          · rw [hNext, hHead]
          · rw [hFirst first hHead, hFirstSleeps]
            rfl
          · rw [hOthers task (by simp [hSleepers]), hSleeps]

/-- In every fair run in which all removals find their keys, a task that sleeps for the lock of
an entry gets it. -/
theorem gets_lock {trace : List (Event Task)} (run : (system.restrict careful).Execution trace s)
    (hWay : OnTheWay s) (b : ((system.restrict careful).after s).Behaviour) (hFair : Fair b)
    (hSleeps : s.phase task = .sleeping entry call) :
    ∃ n, (b.state n).phase task = .inside entry call := by
  obtain ⟨sleepers, h⟩ := Locks.run run.ofRestrict
  have hMem : task ∈ sleepers entry := (h.table.waits entry task).mpr (by simp [hSleeps, Phase.waits])
  obtain ⟨before, behind, hSleepers⟩ := List.append_of_mem hMem
  obtain ⟨holder, hHolder⟩ := Option.ne_none_iff_exists'.mp (h.table.holder_ne_none hMem)
  have hStart : Waits entry task call holder (s.phase holder)
      (2 * before.length + (s.phase holder).pending) (b.state 0) := by
    have hInit : b.state 0 = s := b.init
    rw [hInit]
    exact ⟨⟨sleepers, before, behind, h, hSleepers, rfl⟩, hWay, hHolder, rfl, hSleeps⟩
  let P : Nat × Task × Phase → State Task → Prop :=
    fun i => Waits entry task call i.2.1 i.2.2 i.1
  have hStep : ∀ i s event s', P i s → ((system.restrict careful).after s).step s event s' →
      s'.phase task = .inside entry call ∨ P i s' ∨ ∃ j, j.1 < i.1 ∧ P j s' := by
    rintro ⟨rank, holder, phase⟩ s event s' hWaits ⟨hCareful, hStep⟩
    rcases hWaits.step hCareful hStep with hGoal | hKept | ⟨holder', phase', rank', hLower, hNext⟩
    · exact .inl hGoal
    · exact .inr (.inl hKept)
    · exact .inr (.inr ⟨(rank', holder', phase'), hLower, hNext⟩)
  have hLeaves : ∀ i n, P i (b.state n) → ∃ m, n ≤ m ∧ ¬ P i (b.state m) := by
    rintro ⟨rank, holder, phase⟩ n hWaits
    obtain ⟨m, hLe, hMoved⟩ := hFair n holder entry (hWaits.onTheWay holder entry hWaits.holds)
    refine ⟨m, hLe, ?_⟩
    intro hLater
    exact hMoved (hLater.reached.trans hWaits.reached.symm)
  have hWf : WellFounded fun j i : Nat × Task × Phase => j.1 < i.1 :=
    InvImage.wf Prod.fst Nat.lt_wfRel.wf
  have hStart' : P (2 * before.length + (s.phase holder).pending, holder, s.phase holder)
      (b.state 0) := hStart
  obtain ⟨n, -, hGoal⟩ := b.leadsTo hWf hStep hLeaves hStart'
  exact ⟨n, hGoal⟩

/-- As long as removals find their keys, every holder is on the way. -/
theorem onTheWay_run {trace : List (Event Task)}
    (run : (system.restrict careful).Execution trace s) : OnTheWay s := by
  induction run with
  | start h =>
      intro task entry hHolder
      have hNone := h.2.2.2.2.2 entry
      exact (Option.some_ne_none task (hHolder.symm.trans hNone)).elim
  | step prior last ih =>
      obtain ⟨sleepers, h⟩ := Locks.run prior.ofRestrict
      exact h.onTheWay ih last.1 last.2

/-- From now on every call that comes as far as the lock of the entry sleeps for ever. -/
def BlockedForEver (s : State Task) (entry : Nat) : Prop :=
  ∀ later s₁, (system.after s).Execution later s₁ → ∀ task call outcome s₂,
    Step s₁ (.lock task entry call outcome) s₂ → outcome = .sleeps ∧
    ∀ rest s₃, (system.after s₂).Execution rest s₃ → s₃.phase task = .sleeping entry call

theorem blockedForEver_of_stuck {trace : List (Event Task)} (run : system.Execution trace s)
    (hStuck : Stuck s entry) : BlockedForEver s entry := by
  intro later s₁ hLater task call outcome s₂ hStep
  have hRun : system.Execution (trace ++ later) s₁ := run.append hLater
  obtain ⟨hStuck₁, -⟩ := stuck_forever run hStuck hLater
  obtain ⟨sleepers, h⟩ := Locks.run hRun
  obtain ⟨hStuck₂, -⟩ := h.stuck hStuck₁ hStep
  have hSleeps : outcome = .sleeps ∧ s₂.phase task = .sleeping entry call := by
    obtain ⟨holder, hHolder, -⟩ := hStuck₁
    cases hStep with
    | lock _ hPhase hEntry hLocks hLock =>
        have hRuns : (s₁.phase task).waits = none := by simp [hPhase, Phase.waits]
        rcases h.table.lock hRuns hLock with ⟨-, hFree, -⟩ | ⟨rfl, -, -⟩
        · exact (Option.some_ne_none holder (hHolder.symm.trans hFree)).elim
        · simp
  refine ⟨hSleeps.1, ?_⟩
  intro rest s₃ hRest
  exact (stuck_forever (hRun.step hStep) hStuck₂ hRest).2 task call hSleeps.2

/-- As long as every removal finds the key of its group, no task outside has the lock of an
entry, and in a fair run whoever sleeps for one gets it. The first removal that does not find
the key leaves the lock with a task outside, and from then on all calls sleep for ever. -/
theorem entry_lock_released {trace : List (Event Task)}
    (run : (system.restrict careful).Execution trace s) :
    Released s ∧
    (∀ event s', Step s event s' → (Released s' ↔ careful s event) ∧
      (¬ careful s event → ∃ entry, BlockedForEver s' entry)) ∧
    (∀ task entry, (s.phase task).uses = some entry →
      ∃ event s', Step s event s' ∧ s'.phase task ≠ s.phase task) ∧
    ∀ b : ((system.restrict careful).after s).Behaviour, Fair b →
      ∀ task entry call, s.phase task = .sleeping entry call →
        ∃ n, (b.state n).phase task = .inside entry call := by
  have hWay := onTheWay_run run
  obtain ⟨sleepers, h⟩ := Locks.run run.ofRestrict
  refine ⟨hWay.released, ?_, ?_, ?_⟩
  · intro event s' hStep
    constructor
    · constructor
      · intro hReleased
        by_contra hCareless
        obtain ⟨task, entry, hOutside, hHolder⟩ := h.careless hCareless hStep
        exact hReleased task entry hOutside hHolder
      · intro hCareful
        exact (h.onTheWay hWay hCareful hStep).released
    · intro hCareless
      obtain ⟨task, entry, hOutside, hHolder⟩ := h.careless hCareless hStep
      have hStuck : Stuck s' entry := ⟨task, hHolder, by simp [hOutside, Phase.uses]⟩
      exact ⟨entry, blockedForEver_of_stuck (run.ofRestrict.step hStep) hStuck⟩
  · intro task entry hUses
    exact h.goes_on hUses
  · intro b hFair task entry call hSleeps
    exact gets_lock run hWay b hFair hSleeps

end Steps

/-- No cookie has been created. -/
def start : State (Fin 2) where
  userCookieLast := userCookieLast
  groups := []
  entries := []
  lock _ := threadMutexInit
  next _ := none
  phase _ := .outside
  holder _ := none

/-- The entry has key 2 and the group key 3. -/
def exampleGroup : UserGroupCookie := ⟨⟨3, by decide⟩⟩

/-- A task sleeps for the lock while another one adds the entry to a group. -/
theorem entry_lock_released_waiting : ∃ trace s, (system.restrict careful).Execution trace s ∧
    s.phase (1 : Fin 2) = .sleeping 0 (.auth 3) ∧ s.holder 0 = some 0 ∧ Released s := by
  have begun : (system.restrict careful).Execution [] start :=
    .start ⟨rfl, rfl, rfl, fun _ => rfl, fun _ => rfl, fun _ => rfl⟩
  have created := begun.step ⟨by trivial, Step.createEntry⟩
  have both := created.step ⟨by trivial, Step.createGroup⟩
  have taken := both.step ⟨by trivial, @Step.lock _ _ _ 0 0 _ (.addToGrp exampleGroup) _ _ _ rfl
    rfl (by exact List.mem_singleton_self exampleGroup) rfl⟩
  have run := taken.step ⟨by trivial, @Step.lock _ _ _ 1 0 _ (.auth 3) _ _ _ rfl rfl (by rfl) rfl⟩
  exact ⟨_, _, run, rfl, rfl, (entry_lock_released run).1⟩

/-- An entry leaves a group that it is not in. Its lock stays taken, and the next task that
authenticates sleeps for ever. -/
theorem removal_keeps_entry_lock : ∃ trace s, system.Execution trace s ∧
    s.phase (0 : Fin 2) = .outside ∧ s.holder 0 = some 0 ∧ ¬ Released s ∧ BlockedForEver s 0 ∧
    ∃ s', Step s (.lock 1 0 (.auth 3) .sleeps) s' := by
  have begun : system.Execution [] start :=
    .start ⟨rfl, rfl, rfl, fun _ => rfl, fun _ => rfl, fun _ => rfl⟩
  have created := begun.step Step.createEntry
  have both := created.step Step.createGroup
  have taken := both.step (@Step.lock _ _ _ 0 0 _ (.removeFromGrp exampleGroup) _ _ _ rfl
    rfl (by exact List.mem_singleton_self exampleGroup) rfl)
  have run := taken.step (Step.body 0 true rfl rfl)
  refine ⟨_, _, run, rfl, rfl, ?_, ?_, ?_⟩
  · intro hReleased
    exact hReleased 0 0 rfl rfl
  · exact blockedForEver_of_stuck run ⟨0, rfl, by decide⟩
  · exact ⟨_, Step.lock 1 rfl rfl (by rfl) rfl⟩

end Ricerca.CookieLocks
