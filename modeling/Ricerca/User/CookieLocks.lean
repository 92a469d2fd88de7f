import Ricerca.Foundation.Behaviour
import Ricerca.Thread.MutexTable
import Ricerca.User.Cookie

/-! Locks of entry cookies (`user/cookie.c` over `thread/locking/mutex.c`). Tasks add entries
to groups, remove them and authenticate. What a call does between its call to
`thread_mutex_lock` and its last access is one step; giving the mutex up is another one, which
only some paths take. -/
namespace Ricerca.CookieLocks

open Ricerca.Foundation Ricerca.Cookie Ricerca.Mutex

variable {Task : Type}

/-- What a call answers: an API status, or whether authentification was successful. -/
inductive Reply where
  | status (status : Status)
  | allowed (result : Bool)
  deriving DecidableEq

/-- How a call leaves the section after `thread_mutex_lock`: with this answer and these keys,
and through a call to `thread_mutex_unlock` or not. -/
structure Locked where
  reply : Reply
  entry : UserEntryCookie
  unlock : Bool
  deriving DecidableEq

/-- `user_entry_cookie_add_to_grp` from the call to `thread_mutex_lock` on; `memory` is for
`DYNARRAY_PUSH`. -/
def addToGrpLocked (entry : UserEntryCookie) (cookie : UserGroupCookie) (memory : Bool) : Locked :=
  if userEntryCookieGrpKeyPresent entry cookie.key.val then ⟨.status .success, entry, true⟩
  else
    match claimClearedSlot cookie.key.val entry.grpKeys with
    | some keys => ⟨.status .success, { entry with grpKeys := keys }, true⟩
    | none =>
        if memory then
          ⟨.status .success, { entry with grpKeys := entry.grpKeys ++ [cookie.key.val] }, true⟩
        else ⟨.status .outOfMemory, entry, true⟩

/-- The loop of `user_entry_cookie_remove_from_grp`. The call to `thread_mutex_unlock` stands
in its body, after the store. -/
def clearSlotLoop (key : Nat) : List Nat → List Nat × Bool
  | [] => ([], false)
  | k :: ks =>
      if k = key then (0 :: ks, true)
      else
        let (rest, unlock) := clearSlotLoop key ks
        (k :: rest, unlock)

/-- `user_entry_cookie_remove_from_grp` from the call to `thread_mutex_lock` on. -/
def removeFromGrpLocked (entry : UserEntryCookie) (cookie : UserGroupCookie) : Locked :=
  let (keys, unlock) := clearSlotLoop cookie.key.val entry.grpKeys
  ⟨.status .success, { entry with grpKeys := keys }, unlock⟩

/-- The part of `user_entry_cookie_auth` that does not lock, when it answers. -/
def authUnlocked (entry : UserEntryCookie) (key : Nat) : Option Bool :=
  if key = userCookieKeyUniversal ∨ key = entry.key.val then some true
  else if key = userCookieKeyOnlyKernel then some false
  else none

/-- `user_entry_cookie_auth` from the call to `thread_mutex_lock` on. -/
def authLocked (entry : UserEntryCookie) (key : Nat) : Locked :=
  ⟨.allowed (userEntryCookieGrpKeyPresent entry key), entry, true⟩

/-- The calls on one entry cookie. -/
inductive Call where
  | addToGrp (cookie : UserGroupCookie)
  | removeFromGrp (cookie : UserGroupCookie)
  | auth (key : Nat)
  deriving DecidableEq

def Call.locked (call : Call) (entry : UserEntryCookie) (memory : Bool) : Locked :=
  match call with
  | .addToGrp cookie => addToGrpLocked entry cookie memory
  | .removeFromGrp cookie => removeFromGrpLocked entry cookie
  | .auth key => authLocked entry key

/-- The group of a call exists, and `user_entry_cookie_auth` has not answered before it locks. -/
def Call.Locks (call : Call) (groups : List UserGroupCookie) (entry : UserEntryCookie) : Prop :=
  match call with
  | .addToGrp cookie | .removeFromGrp cookie => cookie ∈ groups
  | .auth key => authUnlocked entry key = none

/-- Where a task is: outside, asleep in `thread_mutex_lock`, behind that call, or before the
call to `thread_mutex_unlock`. -/
inductive Phase where
  | outside
  | sleeping (entry : Nat) (call : Call)
  | inside (entry : Nat) (call : Call)
  | unlocking (entry : Nat) (reply : Reply)
  deriving DecidableEq

/-- The entry whose mutex a task sleeps for. -/
def Phase.waits : Phase → Option Nat
  | .sleeping entry _ => some entry
  | .outside | .inside .. | .unlocking .. => none

/-- The entry whose mutex a task has got and not given up in its call. -/
def Phase.uses : Phase → Option Nat
  | .inside entry _ | .unlocking entry _ => some entry
  | .outside | .sleeping .. => none

/-- A task that was woken up returns from `thread_mutex_lock`. -/
def Phase.resume : Phase → Phase
  | .sleeping entry call => .inside entry call
  | phase => phase

/-- Cookies are named in the order of their creation. `holder` is history: who has got the
mutex of an entry and not unlocked it since. -/
structure State (Task : Type) where
  userCookieLast : IssuedKey
  groups : List UserGroupCookie
  entries : List UserEntryCookie
  lock : Nat → ThreadMutex Task
  next : Task → Option Task
  phase : Task → Phase
  holder : Nat → Option Task

inductive Event (Task : Type) where
  | createGroup
  | createEntry
  | answer (task : Task) (entry : Nat) (key : Nat) (result : Bool)
  | lock (task : Task) (entry : Nat) (call : Call) (outcome : Outcome)
  | body (task : Task) (reply : Reply)
  | unlock (task : Task) (woken : Option Task)
  | write (task : Task) (link : Option Task)
  deriving DecidableEq

/-- One step of one task. A call that does not unlock returns at the end of its section. -/
inductive Step [DecidableEq Task] (s : State Task) : Event Task → State Task → Prop where
  | createGroup :
      Step s .createGroup
        { s with
          userCookieLast := s.userCookieLast.next
          groups := s.groups ++ [⟨s.userCookieLast⟩] }
  | createEntry :
      Step s .createEntry
        { s with
          userCookieLast := s.userCookieLast.next
          entries := s.entries ++ [⟨s.userCookieLast, []⟩]
          lock := Function.update s.lock s.entries.length threadMutexInit }
  | answer (task : Task) {entry : Nat} {cookie : UserEntryCookie} {key : Nat} {result : Bool}
      (hPhase : s.phase task = .outside) (hEntry : s.entries[entry]? = some cookie)
      (hAnswer : authUnlocked cookie key = some result) :
      Step s (.answer task entry key result) s
  | lock (task : Task) {entry : Nat} {cookie : UserEntryCookie} {call : Call} {outcome : Outcome}
      {mutex : ThreadMutex Task} {next : Task → Option Task}
      (hPhase : s.phase task = .outside) (hEntry : s.entries[entry]? = some cookie)
      (hLocks : call.Locks s.groups cookie)
      (hLock : threadMutexLock (s.lock entry) s.next task = some (outcome, mutex, next)) :
      Step s (.lock task entry call outcome)
        { s with
          lock := Function.update s.lock entry mutex
          next := next
          phase := Function.update s.phase task
            (match outcome with
            | .taken => .inside entry call
            | .sleeps => .sleeping entry call)
          holder :=
            match outcome with
            | .taken => Function.update s.holder entry (some task)
            | .sleeps => s.holder }
  | body (task : Task) {entry : Nat} {cookie : UserEntryCookie} {call : Call} (memory : Bool)
      (hPhase : s.phase task = .inside entry call) (hEntry : s.entries[entry]? = some cookie) :
      Step s (.body task (call.locked cookie memory).reply)
        { s with
          entries := s.entries.set entry (call.locked cookie memory).entry
          phase := Function.update s.phase task
            (if (call.locked cookie memory).unlock then
              .unlocking entry (call.locked cookie memory).reply
            else .outside) }
  | unlock (task : Task) {entry : Nat} {reply : Reply} {woken : Option Task}
      {mutex : ThreadMutex Task} (hPhase : s.phase task = .unlocking entry reply)
      (hUnlock : threadMutexUnlock (s.lock entry) s.next = (woken, mutex)) :
      Step s (.unlock task woken)
        { s with
          lock := Function.update s.lock entry mutex
          phase := fun other =>
            if woken = some other then (s.phase other).resume
            else Function.update s.phase task .outside other
          holder := Function.update s.holder entry woken }
  | write (task : Task) (link : Option Task) (hRuns : (s.phase task).waits = none) :
      Step s (.write task link) { s with next := Function.update s.next task link }

/-- No cookie has been created, and every task is outside. -/
def system [DecidableEq Task] : System (State Task) (Event Task) where
  init s := s.userCookieLast = userCookieLast ∧ s.groups = [] ∧ s.entries = [] ∧
    (∀ entry, s.lock entry = threadMutexInit) ∧ (∀ task, s.phase task = .outside) ∧
    ∀ entry, s.holder entry = none
  step := Step

/-- No task outside the three functions has the mutex of an entry. -/
def Released (s : State Task) : Prop :=
  ∀ task entry, s.phase task = .outside → s.holder entry ≠ some task

/-- A call to `user_entry_cookie_remove_from_grp` finds the key of the group in a slot. -/
def careful (s : State Task) : Event Task → Prop
  | .body task _ => ∀ entry cookie group, s.phase task = .inside entry (.removeFromGrp group) →
      s.entries[entry]? = some cookie → group.key.val ∈ cookie.grpKeys
  | _ => True

/-- A task that does not sleep goes on with its call at last. -/
def Fair [DecidableEq Task] {S : System (State Task) (Event Task)} (b : S.Behaviour) : Prop :=
  ∀ n task entry, ((b.state n).phase task).uses = some entry →
    ∃ m, n ≤ m ∧ (b.state m).phase task ≠ (b.state n).phase task

section Sections

variable {entry : UserEntryCookie} {cookie : UserGroupCookie} {key : Nat} {memory : Bool}

theorem addToGrpLocked_eq : addToGrpLocked entry cookie memory =
    ⟨.status (userEntryCookieAddToGrp entry cookie memory).1,
      (userEntryCookieAddToGrp entry cookie memory).2, true⟩ := by
  rw [addToGrpLocked, userEntryCookieAddToGrp]
  split
  · rfl
  · cases claimClearedSlot cookie.key.val entry.grpKeys with
    | some keys => rfl
    | none => cases memory <;> rfl

/-- The loop clears the slot that it is to clear, and unlocks if there is one. -/
theorem clearSlotLoop_eq (slots : List Nat) :
    clearSlotLoop key slots = (clearSlot key slots, decide (key ∈ slots)) := by
  induction slots with
  | nil => rfl
  | cons k ks ih =>
      simp only [clearSlotLoop, clearSlot, ih]
      by_cases hKey : k = key
      · simp [hKey]
      · simp [hKey, Ne.symm hKey]

theorem removeFromGrpLocked_eq : removeFromGrpLocked entry cookie =
    ⟨.status (userEntryCookieRemoveFromGrp entry cookie).1,
      (userEntryCookieRemoveFromGrp entry cookie).2, decide (cookie.key.val ∈ entry.grpKeys)⟩ := by
  rw [removeFromGrpLocked, clearSlotLoop_eq]
  rfl

/-- Both parts of `user_entry_cookie_auth` together answer as the whole function. -/
theorem authUnlocked_or_locked :
    userEntryCookieAuth entry key = (authUnlocked entry key).getD
      (userEntryCookieGrpKeyPresent entry key) := by
  rw [userEntryCookieAuth, authUnlocked]
  split
  · rfl
  · split <;> rfl

/-- The only path without a call to `thread_mutex_unlock` is the one of a removal that does not
find the key. -/
theorem Call.locked_unlock (call : Call) : (call.locked entry memory).unlock = true ↔
    ∀ group, call = .removeFromGrp group → group.key.val ∈ entry.grpKeys := by
  cases call with
  | addToGrp cookie => simp [Call.locked, addToGrpLocked_eq]
  | removeFromGrp cookie => simp [Call.locked, removeFromGrpLocked_eq]
  | auth key => simp [Call.locked, authLocked]

end Sections

end Ricerca.CookieLocks
