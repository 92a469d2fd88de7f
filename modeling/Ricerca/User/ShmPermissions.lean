import Ricerca.User.Shm

/-! The permission law of shared memory objects. A call with `rw` set should give
the right to write to exactly the named audience and a call without it should
leave that right alone. `user_shm_modify_perms` selects the two keys the other
way round, so the law holds for a call exactly when its audience is the one that
can write already. -/
namespace Ricerca.Shm

open Ricerca.Foundation Ricerca.Cookie

/-- The entry passes the authentication of `user_shm_write_by_id`. -/
def PassesWriteAuth (s : State) (id : Nat) (entry : UserEntryCookie) : Prop :=
  ∃ offset len data, (userShmWriteById s id offset len data entry).1 ≠ .securityViolation

theorem passesWriteAuth_iff (s : State) (id : Nat) (entry : UserEntryCookie) :
    PassesWriteAuth s id entry ↔
      ∃ shm, userShmFindById s id = some shm ∧ userEntryCookieAuth entry shm.rwKey = true := by
  unfold PassesWriteAuth userShmWriteById userShmAuthWrite
  cases hFind : userShmFindById s id with
  | none => simp
  | some shm =>
      cases hAuth : userEntryCookieAuth entry shm.rwKey with
      | false => simp [hAuth]
      | true =>
          simp only [Bool.not_true, Bool.false_eq_true, ↓reduceIte, Option.some.injEq,
            exists_eq_left', hAuth, iff_true]
          refine ⟨0, 0, fun _ => 0, ?_⟩
          split <;> simp

/-- What a permission call on `id` has to do: with `rw` the audience, and nobody
else, can write afterwards; without it the writers stay the same. -/
def PermissionLaw (s s' : State) (id : Nat) (audience : Audience) (rw : Bool) : Prop :=
  ∀ entry, PassesWriteAuth s' id entry ↔
    if rw then audience.Admits entry else PassesWriteAuth s id entry

/-- The call is no permission call, or it names the audience that already holds
the right to write. -/
def NamesWriters (s : State) : Call × Outcome → Prop
  | (.setPerms id audience _, _) =>
      ∀ shm, userShmFindById s id = some shm → audience.key = shm.rwKey
  | _ => True

/-- The right to write was given to this entry: it authenticates for the key of
the object's creator, or it belongs to an audience that some call with `rw` set
has named for the object. -/
def WriteGranted (trace : List (Call × Outcome)) (s : State) (id : Nat)
    (entry : UserEntryCookie) : Prop :=
  (∃ creator size cookie, (.create creator size true true, ⟨.success, some id⟩) ∈ trace ∧
    s.entries creator = some cookie ∧
    userEntryCookieAuth entry (userEntryCookieGetKey cookie) = true) ∨
  (∃ audience outcome, (.setPerms id audience true, outcome) ∈ trace ∧ audience.Admits entry)

theorem findById_of_update {s s' : State} {id : Nat} {shm : Option UserShmOwner}
    (h : s'.shms = Function.update s.shms id shm) (other : Nat) :
    userShmFindById s' other =
      if other = id then shm.filter (·.listed) else userShmFindById s other := by
  unfold userShmFindById
  rw [h]
  split_ifs with hId
  · subst hId
    simp
  · simp [hId]

theorem listed_of_findById {s : State} {id : Nat} {shm : UserShmOwner}
    (h : userShmFindById s id = some shm) : shm.listed = true := by
  simp only [userShmFindById, Option.filter_eq_some_iff] at h
  exact h.2

theorem userShmModifyPerms_listed (shm : UserShmOwner) (key : Nat) (rw : Bool) :
    (userShmModifyPerms shm key rw).listed = shm.listed := by
  cases rw <;> rfl

/-- The object after a permission call, as later accesses find it. -/
theorem findById_setPerms {s : State} {id : Nat} {shm : UserShmOwner}
    (h : userShmFindById s id = some shm) (audience : Audience) (rw : Bool) :
    userShmFindById
        { s with shms := Function.update s.shms id (some (audience.call shm rw)) } id =
      some (userShmModifyPerms shm audience.key rw) := by
  rw [findById_of_update rfl, if_pos rfl, audience.call_eq]
  simp [Option.filter, userShmModifyPerms_listed, listed_of_findById h]

/-- One permission call meets the law exactly when it names the present writers. -/
theorem permissionLaw_setPerms {s : State} {id : Nat} {shm : UserShmOwner}
    (h : userShmFindById s id = some shm) (audience : Audience) (rw : Bool) :
    PermissionLaw s
        { s with shms := Function.update s.shms id (some (audience.call shm rw)) } id audience rw ↔
      audience.key = shm.rwKey := by
  unfold PermissionLaw
  simp only [passesWriteAuth_iff, findById_setPerms h, h, Option.some.injEq, exists_eq_left',
    Audience.Admits]
  constructor
  · intro law
    cases rw with
    | true => exact eq_of_auth_iff fun entry => (law entry).symm
    | false => exact eq_of_auth_iff fun entry => law entry
  · intro hKey entry
    cases rw with
    | true => simp [userShmModifyPerms, hKey]
    | false => simp [userShmModifyPerms, hKey]

/-- A write by id changes at most the bytes of the object it finds. -/
theorem userShmWriteById_state (s : State) (id : Nat) (offset len : UInt64)
    (data : Nat → UInt8) (cookie : UserEntryCookie) :
    (userShmWriteById s id offset len data cookie).2 = s ∨
    ∃ shm, userShmFindById s id = some shm ∧
      (userShmWriteById s id offset len data cookie).2 =
        { s with shms := Function.update s.shms id (some (shm.write offset len data)) } := by
  unfold userShmWriteById
  cases hFind : userShmFindById s id with
  | none => exact Or.inl rfl
  | some shm =>
      by_cases hAuth : userShmAuthWrite shm cookie = true
      · by_cases hFits : userShmCheckBounds shm offset len = true
        · exact Or.inr ⟨shm, rfl, by simp [hAuth, hFits]⟩
        · exact Or.inl (by simp [hAuth, hFits])
      · exact Or.inl (by simp [hAuth])

/-- Entry cookies live below the number of entries created so far. -/
def EntriesBounded (s : State) : Prop :=
  ∀ i cookie, s.entries i = some cookie → i < s.entriesCount

/-- Rewriting one entry cookie without touching its key. -/
theorem entries_update_persist {s : State} {entry : Nat} {cookie cookie' : UserEntryCookie}
    (hBound : EntriesBounded s) (hEntry : s.entries entry = some cookie)
    (hKey : cookie'.key = cookie.key) :
    EntriesBounded { s with entries := Function.update s.entries entry (some cookie') } ∧
    ∀ i c, s.entries i = some c →
      ∃ c', Function.update s.entries entry (some cookie') i = some c' ∧ c'.key = c.key := by
  constructor
  · intro i c hi
    by_cases h : i = entry
    · subst h
      exact hBound _ _ hEntry
    · exact hBound i c (by simpa [h] using hi)
  · intro i c hi
    by_cases h : i = entry
    · subst h
      rw [hEntry, Option.some.injEq] at hi
      subst hi
      exact ⟨cookie', by simp, hKey⟩
    · exact ⟨c, by simpa [h] using hi, rfl⟩

theorem userEntryCookieAddToGrp_key (entry : UserEntryCookie) (grp : UserGroupCookie)
    (memory : Bool) : (userEntryCookieAddToGrp entry grp memory).2.key = entry.key := by
  unfold userEntryCookieAddToGrp
  split
  · rfl
  · split
    · rfl
    · split <;> rfl

/-- No call forgets an entry cookie or changes the key it was created with. -/
theorem exec_entries {s s' : State} {call : Call} {outcome : Outcome}
    (hBound : EntriesBounded s) (h : exec s call = some (outcome, s')) :
    EntriesBounded s' ∧
    ∀ i c, s.entries i = some c → ∃ c', s'.entries i = some c' ∧ c'.key = c.key := by
  have same : s'.entries = s.entries → s'.entriesCount = s.entriesCount →
      EntriesBounded s' ∧
      ∀ i c, s.entries i = some c → ∃ c', s'.entries i = some c' ∧ c'.key = c.key := by
    intro hEntries hCount
    exact ⟨fun i c hi => by rw [hCount]; exact hBound i c (hEntries ▸ hi),
      fun i c hi => ⟨c, hEntries ▸ hi, rfl⟩⟩
  cases call with
  | createEntryCookie =>
      simp only [exec, Option.some.injEq, Prod.mk.injEq] at h
      obtain ⟨-, rfl⟩ := h
      constructor
      · intro i c hi
        by_cases hEq : i = s.entriesCount
        · simp [hEq]
        · have := hBound i c (by simpa [hEq] using hi)
          exact Nat.lt_succ_of_lt this
      · intro i c hi
        have hNe : i ≠ s.entriesCount := Nat.ne_of_lt (hBound i c hi)
        exact ⟨c, by simpa [hNe] using hi, rfl⟩
  | createGroupCookie =>
      simp only [exec, Option.some.injEq, Prod.mk.injEq] at h
      obtain ⟨-, rfl⟩ := h
      exact same rfl rfl
  | addToGrp entry group memory =>
      simp only [exec, Option.bind_eq_bind, Option.bind_eq_some_iff, Option.pure_def,
        Option.some.injEq, Prod.mk.injEq] at h
      obtain ⟨cookie, hEntry, grp, -, -, rfl⟩ := h
      exact entries_update_persist hBound hEntry (userEntryCookieAddToGrp_key cookie grp memory)
  | removeFromGrp entry group =>
      simp only [exec, Option.bind_eq_bind, Option.bind_eq_some_iff, Option.pure_def,
        Option.some.injEq, Prod.mk.injEq] at h
      obtain ⟨cookie, hEntry, grp, -, -, rfl⟩ := h
      exact entries_update_persist hBound hEntry rfl
  | create entry size objectMemory dataMemory =>
      simp only [exec, Option.bind_eq_bind, Option.bind_eq_some_iff, Option.pure_def,
        Option.some.injEq] at h
      obtain ⟨cookie, -, h⟩ := h
      unfold userShmCreate at h
      split_ifs at h <;> (obtain ⟨-, rfl⟩ := Prod.mk.inj h; exact same rfl rfl)
  | shutdown id =>
      simp only [exec, Option.bind_eq_bind, Option.bind_eq_some_iff, Option.pure_def,
        Option.some.injEq, Prod.mk.injEq] at h
      obtain ⟨shm, -, -, rfl⟩ := h
      exact same rfl rfl
  | setPerms id audience rw =>
      simp only [exec, Option.bind_eq_bind, Option.bind_eq_some_iff, Option.pure_def,
        Option.some.injEq, Prod.mk.injEq] at h
      obtain ⟨shm, -, -, rfl⟩ := h
      exact same rfl rfl
  | writeById entry id offset len data =>
      simp only [exec, Option.bind_eq_bind, Option.bind_eq_some_iff, Option.pure_def,
        Option.some.injEq, Prod.mk.injEq] at h
      obtain ⟨cookie, -, -, rfl⟩ := h
      rcases userShmWriteById_state s id offset len data cookie with hs | ⟨shm, -, hs⟩
      · exact same (by rw [hs]) (by rw [hs])
      · exact same (by rw [hs]) (by rw [hs])
  | readById entry id offset len buf =>
      simp only [exec, Option.bind_eq_bind, Option.bind_eq_some_iff, Option.pure_def,
        Option.some.injEq, Prod.mk.injEq] at h
      obtain ⟨cookie, -, -, rfl⟩ := h
      exact same rfl rfl

/-- How one call changes what later accesses by id find. Listed objects come
from a creation, from a permission call, or were listed with the same
`rw_key` before. -/
theorem exec_findById {s s' : State} {call : Call} {outcome : Outcome}
    (h : exec s call = some (outcome, s')) {id : Nat} {shm' : UserShmOwner}
    (hFind : userShmFindById s' id = some shm') :
    (∃ shm, userShmFindById s id = some shm ∧ shm'.rwKey = shm.rwKey) ∨
    (∃ entry size cookie, call = .create entry size true true ∧ outcome = ⟨.success, some id⟩ ∧
      s.entries entry = some cookie ∧ shm'.rwKey = userEntryCookieGetKey cookie) ∨
    (∃ audience rw shm, call = .setPerms id audience rw ∧ userShmFindById s id = some shm ∧
      shm' = userShmModifyPerms shm audience.key rw) := by
  have same : s'.shms = s.shms →
      ∃ shm, userShmFindById s id = some shm ∧ shm'.rwKey = shm.rwKey := by
    intro hShms
    refine ⟨shm', ?_, rfl⟩
    rw [← hFind]
    simp only [userShmFindById, hShms]
  cases call with
  | createEntryCookie =>
      simp only [exec, Option.some.injEq, Prod.mk.injEq] at h
      exact Or.inl (same (by rw [← h.2]))
  | createGroupCookie =>
      simp only [exec, Option.some.injEq, Prod.mk.injEq] at h
      exact Or.inl (same (by rw [← h.2]))
  | addToGrp entry group memory =>
      simp only [exec, Option.bind_eq_bind, Option.bind_eq_some_iff, Option.pure_def,
        Option.some.injEq, Prod.mk.injEq] at h
      obtain ⟨cookie, -, grp, -, -, rfl⟩ := h
      exact Or.inl (same rfl)
  | removeFromGrp entry group =>
      simp only [exec, Option.bind_eq_bind, Option.bind_eq_some_iff, Option.pure_def,
        Option.some.injEq, Prod.mk.injEq] at h
      obtain ⟨cookie, -, grp, -, -, rfl⟩ := h
      exact Or.inl (same rfl)
  | create entry size objectMemory dataMemory =>
      simp only [exec, Option.bind_eq_bind, Option.bind_eq_some_iff, Option.pure_def,
        Option.some.injEq] at h
      obtain ⟨cookie, hEntry, h⟩ := h
      unfold userShmCreate at h
      split_ifs at h with hObject hData
      · obtain ⟨-, rfl⟩ := Prod.mk.inj h
        exact Or.inl (same rfl)
      · obtain ⟨-, rfl⟩ := Prod.mk.inj h
        exact Or.inl (same rfl)
      · obtain ⟨rfl, rfl⟩ := Prod.mk.inj h
        rw [findById_of_update rfl] at hFind
        split_ifs at hFind with hId
        · subst hId
          simp only [Option.filter_some, ↓reduceIte, Option.some.injEq] at hFind
          simp only [Bool.not_eq_true', Bool.not_eq_false] at hObject hData
          subst hObject hData hFind
          exact Or.inr (Or.inl ⟨entry, size, cookie, rfl, rfl, hEntry, rfl⟩)
        · exact Or.inl ⟨shm', hFind, rfl⟩
  | shutdown other =>
      simp only [exec, Option.bind_eq_bind, Option.bind_eq_some_iff, Option.pure_def,
        Option.some.injEq, Prod.mk.injEq] at h
      obtain ⟨shm, -, -, rfl⟩ := h
      rw [userShmShutdown, findById_of_update rfl] at hFind
      split_ifs at hFind with hId
      · simp [Option.filter_eq_some_iff] at hFind
        obtain ⟨⟨_, -, rfl⟩, hListed⟩ := hFind
        simp at hListed
      · exact Or.inl ⟨shm', hFind, rfl⟩
  | setPerms other audience rw =>
      simp only [exec, Option.bind_eq_bind, Option.bind_eq_some_iff, Option.pure_def,
        Option.some.injEq, Prod.mk.injEq] at h
      obtain ⟨shm, hOld, -, rfl⟩ := h
      by_cases hId : id = other
      · subst hId
        rw [findById_setPerms hOld, Option.some.injEq] at hFind
        exact Or.inr (Or.inr ⟨audience, rw, shm, rfl, hOld, hFind.symm⟩)
      · rw [findById_of_update rfl, if_neg hId] at hFind
        exact Or.inl ⟨shm', hFind, rfl⟩
  | writeById entry other offset len data =>
      simp only [exec, Option.bind_eq_bind, Option.bind_eq_some_iff, Option.pure_def,
        Option.some.injEq, Prod.mk.injEq] at h
      obtain ⟨cookie, -, -, rfl⟩ := h
      rcases userShmWriteById_state s other offset len data cookie with hs | ⟨shm, hOld, hs⟩
      · exact Or.inl (same (by rw [hs]))
      · rw [hs, findById_of_update rfl] at hFind
        split_ifs at hFind with hId
        · subst hId
          rw [Option.filter_eq_some_iff, Option.some.injEq] at hFind
          exact Or.inl ⟨shm, hOld, by rw [← hFind.1]; rfl⟩
        · exact Or.inl ⟨shm', hFind, rfl⟩
  | readById entry other offset len buf =>
      simp only [exec, Option.bind_eq_bind, Option.bind_eq_some_iff, Option.pure_def,
        Option.some.injEq, Prod.mk.injEq] at h
      obtain ⟨cookie, -, -, rfl⟩ := h
      exact Or.inl (same rfl)

/-- The `rw_key` of a listed object is the key of its creator, as long as every
permission call names the present writers. -/
def CreatorWrites (trace : List (Call × Outcome)) (s : State) : Prop :=
  ∀ id shm, userShmFindById s id = some shm → ∃ creator size cookie,
    (.create creator size true true, ⟨.success, some id⟩) ∈ trace ∧
    s.entries creator = some cookie ∧ userEntryCookieGetKey cookie = shm.rwKey

theorem creatorWrites_step {trace : List (Call × Outcome)} {s s' : State} {label : Call × Outcome}
    (hBound : EntriesBounded s) (hInv : CreatorWrites trace s) (hNames : NamesWriters s label)
    (h : exec s label.1 = some (label.2, s')) : CreatorWrites (trace ++ [label]) s' := by
  obtain ⟨call, outcome⟩ := label
  obtain ⟨-, hKeep⟩ := exec_entries hBound h
  -- an object that kept its `rw_key` keeps its creator as well
  have kept : ∀ id shm, userShmFindById s id = some shm → ∃ creator size cookie,
      (.create creator size true true, ⟨.success, some id⟩) ∈ trace ++ [(call, outcome)] ∧
      s'.entries creator = some cookie ∧ userEntryCookieGetKey cookie = shm.rwKey := by
    intro id shm hOld
    obtain ⟨creator, size, cookie, hMem, hEntry, hKey⟩ := hInv id shm hOld
    obtain ⟨cookie', hEntry', hKey'⟩ := hKeep creator cookie hEntry
    refine ⟨creator, size, cookie', List.mem_append_left _ hMem, hEntry', ?_⟩
    rw [← hKey, userEntryCookieGetKey, userEntryCookieGetKey, hKey']
  intro id shm' hFind
  rcases exec_findById h hFind with ⟨shm, hOld, hSame⟩ |
    ⟨entry, size, cookie, rfl, rfl, hEntry, hKey⟩ | ⟨audience, rw, shm, rfl, hOld, rfl⟩
  · rw [hSame]
    exact kept id shm hOld
  · obtain ⟨cookie', hEntry', hKey'⟩ := hKeep entry cookie hEntry
    refine ⟨entry, size, cookie', by simp, hEntry', ?_⟩
    rw [hKey, userEntryCookieGetKey, userEntryCookieGetKey, hKey']
  · have hWriters : audience.key = shm.rwKey := hNames shm hOld
    have hSame : (userShmModifyPerms shm audience.key rw).rwKey = shm.rwKey := by
      cases rw with
      | true => rfl
      | false => exact hWriters
    rw [hSame]
    exact kept id shm hOld

theorem creatorWrites_run {trace : List (Call × Outcome)} {s : State}
    (run : (system.restrict NamesWriters).Execution trace s) :
    EntriesBounded s ∧ CreatorWrites trace s := by
  refine run.invariant (P := fun trace s => EntriesBounded s ∧ CreatorWrites trace s) ?_ ?_
  · rintro s rfl
    exact ⟨fun _ _ h => by simp [State.initial] at h,
      fun _ _ h => by simp [State.initial, userShmFindById] at h⟩
  · rintro trace s label s' - ⟨hBound, hInv⟩ ⟨hNames, hExec⟩
    exact ⟨(exec_entries hBound hExec).1, creatorWrites_step hBound hInv hNames hExec⟩

/-- In every reachable state a permission call meets the law exactly when its
audience is the one that can write already; and in a run whose permission calls
are all of that kind, whoever can write was given the right to do so. -/
theorem permission_law_iff_names_writers (trace : List (Call × Outcome)) (s : State) :
    (system.Execution trace s → ∀ id shm audience rw outcome s',
      userShmFindById s id = some shm →
      exec s (.setPerms id audience rw) = some (outcome, s') →
      (PermissionLaw s s' id audience rw ↔ audience.key = shm.rwKey)) ∧
    ((system.restrict NamesWriters).Execution trace s → ∀ id entry,
      PassesWriteAuth s id entry → WriteGranted trace s id entry) := by
  constructor
  · intro _ id shm audience rw outcome s' hFind hExec
    simp only [exec, hFind, Option.bind_eq_bind, Option.bind_some, Option.pure_def,
      Option.some.injEq, Prod.mk.injEq] at hExec
    rw [← hExec.2]
    exact permissionLaw_setPerms hFind audience rw
  · intro run id entry hPasses
    obtain ⟨shm, hFind, hAuth⟩ := (passesWriteAuth_iff s id entry).mp hPasses
    obtain ⟨creator, size, cookie, hMem, hEntry, hKey⟩ := (creatorWrites_run run).2 id shm hFind
    exact Or.inl ⟨creator, size, cookie, hMem, hEntry, by rwa [hKey]⟩

/-- The creator of an object names itself as the readers: the writers stay the same, and were
all given the right to write. -/
theorem permission_law_iff_names_writers_creator :
    ∃ trace s s', (system.restrict NamesWriters).Execution trace s' ∧
      (.setPerms 0 (.caller ⟨userCookieLast, []⟩) false, ⟨.success, none⟩) ∈ trace ∧
      PermissionLaw s s' 0 (.caller ⟨userCookieLast, []⟩) false ∧
      ∀ entry, PassesWriteAuth s' 0 entry → WriteGranted trace s' 0 entry := by
  have start : (system.restrict NamesWriters).Execution [] State.initial := .start rfl
  have cookies := start.call .createEntryCookie trivial rfl
  have created := cookies.call (.create 0 16 true true) trivial rfl
  have named := created.call (.setPerms 0 (.caller ⟨userCookieLast, []⟩) false)
    (fun shm hFind => by cases hFind; rfl) rfl
  have hLaw := ((permission_law_iff_names_writers _ _).1 created.ofRestrict 0 _
    (.caller ⟨userCookieLast, []⟩) false _ _ rfl rfl).mpr rfl
  exact ⟨_, _, _, named, by simp, hLaw, (permission_law_iff_names_writers _ _).2 named 0⟩

/-- An object is made readable by everybody, and everybody can write to it: the
call without `rw` changes the writers, and an entry to which nobody granted the
right passes the authentication. -/
theorem readable_object_becomes_writable :
    ∃ s s', system.Execution
        [(.createEntryCookie, ⟨.success, none⟩), (.create 0 16 true true, ⟨.success, some 0⟩)] s ∧
      exec s (.setPerms 0 .everybody false) = some (⟨.success, none⟩, s') ∧
      ¬PermissionLaw s s' 0 .everybody false ∧
      ∃ entry, ¬PassesWriteAuth s 0 entry ∧ PassesWriteAuth s' 0 entry := by
  let shm : UserShmOwner := ⟨fun _ => 0, 16, 2, 2, true⟩
  let s : State :=
    { entries := Function.update State.initial.entries 0 (some ⟨userCookieLast, []⟩)
      entriesCount := 1
      groups := fun _ => none
      groupsCount := 0
      cookieLast := userCookieLast.next
      shms := Function.update State.initial.shms 0 (some shm)
      lastAllocatedId := 1 }
  have run : system.Execution
      [(.createEntryCookie, ⟨.success, none⟩), (.create 0 16 true true, ⟨.success, some 0⟩)] s :=
    System.Execution.of_replay [.createEntryCookie, .create 0 16 true true] rfl
  have hFind : userShmFindById s 0 = some shm := rfl
  have hOld : ¬PassesWriteAuth s 0 ⟨⟨3, by decide⟩, []⟩ := by
    rw [passesWriteAuth_iff, hFind]
    simp [shm, userEntryCookieAuth, userCookieKeyUniversal, userCookieKeyOnlyKernel,
      userEntryCookieGrpKeyPresent]
  have hNew : PassesWriteAuth
      { s with shms := Function.update s.shms 0 (some (Audience.everybody.call shm false)) }
      0 ⟨⟨3, by decide⟩, []⟩ := by
    rw [passesWriteAuth_iff, findById_setPerms hFind]
    exact ⟨_, rfl, rfl⟩
  refine ⟨s, _, run, rfl, ?_, _, hOld, hNew⟩
  intro law
  exact hOld ((law _).mp hNew)

end Ricerca.Shm
