import Mathlib.Algebra.Group.Nat.Defs
import Mathlib.Data.List.Nodup
import Mathlib.Tactic.Common

/-! Security cookies (`user/cookie.c`). A key decides who may use a reference or
a shared buffer; an entry proves its rights with the key it was created with and
with the group keys it has collected. The mutex of the entry cookie is not part
of this state: each function below is one completed call. -/
namespace Ricerca.Cookie

/-- API status codes of `user/status.h`. -/
inductive Status where
  | success
  | outOfBounds
  | unsupported
  | outOfMemory
  | targetUnreachable
  | quotaExceeded
  | empty
  | invalidMsg
  | invalidHandle
  | invalidHandleType
  | invalidRpcId
  | invalidUniverseOrder
  | securityViolation
  | invalidMem
  deriving DecidableEq, Repr

/-- `USER_COOKIE_KEY_ONLY_KERNEL`: no user process can authenticate. -/
def userCookieKeyOnlyKernel : Nat := 0

/-- `USER_COOKIE_KEY_UNIVERSAL`: everybody can authenticate. -/
def userCookieKeyUniversal : Nat := 1

/-- A key taken from the counter `user_cookie_last`. The counter starts at 2 and
only grows, so an issued key is neither of the two reserved ones. -/
structure IssuedKey where
  val : Nat
  two_le : 2 ≤ val
  deriving DecidableEq

/-- Initial value of `user_cookie_last`. -/
def userCookieLast : IssuedKey := ⟨2, Nat.le_refl 2⟩

/-- The counter after `ATOMIC_FETCH_INCREMENT(&user_cookie_last)`. -/
def IssuedKey.next (k : IssuedKey) : IssuedKey := ⟨k.val + 1, Nat.le_succ_of_le k.two_le⟩

theorem IssuedKey.ne_onlyKernel (k : IssuedKey) : k.val ≠ userCookieKeyOnlyKernel := by
  have := k.two_le
  simp only [userCookieKeyOnlyKernel]
  omega

/-- `struct user_group_cookie`. -/
structure UserGroupCookie where
  key : IssuedKey
  deriving DecidableEq

/-- `struct user_entry_cookie`. A cleared slot of `grp_keys` holds zero. -/
structure UserEntryCookie where
  key : IssuedKey
  grpKeys : List Nat
  deriving DecidableEq

def userGroupCookieGetKey (grp : UserGroupCookie) : Nat := grp.key.val

def userEntryCookieGetKey (entry : UserEntryCookie) : Nat := entry.key.val

def userEntryCookieGrpKeyPresent (entry : UserEntryCookie) (key : Nat) : Bool :=
  entry.grpKeys.any (· == key)

/-- The loop of `user_entry_cookie_add_to_grp` that stores the key in the first
cleared slot. `none` when there is no such slot. -/
def claimClearedSlot (key : Nat) : List Nat → Option (List Nat)
  | [] => none
  | k :: ks => if k = 0 then some (key :: ks) else (claimClearedSlot key ks).map (k :: ·)

/-- `user_entry_cookie_add_to_grp`; `memory` says whether `DYNARRAY_PUSH` finds
memory when it is reached. -/
def userEntryCookieAddToGrp (entry : UserEntryCookie) (cookie : UserGroupCookie)
    (memory : Bool) : Status × UserEntryCookie :=
  if userEntryCookieGrpKeyPresent entry cookie.key.val then (.success, entry)
  else
    match claimClearedSlot cookie.key.val entry.grpKeys with
    | some keys => (.success, { entry with grpKeys := keys })
    | none =>
        if memory then
          (.success, { entry with grpKeys := entry.grpKeys ++ [cookie.key.val] })
        else (.outOfMemory, entry)

/-- The loop of `user_entry_cookie_remove_from_grp`, which clears the first slot
that holds the key and stops. -/
def clearSlot (key : Nat) : List Nat → List Nat
  | [] => []
  | k :: ks => if k = key then 0 :: ks else k :: clearSlot key ks

def userEntryCookieRemoveFromGrp (entry : UserEntryCookie) (cookie : UserGroupCookie) :
    Status × UserEntryCookie :=
  (.success, { entry with grpKeys := clearSlot cookie.key.val entry.grpKeys })

def userEntryCookieAuth (entry : UserEntryCookie) (key : Nat) : Bool :=
  if key = userCookieKeyUniversal ∨ key = entry.key.val then true
  else if key = userCookieKeyOnlyKernel then false
  else userEntryCookieGrpKeyPresent entry key

/-- Who authenticates for a key: everybody for the universal one, otherwise the
entry it was issued to and the members of the group it was issued to. -/
theorem userEntryCookieAuth_iff (entry : UserEntryCookie) (key : Nat) :
    userEntryCookieAuth entry key = true ↔
      key = userCookieKeyUniversal ∨ key = entry.key.val ∨
        (key ≠ userCookieKeyOnlyKernel ∧ key ∈ entry.grpKeys) := by
  unfold userEntryCookieAuth
  split_ifs with hOwn hKernel
  · simp only [true_iff]
    tauto
  · simp only [false_iff]
    tauto
  · simp only [userEntryCookieGrpKeyPresent, List.any_eq_true, beq_iff_eq]
    constructor
    · rintro ⟨k, hk, rfl⟩
      exact Or.inr (Or.inr ⟨hKernel, hk⟩)
    · rintro (h | h | ⟨_, h⟩)
      · exact (hOwn (Or.inl h)).elim
      · exact (hOwn (Or.inr h)).elim
      · exact ⟨key, h, rfl⟩

/-- The kernel's key never authenticates, although cleared slots hold the same
number. -/
theorem userEntryCookieAuth_onlyKernel (entry : UserEntryCookie) :
    userEntryCookieAuth entry userCookieKeyOnlyKernel = false := by
  rw [Bool.eq_false_iff, Ne, userEntryCookieAuth_iff]
  have hKey := entry.key.ne_onlyKernel
  simp only [userCookieKeyOnlyKernel, userCookieKeyUniversal] at hKey ⊢
  omega

/-- Every key stands in at most one slot; cleared slots do not count. -/
def DistinctKeys (slots : List Nat) : Prop := (slots.filter (· ≠ 0)).Nodup

section Slots

variable {key : Nat} {slots slots' : List Nat}

theorem claimClearedSlot_spec (hKey : key ≠ 0) (h : claimClearedSlot key slots = some slots') :
    (slots'.filter (· ≠ 0)).Perm (key :: slots.filter (· ≠ 0)) := by
  induction slots generalizing slots' with
  | nil => cases h
  | cons k ks ih =>
      simp only [claimClearedSlot] at h
      split_ifs at h with hZero
      · cases h
        simp [hZero, hKey]
      · rw [Option.map_eq_some_iff] at h
        obtain ⟨rest, hRest, rfl⟩ := h
        have hTail := (ih hRest).cons k
        simp only [List.filter_cons, hZero, ne_eq, not_false_eq_true, decide_true, if_true]
        exact hTail.trans (List.Perm.swap key k _)

theorem clearSlot_spec (hKey : key ≠ 0) (slots : List Nat) :
    (clearSlot key slots).filter (· ≠ 0) = (slots.filter (· ≠ 0)).erase key := by
  induction slots with
  | nil => rfl
  | cons k ks ih =>
      simp only [clearSlot]
      split_ifs with hEq
      · subst hEq
        simp [hKey]
      · by_cases hZero : k = 0
        · simpa [hZero] using ih
        · simp only [List.filter_cons, hZero, ne_eq, not_false_eq_true, decide_true, if_true]
          rw [List.erase_cons_tail (by simpa using hEq), ← ih]

end Slots

section Groups

variable {entry : UserEntryCookie} {group : UserGroupCookie} {memory : Bool}

/-- A key that may be in a slot, as opposed to the mark of a cleared one. -/
theorem mem_slots_iff {k : Nat} (hk : k ≠ 0) {slots : List Nat} :
    k ∈ slots ↔ k ∈ slots.filter (· ≠ 0) := by
  simp [hk]

theorem addToGrp_spec (hDistinct : DistinctKeys entry.grpKeys)
    (hStatus : (userEntryCookieAddToGrp entry group memory).1 = .success) :
    DistinctKeys (userEntryCookieAddToGrp entry group memory).2.grpKeys ∧
    ∀ k ≠ 0, k ∈ (userEntryCookieAddToGrp entry group memory).2.grpKeys ↔
      k = group.key.val ∨ k ∈ entry.grpKeys := by
  have hKey : group.key.val ≠ 0 := group.key.ne_onlyKernel
  simp only [userEntryCookieAddToGrp] at hStatus ⊢
  by_cases hPresent : userEntryCookieGrpKeyPresent entry group.key.val = true
  · rw [if_pos hPresent]
    simp only [userEntryCookieGrpKeyPresent, List.any_eq_true, beq_iff_eq] at hPresent
    obtain ⟨k', hMem, rfl⟩ := hPresent
    refine ⟨hDistinct, fun k _ => ⟨Or.inr, ?_⟩⟩
    rintro (rfl | h)
    · exact hMem
    · exact h
  · rw [if_neg hPresent] at hStatus ⊢
    have hAbsent : group.key.val ∉ entry.grpKeys := by
      intro hMem
      apply hPresent
      simp only [userEntryCookieGrpKeyPresent, List.any_eq_true, beq_iff_eq]
      exact ⟨_, hMem, rfl⟩
    have hFresh : group.key.val ∉ entry.grpKeys.filter (· ≠ 0) := fun hMem =>
      hAbsent (List.mem_of_mem_filter hMem)
    cases hClaim : claimClearedSlot group.key.val entry.grpKeys with
    | some keys =>
        have hPerm := claimClearedSlot_spec hKey hClaim
        refine ⟨hPerm.nodup_iff.mpr (List.nodup_cons.mpr ⟨hFresh, hDistinct⟩), fun k hk => ?_⟩
        rw [mem_slots_iff hk, hPerm.mem_iff, List.mem_cons, ← mem_slots_iff hk]
    | none =>
        simp only [hClaim] at hStatus ⊢
        split_ifs at hStatus with hMemory
        rw [if_pos hMemory]
        have hAppend : (entry.grpKeys ++ [group.key.val]).filter (· ≠ 0) =
            entry.grpKeys.filter (· ≠ 0) ++ [group.key.val] := by
          simp [List.filter_append, hKey]
        refine ⟨?_, fun k hk => ?_⟩
        · rw [DistinctKeys, hAppend]
          exact List.nodup_append_comm.mp (List.nodup_cons.mpr ⟨hFresh, hDistinct⟩)
        · simp only [List.mem_append, List.mem_singleton]
          exact or_comm

theorem addToGrp_failed (h : (userEntryCookieAddToGrp entry group memory).1 ≠ .success) :
    (userEntryCookieAddToGrp entry group memory).2 = entry := by
  simp only [userEntryCookieAddToGrp] at h ⊢
  split at h
  · exact (h rfl).elim
  · rename_i hAbsent
    rw [if_neg hAbsent]
    split at h
    · exact (h rfl).elim
    · split at h
      · exact (h rfl).elim
      · rename_i hNone hMemory
        rw [if_neg hMemory]

theorem removeFromGrp_spec (hDistinct : DistinctKeys entry.grpKeys) :
    DistinctKeys (userEntryCookieRemoveFromGrp entry group).2.grpKeys ∧
    ∀ k ≠ 0, k ∈ (userEntryCookieRemoveFromGrp entry group).2.grpKeys ↔
      k ≠ group.key.val ∧ k ∈ entry.grpKeys := by
  have hCleared := clearSlot_spec group.key.ne_onlyKernel entry.grpKeys
  simp only [userEntryCookieRemoveFromGrp]
  refine ⟨?_, fun k hk => ?_⟩
  · rw [DistinctKeys, hCleared]
    exact hDistinct.erase _
  · rw [mem_slots_iff hk, hCleared, hDistinct.mem_erase_iff, ← mem_slots_iff hk]

end Groups

/-- Different keys are told apart by some entry cookie, unless both stand for
nobody or everybody alike. -/
theorem eq_of_auth_iff {first second : Nat}
    (h : ∀ entry, userEntryCookieAuth entry first = true ↔ userEntryCookieAuth entry second = true) :
    first = second := by
  -- an entry without groups authenticates for exactly its own key and the universal one
  have own : ∀ (key : IssuedKey) (k : Nat),
      userEntryCookieAuth ⟨key, []⟩ k = true ↔ k = userCookieKeyUniversal ∨ k = key.val := by
    intro key k
    rw [userEntryCookieAuth_iff]
    simp
  -- a key above both separates the universal key from every other one
  have hFresh := h ⟨⟨first + second + 2, by omega⟩, []⟩
  rw [own, own] at hFresh
  simp only [userCookieKeyUniversal] at hFresh
  by_contra hne
  have hNot : first ≠ 1 ∧ second ≠ 1 := by omega
  rcases Nat.lt_or_ge first 2 with hLow | hHigh
  · have hOwn := h ⟨⟨second, by omega⟩, []⟩
    rw [own, own] at hOwn
    simp only [userCookieKeyUniversal, or_true, iff_true] at hOwn
    omega
  · have hOwn := h ⟨⟨first, hHigh⟩, []⟩
    rw [own, own] at hOwn
    simp only [userCookieKeyUniversal, or_true, true_iff] at hOwn
    omega

end Ricerca.Cookie
