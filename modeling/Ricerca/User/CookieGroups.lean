import Ricerca.Foundation.Execution
import Ricerca.Foundation.Latest
import Ricerca.User.Cookie

/-! The groups of an entry. Over any history of joining and leaving, the slots of an entry
cookie stand for the set of groups that it joined and has not left since. -/
namespace Ricerca.Cookie

open Ricerca.Foundation

/-- The calls on one entry cookie; `memory` is for `DYNARRAY_PUSH`. -/
inductive GroupCall where
  | addToGrp (cookie : UserGroupCookie) (memory : Bool)
  | removeFromGrp (cookie : UserGroupCookie)
  deriving DecidableEq

def GroupCall.cookie : GroupCall → UserGroupCookie
  | .addToGrp cookie _ => cookie
  | .removeFromGrp cookie => cookie

def GroupCall.isAdd : GroupCall → Bool
  | .addToGrp _ _ => true
  | .removeFromGrp _ => false

def execGroupCall (entry : UserEntryCookie) : GroupCall → Option (Status × UserEntryCookie)
  | .addToGrp cookie memory => some (userEntryCookieAddToGrp entry cookie memory)
  | .removeFromGrp cookie => some (userEntryCookieRemoveFromGrp entry cookie)

/-- All sequences of calls on an entry cookie with this key, which starts without groups. -/
def groupSystem (key : IssuedKey) : System UserEntryCookie (GroupCall × Status) :=
  System.ofExec ⟨key, []⟩ execGroupCall

/-- The last successful call for the group key was an add. -/
def LastAdded (key : Nat) (trace : List (GroupCall × Status)) : Prop :=
  Latest (fun label => userGroupCookieGetKey label.1.cookie = key ∧ label.2 = .success)
    (fun label => label.1.isAdd = true) trace

section Runs

variable {key : IssuedKey} {entry entry' : UserEntryCookie} {trace : List (GroupCall × Status)}

theorem lastAdded_append {k : Nat} {call : GroupCall} {status : Status} :
    LastAdded k (trace ++ [(call, status)]) ↔
      (userGroupCookieGetKey call.cookie = k ∧ status = .success) ∧ call.isAdd = true ∨
      ¬(userGroupCookieGetKey call.cookie = k ∧ status = .success) ∧ LastAdded k trace :=
  latest_append

/-- Adding fails for want of memory only. -/
theorem addToGrp_status {cookie : UserGroupCookie} {memory : Bool}
    (h : (userEntryCookieAddToGrp entry cookie memory).1 ≠ .success) :
    (userEntryCookieAddToGrp entry cookie memory).1 = .outOfMemory := by
  simp only [userEntryCookieAddToGrp] at h ⊢
  split
  · simp_all
  · split
    · simp_all
    · split
      · simp_all
      · rfl

/-- The slots after a run: every key is there once, and it is there if it was added last. -/
structure SlotsOf (key : IssuedKey) (trace : List (GroupCall × Status)) (entry : UserEntryCookie) :
    Prop where
  own : entry.key = key
  distinct : DistinctKeys entry.grpKeys
  mem_iff : ∀ k ≠ 0, k ∈ entry.grpKeys ↔ LastAdded k trace

theorem SlotsOf.add (h : SlotsOf key trace entry) (cookie : UserGroupCookie) (memory : Bool) :
    SlotsOf key
      (trace ++ [(.addToGrp cookie memory, (userEntryCookieAddToGrp entry cookie memory).1)])
      (userEntryCookieAddToGrp entry cookie memory).2 := by
  have hOwn : (userEntryCookieAddToGrp entry cookie memory).2.key = entry.key := by
    simp only [userEntryCookieAddToGrp]
    split
    · rfl
    · split
      · rfl
      · split <;> rfl
  by_cases hStatus : (userEntryCookieAddToGrp entry cookie memory).1 = .success
  · obtain ⟨hDistinct, hMem⟩ := addToGrp_spec h.distinct hStatus
    refine ⟨hOwn.trans h.own, hDistinct, fun k hk => ?_⟩
    rw [hMem k hk, lastAdded_append, h.mem_iff k hk]
    simp only [GroupCall.cookie, GroupCall.isAdd, userGroupCookieGetKey, hStatus, and_true]
    tauto
  · rw [addToGrp_failed hStatus]
    refine ⟨h.own, h.distinct, fun k hk => ?_⟩
    rw [lastAdded_append, h.mem_iff k hk]
    simp [hStatus]

theorem SlotsOf.remove (h : SlotsOf key trace entry) (cookie : UserGroupCookie) :
    SlotsOf key (trace ++ [(.removeFromGrp cookie, .success)])
      (userEntryCookieRemoveFromGrp entry cookie).2 := by
  have hSpec : DistinctKeys (userEntryCookieRemoveFromGrp entry cookie).2.grpKeys ∧ _ :=
    removeFromGrp_spec h.distinct
  obtain ⟨hDistinct, hMem⟩ := hSpec
  refine ⟨h.own, hDistinct, fun k hk => ?_⟩
  rw [hMem k hk, lastAdded_append, h.mem_iff k hk]
  simp only [GroupCall.cookie, GroupCall.isAdd, userGroupCookieGetKey, and_true]
  tauto

theorem slotsOf_run (run : (groupSystem key).Execution trace entry) : SlotsOf key trace entry := by
  induction run with
  | start h =>
      cases h
      refine ⟨rfl, List.nodup_nil, fun k _ => ?_⟩
      exact iff_of_false (by simp) (latest_nil _ _)
  | @step trace entry entry' label prior last ih =>
      obtain ⟨call, status⟩ := label
      cases call with
      | addToGrp cookie memory =>
          have hAdd : userEntryCookieAddToGrp entry cookie memory = (status, entry') :=
            Option.some.inj last
          simpa only [hAdd] using ih.add cookie memory
      | removeFromGrp cookie =>
          have hRemove : userEntryCookieRemoveFromGrp entry cookie = (status, entry') :=
            Option.some.inj last
          obtain rfl : Status.success = status := congrArg Prod.fst hRemove
          simpa only [hRemove] using ih.remove cookie

end Runs

end Ricerca.Cookie
