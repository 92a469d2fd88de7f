import Mathlib.Data.List.Nodup
import Mathlib.Logic.Function.Basic
import Ricerca.Foundation.Execution
import Ricerca.User.Cookie

/-! Life of cookie objects (`user/cookie.c` over `mem/rc.h`). The header of an
object is found through a cast, so a header can be written through any pointer.
References are borrowed and dropped by code that does not know the object. -/
namespace Ricerca.CookieLife

open Ricerca.Foundation
open Ricerca.Cookie (Status)

/-- Numbers of type `size_t` are taken modulo this one. -/
def sizeModulus : Nat := 2 ^ 64

/-- A pointer to the start of the object that was allocated as number `number`, or
an integer that was cast to a pointer. The heap lies in the higher half and keys do
not reach it. -/
inductive Pointer where
  | object (number : Nat)
  | integer (value : Nat)
  deriving DecidableEq

/-- What a word of type `mem_rc_dispose_t` can hold, other than `NULL`. -/
inductive MemRcDispose where
  | userGroupCookieDestroy
  | userEntryCookieDestroy
  | junk (word : Nat)
  deriving DecidableEq

/-- `struct mem_rc`. -/
structure MemRc where
  refcount : Nat
  drop : Option MemRcDispose
  deriving DecidableEq

/-- A cookie object as far as its life is concerned; `destroy` is the callback of
its type. -/
structure CookieObject where
  key : Nat
  destroy : MemRcDispose
  deriving DecidableEq

/-- Headers, the key counter and the cookies that were created, in order. The last
three fields are history: how many references to an object are outstanding, which
callbacks were run on it, and, for every header that a creation wrote, the new
object and the place of the header. -/
structure State where
  headers : Pointer → MemRc
  userCookieLast : Nat
  cookies : List CookieObject
  outstanding : Nat → Nat
  callbacks : Nat → List MemRcDispose
  writes : List (Pointer × Pointer)

namespace State

/-- The object that the next allocation returns. -/
def fresh (s : State) : Pointer := .object s.cookies.length

/-- `MEM_REF_INIT`, in the creation of the object `res`. -/
def memRefInit (s : State) (res place : Pointer) (callback : MemRcDispose) : State :=
  { s with
    headers := Function.update s.headers place ⟨1, some callback⟩
    writes := s.writes ++ [(res, place)] }

/-- `mem_heap_alloc`; the memory of the object holds `junk`. -/
def memHeapAlloc (s : State) (junk : MemRc) : State :=
  { s with headers := Function.update s.headers s.fresh junk }

/-- `*buf = res`: the object exists and the caller has the only reference. The key
was read from the counter, which is incremented. -/
def publish (s : State) (destroy : MemRcDispose) : State :=
  { s with
    userCookieLast := (s.userCookieLast + 1) % sizeModulus
    cookies := s.cookies ++ [⟨s.userCookieLast, destroy⟩]
    outstanding := Function.update s.outstanding s.cookies.length 1 }

/-- `user_group_cookie_create`; `memory` is the answer of the heap. -/
def userGroupCookieCreate (s : State) (memory : Bool) (junk : MemRc) : Status × State :=
  if memory then
    let res := s.fresh
    (.success, ((s.memHeapAlloc junk).memRefInit res (.integer s.userCookieLast)
      .userGroupCookieDestroy).publish .userGroupCookieDestroy)
  else (.outOfMemory, s)

/-- `user_entry_cookie_create`; the second answer is for the array of group keys. -/
def userEntryCookieCreate (s : State) (memory keys : Bool) (junk : MemRc) : Status × State :=
  if memory then
    if keys then
      let res := s.fresh
      (.success, ((s.memHeapAlloc junk).memRefInit res res
        .userEntryCookieDestroy).publish .userEntryCookieDestroy)
    else (.outOfMemory, s.memHeapAlloc junk)
  else (.outOfMemory, s)

/-- `mem_rc_borrow` through a reference to the object. -/
def memRcBorrow (s : State) (obj : Nat) : State :=
  let rc := s.headers (.object obj)
  { s with
    headers := Function.update s.headers (.object obj)
      { rc with refcount := (rc.refcount + 1) % sizeModulus }
    outstanding := Function.update s.outstanding obj (s.outstanding obj + 1) }

/-- `mem_rc_drop` of a reference to the object. With assertions on, a counter that
is zero already stops the system. -/
def memRcDrop (debug : Bool) (s : State) (obj : Nat) : Option State :=
  let rc := s.headers (.object obj)
  if debug && rc.refcount == 0 then none
  else
    some { s with
      headers := Function.update s.headers (.object obj)
        { rc with refcount := (rc.refcount + (sizeModulus - 1)) % sizeModulus }
      outstanding := Function.update s.outstanding obj (s.outstanding obj - 1)
      callbacks :=
        if rc.refcount = 1 then
          Function.update s.callbacks obj (s.callbacks obj ++ rc.drop.toList)
        else s.callbacks }

end State

/-- Creations, with the answers of the heap and what the memory held, and uses of
the references to an object. -/
inductive Op where
  | createGroup (memory : Bool) (junk : MemRc)
  | createEntry (memory keys : Bool) (junk : MemRc)
  | borrow (obj : Nat)
  | drop (obj : Nat)

/-- Who borrows or drops has a reference. -/
def next (debug : Bool) (s : State) : Op → Option State
  | .createGroup memory junk => some (s.userGroupCookieCreate memory junk).2
  | .createEntry memory keys junk => some (s.userEntryCookieCreate memory keys junk).2
  | .borrow obj => if 0 < s.outstanding obj then some (s.memRcBorrow obj) else none
  | .drop obj => if 0 < s.outstanding obj then s.memRcDrop debug obj else none

/-- No cookie has been created. -/
def start : State where
  headers _ := ⟨0, none⟩
  userCookieLast := 2
  cookies := []
  outstanding _ := 0
  callbacks _ := []
  writes := []

/-- Runs of the system, in a build with or without assertions. -/
def system (debug : Bool) : System State Op where
  init s := s = start
  step s op s' := next debug s op = some s'

/-- An object is counted: its header shows the outstanding references, and its own
callback is run once, when there are none left. -/
structure Counted (s : State) (obj : Nat) (cookie : CookieObject) : Prop where
  refcount : (s.headers (.object obj)).refcount = s.outstanding obj
  drop : (s.headers (.object obj)).drop = some cookie.destroy
  callbacks : s.callbacks obj = if s.outstanding obj = 0 then [cookie.destroy] else []

/-- The contract of cookies: objects are counted, creating one writes no header but
that of the new object, and keys are above the reserved ones and distinct. -/
structure CookieLaw (s : State) : Prop where
  counted : ∀ obj cookie, s.cookies[obj]? = some cookie → Counted s obj cookie
  writes : ∀ write ∈ s.writes, write.2 = write.1
  reserved : ∀ cookie ∈ s.cookies, 2 ≤ cookie.key
  distinct : (s.cookies.map (·.key)).Nodup

/-- Steps that do not reach a defect: no group cookie is created, the key counter
is not at its end, and no object gets more references than a counter can show. -/
def Careful (s : State) : Op → Prop
  | .createGroup memory _ => memory = false
  | .createEntry memory keys _ => memory && keys → s.cookies.length + 2 < sizeModulus
  | .borrow obj => s.outstanding obj + 1 < sizeModulus
  | .drop _ => True

instance (s : State) (op : Op) : Decidable (Careful s op) := by
  cases op <;> unfold Careful <;> infer_instance

/-- Along careful runs keys are given out in order, from 2 on. -/
structure Invariant (s : State) : Prop where
  keys : s.cookies.map (·.key) = (List.range s.cookies.length).map (· + 2)
  last : s.userCookieLast = (s.cookies.length + 2) % sizeModulus
  room : s.cookies.length + 2 ≤ sizeModulus
  counted : ∀ obj cookie, s.cookies[obj]? = some cookie → Counted s obj cookie
  bounded : ∀ obj, s.outstanding obj < sizeModulus
  unborn : ∀ obj, s.cookies.length ≤ obj → s.outstanding obj = 0 ∧ s.callbacks obj = []
  writes : ∀ write ∈ s.writes, write.2 = write.1

section Steps

variable {s s' : State} {debug : Bool} {op : Op}

theorem Invariant.law (hInv : Invariant s) : CookieLaw s where
  counted := hInv.counted
  writes := hInv.writes
  reserved := by
    intro cookie hMem
    have hKey := List.mem_map_of_mem (f := (·.key)) hMem
    rw [hInv.keys, List.mem_map] at hKey
    obtain ⟨i, -, hEq⟩ := hKey
    omega
  distinct := by
    rw [hInv.keys]
    apply List.Nodup.map
    · intro i j h
      exact Nat.add_right_cancel h
    · exact List.nodup_range

theorem start_invariant : Invariant start where
  keys := rfl
  last := rfl
  room := by decide
  counted := by simp [start]
  bounded := by simp [start, sizeModulus]
  unborn := by simp [start]
  writes := by simp [start]

/-- Only objects that exist have references. -/
theorem Invariant.exists_of_outstanding (hInv : Invariant s) {obj : Nat}
    (hHeld : 0 < s.outstanding obj) : ∃ cookie, s.cookies[obj]? = some cookie := by
  have hBorn : obj < s.cookies.length := by
    by_contra hLate
    have := (hInv.unborn obj (Nat.le_of_not_lt hLate)).1
    omega
  exact ⟨_, List.getElem?_eq_getElem hBorn⟩

/-- Other objects do not notice what happens to the header of one of them. -/
theorem Counted.frame {obj : Nat} {cookie : CookieObject} (h : Counted s obj cookie)
    (hHeader : s'.headers (.object obj) = s.headers (.object obj))
    (hOutstanding : s'.outstanding obj = s.outstanding obj)
    (hCallbacks : s'.callbacks obj = s.callbacks obj) : Counted s' obj cookie where
  refcount := by rw [hHeader, hOutstanding, h.refcount]
  drop := by rw [hHeader, h.drop]
  callbacks := by rw [hCallbacks, hOutstanding, h.callbacks]

/-- Memory that is not in use may hold anything. -/
theorem Invariant.memHeapAlloc (hInv : Invariant s) (junk : MemRc) :
    Invariant (s.memHeapAlloc junk) where
  keys := hInv.keys
  last := hInv.last
  room := hInv.room
  bounded := hInv.bounded
  unborn := hInv.unborn
  writes := hInv.writes
  counted := by
    intro obj cookie hObj
    have hBorn : obj < s.cookies.length := (List.getElem?_eq_some_iff.mp hObj).1
    apply (hInv.counted obj cookie hObj).frame
    · apply Function.update_of_ne
      intro hSame
      rw [State.fresh, Pointer.object.injEq] at hSame
      omega
    · rfl
    · rfl

/-- A new entry cookie starts with one reference and its own header. -/
theorem Invariant.publish (hInv : Invariant s) (hRoom : s.cookies.length + 2 < sizeModulus)
    (destroy : MemRcDispose) :
    Invariant ((s.memRefInit s.fresh s.fresh destroy).publish destroy) where
  keys := by
    have hLast : s.userCookieLast = s.cookies.length + 2 := by
      rw [hInv.last, Nat.mod_eq_of_lt hRoom]
    simp [State.publish, State.memRefInit, hInv.keys, hLast, List.range_succ]
  last := by
    simp only [State.publish, State.memRefInit, hInv.last, List.length_append,
      List.length_singleton]
    rw [Nat.mod_add_mod]
  room := by
    simp only [State.publish, State.memRefInit, List.length_append, List.length_singleton]
    omega
  bounded := by
    intro obj
    simp only [State.publish, State.memRefInit, Function.update_apply]
    split
    · decide
    · exact hInv.bounded obj
  unborn := by
    intro obj hLate
    simp only [State.publish, State.memRefInit, List.length_append, List.length_singleton]
      at hLate ⊢
    rw [Function.update_of_ne (by omega)]
    exact hInv.unborn obj (by omega)
  writes := by
    intro write hMem
    simp only [State.publish, State.memRefInit, List.mem_append, List.mem_singleton] at hMem
    rcases hMem with hOld | rfl
    · exact hInv.writes write hOld
    · rfl
  counted := by
    intro obj cookie hObj
    simp only [State.publish, State.memRefInit] at hObj
    rcases Nat.lt_trichotomy obj s.cookies.length with hOld | rfl | hLate
    · rw [List.getElem?_append_left hOld] at hObj
      apply (hInv.counted obj cookie hObj).frame
      · apply Function.update_of_ne
        intro hSame
        rw [State.fresh, Pointer.object.injEq] at hSame
        omega
      · exact Function.update_of_ne (Nat.ne_of_lt hOld) _ _
      · rfl
    · rw [List.getElem?_concat_length, Option.some.injEq] at hObj
      subst hObj
      have hNone := (hInv.unborn s.cookies.length (Nat.le_refl _)).2
      constructor <;> simp [State.publish, State.memRefInit, State.fresh, hNone]
    · rw [List.getElem?_append_right (by omega)] at hObj
      have := (List.getElem?_eq_some_iff.mp hObj).1
      simp only [List.length_singleton] at this
      omega

theorem Invariant.memRcBorrow (hInv : Invariant s) {obj : Nat} (hHeld : 0 < s.outstanding obj)
    (hRoom : s.outstanding obj + 1 < sizeModulus) : Invariant (s.memRcBorrow obj) where
  keys := hInv.keys
  last := hInv.last
  room := hInv.room
  writes := hInv.writes
  bounded := by
    intro other
    simp only [State.memRcBorrow, Function.update_apply]
    split
    · exact hRoom
    · exact hInv.bounded other
  unborn := by
    intro other hLate
    have hOther := hInv.unborn other hLate
    have hNe : other ≠ obj := by
      rintro rfl
      omega
    simpa only [State.memRcBorrow, Function.update_of_ne hNe] using hOther
  counted := by
    intro other cookie hOther
    have hCounted := hInv.counted other cookie hOther
    by_cases hSame : other = obj
    · subst hSame
      have hCallbacks := hCounted.callbacks
      rw [if_neg (by omega)] at hCallbacks
      constructor
      · simp [State.memRcBorrow, hCounted.refcount, Nat.mod_eq_of_lt hRoom]
      · simp [State.memRcBorrow, hCounted.drop]
      · simp [State.memRcBorrow, hCallbacks]
    · apply hCounted.frame
      · apply Function.update_of_ne
        simpa using hSame
      · exact Function.update_of_ne hSame _ _
      · rfl

/-- A counter that shows the outstanding references is not zero when one is dropped. -/
theorem Invariant.memRcDrop (hInv : Invariant s) {obj : Nat} (hHeld : 0 < s.outstanding obj)
    (hDrop : s.memRcDrop debug obj = some s') : Invariant s' := by
  obtain ⟨cookie, hCookie⟩ := hInv.exists_of_outstanding hHeld
  have hCounted := hInv.counted obj cookie hCookie
  have hBounded := hInv.bounded obj
  have hCallbacks := hCounted.callbacks
  rw [if_neg (by omega)] at hCallbacks
  have hCount : (s.outstanding obj + (sizeModulus - 1)) % sizeModulus = s.outstanding obj - 1 := by
    have hWrap : s.outstanding obj + (sizeModulus - 1) = s.outstanding obj - 1 + sizeModulus := by
      omega
    rw [hWrap, Nat.add_mod_right, Nat.mod_eq_of_lt (by omega)]
  simp only [State.memRcDrop, hCounted.refcount, hCount, hCounted.drop, hCallbacks] at hDrop
  rw [if_neg (by simp; omega), Option.some.injEq] at hDrop
  subst hDrop
  constructor
  case keys => exact hInv.keys
  case last => exact hInv.last
  case room => exact hInv.room
  case writes => exact hInv.writes
  case bounded =>
    intro other
    simp only [Function.update_apply]
    split
    · omega
    · exact hInv.bounded other
  case unborn =>
    intro other hLate
    have hOther := hInv.unborn other hLate
    have hNe : other ≠ obj := by
      rintro rfl
      omega
    simp only [Function.update_of_ne hNe]
    refine ⟨hOther.1, ?_⟩
    split
    · rw [Function.update_of_ne hNe, hOther.2]
    · exact hOther.2
  case counted =>
    intro other cookie' hOther
    by_cases hSame : other = obj
    · subst hSame
      obtain rfl : cookie = cookie' := Option.some.inj (hCookie.symm.trans hOther)
      constructor
      · simp
      · simp
      · simp only [Function.update_self]
        by_cases hLast : s.outstanding other = 1
        · simp [hLast]
        · rw [if_neg hLast, if_neg (by omega), hCallbacks]
    · apply (hInv.counted other cookie' hOther).frame
      · apply Function.update_of_ne
        simpa using hSame
      · exact Function.update_of_ne hSame _ _
      · simp only
        split
        · exact Function.update_of_ne hSame _ _
        · rfl

theorem Invariant.next (hInv : Invariant s) (hCareful : Careful s op)
    (hNext : next debug s op = some s') : Invariant s' := by
  cases op with
  | createGroup memory junk =>
      obtain rfl : memory = false := hCareful
      obtain rfl : s = s' := Option.some.inj hNext
      exact hInv
  | createEntry memory keys junk =>
      rw [CookieLife.next, Option.some.injEq] at hNext
      subst hNext
      simp only [State.userEntryCookieCreate]
      split
      · split
        · apply (hInv.memHeapAlloc junk).publish
          apply hCareful
          simp [*]
        · exact hInv.memHeapAlloc junk
      · exact hInv
  | borrow obj =>
      simp only [CookieLife.next, Option.ite_none_right_eq_some, Option.some.injEq] at hNext
      obtain ⟨hHeld, rfl⟩ := hNext
      exact hInv.memRcBorrow hHeld hCareful
  | drop obj =>
      simp only [CookieLife.next, Option.ite_none_right_eq_some] at hNext
      exact hInv.memRcDrop hNext.1 hNext.2

/-- A step that is not careful breaks the contract at once. -/
theorem Invariant.careful_of_law (hInv : Invariant s) (hNext : CookieLife.next debug s op = some s')
    (hLaw : CookieLaw s') : Careful s op := by
  cases op with
  | createGroup memory junk =>
      rw [CookieLife.next, Option.some.injEq] at hNext
      subst hNext
      cases memory with
      | false => rfl
      | true =>
          have hWrite := hLaw.writes (s.fresh, .integer s.userCookieLast)
            (by simp [State.userGroupCookieCreate, State.publish, State.memRefInit])
          cases hWrite
  | createEntry memory keys junk =>
      intro hMemory
      rw [Bool.and_eq_true] at hMemory
      rw [CookieLife.next, Option.some.injEq] at hNext
      subst hNext
      have hKey := hLaw.reserved ⟨s.userCookieLast, .userEntryCookieDestroy⟩ (by
        simp [State.userEntryCookieCreate, State.publish, State.memRefInit, State.memHeapAlloc,
          hMemory])
      have hRoom := hInv.room
      rcases Nat.lt_or_eq_of_le hRoom with hLt | hEnd
      · exact hLt
      · rw [hInv.last, hEnd, Nat.mod_self] at hKey
        cases hKey
  | borrow obj =>
      simp only [CookieLife.next, Option.ite_none_right_eq_some, Option.some.injEq] at hNext
      obtain ⟨hHeld, rfl⟩ := hNext
      obtain ⟨cookie, hCookie⟩ := hInv.exists_of_outstanding hHeld
      have hBefore := (hInv.counted obj cookie hCookie).refcount
      have hAfter := (hLaw.counted obj cookie hCookie).refcount
      simp only [State.memRcBorrow, Function.update_self, hBefore] at hAfter
      have hMod := Nat.mod_lt (s.outstanding obj + 1) (y := sizeModulus) (by decide)
      rw [hAfter] at hMod
      exact hMod
  | drop obj => trivial

end Steps

/-- Along every run of careful steps the contract of cookies holds, and it goes on to
hold after a further step exactly if this step is careful. -/
theorem cookie_law_while_careful (debug : Bool) {trace : List Op} {s : State}
    (run : ((system debug).restrict Careful).Execution trace s) :
    CookieLaw s ∧ ∀ op s', (system debug).step s op s' → (CookieLaw s' ↔ Careful s op) := by
  have hInv : Invariant s := by
    apply run.stateInvariant
    · rintro s rfl
      exact start_invariant
    · intro s op s' hInv hStep
      exact hInv.next hStep.1 hStep.2
  refine ⟨hInv.law, fun op s' hStep => ⟨hInv.careful_of_law hStep, fun hCareful => ?_⟩⟩
  exact (hInv.next hCareful hStep).law

/-- Make careful steps one after the other. -/
def nextCareful (debug : Bool) (s : State) (op : Op) : Option State :=
  if Careful s op then next debug s op else none

theorem execution_of_careful (debug : Bool) (ops : List Op) {s : State}
    (h : ops.foldlM (nextCareful debug) start = some s) :
    ((system debug).restrict Careful).Execution ops s := by
  have hNext : ∀ s op s', nextCareful debug s op = some s' →
      ((system debug).restrict Careful).step s op s' := by
    intro s op s' hStep
    simpa [System.restrict, system, nextCareful] using hStep
  exact System.Execution.append_foldlM hNext (.start rfl) h

/-- Two entry cookies, a second reference to the first, and both of its references
dropped. -/
theorem cookie_law_while_careful_entries :
    ∃ s, ((system true).restrict Careful).Execution
      [.createEntry true true ⟨0, none⟩, .createEntry true true ⟨7, none⟩, .borrow 0, .drop 0,
        .drop 0] s ∧ s.callbacks 0 = [.userEntryCookieDestroy] ∧ CookieLaw s := by
  have hRun := execution_of_careful true [.createEntry true true ⟨0, none⟩,
    .createEntry true true ⟨7, none⟩, .borrow 0, .drop 0, .drop 0] rfl
  exact ⟨_, hRun, rfl, (cookie_law_while_careful true hRun).1⟩

/-- A group cookie is created in memory that holds zeros: the header goes to address 2,
the object has a counter of zero, and dropping the only reference runs no callback. -/
theorem group_cookie_breaks_law :
    ∃ s, (system false).Execution [.createGroup true ⟨0, none⟩, .drop 0] s ∧
      s.writes = [(.object 0, .integer 2)] ∧ s.outstanding 0 = 0 ∧ s.callbacks 0 = [] ∧
      ¬CookieLaw s := by
  have hCreated : (system false).Execution [.createGroup true ⟨0, none⟩] _ :=
    .step (.start rfl) rfl
  have hDropped : (system false).Execution [.createGroup true ⟨0, none⟩, .drop 0] _ :=
    .step hCreated rfl
  refine ⟨_, hDropped, rfl, rfl, rfl, fun hLaw => ?_⟩
  have hWrite := hLaw.writes (.object 0, .integer 2) (List.mem_singleton.mpr rfl)
  cases hWrite

end Ricerca.CookieLife
