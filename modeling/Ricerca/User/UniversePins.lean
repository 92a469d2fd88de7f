import Ricerca.User.UniverseHandles
import Ricerca.User.UniverseRepresentation

/-! Pins of references. A stored reference carries the key of those who may use it.
Whether an entry has that key is a matter of the calls made so far: which groups it
was added to and not removed from since. -/
namespace Ricerca.Universe

open Ricerca.Foundation Ricerca.Cookie

/-- Group memberships, as the calls made so far determine them. -/
structure Memberships where
  keyOf : Nat → Option Nat
  belongs : Nat → Nat → Prop
  nextKey : Nat

namespace Memberships

def none : Memberships := ⟨fun _ => .none, fun _ _ => False, userCookieLast.val⟩

def step (ms : Memberships) : Op × Outcome → Memberships
  | (.createEntryCookie, .created _) => { ms with nextKey := ms.nextKey + 1 }
  | (.createGroupCookie _, .created group) =>
      { ms with
        keyOf := Function.update ms.keyOf group (some ms.nextKey)
        nextKey := ms.nextKey + 1 }
  | (.addToGrp entry group _, .done) =>
      { ms with belongs := fun e g => e = entry ∧ g = group ∨ ms.belongs e g }
  | (.removeFromGrp entry group, .done) =>
      { ms with belongs := fun e g => ms.belongs e g ∧ ¬(e = entry ∧ g = group) }
  | _ => ms

/-- The memberships after a sequence of calls. -/
def after (trace : List (Op × Outcome)) : Memberships := trace.foldl step none

/-- The entry belongs to the group whose key this is. -/
def holdsKey (ms : Memberships) (entry key : Nat) : Prop :=
  ∃ group, ms.belongs entry group ∧ ms.keyOf group = some key

end Memberships

/-- The slots of every entry cookie hold the keys of the groups that the entry
belongs to. -/
structure Grouped (s : State) (ms : Memberships) : Prop where
  nextKey_eq : ms.nextKey = s.cookieLast.val
  groups : ∀ group g, s.groups group = some g → ms.keyOf group = some g.key.val
  issued : ∀ group key, ms.keyOf group = some key → key < ms.nextKey ∧ group < s.objectsCount
  keys_ne : ∀ group group' key, ms.keyOf group = some key → ms.keyOf group' = some key → group = group'
  keys_issued : ∀ group key, ms.keyOf group = some key → key ≠ userCookieKeyOnlyKernel
  known : ∀ entry group, ms.belongs entry group → entry < s.objectsCount ∧ group < s.objectsCount
  below : ∀ entry e, s.entries entry = some e → entry < s.objectsCount
  distinct : ∀ entry e, s.entries entry = some e → DistinctKeys e.grpKeys
  slots : ∀ entry e, s.entries entry = some e →
    ∀ key ≠ 0, key ∈ e.grpKeys ↔ ms.holdsKey entry key

section Grouped

variable {s s' : State} {ms : Memberships} {op : Op} {outcome : Outcome}

/-- Calls that create objects or destroy cookies do not change memberships. -/
theorem Grouped.mono (h : Grouped s ms) (hLast : s'.cookieLast = s.cookieLast)
    (hObjects : s.objectsCount ≤ s'.objectsCount)
    (hEntries : ∀ entry e, s'.entries entry = some e → s.entries entry = some e)
    (hGroups : ∀ group g, s'.groups group = some g → s.groups group = some g) : Grouped s' ms where
  nextKey_eq := h.nextKey_eq.trans (congrArg IssuedKey.val hLast.symm)
  groups group g hg := h.groups group g (hGroups group g hg)
  issued group key hKey :=
    ⟨(h.issued group key hKey).1, Nat.lt_of_lt_of_le (h.issued group key hKey).2 hObjects⟩
  keys_ne := h.keys_ne
  keys_issued := h.keys_issued
  known entry group hIn :=
    ⟨Nat.lt_of_lt_of_le (h.known entry group hIn).1 hObjects,
      Nat.lt_of_lt_of_le (h.known entry group hIn).2 hObjects⟩
  below entry e he := Nat.lt_of_lt_of_le (h.below entry e (hEntries entry e he)) hObjects
  distinct entry e he := h.distinct entry e (hEntries entry e he)
  slots entry e he := h.slots entry e (hEntries entry e he)

theorem Grouped.memRefDrop (h : Grouped s ms) (obj : Nat) : Grouped (s.memRefDrop obj) ms := by
  obtain ⟨hEntries, hGroups, hLast⟩ := memRefDrop_cookies s obj
  exact h.mono hLast (Nat.le_of_eq (memRefDrop_bound s obj).symm) hEntries hGroups

theorem Memberships.step_failed (ms : Memberships) (op : Op) (status : Status) :
    ms.step (op, .failed status) = ms := by
  cases op <;> rfl

/-- A new entry belongs to no group. -/
theorem Grouped.createEntryCookie (h : Grouped s ms) :
    Grouped
      { s.newObject with
        entries := Function.update s.entries s.objectsCount (some ⟨s.cookieLast, []⟩)
        cookieLast := s.cookieLast.next }
      { ms with nextKey := ms.nextKey + 1 } := by
  refine ⟨congrArg (· + 1) h.nextKey_eq, h.groups, ?_, h.keys_ne, h.keys_issued, ?_, ?_, ?_, ?_⟩
  · intro group key hKey
    obtain ⟨hLt, hBelow⟩ := h.issued group key hKey
    exact ⟨Nat.lt_succ_of_lt hLt, Nat.lt_succ_of_lt hBelow⟩
  · intro entry group hIn
    obtain ⟨hEntry, hGroup⟩ := h.known entry group hIn
    exact ⟨Nat.lt_succ_of_lt hEntry, Nat.lt_succ_of_lt hGroup⟩
  · intro entry e he
    by_cases hEq : entry = s.objectsCount
    · subst hEq
      exact Nat.lt_succ_self _
    · exact Nat.lt_succ_of_lt (h.below entry e (by simpa [Function.update_of_ne hEq] using he))
  · intro entry e he
    by_cases hEq : entry = s.objectsCount
    · subst hEq
      simp only [Function.update_self, Option.some.injEq] at he
      subst he
      exact List.nodup_nil
    · exact h.distinct entry e (by simpa [Function.update_of_ne hEq] using he)
  · intro entry e he key hKey
    by_cases hEq : entry = s.objectsCount
    · subst hEq
      simp only [Function.update_self, Option.some.injEq] at he
      subst he
      simp only [List.not_mem_nil, false_iff]
      rintro ⟨group, hIn, -⟩
      exact absurd (h.known _ _ hIn).1 (Nat.lt_irrefl _)
    · exact h.slots entry e (by simpa [Function.update_of_ne hEq] using he) key hKey

/-- A new group has a key that no other group has, and no members. -/
theorem Grouped.createGroupCookie (h : Grouped s ms) (refcount : Nat) :
    Grouped
      { s.newObject with
        refcount := Function.update s.refcount s.objectsCount refcount
        groups := Function.update s.groups s.objectsCount (some ⟨s.cookieLast⟩)
        cookieLast := s.cookieLast.next }
      { ms with
        keyOf := Function.update ms.keyOf s.objectsCount (some ms.nextKey)
        nextKey := ms.nextKey + 1 } := by
  have hOther : ∀ {group key}, Function.update ms.keyOf s.objectsCount (some ms.nextKey) group =
      some key → group = s.objectsCount ∧ key = ms.nextKey ∨
        group ≠ s.objectsCount ∧ ms.keyOf group = some key := by
    intro group key hKey
    by_cases hEq : group = s.objectsCount
    · subst hEq
      rw [Function.update_self, Option.some.injEq] at hKey
      exact Or.inl ⟨rfl, hKey.symm⟩
    · rw [Function.update_of_ne hEq] at hKey
      exact Or.inr ⟨hEq, hKey⟩
  refine ⟨congrArg (· + 1) h.nextKey_eq, ?_, ?_, ?_, ?_, ?_, ?_, h.distinct, ?_⟩
  · intro group g hg
    by_cases hEq : group = s.objectsCount
    · subst hEq
      simp only [Function.update_self, Option.some.injEq] at hg ⊢
      rw [← hg, h.nextKey_eq]
    · simp only [Function.update_of_ne hEq] at hg ⊢
      exact h.groups group g hg
  · intro group key hKey
    show key < ms.nextKey + 1 ∧ group < s.objectsCount + 1
    rcases hOther hKey with ⟨rfl, rfl⟩ | ⟨-, hOld⟩
    · omega
    · have := h.issued group key hOld
      omega
  · intro group group' key hKey hKey'
    rcases hOther hKey with ⟨rfl, rfl⟩ | ⟨hNe, hOld⟩ <;>
      rcases hOther hKey' with ⟨rfl, hNew⟩ | ⟨hNe', hOld'⟩
    · rfl
    · exact absurd (h.issued _ _ hOld').1 (Nat.lt_irrefl _)
    · exact absurd (h.issued _ _ hOld).1 (hNew ▸ Nat.lt_irrefl _)
    · exact h.keys_ne group group' key hOld hOld'
  · intro group key hKey
    rcases hOther hKey with ⟨rfl, rfl⟩ | ⟨-, hOld⟩
    · exact h.nextKey_eq ▸ s.cookieLast.ne_onlyKernel
    · exact h.keys_issued group key hOld
  · intro entry group hIn
    obtain ⟨hEntry, hGroup⟩ := h.known entry group hIn
    exact ⟨Nat.lt_succ_of_lt hEntry, Nat.lt_succ_of_lt hGroup⟩
  · exact fun entry e he => Nat.lt_succ_of_lt (h.below entry e he)
  · intro entry e he key hKey
    rw [h.slots entry e he key hKey]
    apply exists_congr
    intro group
    apply and_congr_right
    intro hIn
    show _ ↔ Function.update ms.keyOf s.objectsCount _ group = some key
    rw [Function.update_of_ne (Nat.ne_of_lt (h.known entry group hIn).2)]

/-- A call on the slots of one entry that changes its memberships alike. -/
theorem Grouped.setEntry {entry : Nat} {e e' : UserEntryCookie} {belongs : Nat → Nat → Prop}
    (h : Grouped s ms) (hEntry : s.entries entry = some e) (hDistinct : DistinctKeys e'.grpKeys)
    (hKnown : ∀ other group, belongs other group → ms.belongs other group ∨
      other < s.objectsCount ∧ group < s.objectsCount)
    (hSame : ∀ other group, other ≠ entry → (belongs other group ↔ ms.belongs other group))
    (hSlots : ∀ key ≠ 0, key ∈ e'.grpKeys ↔ ∃ group, belongs entry group ∧ ms.keyOf group = some key) :
    Grouped { s with entries := Function.update s.entries entry (some e') }
      { ms with belongs := belongs } := by
  refine ⟨h.nextKey_eq, h.groups, h.issued, h.keys_ne, h.keys_issued, ?_, ?_, ?_, ?_⟩
  · intro other group hIn
    exact (hKnown other group hIn).elim (h.known other group) id
  · intro other f hf
    by_cases hEq : other = entry
    · exact hEq ▸ h.below entry e hEntry
    · exact h.below other f (by simpa [Function.update_of_ne hEq] using hf)
  · intro other f hf
    by_cases hEq : other = entry
    · subst hEq
      simp only [Function.update_self, Option.some.injEq] at hf
      exact hf ▸ hDistinct
    · exact h.distinct other f (by simpa [Function.update_of_ne hEq] using hf)
  · intro other f hf key hKey
    by_cases hEq : other = entry
    · subst hEq
      simp only [Function.update_self, Option.some.injEq] at hf
      exact hf ▸ hSlots key hKey
    · rw [h.slots other f (by simpa [Function.update_of_ne hEq] using hf) key hKey]
      apply exists_congr
      intro group
      show _ ↔ belongs other group ∧ _
      rw [hSame other group hEq]

theorem grouped_transition (hGrouped : Grouped s ms)
    (h : Transition s op outcome s') : Grouped s' (ms.step (op, outcome)) := by
  have hSame : ∀ {s' : State}, s'.cookieLast = s.cookieLast → s.objectsCount ≤ s'.objectsCount →
      s'.entries = s.entries → s'.groups = s.groups → Grouped s' ms := fun hLast hObjects hEntries
      hGroups => hGrouped.mono hLast hObjects (by simp [hEntries]) (by simp [hGroups])
  cases h with
  | failed status =>
      rw [ms.step_failed]
      exact hGrouped
  | createUniverse junk hUnused => exact hSame rfl (Nat.le_succ _) rfl rfl
  | createEntryCookie => exact hGrouped.createEntryCookie
  | createGroupCookie refcount => exact hGrouped.createGroupCookie refcount
  | createObject => exact hSame rfl (Nat.le_succ _) rfl rfl
  | @addToGrp entry group memory e g hEntry hGroup =>
      by_cases hStatus : (userEntryCookieAddToGrp e g memory).1 = .success
      · obtain ⟨hDistinct, hSlots⟩ := addToGrp_spec (hGrouped.distinct entry e hEntry) hStatus
        have hKey := hGrouped.groups group g hGroup
        rw [if_pos hStatus]
        refine hGrouped.setEntry hEntry hDistinct ?_ ?_ ?_
        · rintro other group' (⟨rfl, rfl⟩ | hIn)
          · exact Or.inr ⟨hGrouped.below _ _ hEntry, (hGrouped.issued _ _ hKey).2⟩
          · exact Or.inl hIn
        · intro other group' hNe
          simp [hNe]
        · intro key hNonzero
          rw [hSlots key hNonzero, hGrouped.slots entry e hEntry key hNonzero]
          constructor
          · rintro (rfl | ⟨group', hIn, hKey'⟩)
            · exact ⟨group, Or.inl ⟨rfl, rfl⟩, hKey⟩
            · exact ⟨group', Or.inr hIn, hKey'⟩
          · rintro ⟨group', ⟨-, rfl⟩ | hIn, hKey'⟩
            · exact Or.inl (Option.some.inj (hKey'.symm.trans hKey))
            · exact Or.inr ⟨group', hIn, hKey'⟩
      · rw [if_neg hStatus, ms.step_failed, addToGrp_failed hStatus, ← hEntry, Function.update_eq_self]
        exact hGrouped
  | @removeFromGrp entry group e g hEntry hGroup =>
      obtain ⟨hDistinct, hSlots⟩ := removeFromGrp_spec (hGrouped.distinct entry e hEntry)
      have hKey := hGrouped.groups group g hGroup
      refine hGrouped.setEntry hEntry hDistinct ?_ ?_ ?_
      · exact fun other group' hIn => Or.inl hIn.1
      · intro other group' hNe
        simp [hNe]
      · intro key hNonzero
        rw [hSlots key hNonzero, hGrouped.slots entry e hEntry key hNonzero]
        constructor
        · rintro ⟨hNe, group', hIn, hKey'⟩
          refine ⟨group', ⟨hIn, ?_⟩, hKey'⟩
          rintro ⟨-, rfl⟩
          exact hNe (Option.some.inj (hKey'.symm.trans hKey))
        · rintro ⟨group', ⟨hIn, hOther⟩, hKey'⟩
          refine ⟨?_, group', hIn, hKey'⟩
          rintro rfl
          exact hOther ⟨rfl, hGrouped.keys_ne group' group _ hKey' hKey⟩
  | borrowRef hHeld => exact hSame rfl (Nat.le_refl _) rfl rfl
  | dropRef hHeld =>
      refine Grouped.memRefDrop ?_ _
      exact hSame rfl (Nat.le_refl _) rfl rfl
  | moveIn hUni hOwns hValid hOk => exact hSame rfl (Nat.le_refl _) rfl rfl
  | moveInPair hUni hFirst hSecond hTypes hValid hValid' hOk hOk' =>
      exact hSame rfl (Nat.le_refl _) rfl rfl
  | pairUndone status hUni hTypes hValid hOk =>
      rw [ms.step_failed]
      exact hSame rfl (Nat.le_refl _) rfl rfl
  | dropCell hUni hEntry hCheck hAuth =>
      refine Grouped.memRefDrop ?_ _
      exact hSame rfl (Nat.le_refl _) rfl rfl
  | borrowOut hUni hCheck => exact hSame rfl (Nat.le_refl _) rfl rfl
  | moveOut hUni hCheck => exact hSame rfl (Nat.le_refl _) rfl rfl
  | moveAcross hUni hDst hEntry hNe hValid hCheck hAuth hOk =>
      exact hSame rfl (Nat.le_refl _) rfl rfl
  | borrowAcross hUni hDst hEntry hNe hValid hCheck hAuth hOk =>
      exact hSame rfl (Nat.le_refl _) rfl rfl
  | borrowUndone status hUni hCheck =>
      rw [ms.step_failed]
      refine Grouped.memRefDrop ?_ _
      exact hSame rfl (Nat.le_refl _) rfl rfl
  | setPin hCall hUni hCheck hKey =>
      have hStep : ms.step (op, .done) = ms := by
        cases op <;> first | rfl | cases hCall
      rw [hStep]
      exact hSame rfl (Nat.le_refl _) rfl rfl
  | fork junk hUni hEntry hUnused => exact hSame rfl (Nat.le_succ _) rfl rfl

end Grouped

/-- The key is the universal one, the entry's own, or that of a group it belongs to
at this point of the run. -/
def Authenticates (trace : List (Op × Outcome)) (s : State) (entry key : Nat) : Prop :=
  ∃ e, s.entries entry = some e ∧
    (key = userCookieKeyUniversal ∨ key = e.key.val ∨ (Memberships.after trace).holdsKey entry key)

/-- The keys that a call presents: those of its entry cookie and, for two of the pin
calls, the one of its group cookie. -/
def Presents (trace : List (Op × Outcome)) (s : State) (op : Op) (key : Nat) : Prop :=
  match op with
  | .dropCell _ _ entry | .moveAcross _ _ _ entry _ | .borrowAcross _ _ _ entry _ | .unpin _ _ entry
  | .pin _ _ entry | .fork _ entry _ _ => Authenticates trace s entry key
  | .unpinFromGroup _ _ entry group | .pinToGroup _ _ entry group =>
      Authenticates trace s entry key ∨ ∃ g, s.groups group = some g ∧ g.key.val = key
  | _ => False

/-- How a reference can come into a cell. -/
inductive Provenance (trace : List (Op × Outcome)) (s : State) (op : Op) (outcome : Outcome)
    (u cell : Nat) (ref : UserRef) : Prop where
  | movedIn {heap : HeapAnswer} (hOp : op = .moveIn u ref heap)
  | movedInPair {first second : UserRef} {heap heap' : HeapAnswer}
      (hOp : op = .moveInPair u first second heap heap') (hRef : ref = first ∨ ref = second)
  | copied {src handle entry : Nat} {heap : HeapAnswer} {uni : UserUniverse}
      (hOp : op = .moveAcross src u handle entry heap ∨ op = .borrowAcross src u handle entry heap)
      (hUni : s.universes src = some uni) (hSource : s.refs (uni.cell handle) = ref)
      (hKey : Presents trace s op ref.pinCookie)
  | forked {src entry : Nat} {array : Option Nat} {junk : Memory} (hOp : op = .fork src entry array junk)
      (hNew : outcome = .created u) (hSource : view s.toStore src cell = some ref)
      (hKey : Presents trace s op ref.pinCookie)
  | repinned {old : UserRef} (hHandle : op.handle = some (u, cell))
      (hOld : view s.toStore u cell = some old) (hSame : old.ref = ref.ref ∧ old.type = ref.type)
      (hKey : Presents trace s op old.pinCookie)

/-- The call stored the reference in this cell. A fork fills the cells of the new universe. -/
inductive Stores (s : State) : Op → Outcome → Nat → Nat → UserRef → Prop where
  | moveIn {u cell : Nat} {ref : UserRef} {heap : HeapAnswer} :
      Stores s (.moveIn u ref heap) (.handle cell) u cell ref
  | first {u cell cell' : Nat} {first second : UserRef} {heap heap' : HeapAnswer} :
      Stores s (.moveInPair u first second heap heap') (.handles cell cell') u cell first
  | second {u cell cell' : Nat} {first second : UserRef} {heap heap' : HeapAnswer} :
      Stores s (.moveInPair u first second heap heap') (.handles cell cell') u cell' second
  | moveAcross {src dst handle cell entry : Nat} {heap : HeapAnswer} {ref : UserRef}
      (hSource : view s.toStore src handle = some ref) :
      Stores s (.moveAcross src dst handle entry heap) (.handle cell) dst cell ref
  | borrowAcross {src dst handle cell entry : Nat} {heap : HeapAnswer} {ref : UserRef}
      (hSource : view s.toStore src handle = some ref) :
      Stores s (.borrowAcross src dst handle entry heap) (.handle cell) dst cell ref
  | fork {src u cell entry : Nat} {array : Option Nat} {junk : Memory} {ref : UserRef}
      {e : UserEntryCookie} (hSource : view s.toStore src cell = some ref)
      (hEntry : s.entries entry = some e) (hAuth : userUnpinnedFor ref e = true) :
      Stores s (.fork src entry array junk) (.created u) u cell ref

/-- What the pins of the stored references mean for one call. -/
structure PinLaw (trace : List (Op × Outcome)) (s : State) (op : Op) (outcome : Outcome) (s' : State) :
    Prop where
  kept : ∀ u i ref, view s.toStore u i = some ref → s'.universes u ≠ none →
    view s'.toStore u i = some ref ∨ op = .moveOut u i ∨
      op.handle = some (u, i) ∧ Presents trace s op ref.pinCookie
  origin : ∀ u i ref, view s'.toStore u i = some ref →
    view s.toStore u i = some ref ∨ Provenance trace s op outcome u i ref
  stored : ∀ u i ref, Stores s op outcome u i ref → view s'.toStore u i = some ref
  copies : ∀ src dst cell entry heap cell', outcome = .handle cell' →
    op = .moveAcross src dst cell entry heap ∨ op = .borrowAcross src dst cell entry heap →
    ∃ uni dstUni, s.universes src = some uni ∧ s'.universes dst = some dstUni ∧
      s'.refs (dstUni.cell cell') = s.refs (uni.cell cell) ∧
      Presents trace s op (s.refs (uni.cell cell)).pinCookie
  kernelKey : ¬Presents trace s op userCookieKeyOnlyKernel
  kernelKept : ∀ u i ref, view s.toStore u i = some ref → ref.pinCookie = userCookieKeyOnlyKernel →
    s'.universes u ≠ none → op ≠ .moveOut u i → view s'.toStore u i = some ref

section PinLaw

variable {trace : List (Op × Outcome)} {s s' : State} {op : Op} {outcome : Outcome}

theorem Grouped.authenticates (h : Grouped s (Memberships.after trace)) {entry key : Nat}
    {e : UserEntryCookie} (hEntry : s.entries entry = some e)
    (hAuth : userEntryCookieAuth e key = true) : Authenticates trace s entry key := by
  refine ⟨e, hEntry, ?_⟩
  rcases (userEntryCookieAuth_iff e key).mp hAuth with hUniversal | hOwn | ⟨hNonzero, hMem⟩
  · exact Or.inl hUniversal
  · exact Or.inr (Or.inl hOwn)
  · exact Or.inr (Or.inr ((h.slots entry e hEntry key hNonzero).mp hMem))

/-- The pin calls compare keys one by one; each key they accept is presented. -/
theorem presents_pinCall {u cell : Nat} {keys : List Nat} {pin key : Nat}
    (hCall : pinCall s op = some (u, cell, keys, pin)) (hKey : key ∈ keys) :
    Presents trace s op key := by
  cases op <;> simp only [pinCall, Option.bind_eq_bind, Option.bind_eq_some_iff, reduceCtorEq,
    Option.some.injEq, Prod.mk.injEq] at hCall
  · obtain ⟨e, hEntry, -, -, rfl, -⟩ := hCall
    simp only [List.mem_cons, List.not_mem_nil, or_false] at hKey
    exact ⟨e, hEntry, hKey.elim (fun h => Or.inr (Or.inl h)) Or.inl⟩
  · obtain ⟨e, hEntry, -, -, rfl, -⟩ := hCall
    simp only [List.mem_cons, List.not_mem_nil, or_false] at hKey
    exact ⟨e, hEntry, hKey.elim Or.inl fun h => Or.inr (Or.inl h)⟩
  · obtain ⟨e, hEntry, g, hGroup, -, -, rfl, -⟩ := hCall
    simp only [List.mem_cons, List.not_mem_nil, or_false] at hKey
    rcases hKey with hGrp | hUniversal | hOwn
    · exact Or.inr ⟨g, hGroup, hGrp.symm⟩
    · exact Or.inl ⟨e, hEntry, Or.inl hUniversal⟩
    · exact Or.inl ⟨e, hEntry, Or.inr (Or.inl hOwn)⟩
  · obtain ⟨e, hEntry, g, hGroup, -, -, rfl, -⟩ := hCall
    simp only [List.mem_cons, List.not_mem_nil, or_false] at hKey
    rcases hKey with hUniversal | hGrp | hOwn
    · exact Or.inl ⟨e, hEntry, Or.inl hUniversal⟩
    · exact Or.inr ⟨g, hGroup, hGrp.symm⟩
    · exact Or.inl ⟨e, hEntry, Or.inr (Or.inl hOwn)⟩

/-- Nobody presents the kernel's key. -/
theorem Grouped.not_presents_onlyKernel (h : Grouped s (Memberships.after trace)) (op : Op) :
    ¬Presents trace s op userCookieKeyOnlyKernel := by
  have hEntry : ∀ entry, ¬Authenticates trace s entry userCookieKeyOnlyKernel := by
    rintro entry ⟨e, -, hUniversal | hOwn | ⟨group, -, hKey⟩⟩
    · cases hUniversal
    · exact e.key.ne_onlyKernel hOwn.symm
    · exact h.keys_issued group _ hKey rfl
  cases op with
  | unpinFromGroup u cell entry group | pinToGroup u cell entry group =>
      rintro (hAuth | ⟨g, -, hKey⟩)
      · exact hEntry entry hAuth
      · exact g.key.ne_onlyKernel hKey
  | dropCell u cell entry => exact hEntry entry
  | moveAcross src dst cell entry heap => exact hEntry entry
  | borrowAcross src dst cell entry heap => exact hEntry entry
  | unpin u cell entry => exact hEntry entry
  | pin u cell entry => exact hEntry entry
  | fork src entry array junk => exact hEntry entry
  | _ => exact id

/-- A reference that was not in the cell before comes from a call that may put it
there. -/
theorem transition_origin (hTable : Table False s.toStore s.objectsCount)
    (hGrouped : Grouped s (Memberships.after trace)) (h : Transition s op outcome s') {u i : Nat}
    {ref : UserRef} (hView : view s'.toStore u i = some ref) :
    view s.toStore u i = some ref ∨ Provenance trace s op outcome u i ref := by
  have hDropped : ∀ {t : State} {obj : Nat}, view (t.memRefDrop obj).toStore u i = some ref →
      view t.toStore u i = some ref := by
    intro t obj hSome
    obtain ⟨uni, hUni, -⟩ := view_eq_some_iff.mp hSome
    rwa [memRefDrop_view t obj (by simp [hUni])] at hSome
  cases h with
  | failed status => exact Or.inl hView
  | createUniverse junk hUnused =>
      rw [(create_table hTable junk hUnused).2] at hView
      split_ifs at hView
      exact Or.inl hView
  | createEntryCookie => exact Or.inl hView
  | createGroupCookie refcount => exact Or.inl hView
  | createObject => exact Or.inl hView
  | addToGrp hEntry hGroup => exact Or.inl hView
  | removeFromGrp hEntry hGroup => exact Or.inl hView
  | borrowRef hHeld => exact Or.inl hView
  | dropRef hHeld =>
      have hOld := hDropped hView
      exact Or.inl hOld
  | @moveIn v cell new heap uni uni' m hUni hOwns hValid hOk =>
      obtain ⟨nodes, hShape, -⟩ := hTable.shape _ _ hUni
      obtain ⟨-, hStored⟩ := moveIn_table hTable hUni hOk (answerValid_spec hTable hShape hValid hOk)
      have hNew := (hStored.view_eq u i).symm.trans hView
      split_ifs at hNew with hCell
      · cases hNew
        obtain ⟨rfl, -⟩ := hCell
        exact Or.inr (.movedIn rfl)
      · exact Or.inl hNew
  | @moveInPair v cell cell' first second heap heap' uni uni' uni'' m m' hUni hFirst hSecond hTypes
      hValid hValid' hOk hOk' =>
      obtain ⟨hStored, hStored', -⟩ := pair_table hTable hUni hValid hValid' hOk hOk'
      have hNew := (hStored'.view_eq u i).symm.trans hView
      rw [hStored.view_eq] at hNew
      split_ifs at hNew with hCell hCell'
      · cases hNew
        obtain ⟨rfl, -⟩ := hCell
        exact Or.inr (.movedInPair rfl (Or.inr rfl))
      · cases hNew
        obtain ⟨rfl, -⟩ := hCell'
        exact Or.inr (.movedInPair rfl (Or.inl rfl))
      · exact Or.inl hNew
  | pairUndone status hUni hTypes hValid hOk =>
      rw [(pairUndone_table hTable hUni hValid hOk).2.2] at hView
      exact Or.inl hView
  | dropCell hUni hEntry hCheck hAuth =>
      have hFreed := hDropped hView
      rw [(freeCell_table hTable hUni (checkRef_iff.mp hCheck).2 False.elim).2.1] at hFreed
      split_ifs at hFreed
      exact Or.inl hFreed
  | borrowOut hUni hCheck => exact Or.inl hView
  | moveOut hUni hCheck =>
      have hFreed := (freeCell_table hTable hUni (checkRef_iff.mp hCheck).2 False.elim).2.1 u i
      have hOld := hFreed.symm.trans hView
      split_ifs at hOld
      exact Or.inl hOld
  | @moveAcross src dst cell entry cell' heap uni dstUni dstUni' e m hUni hDst hEntry hNe hValid hCheck
      hAuth hOk =>
      obtain ⟨hStored, -, hMoved⟩ :=
        moveAcross_table hTable hUni hDst hNe hValid hCheck False.elim hOk
      rw [hMoved] at hView
      split_ifs at hView with hCell hNew
      · cases hView
        obtain ⟨rfl, -⟩ := hNew
        exact Or.inr (.copied (Or.inl rfl) hUni rfl (hGrouped.authenticates hEntry hAuth))
      · exact Or.inl hView
  | @borrowAcross src dst cell entry cell' heap uni dstUni dstUni' e m hUni hDst hEntry hNe hValid
      hCheck hAuth hOk =>
      obtain ⟨nodes, hShape, -⟩ := hTable.shape _ _ hDst
      obtain ⟨-, hStored⟩ := moveIn_table hTable hDst hOk (answerValid_spec hTable hShape hValid hOk)
      have hCopy := (hStored.view_eq u i).symm.trans hView
      split_ifs at hCopy with hNew
      · cases hCopy
        obtain ⟨rfl, -⟩ := hNew
        exact Or.inr (.copied (Or.inr rfl) hUni rfl (hGrouped.authenticates hEntry hAuth))
      · exact Or.inl hCopy
  | borrowUndone status hUni hCheck =>
      have hOld := hDropped hView
      exact Or.inl hOld
  | @setPin op v cell uni keys pin hCall hUni hCheck hKey =>
      rw [(setPin_table hTable hUni cell _).2] at hView
      split_ifs at hView with hCell
      · obtain ⟨rfl, rfl⟩ := hCell
        rw [Option.map_eq_some_iff] at hView
        obtain ⟨old, hOld, rfl⟩ := hView
        have hRef : s.refs (uni.cell i) = old := by
          rw [view_of_live hUni] at hOld
          exact (lookup_eq_some_iff.mp hOld).2.2
        rw [hRef] at hKey ⊢
        exact Or.inr (.repinned (pinCall_handle hCall) hOld ⟨rfl, rfl⟩ (presents_pinCall hCall hKey))
      · exact Or.inl hView
  | @fork src entry array uni e junk hUni hEntry hUnused =>
      rw [(fork_table hTable hUni e junk hUnused).2.1] at hView
      split_ifs at hView with hNew
      · rw [Option.filter_eq_some_iff] at hView
        exact Or.inr (.forked rfl (hNew ▸ rfl) hView.1 (hGrouped.authenticates hEntry hView.2))
      · exact Or.inl hView

/-- A reference is in the cell where a call stored it. -/
theorem transition_stored (hTable : Table True s.toStore s.objectsCount)
    (hRange : HandleInRange s op) (h : Transition s op outcome s') {u i : Nat} {ref : UserRef}
    (hStores : Stores s op outcome u i ref) : view s'.toStore u i = some ref := by
  cases hStores with
  | moveIn =>
      cases h with
      | moveIn hUni hOwns hValid hOk =>
          obtain ⟨nodes, hShape, -⟩ := hTable.shape _ _ hUni
          obtain ⟨-, hStored⟩ :=
            moveIn_table hTable hUni hOk (answerValid_spec hTable hShape hValid hOk)
          exact hStored.view_self
  | first =>
      cases h with
      | moveInPair hUni hFirst hSecond hTypes hValid hValid' hOk hOk' =>
          obtain ⟨hStored, hStored', -⟩ := pair_table hTable hUni hValid hValid' hOk hOk'
          refine (hStored'.view_eq u i).trans ?_
          split_ifs with hSame
          · -- the second reference went to a cell that was still empty
            have hFresh := hStored'.fresh
            rw [← hSame.2.1, hStored.view_self] at hFresh
            cases hFresh
          · exact hStored.view_self
  | second =>
      cases h with
      | moveInPair hUni hFirst hSecond hTypes hValid hValid' hOk hOk' =>
          obtain ⟨-, hStored', -⟩ := pair_table hTable hUni hValid hValid' hOk hOk'
          exact hStored'.view_self
  | moveAcross hSource =>
      cases h with
      | @moveAcross src dst cell entry cell' heap uni dstUni dstUni' e m hUni hDst hEntry hNe hValid
          hCheck hAuth hOk =>
          obtain ⟨hLt, hStoredAt⟩ := checkRef_inside hRange rfl hUni hCheck
          obtain ⟨hStored, -, hMoved⟩ :=
            moveAcross_table hTable hUni hDst hNe hValid hCheck (fun _ => hLt) hOk
          cases hSource.symm.trans hStoredAt
          rw [hMoved, if_neg fun hCell => hNe hCell.1.symm,
            if_pos ⟨rfl, rfl, hStored.inside trivial⟩]
  | borrowAcross hSource =>
      cases h with
      | borrowAcross hUni hDst hEntry hNe hValid hCheck hAuth hOk =>
          obtain ⟨nodes, hShape, -⟩ := hTable.shape _ _ hDst
          obtain ⟨-, hStored⟩ :=
            moveIn_table hTable hDst hOk (answerValid_spec hTable hShape hValid hOk)
          obtain ⟨-, hStoredAt⟩ := checkRef_inside hRange rfl hUni hCheck
          cases hSource.symm.trans hStoredAt
          exact hStored.view_self
  | fork hSource hEntry hAuth =>
      cases h with
      | fork junk hUni hEntry' hUnused =>
          cases hEntry.symm.trans hEntry'
          rw [(fork_table hTable hUni _ _ hUnused).2.1, if_pos rfl, hSource]
          simp [Option.filter, hAuth]

/-- A copy holds what its source holds, pin included. -/
theorem transition_copies (hTable : Table False s.toStore s.objectsCount)
    (hGrouped : Grouped s (Memberships.after trace)) (h : Transition s op outcome s')
    {src dst cell entry cell' : Nat} {heap : HeapAnswer} (hHandle : outcome = .handle cell')
    (hOp : op = .moveAcross src dst cell entry heap ∨ op = .borrowAcross src dst cell entry heap) :
    ∃ uni dstUni, s.universes src = some uni ∧ s'.universes dst = some dstUni ∧
      s'.refs (dstUni.cell cell') = s.refs (uni.cell cell) ∧
      Presents trace s op (s.refs (uni.cell cell)).pinCookie := by
  cases h with
  | @moveAcross _ _ _ _ _ _ uni dstUni dstUni' e m hUni hDst hEntry hNe hValid hCheck hAuth hOk =>
      cases hHandle
      rcases hOp with hOp | hOp <;> cases hOp
      obtain ⟨hStored, -⟩ := moveAcross_table hTable hUni hDst hNe hValid hCheck False.elim hOk
      refine ⟨uni, dstUni', hUni, ?_, hStored.holds, hGrouped.authenticates hEntry hAuth⟩
      rw [freeCell_eq, put_of_ne (Ne.symm hNe), put_self]
  | @borrowAcross _ _ _ _ _ _ uni dstUni dstUni' e m hUni hDst hEntry hNe hValid hCheck hAuth hOk =>
      cases hHandle
      rcases hOp with hOp | hOp <;> cases hOp
      obtain ⟨nodes, hShape, -⟩ := hTable.shape _ _ hDst
      obtain ⟨-, hStored⟩ := moveIn_table hTable hDst hOk (answerValid_spec hTable hShape hValid hOk)
      exact ⟨uni, dstUni', hUni, put_self .., hStored.holds, hGrouped.authenticates hEntry hAuth⟩
  | addToGrp hEntry hGroup => rcases hOp with hOp | hOp <;> cases hOp
  | _ => cases hHandle <;> rcases hOp with hOp | hOp <;> cases hOp

theorem pinLaw (hInside : Table True s.toStore s.objectsCount) (hRange : HandleInRange s op)
    (hGrouped : Grouped s (Memberships.after trace)) (h : Transition s op outcome s') :
    PinLaw trace s op outcome s' := by
  have hTable : Table False s.toStore s.objectsCount := hInside.weaken
  have hKept : ∀ u i ref, view s.toStore u i = some ref → s'.universes u ≠ none →
      view s'.toStore u i = some ref ∨ op = .moveOut u i ∨
        op.handle = some (u, i) ∧ Presents trace s op ref.pinCookie := by
    intro u i ref hView hLive
    rcases transition_kept hTable h hView hLive with hSame | hRemoved | ⟨pin, ⟨keys, hCall, hKey⟩, -⟩
    · exact Or.inl hSame
    · rcases hRemoved with rfl | ⟨entry, e, hEntry, hAuth, rfl | ⟨dst, heap, rfl⟩⟩
      · exact Or.inr (Or.inl rfl)
      · exact Or.inr (Or.inr ⟨rfl, hGrouped.authenticates hEntry hAuth⟩)
      · exact Or.inr (Or.inr ⟨rfl, hGrouped.authenticates hEntry hAuth⟩)
    · exact Or.inr (Or.inr ⟨pinCall_handle hCall, presents_pinCall hCall hKey⟩)
  refine ⟨hKept, fun u i ref hView => transition_origin hTable hGrouped h hView,
    fun u i ref hStores => transition_stored hInside hRange h hStores,
    fun src dst cell entry heap cell' hHandle hOp => transition_copies hTable hGrouped h hHandle hOp,
    hGrouped.not_presents_onlyKernel op, ?_⟩
  intro u i ref hView hPin hLive hNot
  rcases hKept u i ref hView hLive with hSame | hOut | ⟨-, hKey⟩
  · exact hSame
  · exact (hNot hOut).elim
  · exact (hGrouped.not_presents_onlyKernel op (hPin ▸ hKey)).elim

end PinLaw

end Ricerca.Universe
