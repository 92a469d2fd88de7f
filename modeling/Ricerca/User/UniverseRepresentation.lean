import Ricerca.User.UniverseTable

/-! The universes refine plain maps from handles to references. The abstract model
replays the calls and their results on such maps; the cells, the arrays they stand
in and the free lists are invisible there. -/
namespace Ricerca.Universe

open Ricerca.Foundation Ricerca.Cookie

/-- The abstract model: what each handle denotes, and who belongs to which group. -/
structure Spec where
  refs : Nat → Nat → Option UserRef
  entries : Nat → Option UserEntryCookie
  groups : Nat → Option UserGroupCookie
  cookieLast : IssuedKey

namespace Spec

def initial : Spec := ⟨fun _ _ => none, fun _ => none, fun _ => none, userCookieLast⟩

/-- Let a handle denote a reference, or nothing. -/
def set (a : Spec) (u cell : Nat) (ref : Option UserRef) : Spec :=
  { a with refs := fun v i => if v = u ∧ i = cell then ref else a.refs v i }

def setPin (a : Spec) (u cell pin : Nat) : Spec :=
  a.set u cell ((a.refs u cell).map fun ref => { ref with pinCookie := pin })

/-- What a completed call means. Moving in stores the reference at the handle that
is returned, moving out and dropping forget it, and a fork gets the references that
the cookie has access to. -/
def step (a : Spec) : Op × Outcome → Spec
  | (.createUniverse _ _, .created obj) =>
      { a with refs := Function.update a.refs obj fun _ => none }
  | (.createEntryCookie, .created obj) =>
      { a with
        entries := Function.update a.entries obj (some ⟨a.cookieLast, []⟩)
        cookieLast := a.cookieLast.next }
  | (.createGroupCookie _, .created obj) =>
      { a with
        groups := Function.update a.groups obj (some ⟨a.cookieLast⟩)
        cookieLast := a.cookieLast.next }
  | (.addToGrp entry group memory, .done) =>
      match a.entries entry, a.groups group with
      | some e, some g =>
          { a with
            entries := Function.update a.entries entry (some (userEntryCookieAddToGrp e g memory).2) }
      | _, _ => a
  | (.removeFromGrp entry group, .done) =>
      match a.entries entry, a.groups group with
      | some e, some g =>
          { a with
            entries := Function.update a.entries entry (some (userEntryCookieRemoveFromGrp e g).2) }
      | _, _ => a
  | (.moveIn u ref _, .handle cell) => a.set u cell (some ref)
  | (.moveInPair u first second _ _, .handles cell cell') =>
      (a.set u cell (some first)).set u cell' (some second)
  | (.dropCell u cell _, .done) => a.set u cell none
  | (.moveOut u cell, .reference _) => a.set u cell none
  | (.moveAcross src dst cell _ _, .handle cell') =>
      (a.set dst cell' (a.refs src cell)).set src cell none
  | (.borrowAcross src dst cell _ _, .handle cell') => a.set dst cell' (a.refs src cell)
  | (.unpin u cell _, .done) => a.setPin u cell userCookieKeyUniversal
  | (.unpinFromGroup u cell _ _, .done) => a.setPin u cell userCookieKeyUniversal
  | (.pin u cell entry, .done) =>
      match a.entries entry with
      | some e => a.setPin u cell e.key.val
      | none => a
  | (.pinToGroup u cell _ group, .done) =>
      match a.groups group with
      | some g => a.setPin u cell g.key.val
      | none => a
  | (.fork src entry _ _, .created obj) =>
      match a.entries entry with
      | some e =>
          { a with
            refs := Function.update a.refs obj fun i => (a.refs src i).filter (userUnpinnedFor · e) }
      | none => a
  | _ => a

/-- The abstract model after a sequence of calls. -/
def ledger (trace : List (Op × Outcome)) : Spec := trace.foldl step initial

end Spec

/-- The state of the kernel shows what the abstract model says. -/
structure Refines (s : State) (a : Spec) : Prop where
  refs : ∀ v, s.universes v ≠ none → ∀ i, view s.toStore v i = a.refs v i
  entries : ∀ entry e, s.entries entry = some e → a.entries entry = some e
  groups : ∀ group g, s.groups group = some g → a.groups group = some g
  cookieLast : a.cookieLast = s.cookieLast

section Refinement

variable {guarded : Prop} {s s' : State} {a : Spec} {op : Op} {outcome : Outcome}

theorem step_failed (a : Spec) (op : Op) (status : Status) : a.step (op, .failed status) = a := by
  cases op <;> rfl

/-- The pin calls write the same pin in the abstract model. -/
theorem step_pinCall (hRefines : Refines s a) {u cell : Nat} {keys : List Nat} {pin : Nat}
    (h : pinCall s op = some (u, cell, keys, pin)) : a.step (op, .done) = a.setPin u cell pin := by
  cases op <;> simp only [pinCall, Option.bind_eq_bind, Option.bind_eq_some_iff, reduceCtorEq,
    Option.some.injEq, Prod.mk.injEq] at h
  · obtain ⟨e, hEntry, rfl, rfl, rfl, rfl⟩ := h
    rfl
  · obtain ⟨e, hEntry, rfl, rfl, rfl, rfl⟩ := h
    simp only [Spec.step, hRefines.entries _ _ hEntry]
  · obtain ⟨e, hEntry, g, hGroup, rfl, rfl, rfl, rfl⟩ := h
    rfl
  · obtain ⟨e, hEntry, g, hGroup, rfl, rfl, rfl, rfl⟩ := h
    simp only [Spec.step, hRefines.groups _ _ hGroup]

/-- A dropped reference can only take universes and cookies away. -/
theorem memRefDrop_cookies (s : State) (obj : Nat) :
    (∀ entry e, (s.memRefDrop obj).entries entry = some e → s.entries entry = some e) ∧
    (∀ group g, (s.memRefDrop obj).groups group = some g → s.groups group = some g) ∧
    (s.memRefDrop obj).cookieLast = s.cookieLast := by
  have hUpdate : ∀ {β : Type} (f : Nat → Option β) (i : Nat) (b : β),
      Function.update f obj none i = some b → f i = some b := by
    intro β f i b h
    by_cases hEq : i = obj
    · subst hEq
      simp at h
    · rwa [Function.update_of_ne hEq] at h
  simp only [State.memRefDrop]
  split_ifs
  · exact ⟨fun entry e h => hUpdate _ _ _ h, fun group g h => hUpdate _ _ _ h, rfl⟩
  · exact ⟨fun _ _ h => h, fun _ _ h => h, rfl⟩

/-- Dropping a reference that nothing in the abstract model depends on. -/
theorem Refines.memRefDrop (h : Refines s a) (obj : Nat) : Refines (s.memRefDrop obj) a := by
  obtain ⟨hEntries, hGroups, hLast⟩ := memRefDrop_cookies s obj
  refine ⟨fun v hv i => ?_, fun entry e he => h.entries entry e (hEntries entry e he),
    fun group g hg => h.groups group g (hGroups group g hg), h.cookieLast.trans hLast.symm⟩
  rw [memRefDrop_view s obj hv]
  refine h.refs v (fun hNone => hv ?_) i
  cases hLive : (s.memRefDrop obj).universes v with
  | none => rfl
  | some uni =>
      rw [memRefDrop_live s obj hLive] at hNone
      cases hNone

/-- A change of the table only. -/
theorem Refines.setStore {st : Store} {b : Spec} (h : Refines s a) (hEntries : b.entries = a.entries)
    (hGroups : b.groups = a.groups) (hLast : b.cookieLast = a.cookieLast)
    (hRefs : ∀ v, st.universes v ≠ none → ∀ i, view st v i = b.refs v i) :
    Refines { s with toStore := st } b :=
  ⟨hRefs, hEntries ▸ h.entries, hGroups ▸ h.groups, hLast.trans h.cookieLast⟩

theorem put_live {st : Store} {u v : Nat} {uni uni' : UserUniverse} {m : Memory}
    (hUni : st.universes u = some uni) (hLive : (st.put u m uni').universes v ≠ none) :
    st.universes v ≠ none := by
  by_cases hEq : v = u
  · subst hEq
    simp [hUni]
  · rwa [put_of_ne hEq] at hLive

/-- A reference moved into a live universe. -/
theorem Refines.stored {u cell : Nat} {uni uni' : UserUniverse} {ref : UserRef} {m : Memory}
    (h : Refines s a) (hUni : s.universes u = some uni)
    (hStored : Stored True s.toStore u uni ref cell m uni') :
    Refines { s with toStore := s.toStore.put u m uni' } (a.set u cell (some ref)) := by
  refine h.setStore rfl rfl rfl fun v hv i => ?_
  rw [hStored.view_eq, h.refs v (put_live hUni hv) i]
  simp only [hStored.inside trivial, and_true, Spec.set]

/-- A cell of a live universe put on its free list. -/
theorem Refines.freed {u cell : Nat} {uni : UserUniverse} (h : Refines s a)
    (hUni : s.universes u = some uni)
    (hView : ∀ v i, view (s.toStore.freeCell u uni cell) v i =
      if v = u ∧ i = cell then none else view s.toStore v i) :
    Refines { s with toStore := s.toStore.freeCell u uni cell } (a.set u cell none) := by
  refine h.setStore rfl rfl rfl fun v hv i => ?_
  rw [hView, h.refs v (put_live hUni hv) i]
  rfl

/-- Changing one entry cookie on both sides. -/
theorem Refines.setEntry (h : Refines s a) (entry : Nat) (e : UserEntryCookie) :
    Refines { s with entries := Function.update s.entries entry (some e) }
      { a with entries := Function.update a.entries entry (some e) } := by
  refine ⟨h.refs, fun other e' he => ?_, h.groups, h.cookieLast⟩
  by_cases hEq : other = entry
  · subst hEq
    simpa using he
  · simp only [Function.update_of_ne hEq] at he ⊢
    exact h.entries other e' he

/-- One call in the abstract model says what the call did to the handles. -/
theorem refines_transition (hTable : Table True s.toStore s.objectsCount)
    (hRange : HandleInRange s op) (hRefines : Refines s a) (h : Transition s op outcome s') :
    Refines s' (a.step (op, outcome)) := by
  cases h with
  | failed status =>
      rw [step_failed]
      exact hRefines
  | createUniverse junk hUnused =>
      refine ⟨fun v hv i => ?_, hRefines.entries, hRefines.groups, hRefines.cookieLast⟩
      rw [(create_table hTable junk hUnused).2 v i]
      by_cases hNew : v = s.objectsCount
      · simp [Spec.step, hNew]
      · have hOld : s.universes v ≠ none := by
          simpa [userUniverseCreate, Function.update_of_ne hNew] using hv
        simp [Spec.step, hNew, hRefines.refs v hOld i]
  | createEntryCookie =>
      have hSet := hRefines.setEntry s.objectsCount ⟨s.cookieLast, []⟩
      simp only [Spec.step, hRefines.cookieLast]
      exact ⟨hSet.refs, hSet.entries, hSet.groups, rfl⟩
  | createGroupCookie refcount =>
      simp only [Spec.step, hRefines.cookieLast]
      refine ⟨hRefines.refs, hRefines.entries, fun other g hg => ?_, rfl⟩
      by_cases hEq : other = s.objectsCount
      · subst hEq
        simpa using hg
      · simp only [Function.update_of_ne hEq] at hg ⊢
        exact hRefines.groups other g hg
  | createObject => exact ⟨hRefines.refs, hRefines.entries, hRefines.groups, hRefines.cookieLast⟩
  | @addToGrp entry group memory e g hEntry hGroup =>
      by_cases hStatus : (userEntryCookieAddToGrp e g memory).1 = .success
      · rw [if_pos hStatus]
        simp only [Spec.step, hRefines.entries _ _ hEntry, hRefines.groups _ _ hGroup]
        exact hRefines.setEntry _ _
      · rw [if_neg hStatus, step_failed, addToGrp_failed hStatus, ← hEntry, Function.update_eq_self]
        exact hRefines
  | removeFromGrp hEntry hGroup =>
      simp only [Spec.step, hRefines.entries _ _ hEntry, hRefines.groups _ _ hGroup]
      exact hRefines.setEntry _ _
  | borrowRef hHeld => exact ⟨hRefines.refs, hRefines.entries, hRefines.groups, hRefines.cookieLast⟩
  | @dropRef obj hHeld =>
      have hTaken : Refines (s.takeHeld obj) a :=
        ⟨hRefines.refs, hRefines.entries, hRefines.groups, hRefines.cookieLast⟩
      exact hTaken.memRefDrop obj
  | moveIn hUni hOwns hValid hOk =>
      obtain ⟨nodes, hShape, -⟩ := hTable.shape _ _ hUni
      obtain ⟨-, hStored⟩ := moveIn_table hTable hUni hOk (answerValid_spec hTable hShape hValid hOk)
      obtain ⟨hRefs, hEntries, hGroups, hLast⟩ := hRefines.stored hUni hStored
      exact ⟨hRefs, hEntries, hGroups, hLast⟩
  | moveInPair hUni hFirst hSecond hTypes hValid hValid' hOk hOk' =>
      obtain ⟨hStored, hStored', -⟩ := pair_table hTable hUni hValid hValid' hOk hOk'
      obtain ⟨hRefs, hEntries, hGroups, hLast⟩ :=
        (hRefines.stored hUni hStored).stored (put_self ..) hStored'
      exact ⟨hRefs, hEntries, hGroups, hLast⟩
  | pairUndone status hUni hTypes hValid hOk =>
      obtain ⟨-, -, hView⟩ := pairUndone_table hTable hUni hValid hOk
      rw [step_failed]
      refine hRefines.setStore rfl rfl rfl fun v hv i => ?_
      rw [hView]
      exact hRefines.refs v (put_live hUni (put_live (put_self ..) hv)) i
  | dropCell hUni hEntry hCheck hAuth =>
      obtain ⟨hLt, -⟩ := checkRef_inside hRange rfl hUni hCheck
      obtain ⟨-, hView, -⟩ := freeCell_table hTable hUni (checkRef_iff.mp hCheck).2 fun _ => hLt
      exact (hRefines.freed hUni hView).memRefDrop _
  | borrowOut hUni hCheck => exact ⟨hRefines.refs, hRefines.entries, hRefines.groups, hRefines.cookieLast⟩
  | moveOut hUni hCheck =>
      obtain ⟨hLt, -⟩ := checkRef_inside hRange rfl hUni hCheck
      obtain ⟨-, hView, -⟩ := freeCell_table hTable hUni (checkRef_iff.mp hCheck).2 fun _ => hLt
      obtain ⟨hRefs, hEntries, hGroups, hLast⟩ := hRefines.freed hUni hView
      exact ⟨hRefs, hEntries, hGroups, hLast⟩
  | @moveAcross src dst cell entry cell' heap uni dstUni dstUni' e m hUni hDst hEntry hNe hValid hCheck
      hAuth hOk =>
      obtain ⟨hLt, hStoredAt⟩ := checkRef_inside hRange rfl hUni hCheck
      obtain ⟨hStored, -, hView⟩ :=
        moveAcross_table hTable hUni hDst hNe hValid hCheck (fun _ => hLt) hOk
      refine hRefines.setStore rfl rfl rfl fun v hv i => ?_
      have hSrc : (s.toStore.put dst m dstUni').universes src = some uni :=
        (put_of_ne hNe ..).trans hUni
      have hOld := hRefines.refs v (put_live hDst (put_live hSrc hv)) i
      have hMoved := hRefines.refs src (by simp [hUni]) cell
      rw [hView, hOld]
      simp only [Spec.step, Spec.set, ← hMoved, hStoredAt, hStored.inside trivial, and_true]
  | @borrowAcross src dst cell entry cell' heap uni dstUni dstUni' e m hUni hDst hEntry hNe hValid
      hCheck hAuth hOk =>
      obtain ⟨hLt, hStoredAt⟩ := checkRef_inside hRange rfl hUni hCheck
      obtain ⟨nodes, hShape, -⟩ := hTable.shape _ _ hDst
      obtain ⟨-, hStored⟩ := moveIn_table hTable hDst hOk (answerValid_spec hTable hShape hValid hOk)
      obtain ⟨hRefs, hEntries, hGroups, hLast⟩ := hRefines.stored hDst hStored
      have hMoved := hRefines.refs src (by simp [hUni]) cell
      simp only [Spec.step, ← hMoved, hStoredAt]
      exact ⟨hRefs, hEntries, hGroups, hLast⟩
  | borrowUndone status hUni hCheck =>
      rw [step_failed]
      refine Refines.memRefDrop ?_ _
      exact ⟨hRefines.refs, hRefines.entries, hRefines.groups, hRefines.cookieLast⟩
  | @setPin op u cell uni keys pin hCall hUni hCheck hKey =>
      obtain ⟨hLt, hStoredAt⟩ := checkRef_inside hRange (pinCall_handle hCall) hUni hCheck
      obtain ⟨-, hView⟩ := setPin_table hTable hUni cell
        { s.refs (uni.cell cell) with pinCookie := pin }
      rw [step_pinCall hRefines hCall]
      refine hRefines.setStore rfl rfl rfl fun v hv i => ?_
      have hPinned := hRefines.refs u (by simp [hUni]) cell
      rw [hView, hRefines.refs v hv i]
      simp only [Spec.setPin, Spec.set, ← hPinned, hStoredAt]
      split_ifs with hCell
      · rw [hCell.1, hCell.2, ← hPinned, hStoredAt]
        rfl
      · rfl
  | @fork src entry array uni e junk hUni hEntry hUnused =>
      obtain ⟨-, hView, -⟩ := fork_table hTable hUni e junk hUnused
      simp only [Spec.step, hRefines.entries _ _ hEntry]
      refine ⟨fun v hv i => ?_, hRefines.entries, hRefines.groups, hRefines.cookieLast⟩
      rw [hView]
      by_cases hNew : v = s.objectsCount
      · simp [hNew, hRefines.refs src (by simp [hUni]) i]
      · have hOld : s.universes v ≠ none := by
          simpa [userUniverseFork, Function.update_of_ne hNew] using hv
        simp [hNew, hRefines.refs v hOld i]

/-- The three calls that take a reference out of a cell. Only `user_universe_move_out`
does not look at the pin. -/
def Removes (s : State) (op : Op) (u cell : Nat) (ref : UserRef) : Prop :=
  op = .moveOut u cell ∨
  ∃ entry e, s.entries entry = some e ∧ userUnpinnedFor ref e = true ∧
    (op = .dropCell u cell entry ∨ ∃ dst heap, op = .moveAcross u dst cell entry heap)

/-- One of the four pin calls accepts the pin of the reference and writes another
one. -/
def Repins (s : State) (op : Op) (u cell : Nat) (ref : UserRef) (pin : Nat) : Prop :=
  ∃ keys, pinCall s op = some (u, cell, keys, pin) ∧ ref.pinCookie ∈ keys

/-- What a call can do to a stored reference. -/
theorem transition_kept (hTable : Table guarded s.toStore s.objectsCount)
    (h : Transition s op outcome s') {u i : Nat} {ref : UserRef}
    (hView : view s.toStore u i = some ref) (hLive : s'.universes u ≠ none) :
    view s'.toStore u i = some ref ∨ Removes s op u i ref ∨
      ∃ pin, Repins s op u i ref pin ∧ view s'.toStore u i = some { ref with pinCookie := pin } := by
  have hWeak : Table False s.toStore s.objectsCount := hTable.weaken
  obtain ⟨own, hOwn, hLookup⟩ := view_eq_some_iff.mp hView
  obtain ⟨-, -, hRef⟩ := lookup_eq_some_iff.mp hLookup
  have hStays : ∀ {st : Store} {v cell : Nat} {uni uni' : UserUniverse} {new : UserRef} {m : Memory},
      Stored False st v uni new cell m uni' → view st u i = some ref →
      view (st.put v m uni') u i = some ref := by
    intro st v cell uni uni' new m hStored hOld
    rw [hStored.view_eq, if_neg, hOld]
    rintro ⟨rfl, rfl, -⟩
    rw [hStored.fresh] at hOld
    cases hOld
  cases h with
  | failed status => exact Or.inl hView
  | createUniverse junk hUnused =>
      have hNe : u ≠ s.objectsCount := Nat.ne_of_lt (hTable.below u own hOwn)
      left
      rw [(create_table hWeak junk hUnused).2, if_neg hNe, hView]
  | createEntryCookie => exact Or.inl hView
  | createGroupCookie refcount => exact Or.inl hView
  | createObject => exact Or.inl hView
  | addToGrp hEntry hGroup => exact Or.inl hView
  | removeFromGrp hEntry hGroup => exact Or.inl hView
  | borrowRef hHeld => exact Or.inl hView
  | dropRef hHeld =>
      left
      rw [memRefDrop_view _ _ hLive]
      exact hView
  | moveIn hUni hOwns hValid hOk =>
      obtain ⟨nodes, hShape, -⟩ := hWeak.shape _ _ hUni
      exact Or.inl (hStays
        (moveIn_table hWeak hUni hOk (answerValid_spec hWeak hShape hValid hOk)).2 hView)
  | moveInPair hUni hFirst hSecond hTypes hValid hValid' hOk hOk' =>
      obtain ⟨hStored, hStored', -⟩ := pair_table hWeak hUni hValid hValid' hOk hOk'
      exact Or.inl (hStays hStored' (hStays hStored hView))
  | pairUndone status hUni hTypes hValid hOk =>
      left
      rw [(pairUndone_table hWeak hUni hValid hOk).2.2, hView]
  | @dropCell v cell entry uni e hUni hEntry hCheck hAuth =>
      rw [memRefDrop_view _ _ hLive,
        (freeCell_table hWeak hUni (checkRef_iff.mp hCheck).2 False.elim).2.1]
      split_ifs with hCell
      · obtain ⟨rfl, rfl⟩ := hCell
        obtain rfl : own = uni := Option.some.inj (hOwn.symm.trans hUni)
        rw [hRef] at hAuth
        exact Or.inr (Or.inl (Or.inr ⟨entry, e, hEntry, hAuth, Or.inl rfl⟩))
      · exact Or.inl hView
  | borrowOut hUni hCheck => exact Or.inl hView
  | @moveOut v cell uni hUni hCheck =>
      have hFreed := (freeCell_table hWeak hUni (checkRef_iff.mp hCheck).2 False.elim).2.1 u i
      by_cases hCell : u = v ∧ i = cell
      · obtain ⟨rfl, rfl⟩ := hCell
        exact Or.inr (Or.inl (Or.inl rfl))
      · rw [if_neg hCell, hView] at hFreed
        exact Or.inl hFreed
  | @moveAcross src dst cell entry cell' heap uni dstUni dstUni' e m hUni hDst hEntry hNe hValid hCheck
      hAuth hOk =>
      obtain ⟨hStored, -, hMoved⟩ :=
        moveAcross_table hWeak hUni hDst hNe hValid hCheck False.elim hOk
      by_cases hCell : u = src ∧ i = cell
      · obtain ⟨rfl, rfl⟩ := hCell
        obtain rfl : own = uni := Option.some.inj (hOwn.symm.trans hUni)
        rw [hRef] at hAuth
        exact Or.inr (Or.inl (Or.inr ⟨entry, e, hEntry, hAuth, Or.inr ⟨dst, heap, rfl⟩⟩))
      · left
        rw [hMoved, if_neg hCell, ← hStored.view_eq]
        exact hStays hStored hView
  | borrowAcross hUni hDst hEntry hNe hValid hCheck hAuth hOk =>
      obtain ⟨nodes, hShape, -⟩ := hWeak.shape _ _ hDst
      exact Or.inl (hStays
        (moveIn_table hWeak hDst hOk (answerValid_spec hWeak hShape hValid hOk)).2 hView)
  | borrowUndone status hUni hCheck =>
      left
      rw [memRefDrop_view _ _ hLive]
      exact hView
  | @setPin op v cell uni keys pin hCall hUni hCheck hKey =>
      rw [(setPin_table hWeak hUni cell _).2]
      split_ifs with hCell
      · obtain ⟨rfl, rfl⟩ := hCell
        obtain rfl : own = uni := Option.some.inj (hOwn.symm.trans hUni)
        rw [hRef] at hKey ⊢
        exact Or.inr (Or.inr ⟨pin, ⟨keys, hCall, hKey⟩, by rw [hView]; rfl⟩)
      · exact Or.inl hView
  | fork junk hUni hEntry hUnused =>
      have hNe : u ≠ s.objectsCount := Nat.ne_of_lt (hTable.below u own hOwn)
      left
      rw [(fork_table hWeak hUni _ junk hUnused).2.1, if_neg hNe, hView]

/-- The cells that a call reports as newly filled. -/
def Op.filled : Op → Outcome → List (Nat × Nat)
  | .moveIn u _ _, .handle cell => [(u, cell)]
  | .moveInPair u _ _ _ _, .handles cell cell' => [(u, cell), (u, cell')]
  | .moveAcross _ dst _ _ _, .handle cell | .borrowAcross _ dst _ _ _, .handle cell => [(dst, cell)]
  | _, _ => []

/-- No call stores a reference in a cell that holds one. -/
theorem transition_fresh (hTable : Table True s.toStore s.objectsCount)
    (h : Transition s op outcome s') :
    ∀ p ∈ op.filled outcome, view s.toStore p.1 p.2 = none := by
  intro p hp
  cases h with
  | moveIn hUni hOwns hValid hOk =>
      obtain ⟨nodes, hShape, -⟩ := hTable.shape _ _ hUni
      obtain ⟨-, hStored⟩ := moveIn_table hTable hUni hOk (answerValid_spec hTable hShape hValid hOk)
      rw [List.mem_singleton.mp hp]
      exact hStored.fresh
  | moveInPair hUni hFirst hSecond hTypes hValid hValid' hOk hOk' =>
      obtain ⟨hStored, hStored', -⟩ := pair_table hTable hUni hValid hValid' hOk hOk'
      rcases List.mem_cons.mp hp with rfl | hp
      · exact hStored.fresh
      · rw [List.mem_singleton.mp hp]
        have hFresh := hStored'.fresh
        rw [hStored.view_eq] at hFresh
        split_ifs at hFresh
        exact hFresh
  | moveAcross hUni hDst hEntry hNe hValid hCheck hAuth hOk
  | borrowAcross hUni hDst hEntry hNe hValid hCheck hAuth hOk =>
      obtain ⟨nodes, hShape, -⟩ := hTable.shape _ _ hDst
      obtain ⟨-, hStored⟩ := moveIn_table hTable hDst hOk (answerValid_spec hTable hShape hValid hOk)
      rw [List.mem_singleton.mp hp]
      exact hStored.fresh
  | addToGrp hEntry hGroup =>
      split_ifs at hp <;> cases hp
  | setPin hCall hUni hCheck hKey => cases op <;> cases hp
  | failed status => cases op <;> cases hp
  | _ => cases hp

/-- `mem_heap_realloc` is reached with an empty free list only. -/
theorem reallocated_when_exhausted {st : Store} {uni uni' : UserUniverse} {ref : UserRef}
    {heap : HeapAnswer} {cell : Nat} {m : Memory}
    (hOk : userUniverseMoveInNolock st uni ref heap = .ok (cell, m, uni'))
    (hGrown : uni'.capacity ≠ uni.capacity ∨ uni'.cells ≠ uni.cells) : uni.freeList.head = none := by
  simp only [userUniverseMoveInNolock] at hOk
  split_ifs at hOk
  simp only [DList.removeHead] at hOk
  cases hHead : uni.freeList.head with
  | none => rfl
  | some node =>
      simp only [hHead] at hOk
      cases hNext : st.links.next node <;> simp only [hNext, Except.ok.injEq, Prod.mk.injEq] at hOk
      all_goals
        obtain ⟨-, -, rfl⟩ := hOk
        simp at hGrown

end Refinement

/-- Every sequence of calls in which no handle is the one past the end. -/
def inRange (m : Memory) : System State (Op × Outcome) :=
  (system m).restrict fun s label => HandleInRange s label.1

/-- Calls without handles are in range. -/
theorem inRange_of_replay {m : Memory} (ops : List Op) {trace : List (Op × Outcome)} {s : State}
    (h : System.replay exec (initial m) ops = some (trace, s))
    (hNone : ∀ label ∈ trace, label.1.handle = none) : (inRange m).Execution trace s := by
  have run : (system m).Execution trace s := System.Execution.of_replay ops h
  clear h
  induction run with
  | start hInit => exact .start hInit
  | @step trace s s' label prior last ih =>
      refine .step (ih fun other hOther => hNone other (List.mem_append_left _ hOther)) ⟨?_, last⟩
      intro u cell uni hHandle hUni
      rw [hNone label (List.mem_append_right _ (List.mem_singleton.mpr rfl))] at hHandle
      cases hHandle

/-- The free list of a universe runs through exactly the free cells of its array,
and the cells in use hold exactly the references that `refs` lists. -/
structure Represented (s : State) (uni : UserUniverse) (refs : Nat → Option UserRef) : Prop where
  free : ∃ nodes, Represents s.links uni.freeList nodes ∧
    ∀ a, a ∈ nodes ↔ a.array = uni.cells ∧ a.index < uni.count ∧ s.inUse a = false
  used : ∀ i ref, i < uni.count ∧ s.inUse (uni.cell i) = true ∧ s.refs (uni.cell i) = ref ↔
    refs i = some ref

theorem inRange_invariant {m : Memory} {trace : List (Op × Outcome)} {s : State}
    (run : (inRange m).Execution trace s) :
    Table True s.toStore s.objectsCount ∧ Refines s (Spec.ledger trace) := by
  refine run.invariant (P := fun trace s => Table True s.toStore s.objectsCount ∧
    Refines s (Spec.ledger trace)) ?_ ?_
  · intro s hInit
    cases hInit
    refine ⟨initial_table True m, ?_, ?_, ?_, rfl⟩
    all_goals simp [initial]
  · rintro trace s label s' _ ⟨hTable, hRefines⟩ ⟨hRange, hExec⟩
    have hStep := exec_transition hExec
    refine ⟨transition_table hTable (fun _ => hRange) hStep, ?_⟩
    rw [Spec.ledger, List.foldl_append]
    exact refines_transition hTable hRange hRefines hStep

theorem represented {s : State} {a : Spec} (hTable : Table True s.toStore s.objectsCount)
    (hRefines : Refines s a) {u : Nat} {uni : UserUniverse} (hUni : s.universes u = some uni) :
    Represented s uni (a.refs u) := by
  obtain ⟨nodes, hShape, hComplete⟩ := hTable.shape u uni hUni
  refine ⟨⟨nodes, hShape.list, fun addr => ⟨fun ha => ?_, fun ⟨hArray, hLt, hFree⟩ => ?_⟩⟩,
    fun i ref => ?_⟩
  · exact ⟨(hShape.own addr ha).1, (hComplete trivial).1 addr ha, (hShape.own addr ha).2⟩
  · have hCell : addr = uni.cell addr.index := by rw [UserUniverse.cell, ← hArray]
    rw [hCell] at hFree ⊢
    exact (hComplete trivial).2 addr.index hLt hFree
  · rw [← hRefines.refs u (by simp [hUni]) i, view_of_live hUni, lookup_eq_some_iff]

/-- After every sequence of calls, each universe represents the references that were
moved in and neither moved out nor dropped since; arrays are not shared, they grow
with an empty free list only, and a call stores into free cells and keeps what the
other ones hold. -/
theorem universes_represent_references {m : Memory} {trace : List (Op × Outcome)} {s : State}
    (run : (inRange m).Execution trace s) :
    (∀ u uni, s.universes u = some uni → Represented s uni ((Spec.ledger trace).refs u)) ∧
    (∀ u v a b, s.universes u = some a → s.universes v = some b → a.cells = b.cells → u = v) ∧
    (∀ (st : Store) uni ref heap cell m uni',
      userUniverseMoveInNolock st uni ref heap = .ok (cell, m, uni') →
      uni'.capacity ≠ uni.capacity ∨ uni'.cells ≠ uni.cells → uni.freeList.head = none) ∧
    ∀ op outcome s', HandleInRange s op → exec s op = some (outcome, s') →
      (∀ p ∈ op.filled outcome, view s.toStore p.1 p.2 = none) ∧
      ∀ u i ref, view s.toStore u i = some ref → s'.universes u ≠ none → ¬Removes s op u i ref →
        ∃ pin, view s'.toStore u i = some { ref with pinCookie := pin } := by
  obtain ⟨hTable, hRefines⟩ := inRange_invariant run
  refine ⟨fun u uni hUni => represented hTable hRefines hUni, hTable.arrays,
    fun st uni ref heap cell m uni' hOk hGrown => reallocated_when_exhausted hOk hGrown, ?_⟩
  intro op outcome s' _ hExec
  have hStep := exec_transition hExec
  refine ⟨transition_fresh hTable hStep, fun u i ref hView hLive hNot => ?_⟩
  rcases transition_kept hTable hStep hView hLive with hSame | hRemoved | ⟨pin, -, hPinned⟩
  · exact ⟨ref.pinCookie, hSame⟩
  · exact (hNot hRemoved).elim
  · exact ⟨pin, hPinned⟩

/-- Two references are moved into a universe and the first one is moved out: its cell
is the only free one. -/
theorem universes_represent_one_of_two :
    ∃ m trace s uni, (inRange m).Execution trace s ∧ s.universes 0 = some uni ∧
      (Spec.ledger trace).refs 0 0 = none ∧
      (Spec.ledger trace).refs 0 1 = some ⟨2, .callee, 1⟩ ∧
      Represented s uni ((Spec.ledger trace).refs 0) := by
  let blank : Memory := ⟨⟨fun _ => none, fun _ => none⟩, fun _ => false, fun _ => ⟨0, .none, 0⟩⟩
  have noHandle : ∀ {s : State} {op : Op}, op.handle = none → HandleInRange s op := by
    intro s op hNone u cell uni hSome
    rw [hNone] at hSome
    cases hSome
  have start : (inRange blank).Execution [] (initial blank) := .start rfl
  have created := start.call (.createUniverse (some 0) blank) (noHandle rfl) rfl
  have objects := (created.call .createObject (noHandle rfl) rfl).call .createObject (noHandle rfl) rfl
  have first := objects.call (.moveIn 0 ⟨1, .mailbox, 1⟩ ⟨some (.moved 1), blank⟩) (noHandle rfl) rfl
  have second := first.call (.moveIn 0 ⟨2, .callee, 1⟩ ⟨none, blank⟩) (noHandle rfl) rfl
  have run := second.call (.moveOut 0 0) (fun u cell uni hHandle hUni => by
    cases hHandle
    cases hUni
    decide) rfl
  exact ⟨blank, _, _, _, run, rfl, rfl, rfl, (universes_represent_references run).1 0 _ rfl⟩

end Ricerca.Universe
