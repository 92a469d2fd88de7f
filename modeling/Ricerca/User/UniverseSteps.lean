import Ricerca.User.UniverseCells

/-! What one call can do to the universes, said once. A call that fails changes
nothing, with two exceptions: a pair of references whose second half does not fit,
and a borrowed reference that is dropped again. -/
namespace Ricerca.Universe

open Ricerca.Foundation Ricerca.Cookie

/-- The four calls that change a pin, with the keys they accept and the pin they
write. -/
def pinCall (s : State) : Op → Option (Nat × Nat × List Nat × Nat)
  | .unpin u cell entry => do
      let e ← s.entries entry
      some (u, cell, [e.key.val, userCookieKeyUniversal], userCookieKeyUniversal)
  | .pin u cell entry => do
      let e ← s.entries entry
      some (u, cell, [userCookieKeyUniversal, e.key.val], e.key.val)
  | .unpinFromGroup u cell entry group => do
      let e ← s.entries entry
      let g ← s.groups group
      some (u, cell, [g.key.val, userCookieKeyUniversal, e.key.val], userCookieKeyUniversal)
  | .pinToGroup u cell entry group => do
      let e ← s.entries entry
      let g ← s.groups group
      some (u, cell, [userCookieKeyUniversal, g.key.val, e.key.val], g.key.val)
  | _ => none

/-- The effect of a call on a state. -/
inductive Transition (s : State) : Op → Outcome → State → Prop where
  | failed {op : Op} (status : Status) : Transition s op (.failed status) s
  | createUniverse {array : Nat} (junk : Memory) (hUnused : s.arrayUnused array) :
      Transition s (.createUniverse (some array) junk) (.created s.objectsCount)
        (userUniverseCreate s (some array) junk).2
  | createEntryCookie :
      Transition s .createEntryCookie (.created s.objectsCount)
        { s.newObject with
          entries := Function.update s.entries s.objectsCount (some ⟨s.cookieLast, []⟩)
          cookieLast := s.cookieLast.next }
  | createGroupCookie (refcount : Nat) :
      Transition s (.createGroupCookie refcount) (.created s.objectsCount)
        { s.newObject with
          refcount := Function.update s.refcount s.objectsCount refcount
          groups := Function.update s.groups s.objectsCount (some ⟨s.cookieLast⟩)
          cookieLast := s.cookieLast.next }
  | createObject : Transition s .createObject (.created s.objectsCount) s.newObject
  | addToGrp {entry group : Nat} {memory : Bool} {e : UserEntryCookie} {g : UserGroupCookie}
      (hEntry : s.entries entry = some e) (hGroup : s.groups group = some g) :
      Transition s (.addToGrp entry group memory)
        (if (userEntryCookieAddToGrp e g memory).1 = .success then .done
          else .failed (userEntryCookieAddToGrp e g memory).1)
        { s with
          entries := Function.update s.entries entry (some (userEntryCookieAddToGrp e g memory).2) }
  | removeFromGrp {entry group : Nat} {e : UserEntryCookie} {g : UserGroupCookie}
      (hEntry : s.entries entry = some e) (hGroup : s.groups group = some g) :
      Transition s (.removeFromGrp entry group) .done
        { s with
          entries := Function.update s.entries entry (some (userEntryCookieRemoveFromGrp e g).2) }
  | borrowRef {obj : Nat} (hHeld : 0 < s.held obj) :
      Transition s (.borrowRef obj) .done ((s.memRefBorrow obj).addHeld obj)
  | dropRef {obj : Nat} (hHeld : 0 < s.held obj) :
      Transition s (.dropRef obj) .done ((s.takeHeld obj).memRefDrop obj)
  | moveIn {u cell : Nat} {ref : UserRef} {heap : HeapAnswer} {uni uni' : UserUniverse} {m : Memory}
      (hUni : s.universes u = some uni) (hOwns : s.ownsRef ref = true)
      (hValid : s.answerValid heap = true)
      (hOk : userUniverseMoveInNolock s.toStore uni ref heap = .ok (cell, m, uni')) :
      Transition s (.moveIn u ref heap) (.handle cell)
        ({ s with toStore := s.toStore.put u m uni' }.takeHeld ref.ref)
  | moveInPair {u cell cell' : Nat} {first second : UserRef} {heap heap' : HeapAnswer}
      {uni uni' uni'' : UserUniverse} {m m' : Memory}
      (hUni : s.universes u = some uni) (hFirst : s.ownsRef first = true)
      (hSecond : (s.takeHeld first.ref).ownsRef second = true)
      (hTypes : first.isUniverse = false ∧ second.isUniverse = false)
      (hValid : s.answerValid heap = true) (hValid' : s.answerValid heap' = true)
      (hOk : userUniverseMoveInNolock s.toStore uni first heap = .ok (cell, m, uni'))
      (hOk' : userUniverseMoveInNolock (s.toStore.put u m uni') uni' second heap' =
        .ok (cell', m', uni'')) :
      Transition s (.moveInPair u first second heap heap') (.handles cell cell')
        (({ s with toStore := (s.toStore.put u m uni').put u m' uni'' }.takeHeld first.ref).takeHeld
          second.ref)
  | pairUndone {u cell : Nat} {first second : UserRef} {heap heap' : HeapAnswer}
      {uni uni' : UserUniverse} {m : Memory} (status : Status)
      (hUni : s.universes u = some uni) (hTypes : first.isUniverse = false ∧ second.isUniverse = false)
      (hValid : s.answerValid heap = true)
      (hOk : userUniverseMoveInNolock s.toStore uni first heap = .ok (cell, m, uni')) :
      Transition s (.moveInPair u first second heap heap') (.failed status)
        { s with toStore := (s.toStore.put u m uni').freeCell u uni' cell }
  | dropCell {u cell entry : Nat} {uni : UserUniverse} {e : UserEntryCookie}
      (hUni : s.universes u = some uni) (hEntry : s.entries entry = some e)
      (hCheck : userUniverseCheckRefNolock s.toStore uni cell = true)
      (hAuth : userUnpinnedFor (s.refs (uni.cell cell)) e = true) :
      Transition s (.dropCell u cell entry) .done
        ({ s with toStore := s.toStore.freeCell u uni cell }.memRefDrop (s.refs (uni.cell cell)).ref)
  | borrowOut {u cell : Nat} {uni : UserUniverse} (hUni : s.universes u = some uni)
      (hCheck : userUniverseCheckRefNolock s.toStore uni cell = true) :
      Transition s (.borrowOut u cell)
        (.borrowed (s.refs (uni.cell cell)).ref (s.refs (uni.cell cell)).type)
        ((s.memRefBorrow (s.refs (uni.cell cell)).ref).addHeld (s.refs (uni.cell cell)).ref)
  | moveOut {u cell : Nat} {uni : UserUniverse} (hUni : s.universes u = some uni)
      (hCheck : userUniverseCheckRefNolock s.toStore uni cell = true) :
      Transition s (.moveOut u cell) (.reference (s.refs (uni.cell cell)))
        ({ s with toStore := s.toStore.freeCell u uni cell }.addHeld (s.refs (uni.cell cell)).ref)
  | moveAcross {src dst cell entry cell' : Nat} {heap : HeapAnswer} {uni dstUni dstUni' : UserUniverse}
      {e : UserEntryCookie} {m : Memory} (hUni : s.universes src = some uni)
      (hDst : s.universes dst = some dstUni) (hEntry : s.entries entry = some e) (hNe : src ≠ dst)
      (hValid : s.answerValid heap = true)
      (hCheck : userUniverseCheckRefNolock s.toStore uni cell = true)
      (hAuth : userUnpinnedFor (s.refs (uni.cell cell)) e = true)
      (hOk : userUniverseMoveInNolock s.toStore dstUni (s.refs (uni.cell cell)) heap =
        .ok (cell', m, dstUni')) :
      Transition s (.moveAcross src dst cell entry heap) (.handle cell')
        { s with toStore := (s.toStore.put dst m dstUni').freeCell src uni cell }
  | borrowAcross {src dst cell entry cell' : Nat} {heap : HeapAnswer}
      {uni dstUni dstUni' : UserUniverse} {e : UserEntryCookie} {m : Memory}
      (hUni : s.universes src = some uni) (hDst : s.universes dst = some dstUni)
      (hEntry : s.entries entry = some e) (hNe : src ≠ dst) (hValid : s.answerValid heap = true)
      (hCheck : userUniverseCheckRefNolock s.toStore uni cell = true)
      (hAuth : userUnpinnedFor (s.refs (uni.cell cell)) e = true)
      (hOk : userUniverseMoveInNolock s.toStore dstUni (s.refs (uni.cell cell)) heap =
        .ok (cell', m, dstUni')) :
      Transition s (.borrowAcross src dst cell entry heap) (.handle cell')
        { s.memRefBorrow (s.refs (uni.cell cell)).ref with toStore := s.toStore.put dst m dstUni' }
  | borrowUndone {src dst cell entry : Nat} {heap : HeapAnswer} {uni : UserUniverse} (status : Status)
      (hUni : s.universes src = some uni)
      (hCheck : userUniverseCheckRefNolock s.toStore uni cell = true) :
      Transition s (.borrowAcross src dst cell entry heap) (.failed status)
        ((s.memRefBorrow (s.refs (uni.cell cell)).ref).memRefDrop (s.refs (uni.cell cell)).ref)
  | setPin {op : Op} {u cell : Nat} {uni : UserUniverse} {keys : List Nat} {pin : Nat}
      (hCall : pinCall s op = some (u, cell, keys, pin)) (hUni : s.universes u = some uni)
      (hCheck : userUniverseCheckRefNolock s.toStore uni cell = true)
      (hKey : (s.refs (uni.cell cell)).pinCookie ∈ keys) :
      Transition s op .done
        { s with
          toMemory := s.toMemory.setRef (uni.cell cell)
            { s.refs (uni.cell cell) with pinCookie := pin } }
  | fork {src entry array : Nat} {uni : UserUniverse} {e : UserEntryCookie} (junk : Memory)
      (hUni : s.universes src = some uni) (hEntry : s.entries entry = some e)
      (hUnused : s.arrayUnused array) :
      Transition s (.fork src entry (some array) junk) (.created s.objectsCount)
        (userUniverseFork s uni e (some array) junk).2

/-- A pin call fails or sets the pin. -/
theorem setPin_transition {s s' : State} {op : Op} {outcome : Outcome} {u cell : Nat}
    {uni : UserUniverse} {keys : List Nat} {pin : Nat}
    (hCall : pinCall s op = some (u, cell, keys, pin)) (hUni : s.universes u = some uni)
    (h : setPin s uni cell keys pin = (outcome, s')) : Transition s op outcome s' := by
  simp only [setPin] at h
  split_ifs at h with hCheck hKey
  · obtain ⟨rfl, rfl⟩ := Prod.mk.inj h
    exact .failed _
  · obtain ⟨rfl, rfl⟩ := Prod.mk.inj h
    exact .setPin hCall hUni (by simpa using hCheck) hKey
  · obtain ⟨rfl, rfl⟩ := Prod.mk.inj h
    exact .failed _

section Calls

variable {s s' : State} {outcome : Outcome} {u cell : Nat} {uni : UserUniverse}
  {ref : UserRef} {heap : HeapAnswer} {entry : Nat} {e : UserEntryCookie}

theorem userUniverseMoveIn_transition (hUni : s.universes u = some uni)
    (hOwns : s.ownsRef ref = true) (hValid : s.answerValid heap = true)
    (h : userUniverseMoveIn s u uni ref heap = (outcome, s')) :
    Transition s (.moveIn u ref heap) outcome s' := by
  simp only [userUniverseMoveIn] at h
  split at h
  · obtain ⟨rfl, rfl⟩ := Prod.mk.inj h
    exact .failed _
  · rename_i cell' m uni' hOk
    obtain ⟨rfl, rfl⟩ := Prod.mk.inj h
    exact .moveIn hUni hOwns hValid hOk

theorem userUniverseMoveInPair_transition {second : UserRef} {heap' : HeapAnswer}
    (hUni : s.universes u = some uni) (hFirst : s.ownsRef ref = true)
    (hSecond : (s.takeHeld ref.ref).ownsRef second = true)
    (hTypes : ref.isUniverse = false ∧ second.isUniverse = false)
    (hValid : s.answerValid heap = true) (hValid' : s.answerValid heap' = true)
    (h : userUniverseMoveInPair s u uni ref second heap heap' = (outcome, s')) :
    Transition s (.moveInPair u ref second heap heap') outcome s' := by
  simp only [userUniverseMoveInPair] at h
  split at h
  · obtain ⟨rfl, rfl⟩ := Prod.mk.inj h
    exact .failed _
  · rename_i cell' m uni' hOk
    split at h
    · obtain ⟨rfl, rfl⟩ := Prod.mk.inj h
      exact .pairUndone _ hUni hTypes hValid hOk
    · rename_i cell'' m' uni'' hOk'
      obtain ⟨rfl, rfl⟩ := Prod.mk.inj h
      exact .moveInPair hUni hFirst hSecond hTypes hValid hValid' hOk hOk'

theorem userUniverseDropCell_transition (hUni : s.universes u = some uni)
    (hEntry : s.entries entry = some e) (h : userUniverseDropCell s u uni cell e = (outcome, s')) :
    Transition s (.dropCell u cell entry) outcome s' := by
  simp only [userUniverseDropCell] at h
  split_ifs at h with hCheck hAuth
  · obtain ⟨rfl, rfl⟩ := Prod.mk.inj h
    exact .failed _
  · obtain ⟨rfl, rfl⟩ := Prod.mk.inj h
    exact .failed _
  · obtain ⟨rfl, rfl⟩ := Prod.mk.inj h
    exact .dropCell hUni hEntry (by simpa using hCheck) (by simpa using hAuth)

theorem userUniverseBorrowOut_transition (hUni : s.universes u = some uni)
    (h : userUniverseBorrowOut s uni cell = (outcome, s')) :
    Transition s (.borrowOut u cell) outcome s' := by
  simp only [userUniverseBorrowOut] at h
  split_ifs at h with hCheck
  · obtain ⟨rfl, rfl⟩ := Prod.mk.inj h
    exact .failed _
  · obtain ⟨rfl, rfl⟩ := Prod.mk.inj h
    exact .borrowOut hUni (by simpa using hCheck)

theorem userUniverseMoveOut_transition (hUni : s.universes u = some uni)
    (h : userUniverseMoveOut s u uni cell = (outcome, s')) :
    Transition s (.moveOut u cell) outcome s' := by
  simp only [userUniverseMoveOut] at h
  split_ifs at h with hCheck
  · obtain ⟨rfl, rfl⟩ := Prod.mk.inj h
    exact .failed _
  · obtain ⟨rfl, rfl⟩ := Prod.mk.inj h
    exact .moveOut hUni (by simpa using hCheck)

variable {dst : Nat} {dstUni : UserUniverse}

theorem userUniverseMoveAcross_transition (hUni : s.universes u = some uni)
    (hDst : s.universes dst = some dstUni) (hEntry : s.entries entry = some e) (hNe : u ≠ dst)
    (hValid : s.answerValid heap = true)
    (h : userUniverseMoveAcross s u uni cell dst dstUni e heap = (outcome, s')) :
    Transition s (.moveAcross u dst cell entry heap) outcome s' := by
  simp only [userUniverseMoveAcross] at h
  split_ifs at h with hCheck hAuth
  · obtain ⟨rfl, rfl⟩ := Prod.mk.inj h
    exact .failed _
  · obtain ⟨rfl, rfl⟩ := Prod.mk.inj h
    exact .failed _
  · split at h
    · obtain ⟨rfl, rfl⟩ := Prod.mk.inj h
      exact .failed _
    · rename_i cell' m dstUni' hOk
      obtain ⟨rfl, rfl⟩ := Prod.mk.inj h
      exact .moveAcross hUni hDst hEntry hNe hValid (by simpa using hCheck) (by simpa using hAuth) hOk

theorem userUniverseBorrowAcross_transition (hUni : s.universes u = some uni)
    (hDst : s.universes dst = some dstUni) (hEntry : s.entries entry = some e) (hNe : u ≠ dst)
    (hValid : s.answerValid heap = true)
    (h : userUniverseBorrowAcross s uni cell dst dstUni e heap = (outcome, s')) :
    Transition s (.borrowAcross u dst cell entry heap) outcome s' := by
  simp only [userUniverseBorrowAcross] at h
  split_ifs at h with hCheck hAuth
  · obtain ⟨rfl, rfl⟩ := Prod.mk.inj h
    exact .failed _
  · obtain ⟨rfl, rfl⟩ := Prod.mk.inj h
    exact .borrowUndone _ hUni (by simpa using hCheck)
  · split at h
    · obtain ⟨rfl, rfl⟩ := Prod.mk.inj h
      exact .borrowUndone _ hUni (by simpa using hCheck)
    · rename_i cell' m dstUni' hOk
      obtain ⟨rfl, rfl⟩ := Prod.mk.inj h
      exact .borrowAcross hUni hDst hEntry hNe hValid (by simpa using hCheck) (by simpa using hAuth)
        hOk

end Calls

/-- Every completed call is one of the transitions. -/
theorem exec_transition {s s' : State} {op : Op} {outcome : Outcome}
    (h : exec s op = some (outcome, s')) : Transition s op outcome s' := by
  cases op with
  | createUniverse array junk =>
      simp only [exec] at h
      split_ifs at h with hUnused
      have hResult := Option.some.inj h
      cases array with
      | none =>
          obtain ⟨rfl, rfl⟩ := Prod.mk.inj hResult
          exact .failed _
      | some array =>
          obtain ⟨rfl, rfl⟩ := Prod.mk.inj hResult
          exact .createUniverse junk (by simpa using hUnused)
  | createEntryCookie =>
      obtain ⟨rfl, rfl⟩ := Prod.mk.inj (Option.some.inj h)
      exact .createEntryCookie
  | createGroupCookie refcount =>
      obtain ⟨rfl, rfl⟩ := Prod.mk.inj (Option.some.inj h)
      exact .createGroupCookie refcount
  | createObject =>
      obtain ⟨rfl, rfl⟩ := Prod.mk.inj (Option.some.inj h)
      exact .createObject
  | addToGrp entry group memory =>
      simp only [exec, Option.bind_eq_bind, Option.bind_eq_some_iff] at h
      obtain ⟨e, hEntry, g, hGroup, hResult⟩ := h
      obtain ⟨rfl, rfl⟩ := Prod.mk.inj (Option.some.inj hResult)
      exact .addToGrp hEntry hGroup
  | removeFromGrp entry group =>
      simp only [exec, Option.bind_eq_bind, Option.bind_eq_some_iff] at h
      obtain ⟨e, hEntry, g, hGroup, hResult⟩ := h
      obtain ⟨rfl, rfl⟩ := Prod.mk.inj (Option.some.inj hResult)
      exact .removeFromGrp hEntry hGroup
  | borrowRef obj =>
      simp only [exec] at h
      split_ifs at h with hHeld
      obtain ⟨rfl, rfl⟩ := Prod.mk.inj (Option.some.inj h)
      exact .borrowRef hHeld
  | dropRef obj =>
      simp only [exec] at h
      split_ifs at h with hHeld
      obtain ⟨rfl, rfl⟩ := Prod.mk.inj (Option.some.inj h)
      exact .dropRef hHeld
  | moveIn u ref heap =>
      simp only [exec, Option.bind_eq_bind, Option.bind_eq_some_iff] at h
      obtain ⟨uni, hUni, hResult⟩ := h
      split_ifs at hResult with hGuard
      simp only [Bool.and_eq_true] at hGuard
      exact userUniverseMoveIn_transition hUni hGuard.1 hGuard.2 (Option.some.inj hResult)
  | moveInPair u first second heap heap' =>
      simp only [exec, Option.bind_eq_bind, Option.bind_eq_some_iff] at h
      obtain ⟨uni, hUni, hResult⟩ := h
      split_ifs at hResult with hGuard
      simp only [Bool.and_eq_true, Bool.not_eq_true'] at hGuard
      obtain ⟨⟨⟨⟨⟨hFirst, hSecond⟩, hType⟩, hType'⟩, hValid⟩, hValid'⟩ := hGuard
      exact userUniverseMoveInPair_transition hUni hFirst hSecond ⟨hType, hType'⟩ hValid hValid'
        (Option.some.inj hResult)
  | dropCell u cell entry =>
      simp only [exec, Option.bind_eq_bind, Option.bind_eq_some_iff] at h
      obtain ⟨uni, hUni, e, hEntry, hResult⟩ := h
      exact userUniverseDropCell_transition hUni hEntry (Option.some.inj hResult)
  | borrowOut u cell =>
      simp only [exec, Option.bind_eq_bind, Option.bind_eq_some_iff] at h
      obtain ⟨uni, hUni, hResult⟩ := h
      exact userUniverseBorrowOut_transition hUni (Option.some.inj hResult)
  | moveOut u cell =>
      simp only [exec, Option.bind_eq_bind, Option.bind_eq_some_iff] at h
      obtain ⟨uni, hUni, hResult⟩ := h
      exact userUniverseMoveOut_transition hUni (Option.some.inj hResult)
  | moveAcross src dst cell entry heap =>
      simp only [exec, Option.bind_eq_bind, Option.bind_eq_some_iff] at h
      obtain ⟨uni, hUni, dstUni, hDst, e, hEntry, hResult⟩ := h
      split_ifs at hResult with hGuard
      simp only [Bool.and_eq_true, decide_eq_true_eq] at hGuard
      exact userUniverseMoveAcross_transition hUni hDst hEntry hGuard.1 hGuard.2
        (Option.some.inj hResult)
  | borrowAcross src dst cell entry heap =>
      simp only [exec, Option.bind_eq_bind, Option.bind_eq_some_iff] at h
      obtain ⟨uni, hUni, dstUni, hDst, e, hEntry, hResult⟩ := h
      split_ifs at hResult with hGuard
      simp only [Bool.and_eq_true, decide_eq_true_eq] at hGuard
      exact userUniverseBorrowAcross_transition hUni hDst hEntry hGuard.1 hGuard.2
        (Option.some.inj hResult)
  | unpin u cell entry =>
      simp only [exec, Option.bind_eq_bind, Option.bind_eq_some_iff] at h
      obtain ⟨uni, hUni, e, hEntry, hResult⟩ := h
      exact setPin_transition (by simp [pinCall, hEntry, userEntryCookieGetKey]) hUni
        (Option.some.inj hResult)
  | pin u cell entry =>
      simp only [exec, Option.bind_eq_bind, Option.bind_eq_some_iff] at h
      obtain ⟨uni, hUni, e, hEntry, hResult⟩ := h
      exact setPin_transition (by simp [pinCall, hEntry, userEntryCookieGetKey]) hUni
        (Option.some.inj hResult)
  | unpinFromGroup u cell entry group =>
      simp only [exec, Option.bind_eq_bind, Option.bind_eq_some_iff] at h
      obtain ⟨uni, hUni, e, hEntry, g, hGroup, hResult⟩ := h
      exact setPin_transition
        (by simp [pinCall, hEntry, hGroup, userEntryCookieGetKey, userGroupCookieGetKey]) hUni
        (Option.some.inj hResult)
  | pinToGroup u cell entry group =>
      simp only [exec, Option.bind_eq_bind, Option.bind_eq_some_iff] at h
      obtain ⟨uni, hUni, e, hEntry, g, hGroup, hResult⟩ := h
      exact setPin_transition
        (by simp [pinCall, hEntry, hGroup, userEntryCookieGetKey, userGroupCookieGetKey]) hUni
        (Option.some.inj hResult)
  | fork src entry array junk =>
      simp only [exec, Option.bind_eq_bind, Option.bind_eq_some_iff] at h
      obtain ⟨uni, hUni, e, hEntry, hResult⟩ := h
      split_ifs at hResult with hUnused
      have hForked := Option.some.inj hResult
      cases array with
      | none =>
          obtain ⟨rfl, rfl⟩ := Prod.mk.inj hForked
          exact .failed _
      | some array =>
          obtain ⟨rfl, rfl⟩ := Prod.mk.inj hForked
          exact .fork junk hUni hEntry (by simpa using hUnused)

end Ricerca.Universe
