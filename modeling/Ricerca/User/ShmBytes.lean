import Ricerca.Foundation.Slices
import Ricerca.User.ShmPermissions

/-! The bytes of shared memory objects. Whoever has a reference to an object reads and writes
it without authentification; both ways lead to one buffer. Over any sequence of calls the
buffer is an array that is read and written slice by slice. -/
namespace Ricerca.Shm

open Ricerca.Foundation Ricerca.Cookie

/-- `user_shm_write_by_ref`. -/
def userShmWriteByRef (shm : UserShmOwner) (offset len : UInt64) (data : Nat → UInt8) :
    Status × UserShmOwner :=
  if !userShmCheckBounds shm offset len then (.outOfBounds, shm)
  else (.success, shm.write offset len data)

/-- `user_shm_read_by_ref`. -/
def userShmReadByRef (shm : UserShmOwner) (offset len : UInt64) (buf : Nat → UInt8) :
    Status × (Nat → UInt8) :=
  if !userShmCheckBounds shm offset len then (.outOfBounds, buf)
  else (.success, shm.read offset len buf)

/-- One completed call: one of those on cookies, permissions and ids, or an access by someone
who has a reference to the object. -/
inductive Op where
  | call (call : Call)
  | writeByRef (id : Nat) (offset len : UInt64) (data : Nat → UInt8)
  | readByRef (id : Nat) (offset len : UInt64) (buf : Nat → UInt8)

/-- The status of a call, and the caller's buffer after a read. -/
structure Result where
  status : Status
  buf : Option (Nat → UInt8) := none

/-- The effect of a completed call. An object that was shut down is still there for those who
have a reference to it. -/
def execOp (s : State) : Op → Option (Result × State)
  | .call (.readById entry id offset len buf) => do
      let cookie ← s.entries entry
      let (status, buf') := userShmReadById s id offset len buf cookie
      return (⟨status, some buf'⟩, s)
  | .call call => (exec s call).map fun (outcome, s') => (⟨outcome.status, none⟩, s')
  | .writeByRef id offset len data => do
      let shm ← s.shms id
      let (status, shm') := userShmWriteByRef shm offset len data
      return (⟨status, none⟩, { s with shms := Function.update s.shms id (some shm') })
  | .readByRef id offset len buf => do
      let shm ← s.shms id
      let (status, buf') := userShmReadByRef shm offset len buf
      return (⟨status, some buf'⟩, s)

/-- Runs of all calls from the state `user_shm_init` leaves. -/
def byteSystem : System State (Op × Result) := System.ofExec State.initial execOp

/-- The object that a write names, and the slice that it brings. -/
def Op.write? : Op → Option (Nat × Slice UInt8)
  | .call (.writeById _ id offset len data) | .writeByRef id offset len data =>
      some (id, ⟨offset.toNat, len.toNat, data⟩)
  | _ => none

/-- The object that a read names, and the slice of it that it asks for; the values are those
in the caller's buffer before. -/
def Op.read? : Op → Option (Nat × Slice UInt8)
  | .call (.readById _ id offset len buf) | .readByRef id offset len buf =>
      some (id, ⟨offset.toNat, len.toNat, buf⟩)
  | _ => none

/-- The slice that a completed call has written to an object. -/
def written (id : Nat) (label : Op × Result) : Option (Slice UInt8) :=
  match label.1.write? with
  | some (other, slice) => if other = id ∧ label.2.status = .success then some slice else none
  | none => none

/-- The slices that were successfully written to an object, in order. -/
def writes (trace : List (Op × Result)) (id : Nat) : List (Slice UInt8) :=
  trace.filterMap (written id)

/-- What one completed call does to the bytes. -/
structure ByteStep (trace : List (Op × Result)) (s : State) (op : Op) (result : Result)
    (s' : State) : Prop where
  bounds : ∀ id slice, op.write? = some (id, slice) ∨ op.read? = some (id, slice) →
    result.status = .success → ∃ shm, s.shms id = some shm ∧ slice.Within shm.size
  changed : ∀ id shm, s.shms id = some shm → ∃ shm', s'.shms id = some shm' ∧
    shm'.size = shm.size ∧ ∀ i, shm'.data i =
      match written id (op, result) with
      | some slice => slice.writeTo shm.data i
      | none => shm.data i
  read : ∀ id slice, op.read? = some (id, slice) → ∃ buf, result.buf = some buf ∧ ∀ i, buf i =
    if result.status = .success ∧ i < slice.len then
      lastValue 0 (writes trace id) (slice.offset + i)
    else slice.data i
  failed : ∀ id slice, op.write? = some (id, slice) ∨ op.read? = some (id, slice) →
    result.status = .success ∨ result.status = .outOfBounds ∨ result.status = .securityViolation

section Calls

variable {s s' : State} {shm : UserShmOwner} {offset len : UInt64} {id : Nat}

theorem userShmCheckBounds_iff : userShmCheckBounds shm offset len = true ↔
    offset.toNat + len.toNat < 2 ^ 64 ∧ offset.toNat + len.toNat ≤ shm.size := by
  rw [userShmCheckBounds]
  split
  · simp only [Bool.false_eq_true, false_iff]
    omega
  · rw [decide_eq_true_iff]
    omega

theorem findById_some (h : userShmFindById s id = some shm) : s.shms id = some shm := by
  rw [userShmFindById, Option.filter_eq_some_iff] at h
  exact h.1

/-- What a write by reference does. -/
theorem writeByRef_cases {data : Nat → UInt8} {status : Status} {shm' : UserShmOwner}
    (h : userShmWriteByRef shm offset len data = (status, shm')) :
    status = .outOfBounds ∧ shm' = shm ∨
    status = .success ∧ offset.toNat + len.toNat ≤ shm.size ∧ shm' = shm.write offset len data := by
  rw [userShmWriteByRef] at h
  cases hBounds : userShmCheckBounds shm offset len with
  | false => simp_all
  | true =>
      have hWithin := (userShmCheckBounds_iff.mp hBounds).2
      simp_all

/-- What a read by reference does. -/
theorem readByRef_cases {buf buf' : Nat → UInt8} {status : Status}
    (h : userShmReadByRef shm offset len buf = (status, buf')) :
    status = .outOfBounds ∧ buf' = buf ∨
    status = .success ∧ offset.toNat + len.toNat ≤ shm.size ∧ buf' = shm.read offset len buf := by
  rw [userShmReadByRef] at h
  cases hBounds : userShmCheckBounds shm offset len with
  | false => simp_all
  | true =>
      have hWithin := (userShmCheckBounds_iff.mp hBounds).2
      simp_all

/-- A write by id is refused, or it is the write by reference to the object with the id. -/
theorem writeById_cases {data : Nat → UInt8} {cookie : UserEntryCookie} {status : Status}
    (h : userShmWriteById s id offset len data cookie = (status, s')) :
    (status = .securityViolation ∨ status = .outOfBounds) ∧ s' = s ∨
    status = .success ∧ ∃ shm, s.shms id = some shm ∧ offset.toNat + len.toNat ≤ shm.size ∧
      s' = { s with shms := Function.update s.shms id (some (shm.write offset len data)) } := by
  rw [userShmWriteById] at h
  cases hFind : userShmFindById s id with
  | none => simp_all
  | some shm =>
      have hShm := findById_some hFind
      cases hAuth : userShmAuthWrite shm cookie with
      | false => simp_all
      | true =>
          cases hBounds : userShmCheckBounds shm offset len with
          | false => simp_all
          | true =>
              have hWithin := (userShmCheckBounds_iff.mp hBounds).2
              simp_all

/-- A read by id is refused, or it is the read by reference from the object with the id. -/
theorem readById_cases {buf buf' : Nat → UInt8} {cookie : UserEntryCookie} {status : Status}
    (h : userShmReadById s id offset len buf cookie = (status, buf')) :
    (status = .securityViolation ∨ status = .outOfBounds) ∧ buf' = buf ∨
    status = .success ∧ ∃ shm, s.shms id = some shm ∧ offset.toNat + len.toNat ≤ shm.size ∧
      buf' = shm.read offset len buf := by
  rw [userShmReadById] at h
  cases hFind : userShmFindById s id with
  | none => simp_all
  | some shm =>
      have hShm := findById_some hFind
      cases hAuth : userShmAuthRead shm cookie with
      | false => simp_all
      | true =>
          cases hBounds : userShmCheckBounds shm offset len with
          | false => simp_all
          | true =>
              have hWithin := (userShmCheckBounds_iff.mp hBounds).2
              simp_all

end Calls

/-- The objects go from one state to the next with these slices written to them; new objects
hold zeros. -/
structure Rewrites (s s' : State) (slices : Nat → Option (Slice UInt8)) : Prop where
  old : ∀ id shm, s.shms id = some shm → ∃ shm', s'.shms id = some shm' ∧ shm'.size = shm.size ∧
    ∀ i, shm'.data i = match slices id with
      | some slice => slice.writeTo shm.data i
      | none => shm.data i
  new : ∀ id shm', s.shms id = none → s'.shms id = some shm' →
    s.lastAllocatedId ≤ id ∧ id < s'.lastAllocatedId ∧ ∀ i, shm'.data i = 0
  counter : s.lastAllocatedId ≤ s'.lastAllocatedId

section Rewriting

variable {s s' : State} {shm shm' : UserShmOwner} {id : Nat}

theorem rewrites_same (hShms : s'.shms = s.shms) (hCounter : s'.lastAllocatedId = s.lastAllocatedId) :
    Rewrites s s' fun _ => none := by
  constructor
  case old =>
    intro id shm hShm
    exact ⟨shm, by rw [hShms, hShm], rfl, fun _ => rfl⟩
  case new =>
    intro id shm' hNone hSome
    rw [hShms, hNone] at hSome
    cases hSome
  case counter => exact Nat.le_of_eq hCounter.symm

/-- One object is replaced by another one with these bytes. -/
theorem rewrites_update {slice : Option (Slice UInt8)} (hShm : s.shms id = some shm)
    (hShms : s'.shms = Function.update s.shms id (some shm'))
    (hCounter : s'.lastAllocatedId = s.lastAllocatedId) (hSize : shm'.size = shm.size)
    (hData : ∀ i, shm'.data i = match slice with
      | some slice => slice.writeTo shm.data i
      | none => shm.data i) :
    Rewrites s s' fun other => if id = other then slice else none := by
  constructor
  case old =>
    intro other old hOld
    by_cases hId : id = other
    · subst hId
      obtain rfl : shm = old := Option.some.inj (hShm.symm.trans hOld)
      refine ⟨shm', by simp [hShms], hSize, ?_⟩
      simpa using hData
    · refine ⟨old, by simpa [hShms, Ne.symm hId] using hOld, rfl, ?_⟩
      simp [hId]
  case new =>
    intro other new hNone hSome
    have hId : other ≠ id := by
      rintro rfl
      rw [hShm] at hNone
      cases hNone
    rw [hShms, Function.update_of_ne hId, hNone] at hSome
    cases hSome
  case counter => exact Nat.le_of_eq hCounter.symm

/-- An object whose bytes stay what they are. -/
theorem rewrites_keys (hShm : s.shms id = some shm)
    (hShms : s'.shms = Function.update s.shms id (some shm'))
    (hCounter : s'.lastAllocatedId = s.lastAllocatedId) (hSize : shm'.size = shm.size)
    (hData : shm'.data = shm.data) : Rewrites s s' fun _ => none := by
  have hNothing : Rewrites s s' fun other => if id = other then none else none :=
    rewrites_update hShm hShms hCounter hSize fun i => congrFun hData i
  simpa using hNothing

/-- A slice is written to an object. -/
theorem rewrites_write {offset len : UInt64} {data : Nat → UInt8} (hShm : s.shms id = some shm) :
    Rewrites s { s with shms := Function.update s.shms id (some (shm.write offset len data)) }
      fun other => if id = other then some ⟨offset.toNat, len.toNat, data⟩ else none :=
  rewrites_update hShm rfl rfl rfl fun _ => rfl

/-- A new object is there, with zeros. -/
theorem rewrites_create {size : UInt64} {cookie : UserEntryCookie} {objectMemory dataMemory : Bool}
    {outcome : Outcome} (hFresh : s.shms s.lastAllocatedId = none)
    (h : userShmCreate s size cookie objectMemory dataMemory = (outcome, s')) :
    Rewrites s s' fun _ => none := by
  simp only [userShmCreate] at h
  split_ifs at h
  · obtain ⟨-, rfl⟩ := Prod.mk.inj h
    exact rewrites_same rfl rfl
  · obtain ⟨-, rfl⟩ := Prod.mk.inj h
    exact rewrites_same rfl rfl
  · obtain ⟨-, rfl⟩ := Prod.mk.inj h
    constructor
    case old =>
      intro id shm hShm
      have hId : id ≠ s.lastAllocatedId := by
        rintro rfl
        rw [hFresh] at hShm
        cases hShm
      exact ⟨shm, by simpa [hId] using hShm, rfl, fun _ => rfl⟩
    case new =>
      intro id shm' hNone hSome
      dsimp only at hSome ⊢
      by_cases hId : id = s.lastAllocatedId
      · rw [hId, Function.update_self] at hSome
        cases hSome
        simp [hId]
      · rw [Function.update_of_ne hId, hNone] at hSome
        cases hSome
    case counter => exact Nat.le_succ _

/-- What the calls on cookies, permissions and ids do to the bytes. -/
theorem exec_rewrites {call : Call} {outcome : Outcome} {result : Result}
    (hFresh : s.shms s.lastAllocatedId = none) (h : exec s call = some (outcome, s'))
    (hStatus : result.status = outcome.status) :
    Rewrites s s' fun id => written id (.call call, result) := by
  cases call with
  | createEntryCookie =>
      cases h
      exact rewrites_same rfl rfl
  | createGroupCookie =>
      cases h
      exact rewrites_same rfl rfl
  | addToGrp entry group memory =>
      simp only [exec, Option.bind_eq_bind, Option.bind_eq_some_iff, Option.pure_def,
        Option.some.injEq, Prod.mk.injEq] at h
      obtain ⟨cookie, -, grp, -, -, rfl⟩ := h
      exact rewrites_same rfl rfl
  | removeFromGrp entry group =>
      simp only [exec, Option.bind_eq_bind, Option.bind_eq_some_iff, Option.pure_def,
        Option.some.injEq, Prod.mk.injEq] at h
      obtain ⟨cookie, -, grp, -, -, rfl⟩ := h
      exact rewrites_same rfl rfl
  | create entry size objectMemory dataMemory =>
      simp only [exec, Option.bind_eq_bind, Option.bind_eq_some_iff, Option.pure_def,
        Option.some.injEq] at h
      obtain ⟨cookie, -, hCreate⟩ := h
      exact rewrites_create hFresh hCreate
  | shutdown id =>
      simp only [exec, Option.bind_eq_bind, Option.bind_eq_some_iff, Option.pure_def,
        Option.some.injEq, Prod.mk.injEq] at h
      obtain ⟨shm, hFind, -, rfl⟩ := h
      have hShm := findById_some hFind
      have hShms : (userShmShutdown s id).shms =
          Function.update s.shms id (some { shm with listed := false }) := by
        simp [userShmShutdown, hShm]
      exact rewrites_keys hShm hShms rfl rfl rfl
  | setPerms id audience rw =>
      simp only [exec, Option.bind_eq_bind, Option.bind_eq_some_iff, Option.pure_def,
        Option.some.injEq, Prod.mk.injEq] at h
      obtain ⟨shm, hFind, -, rfl⟩ := h
      have hKept : (audience.call shm rw).size = shm.size ∧ (audience.call shm rw).data = shm.data := by
        rw [audience.call_eq]
        cases rw <;> exact ⟨rfl, rfl⟩
      exact rewrites_keys (findById_some hFind) rfl rfl hKept.1 hKept.2
  | writeById entry id offset len data =>
      simp only [exec, Option.bind_eq_bind, Option.bind_eq_some_iff, Option.pure_def,
        Option.some.injEq, Prod.mk.injEq] at h
      obtain ⟨cookie, -, rfl, rfl⟩ := h
      rcases writeById_cases (Prod.eta _).symm with ⟨hRefused, hSame⟩ | ⟨hSuccess, shm, hShm, -, hState⟩
      · rw [hSame]
        have hNone : (fun other => written other (.call (.writeById entry id offset len data), result)) =
            fun _ => none := by
          funext other
          rcases hRefused with hRefused | hRefused <;> simp [written, Op.write?, hStatus, hRefused]
        rw [hNone]
        exact rewrites_same rfl rfl
      · rw [hState]
        simpa [written, Op.write?, hStatus, hSuccess] using rewrites_write hShm
  | readById entry id offset len buf =>
      simp only [exec, Option.bind_eq_bind, Option.bind_eq_some_iff, Option.pure_def,
        Option.some.injEq, Prod.mk.injEq] at h
      obtain ⟨cookie, -, -, rfl⟩ := h
      exact rewrites_same rfl rfl

/-- A call that does not read is a call of the system without references. -/
theorem execOp_call {call : Call} {result : Result} (hRead : Op.read? (.call call) = none)
    (h : execOp s (.call call) = some (result, s')) :
    ∃ outcome, exec s call = some (outcome, s') ∧ result = ⟨outcome.status, none⟩ := by
  have hMap : execOp s (.call call) =
      (exec s call).map fun (outcome, s') => (⟨outcome.status, none⟩, s') := by
    cases call with
    | readById => cases hRead
    | createEntryCookie | createGroupCookie | addToGrp | removeFromGrp | create | shutdown
    | setPerms | writeById => rfl
  rw [hMap, Option.map_eq_some_iff] at h
  obtain ⟨⟨outcome, last⟩, hExec, hEq⟩ := h
  obtain ⟨rfl, rfl⟩ := Prod.mk.inj hEq
  exact ⟨outcome, hExec, rfl⟩

/-- What a read does, by id or by reference. -/
theorem execOp_read {op : Op} {result : Result} {slice : Slice UInt8}
    (hRead : op.read? = some (id, slice)) (h : execOp s op = some (result, s')) :
    s' = s ∧ ∃ buf, result.buf = some buf ∧
      ((result.status = .securityViolation ∨ result.status = .outOfBounds) ∧ buf = slice.data ∨
        result.status = .success ∧ ∃ shm, s.shms id = some shm ∧ slice.Within shm.size ∧
          ∀ i, buf i = if i < slice.len then shm.data (slice.offset + i) else slice.data i) := by
  cases op with
  | call call =>
      cases call with
      | readById entry other offset len buf =>
          cases hRead
          simp only [execOp, Option.bind_eq_bind, Option.bind_eq_some_iff, Option.pure_def,
            Option.some.injEq, Prod.mk.injEq] at h
          obtain ⟨cookie, -, rfl, rfl⟩ := h
          refine ⟨rfl, _, rfl, ?_⟩
          rcases readById_cases (Prod.eta _).symm with hRefused | ⟨hSuccess, shm, hShm, hWithin, hBuf⟩
          · exact .inl hRefused
          · exact .inr ⟨hSuccess, shm, hShm, hWithin, fun i => congrFun hBuf i⟩
      | createEntryCookie | createGroupCookie | addToGrp | removeFromGrp | create | shutdown
      | setPerms | writeById => cases hRead
  | writeByRef => cases hRead
  | readByRef other offset len buf =>
      cases hRead
      simp only [execOp, Option.bind_eq_bind, Option.bind_eq_some_iff, Option.pure_def,
        Option.some.injEq, Prod.mk.injEq] at h
      obtain ⟨shm, hShm, rfl, rfl⟩ := h
      refine ⟨rfl, _, rfl, ?_⟩
      rcases readByRef_cases (Prod.eta _).symm with ⟨hStatus, hBuf⟩ | ⟨hSuccess, hWithin, hBuf⟩
      · exact .inl ⟨.inr hStatus, hBuf⟩
      · exact .inr ⟨hSuccess, shm, hShm, hWithin, fun i => congrFun hBuf i⟩

/-- What a write does, by id or by reference. -/
theorem execOp_write {op : Op} {result : Result} {slice : Slice UInt8}
    (hWrite : op.write? = some (id, slice)) (h : execOp s op = some (result, s')) :
    result.status = .securityViolation ∨ result.status = .outOfBounds ∨
      result.status = .success ∧ ∃ shm, s.shms id = some shm ∧ slice.Within shm.size := by
  cases op with
  | call call =>
      cases call with
      | writeById entry other offset len data =>
          cases hWrite
          obtain ⟨outcome, hExec, rfl⟩ := execOp_call rfl h
          simp only [exec, Option.bind_eq_bind, Option.bind_eq_some_iff, Option.pure_def,
            Option.some.injEq, Prod.mk.injEq] at hExec
          obtain ⟨cookie, -, rfl, -⟩ := hExec
          rcases writeById_cases (Prod.eta _).symm with
            ⟨hRefused, -⟩ | ⟨hSuccess, shm, hShm, hWithin, -⟩
          · exact hRefused.imp_right .inl
          · exact .inr (.inr ⟨hSuccess, shm, hShm, hWithin⟩)
      | createEntryCookie | createGroupCookie | addToGrp | removeFromGrp | create | shutdown
      | setPerms | readById => cases hWrite
  | writeByRef other offset len data =>
      cases hWrite
      simp only [execOp, Option.bind_eq_bind, Option.bind_eq_some_iff, Option.pure_def,
        Option.some.injEq, Prod.mk.injEq] at h
      obtain ⟨shm, hShm, rfl, -⟩ := h
      rcases writeByRef_cases (Prod.eta _).symm with ⟨hStatus, -⟩ | ⟨hSuccess, hWithin, -⟩
      · exact .inr (.inl hStatus)
      · exact .inr (.inr ⟨hSuccess, shm, hShm, hWithin⟩)
  | readByRef => cases hWrite

/-- What any completed call does to the bytes. -/
theorem execOp_rewrites {op : Op} {result : Result} (hFresh : s.shms s.lastAllocatedId = none)
    (h : execOp s op = some (result, s')) : Rewrites s s' fun id => written id (op, result) := by
  cases hRead : op.read? with
  | some read =>
      obtain ⟨rfl, -⟩ := execOp_read hRead h
      have hNone : ∀ id, written id (op, result) = none := by
        intro id
        cases op with
        | call call =>
            cases call with
            | readById => rfl
            | createEntryCookie | createGroupCookie | addToGrp | removeFromGrp | create | shutdown
            | setPerms | writeById => cases hRead
        | writeByRef => cases hRead
        | readByRef => rfl
      simp only [hNone]
      exact rewrites_same rfl rfl
  | none =>
      cases op with
      | call call =>
          obtain ⟨outcome, hExec, rfl⟩ := execOp_call hRead h
          exact exec_rewrites hFresh hExec rfl
      | writeByRef other offset len data =>
          simp only [execOp, Option.bind_eq_bind, Option.bind_eq_some_iff, Option.pure_def,
            Option.some.injEq, Prod.mk.injEq] at h
          obtain ⟨shm, hShm, rfl, rfl⟩ := h
          rcases writeByRef_cases (Prod.eta _).symm with ⟨hStatus, hSame⟩ | ⟨hStatus, -, hShm'⟩
          · rw [hSame, hStatus]
            have hKept : Rewrites s { s with shms := Function.update s.shms other (some shm) }
                fun _ => none := rewrites_keys hShm rfl rfl rfl rfl
            simpa [written, Op.write?] using hKept
          · rw [hShm', hStatus]
            simpa [written, Op.write?] using rewrites_write hShm
      | readByRef => cases hRead

end Rewriting

/-- After a run the bytes of every object are those that were written last. -/
structure Stored (trace : List (Op × Result)) (s : State) : Prop where
  bytes : ∀ id shm, s.shms id = some shm → ∀ i, shm.data i = lastValue 0 (writes trace id) i
  fresh : ∀ id, s.lastAllocatedId ≤ id → s.shms id = none
  unwritten : ∀ id, s.shms id = none → writes trace id = []

section Runs

variable {trace : List (Op × Result)} {s s' : State} {op : Op} {result : Result}

/-- Only bytes of an object that is there are written. -/
theorem written_some {id : Nat} {slice : Slice UInt8} (h : execOp s op = some (result, s'))
    (hWritten : written id (op, result) = some slice) : ∃ shm, s.shms id = some shm := by
  rw [written] at hWritten
  split at hWritten
  · rename_i other written hWrite
    split_ifs at hWritten with hId
    obtain ⟨rfl, hSuccess⟩ := hId
    rcases execOp_write hWrite h with hStatus | hStatus | ⟨-, shm, hShm, -⟩
    · cases hSuccess.symm.trans hStatus
    · cases hSuccess.symm.trans hStatus
    · exact ⟨shm, hShm⟩
  · cases hWritten

theorem written_none {id : Nat} (h : execOp s op = some (result, s')) (hNone : s.shms id = none) :
    written id (op, result) = none := by
  apply Option.eq_none_iff_forall_not_mem.mpr
  intro slice hWritten
  obtain ⟨shm, hShm⟩ := written_some h hWritten
  rw [hNone] at hShm
  cases hShm

theorem writes_append (trace : List (Op × Result)) (label : Op × Result) (id : Nat) :
    writes (trace ++ [label]) id = writes trace id ++ (written id label).toList := by
  rw [writes, List.filterMap_append]
  cases hWritten : written id label <;> simp [writes, hWritten]

theorem Stored.step (h : Stored trace s) (hExec : execOp s op = some (result, s')) :
    Stored (trace ++ [(op, result)]) s' := by
  have hRewrites := execOp_rewrites (h.fresh _ (Nat.le_refl _)) hExec
  constructor
  case bytes =>
    intro id shm' hShm' i
    rw [writes_append]
    cases hOld : s.shms id with
    | none =>
        rw [written_none hExec hOld, h.unwritten id hOld]
        exact (hRewrites.new id shm' hOld hShm').2.2 i
    | some shm =>
        obtain ⟨kept, hKept, -, hData⟩ := hRewrites.old id shm hOld
        obtain rfl : kept = shm' := Option.some.inj (hKept.symm.trans hShm')
        have hBytes : shm.data = lastValue 0 (writes trace id) := funext (h.bytes id shm hOld)
        rw [hData, hBytes]
        cases written id (op, result) with
        | none => simp
        | some slice => rw [Option.toList_some, lastValue_append]
  case fresh =>
    intro id hLe
    have hOld := h.fresh id (Nat.le_trans hRewrites.counter hLe)
    cases hNew : s'.shms id with
    | none => rfl
    | some shm' =>
        have hLt := (hRewrites.new id shm' hOld hNew).2.1
        omega
  case unwritten =>
    intro id hNone
    have hOld : s.shms id = none := by
      cases hSome : s.shms id with
      | none => rfl
      | some shm =>
          obtain ⟨shm', hShm', -⟩ := hRewrites.old id shm hSome
          rw [hNone] at hShm'
          cases hShm'
    rw [writes_append, written_none hExec hOld, h.unwritten id hOld]
    rfl

theorem stored_run (run : byteSystem.Execution trace s) : Stored trace s := by
  induction run with
  | start h =>
      cases h
      constructor
      · intro id shm hShm
        cases hShm
      · exact fun _ _ => rfl
      · exact fun _ _ => rfl
  | step prior last ih => exact ih.step last

end Runs

end Ricerca.Shm
