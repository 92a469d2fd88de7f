import Ricerca.User.Universe

/-! The cells of one universe. The free list runs through cells of the universe's
own array that are not in use; what the calls do to it is said once here, per
primitive, and used for every call. -/
namespace Ricerca.Universe

open Ricerca.Foundation Ricerca.Cookie

/-- The reference that a handle denotes. -/
def lookup (m : Memory) (uni : UserUniverse) (i : Nat) : Option UserRef :=
  if i < uni.count ∧ m.inUse (uni.cell i) = true then some (m.refs (uni.cell i)) else none

/-- The free list is well formed and holds free cells of the current array. -/
structure Shape (m : Memory) (uni : UserUniverse) (nodes : List CellAddr) : Prop where
  list : Represents m.links uni.freeList nodes
  own : ∀ a ∈ nodes, a.array = uni.cells ∧ m.inUse a = false
  fits : uni.count ≤ uni.capacity

/-- The free list holds all free cells of the array and nothing behind its end. -/
def Complete (m : Memory) (uni : UserUniverse) (nodes : List CellAddr) : Prop :=
  (∀ a ∈ nodes, a.index < uni.count) ∧
  ∀ i < uni.count, m.inUse (uni.cell i) = false → uni.cell i ∈ nodes

/-- The two memories agree on one array. -/
def SameIn (array : Nat) (m m' : Memory) : Prop :=
  ∀ a, a.array = array → m'.links.next a = m.links.next a ∧ m'.links.prev a = m.links.prev a ∧
    m'.inUse a = m.inUse a ∧ m'.refs a = m.refs a

section Congr

variable {m m' : Memory} {uni : UserUniverse} {nodes : List CellAddr}

theorem SameIn.trans {array : Nat} {m'' : Memory} (h : SameIn array m m')
    (h' : SameIn array m' m'') : SameIn array m m'' := by
  intro a ha
  obtain ⟨hNext, hPrev, hUse, hRef⟩ := h a ha
  obtain ⟨hNext', hPrev', hUse', hRef'⟩ := h' a ha
  exact ⟨hNext'.trans hNext, hPrev'.trans hPrev, hUse'.trans hUse, hRef'.trans hRef⟩

theorem Shape.congr (h : Shape m uni nodes) (hSame : SameIn uni.cells m m') : Shape m' uni nodes := by
  refine ⟨h.list.congr fun a ha => ?_, fun a ha => ?_, h.fits⟩
  · obtain ⟨hNext, hPrev, -⟩ := hSame a (h.own a ha).1
    exact ⟨hNext, hPrev⟩
  · obtain ⟨hArray, hFree⟩ := h.own a ha
    exact ⟨hArray, (hSame a hArray).2.2.1.trans hFree⟩

theorem Complete.congr (h : Complete m uni nodes) (hSame : SameIn uni.cells m m') :
    Complete m' uni nodes := by
  refine ⟨h.1, fun i hi hFree => h.2 i hi ?_⟩
  rwa [(hSame (uni.cell i) rfl).2.2.1] at hFree

theorem lookup_congr (hSame : SameIn uni.cells m m') (i : Nat) : lookup m' uni i = lookup m uni i := by
  obtain ⟨-, -, hUse, hRef⟩ := hSame (uni.cell i) rfl
  simp only [lookup, hUse, hRef]

theorem lookup_eq_some_iff {i : Nat} {ref : UserRef} :
    lookup m uni i = some ref ↔
      i < uni.count ∧ m.inUse (uni.cell i) = true ∧ m.refs (uni.cell i) = ref := by
  simp only [lookup]
  split_ifs with hIn
  · simp [hIn]
  · simp only [false_iff]
    tauto

theorem UserUniverse.cell_inj {uni : UserUniverse} {i j : Nat} (h : uni.cell i = uni.cell j) : i = j :=
  congrArg CellAddr.index h

end Congr

/-- What a reference moved into a universe does to it. -/
structure MovedIn (m : Memory) (uni : UserUniverse) (nodes : List CellAddr) (ref : UserRef) (h : Nat)
    (m' : Memory) (uni' : UserUniverse) (nodes' : List CellAddr) : Prop where
  shape : Shape m' uni' nodes'
  complete : Complete m uni nodes → Complete m' uni' nodes' ∧ h < uni'.count
  universeId_eq : uni'.universeId = uni.universeId
  moved : uni'.cells ≠ uni.cells → nodes = []
  frame : ∀ array, array ≠ uni.cells → array ≠ uni'.cells → SameIn array m m'
  lookup_eq : ∀ i, lookup m' uni' i = if i = h ∧ h < uni'.count then some ref else lookup m uni i
  fresh : lookup m uni h = none
  used : m'.inUse (uni'.cell h) = true
  holds : m'.refs (uni'.cell h) = ref

section MoveIn

variable {m junk : Memory} {uni : UserUniverse} {nodes : List CellAddr} {ref : UserRef}

/-- Taking the first cell off the free list. -/
theorem takeFreeCell (ref : UserRef) {node : CellAddr} {rest : List CellAddr} (hShape : Shape m uni (node :: rest)) :
    let removed := uni.freeList.removeHead m.links
    removed.1 = some node ∧
    MovedIn m uni (node :: rest) ref node.index
      ((({ m with links := removed.2.2 } : Memory).setInUse node true).setRef node ref)
      { uni with freeList := removed.2.1 } rest := by
  intro removed
  obtain ⟨hHead, hRest, hFrame⟩ := hShape.list.removeHead_cons
  obtain ⟨hArray, hFree⟩ := hShape.own node (List.mem_cons_self ..)
  have hNodup := List.nodup_cons.mp hShape.list.nodup
  have hNode : uni.cell node.index = node := by
    simp only [UserUniverse.cell, ← hArray]
  refine ⟨hHead, ⟨hRest, ?_, hShape.fits⟩, ?_, rfl, fun hNe => (hNe rfl).elim, ?_, ?_, ?_, ?_, ?_⟩
  · intro a ha
    have hNe : a ≠ node := fun hEq => hNodup.1 (hEq ▸ ha)
    obtain ⟨hOwn, hUnused⟩ := hShape.own a (List.mem_cons_of_mem _ ha)
    exact ⟨hOwn, by simpa [Memory.setInUse, Memory.setRef, hNe] using hUnused⟩
  · intro hComplete
    refine ⟨⟨fun a ha => hComplete.1 a (List.mem_cons_of_mem _ ha), ?_⟩,
      hComplete.1 node (List.mem_cons_self ..)⟩
    intro i hi hUnused
    have hNe : uni.cell i ≠ node := by
      intro hEq
      have hUsed : (({ m with links := removed.2.2 } : Memory).setInUse node true).inUse
          (uni.cell i) = true := by simp [Memory.setInUse, hEq]
      exact absurd (hUsed.symm.trans hUnused) (by decide)
    have hOld : m.inUse (uni.cell i) = false := by
      rw [← hUnused]
      exact (Function.update_of_ne hNe _ _).symm
    exact (List.mem_cons.mp (hComplete.2 i hi hOld)).resolve_left hNe
  · intro array hOther _ a ha
    have hNe : a ≠ node := fun hEq => hOther (by rw [← ha, hEq, hArray])
    have hOut : a ∉ rest := fun hMem =>
      hOther (ha.symm.trans (hShape.own a (List.mem_cons_of_mem _ hMem)).1)
    obtain ⟨hNext, hPrev⟩ := hFrame a hOut
    exact ⟨hNext, hPrev, by simp [Memory.setInUse, Memory.setRef, hNe],
      by simp [Memory.setInUse, Memory.setRef, hNe]⟩
  · intro i
    by_cases hEq : i = node.index
    · subst hEq
      have hCell : UserUniverse.cell { uni with freeList := removed.2.1 } node.index = node := hNode
      simp only [lookup, hCell, hNode, hFree]
      simp [Memory.setInUse, Memory.setRef]
    · have hNe : uni.cell i ≠ node := fun h => hEq (congrArg CellAddr.index h)
      have hCell : UserUniverse.cell { uni with freeList := removed.2.1 } i = uni.cell i := rfl
      simp [lookup, Memory.setInUse, Memory.setRef, hEq, hNe, hCell]
  · simp [lookup, hNode, hFree]
  · have hCell : UserUniverse.cell { uni with freeList := removed.2.1 } node.index = node := hNode
    rw [hCell]
    simp [Memory.setInUse, Memory.setRef]
  · have hCell : UserUniverse.cell { uni with freeList := removed.2.1 } node.index = node := hNode
    rw [hCell]
    simp [Memory.setRef]

/-- Writing the new cell behind the last one, in an array that holds the old
cells. -/
theorem pushCell (m₁ : Memory) (uni' : UserUniverse) (hShape : Shape m uni [])
    (hCount : uni'.count = uni.count + 1) (hFits : uni'.count ≤ uni'.capacity)
    (hList : uni'.freeList = uni.freeList) (hId : uni'.universeId = uni.universeId)
    (hCopied : ∀ i < uni.count, m₁.inUse (uni'.cell i) = m.inUse (uni.cell i) ∧
      m₁.refs (uni'.cell i) = m.refs (uni.cell i))
    (hFrame : ∀ array, array ≠ uni'.cells → SameIn array m m₁) :
    MovedIn m uni [] ref uni.count (m₁.writeCell junk (uni'.cell uni.count) ref) uni' [] := by
  have hOther : ∀ i, i ≠ uni.count → uni'.cell i ≠ uni'.cell uni.count := fun i hi hEq =>
    hi (UserUniverse.cell_inj hEq)
  refine ⟨⟨?_, by simp, hFits⟩, ?_, hId, fun _ => rfl, ?_, ?_, ?_, ?_, ?_⟩
  · rw [hList]
    exact hShape.list.congr (by simp)
  · intro hComplete
    refine ⟨⟨by simp, fun i hi hFree => ?_⟩, by omega⟩
    by_cases hLast : i = uni.count
    · subst hLast
      simp [Memory.writeCell, Memory.setInUse, Memory.setRef] at hFree
    · have hOld : m.inUse (uni.cell i) = false := by
        rw [← (hCopied i (by omega)).1, ← hFree]
        simp [Memory.writeCell, Memory.setInUse, Memory.setRef, hOther i hLast]
      exact absurd (hComplete.2 i (by omega) hOld) (by simp)
  · intro array _ hArray
    refine (hFrame array hArray).trans fun a ha => ?_
    have hNe : a ≠ uni'.cell uni.count := fun hEq => hArray (by rw [← ha, hEq]; rfl)
    simp [Memory.writeCell, Memory.setInUse, Memory.setRef, Links.setNext, Links.setPrev, hNe]
  · intro i
    by_cases hLast : i = uni.count
    · subst hLast
      have hLt : uni.count < uni'.count := by omega
      simp [lookup, Memory.writeCell, Memory.setInUse, Memory.setRef, hLt]
    · simp only [lookup, hLast, false_and, if_false]
      by_cases hOld : i < uni.count
      · have hLt : i < uni'.count := by omega
        obtain ⟨hUse, hRef⟩ := hCopied i hOld
        simp [Memory.writeCell, Memory.setInUse, Memory.setRef, hOther i hLast, hOld, hLt, hUse, hRef]
      · have hGe : ¬i < uni'.count := by omega
        simp [hOld, hGe]
  · simp [lookup]
  · simp [Memory.writeCell, Memory.setInUse, Memory.setRef]
  · simp [Memory.writeCell, Memory.setRef]

theorem moveArray_copied (m junk : Memory) (old new copied : Nat) {i : Nat} (hi : i < copied) :
    (m.moveArray junk old new copied).inUse ⟨new, i⟩ = m.inUse ⟨old, i⟩ ∧
    (m.moveArray junk old new copied).refs ⟨new, i⟩ = m.refs ⟨old, i⟩ := by
  simp [Memory.moveArray, hi]

theorem moveArray_frame (m junk : Memory) (old copied : Nat) {new array : Nat} (h : array ≠ new) :
    SameIn array m (m.moveArray junk old new copied) := by
  intro a ha
  have hNe : a.array ≠ new := ha ▸ h
  simp [Memory.moveArray, hNe]

/-- `DYNARRAY_PUSH`, reached with an empty free list only. -/
theorem dynarrayPush_spec {heap : HeapAnswer} {m' : Memory} {uni' : UserUniverse}
    (hShape : Shape m uni []) (hPush : dynarrayPush m uni ref heap = some (m', uni')) :
    MovedIn m uni [] ref uni.count m' uni' [] ∧
    (uni'.cells = uni.cells ∨ heap.placement = some (.moved uni'.cells)) := by
  have hRefl : ∀ array, SameIn array m m := fun _ _ _ => ⟨rfl, rfl, rfl, rfl⟩
  have hFits := hShape.fits
  simp only [dynarrayPush, dynarrayGrowthDelta] at hPush
  split_ifs at hPush with hRoom
  · obtain ⟨rfl, rfl⟩ := Prod.mk.inj (Option.some.inj hPush)
    exact ⟨pushCell m { uni with count := uni.count + 1 } hShape rfl hRoom rfl rfl
      (fun _ _ => ⟨rfl, rfl⟩) fun array _ => hRefl array, Or.inl rfl⟩
  · split at hPush
    · cases hPush
    · obtain ⟨rfl, rfl⟩ := Prod.mk.inj (Option.some.inj hPush)
      exact ⟨pushCell m { uni with count := uni.count + 1, capacity := uni.capacity + 16 } hShape rfl
        (Nat.add_le_add hFits (by omega)) rfl rfl (fun _ _ => ⟨rfl, rfl⟩) fun array _ => hRefl array,
        Or.inl rfl⟩
    · rename_i array hMoved
      obtain ⟨rfl, rfl⟩ := Prod.mk.inj (Option.some.inj hPush)
      refine ⟨pushCell (m.moveArray heap.junk uni.cells array uni.capacity)
        { uni with cells := array, count := uni.count + 1, capacity := uni.capacity + 16 } hShape rfl
        (Nat.add_le_add hFits (by omega)) rfl rfl (fun i hi => ?_) fun other hOther => ?_,
        Or.inr hMoved⟩
      · exact moveArray_copied m heap.junk uni.cells array uni.capacity (by omega)
      · exact moveArray_frame m heap.junk uni.cells uni.capacity hOther

/-- `user_universe_move_in_nolock`, when it succeeds. -/
theorem userUniverseMoveInNolock_spec {st : Store} {heap : HeapAnswer} {h : Nat} {m' : Memory}
    {uni' : UserUniverse} (hShape : Shape st.toMemory uni nodes)
    (hOk : userUniverseMoveInNolock st uni ref heap = .ok (h, m', uni')) :
    violatesOrder st uni ref = false ∧
    (∃ nodes', MovedIn st.toMemory uni nodes ref h m' uni' nodes') ∧
    (uni'.cells = uni.cells ∨ heap.placement = some (.moved uni'.cells)) := by
  simp only [userUniverseMoveInNolock] at hOk
  split_ifs at hOk with hOrder
  refine ⟨by simpa using hOrder, ?_⟩
  cases nodes with
  | nil =>
      rw [hShape.list.removeHead_nil] at hOk
      simp only at hOk
      split at hOk
      · cases hOk
      · rename_i m'' uni'' hPush
        cases hOk
        obtain ⟨hMoved, hArray⟩ := dynarrayPush_spec hShape hPush
        exact ⟨⟨[], hMoved⟩, hArray⟩
  | cons node rest =>
      obtain ⟨hHead, hMoved⟩ := takeFreeCell ref hShape
      revert hOk hHead hMoved
      rcases uni.freeList.removeHead st.links with ⟨first, freeList, links⟩
      rintro hOk rfl hMoved
      cases hOk
      exact ⟨⟨rest, hMoved⟩, Or.inl rfl⟩

end MoveIn

section FreeCell

variable {st : Store} {uni : UserUniverse} {nodes : List CellAddr} {u cell : Nat}

/-- The memory and the universe after `freeCell`. -/
def freedMemory (m : Memory) (uni : UserUniverse) (cell : Nat) : Memory :=
  { m.setInUse (uni.cell cell) false with links := (uni.freeList.appendTail m.links (uni.cell cell)).2 }

def freedUniverse (m : Memory) (uni : UserUniverse) (cell : Nat) : UserUniverse :=
  { uni with freeList := (uni.freeList.appendTail m.links (uni.cell cell)).1 }

theorem freeCell_eq (st : Store) (u : Nat) (uni : UserUniverse) (cell : Nat) :
    st.freeCell u uni cell =
      st.put u (freedMemory st.toMemory uni cell) (freedUniverse st.toMemory uni cell) := rfl

theorem checkRef_iff : userUniverseCheckRefNolock st uni cell = true ↔
    cell ≤ uni.count ∧ st.inUse (uni.cell cell) = true := by
  simp only [userUniverseCheckRefNolock]
  by_cases hBig : cell > uni.count
  · have hNot : ¬cell ≤ uni.count := by omega
    simp [hBig, hNot]
  · have hLe : cell ≤ uni.count := by omega
    by_cases hUse : st.inUse (uni.cell cell) = true <;> simp [hLe, hUse]

variable {m : Memory}

theorem freedMemory_inUse (m : Memory) (uni : UserUniverse) (cell i : Nat) : (freedMemory m uni cell).inUse (uni.cell i) =
    if i = cell then false else m.inUse (uni.cell i) := by
  by_cases hEq : i = cell
  · simp [freedMemory, Memory.setInUse, hEq]
  · have hNe : uni.cell i ≠ uni.cell cell := fun h => hEq (UserUniverse.cell_inj h)
    simp [freedMemory, Memory.setInUse, hEq, hNe]

/-- A cell that is in use goes to the end of the free list. -/
theorem Shape.free (hShape : Shape m uni nodes) (hUse : m.inUse (uni.cell cell) = true) :
    Shape (freedMemory m uni cell) (freedUniverse m uni cell) (nodes ++ [uni.cell cell]) := by
  have hNew : uni.cell cell ∉ nodes := by
    intro hMem
    rw [(hShape.own _ hMem).2] at hUse
    cases hUse
  refine ⟨hShape.list.appendTail hNew, ?_, hShape.fits⟩
  intro a ha
  rcases List.mem_append.mp ha with ha | ha
  · obtain ⟨hArray, hFree⟩ := hShape.own a ha
    have hNe : a ≠ uni.cell cell := fun hEq => hNew (hEq ▸ ha)
    exact ⟨hArray, by simpa [freedMemory, Memory.setInUse, hNe] using hFree⟩
  · rw [List.mem_singleton.mp ha]
    exact ⟨rfl, by simp [freedMemory, Memory.setInUse]⟩

theorem Complete.free (hComplete : Complete m uni nodes) (hLt : cell < uni.count) :
    Complete (freedMemory m uni cell) (freedUniverse m uni cell) (nodes ++ [uni.cell cell]) := by
  refine ⟨fun a ha => ?_, fun i hi hFree => ?_⟩
  · rcases List.mem_append.mp ha with ha | ha
    · exact hComplete.1 a ha
    · rw [List.mem_singleton.mp ha]
      exact hLt
  · have hFree' : (freedMemory m uni cell).inUse (uni.cell i) = false := hFree
    rw [freedMemory_inUse] at hFree'
    by_cases hEq : i = cell
    · subst hEq
      exact List.mem_append_right _ (List.mem_singleton.mpr rfl)
    · rw [if_neg hEq] at hFree'
      exact List.mem_append_left _ (hComplete.2 i hi hFree')

theorem freedMemory_frame (hShape : Shape m uni nodes) {array : Nat} (h : array ≠ uni.cells) :
    SameIn array m (freedMemory m uni cell) := by
  intro a ha
  have hNe : a ≠ uni.cell cell := fun hEq => h (by rw [← ha, hEq]; rfl)
  have hOut : a ∉ nodes := fun hMem => h (ha.symm.trans (hShape.own a hMem).1)
  obtain ⟨hNext, hPrev⟩ := hShape.list.appendTail_frame hOut hNe
  exact ⟨hNext, hPrev, by simp [freedMemory, Memory.setInUse, hNe], rfl⟩

theorem lookup_freed (m : Memory) (uni : UserUniverse) (cell i : Nat) :
    lookup (freedMemory m uni cell) (freedUniverse m uni cell) i =
      if i = cell then none else lookup m uni i := by
  have hCell : (freedUniverse m uni cell).cell i = uni.cell i := rfl
  have hCount : (freedUniverse m uni cell).count = uni.count := rfl
  have hRefs : (freedMemory m uni cell).refs = m.refs := rfl
  simp only [lookup, hCell, hCount, hRefs, freedMemory_inUse]
  by_cases hEq : i = cell <;> simp [hEq]

end FreeCell

section SetPin

variable {m : Memory} {uni : UserUniverse} {nodes : List CellAddr} {ref : UserRef}

theorem Shape.setRef (h : Shape m uni nodes) (a : CellAddr) : Shape (m.setRef a ref) uni nodes :=
  ⟨h.list, h.own, h.fits⟩

theorem setRef_frame (m : Memory) (ref : UserRef) {a : CellAddr} {array : Nat} (h : array ≠ a.array) :
    SameIn array m (m.setRef a ref) := by
  intro b hb
  have hNe : b ≠ a := fun hEq => h (by rw [← hb, hEq])
  simp [Memory.setRef, hNe]

theorem lookup_setRef (m : Memory) (uni : UserUniverse) (cell i : Nat) (ref : UserRef) :
    lookup (m.setRef (uni.cell cell) ref) uni i =
      if i = cell then (lookup m uni i).map fun _ => ref else lookup m uni i := by
  by_cases hEq : i = cell
  · subst hEq
    simp only [lookup, if_true]
    split_ifs with hIn hIn' <;> simp_all [Memory.setRef]
  · have hNe : uni.cell i ≠ uni.cell cell := fun h => hEq (UserUniverse.cell_inj h)
    simp [lookup, Memory.setRef, hEq, hNe]

end SetPin

section Fork

variable (m : Memory) (src dst : Nat) (cookie : UserEntryCookie)

/-- Cell `i` of the source is copied. -/
def forks (i : Nat) : Bool := m.inUse ⟨src, i⟩ && userUnpinnedFor (m.refs ⟨src, i⟩) cookie

/-- The loop of `user_universe_fork` after its first `k` iterations. -/
structure ForkedUpTo (refcount : Nat → Nat) (k : Nat) (f : Forked) (nodes : List CellAddr) :
    Prop where
  list : Represents f.links f.freeList nodes
  mem_nodes : ∀ a, a ∈ nodes ↔ a.array = dst ∧ a.index < k ∧ forks m src cookie a.index = false
  inUse_eq : ∀ i < k, f.inUse ⟨dst, i⟩ = forks m src cookie i
  refs_eq : ∀ i < k, forks m src cookie i = true → f.refs ⟨dst, i⟩ = m.refs ⟨src, i⟩
  frame : ∀ array, array ≠ dst → SameIn array m f.toMemory
  refcount_eq : ∀ o, f.refcount o = refcount o + (List.range k).countP fun i =>
    forks m src cookie i && (m.refs ⟨src, i⟩).ref = o

variable {m src dst cookie}

theorem ForkedUpTo.step {refcount : Nat → Nat} {k : Nat} {f : Forked} {nodes : List CellAddr}
    (h : ForkedUpTo m src dst cookie refcount k f nodes) (hNe : src ≠ dst) :
    ∃ nodes', ForkedUpTo m src dst cookie refcount (k + 1) (forkCell src dst cookie f k) nodes' := by
  obtain ⟨-, -, hUse, hRef⟩ := h.frame src hNe ⟨src, k⟩ rfl
  have hForks : (f.inUse ⟨src, k⟩ && userUnpinnedFor (f.refs ⟨src, k⟩) cookie) =
      forks m src cookie k := by
    rw [hUse, hRef, forks]
  have hOther : ∀ i < k, (⟨dst, i⟩ : CellAddr) ≠ ⟨dst, k⟩ := fun i hi hEq => by
    have hIndex : i = k := congrArg CellAddr.index hEq
    omega
  simp only [forkCell, hForks]
  cases hCase : forks m src cookie k with
  | true =>
      simp only [if_true]
      refine ⟨nodes, h.list, ?_, ?_, ?_, ?_, ?_⟩
      · intro a
        rw [h.mem_nodes]
        constructor
        · rintro ⟨hArray, hLt, hNot⟩
          exact ⟨hArray, by omega, hNot⟩
        · rintro ⟨hArray, hLt, hNot⟩
          have hIndex : a.index ≠ k := fun hEq => by rw [hEq, hCase] at hNot; cases hNot
          exact ⟨hArray, by omega, hNot⟩
      · intro i hi
        rcases Nat.lt_succ_iff_lt_or_eq.mp hi with hLt | rfl
        · simpa [Memory.setInUse, Memory.setRef, hOther i hLt] using h.inUse_eq i hLt
        · simp [Memory.setInUse, hCase]
      · intro i hi hCopied
        rcases Nat.lt_succ_iff_lt_or_eq.mp hi with hLt | rfl
        · simpa [Memory.setInUse, Memory.setRef, hOther i hLt] using h.refs_eq i hLt hCopied
        · simp [Memory.setInUse, Memory.setRef, hRef]
      · intro array hArray
        refine (h.frame array hArray).trans fun a ha => ?_
        have hNot : a ≠ ⟨dst, k⟩ := fun hEq => hArray (by rw [← ha, hEq])
        simp [Memory.setInUse, Memory.setRef, hNot]
      · intro o
        rw [List.range_succ, List.countP_append, List.countP_cons, List.countP_nil, hCase, ← hRef]
        by_cases hObj : o = (f.refs ⟨src, k⟩).ref
        · subst hObj
          simp [h.refcount_eq]
          omega
        · simp [Function.update_of_ne hObj, h.refcount_eq, Ne.symm hObj]
  | false =>
      simp only [Bool.false_eq_true, if_false]
      have hNew : (⟨dst, k⟩ : CellAddr) ∉ nodes := by
        rw [h.mem_nodes]
        simp
      refine ⟨nodes ++ [(⟨dst, k⟩ : CellAddr)], h.list.appendTail hNew, ?_, ?_, ?_, ?_, ?_⟩
      · intro a
        rw [List.mem_append, h.mem_nodes, List.mem_singleton]
        constructor
        · rintro (⟨hArray, hLt, hNot⟩ | rfl)
          · exact ⟨hArray, by omega, hNot⟩
          · exact ⟨rfl, Nat.lt_succ_self _, hCase⟩
        · rintro ⟨hArray, hLt, hNot⟩
          rcases Nat.lt_succ_iff_lt_or_eq.mp hLt with hLt | hEq
          · exact Or.inl ⟨hArray, hLt, hNot⟩
          · right
            obtain ⟨array, index⟩ := a
            simp only at hArray hEq
            rw [hArray, hEq]
      · intro i hi
        rcases Nat.lt_succ_iff_lt_or_eq.mp hi with hLt | rfl
        · simpa [Memory.setInUse, hOther i hLt] using h.inUse_eq i hLt
        · simp [Memory.setInUse, hCase]
      · intro i hi hCopied
        rcases Nat.lt_succ_iff_lt_or_eq.mp hi with hLt | rfl
        · exact h.refs_eq i hLt hCopied
        · rw [hCase] at hCopied
          cases hCopied
      · intro array hArray
        refine (h.frame array hArray).trans fun a ha => ?_
        have hNot : a ≠ ⟨dst, k⟩ := fun hEq => hArray (by rw [← ha, hEq])
        have hOut : a ∉ nodes := fun hMem => hArray (ha.symm.trans ((h.mem_nodes a).mp hMem).1)
        obtain ⟨hNext, hPrev⟩ := h.list.appendTail_frame hOut hNot
        exact ⟨hNext, hPrev, by simp [Memory.setInUse, hNot], rfl⟩
      · intro o
        rw [List.range_succ, List.countP_append, List.countP_cons, List.countP_nil, hCase]
        simpa using h.refcount_eq o

theorem forkedUpTo_run (cookie : UserEntryCookie) (init : Forked) (hEmpty : init.freeList = DList.empty)
    (hFrame : ∀ array, array ≠ dst → SameIn array m init.toMemory) (hNe : src ≠ dst) (k : Nat) :
    ∃ nodes, ForkedUpTo m src dst cookie init.refcount k
      ((List.range k).foldl (forkCell src dst cookie) init) nodes := by
  induction k with
  | zero =>
      refine ⟨[], ?_, by simp, by simp, by simp, hFrame, by simp⟩
      simpa [hEmpty] using Represents.empty init.links
  | succ k ih =>
      obtain ⟨nodes, h⟩ := ih
      rw [List.range_succ, List.foldl_append]
      exact h.step hNe

end Fork

end Ricerca.Universe
