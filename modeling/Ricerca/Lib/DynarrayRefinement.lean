import Ricerca.Lib.Dynarray

/-! Dynamic arrays refine lists. What is held of the heap and what the metadata says stay
together through every change of the capacity: the block is that of the capacity, whether it
has moved or not, and the elements that fit are the old ones. -/
namespace Ricerca.Dynarray

open Ricerca.Foundation Ricerca.Heap

/-- The bytes of one element. -/
def elementAt (mem : Nat → Nat) (metadata len i : Nat) : List UInt8 :=
  bytesAt mem (metadata + (dynarrayMetaSize + i * len)) len

/-- A block of the heap that has room for the capacity in its metadata. -/
structure Holding (win count len : Nat) (s : State) (metadata capacity : Nat) : Prop where
  sound : ∃ g, Sound win count s g
  held : (metadata, dynarrayMetaSize + capacity * len) ∈ s.live
  recorded : sizeAt s.mem (metadata + 8) = capacity
  small : dynarrayMetaSize + capacity * len < 2 ^ 64

/-- The first elements of the array are those of the list. -/
structure Represents (win count len : Nat) (s : State) (metadata capacity : Nat)
    (xs : List (List UInt8)) : Prop extends Holding win count len s metadata capacity where
  length : sizeAt s.mem metadata = xs.length
  room : xs.length ≤ capacity
  elements : ∀ (i : Nat) (h : i < xs.length), elementAt s.mem metadata len i = xs[i]

section Words

variable {win count len metadata capacity a v x i j : Nat} {s : State} {mem mem' : Nat → Nat}

theorem sizeAt_setSize : sizeAt (setSize s a v).mem a = v % 2 ^ 64 := by
  simp [sizeAt, setSize]

theorem mem_setSize (hNe : x ≠ a) : (setSize s a v).mem x = s.mem x :=
  Function.update_of_ne hNe _ _

theorem totalSize_eq (hSmall : dynarrayMetaSize + capacity * len < 2 ^ 64) :
    totalSize capacity len = dynarrayMetaSize + capacity * len := Nat.mod_eq_of_lt hSmall

theorem Holding.aligned (hHolding : Holding win count len s metadata capacity) :
    metadata % 16 = 0 := by
  obtain ⟨g, hSound⟩ := hHolding.sound
  exact hSound.aligned _ hHolding.held

/-- The block reaches at least to the end of the last slot. -/
theorem Holding.contains (hHolding : Holding win count len s metadata capacity)
    (hIn : x < dynarrayMetaSize + capacity * len) :
    (classBlock (metadata, dynarrayMetaSize + capacity * len)).Contains (metadata + x) := by
  obtain ⟨g, hSound⟩ := hHolding.sound
  refine ⟨Nat.le_add_right .., Nat.add_lt_add_left ?_ metadata⟩
  exact Nat.lt_of_lt_of_le hIn (hSound.fits hHolding.held)

/-- Writes to the block that leave the capacity alone. -/
theorem Holding.write (hHolding : Holding win count len s metadata capacity)
    (hOutside : ∀ x, ¬(classBlock (metadata, dynarrayMetaSize + capacity * len)).Contains x →
      mem' x = s.mem x) (hCapacity : sizeAt mem' (metadata + 8) = capacity) :
    Holding win count len { s with mem := mem' } metadata capacity := by
  obtain ⟨g, hSound⟩ := hHolding.sound
  refine ⟨⟨g, hSound.store fun x _ hFree => ?_⟩, hHolding.held, hCapacity, hHolding.small⟩
  exact hOutside x (hFree _ hHolding.held)

/-- Elements are behind the words of the metadata. -/
theorem elementAt_congr (hAligned : metadata % 16 = 0)
    (hSame : ∀ x, metadata + dynarrayMetaSize ≤ x → mem' x = mem x) :
    elementAt mem' metadata len i = elementAt mem metadata len i := by
  apply bytesAt_congr
  intro k _
  apply byteAt_congr
  apply hSame
  simp only [wordAddr, dynarrayMetaSize]
  omega

/-- Setting a word of the metadata. -/
theorem elementAt_setSize (hAligned : metadata % 16 = 0) (hWord : a < metadata + dynarrayMetaSize) :
    elementAt (setSize s a v).mem metadata len i = elementAt s.mem metadata len i :=
  elementAt_congr hAligned fun _ hx => mem_setSize (by omega)

theorem Holding.setCount (hHolding : Holding win count len s metadata capacity) (v : Nat) :
    Holding win count len (setSize s metadata v) metadata capacity := by
  refine hHolding.write (fun x hOut => mem_setSize ?_) ?_
  · rintro rfl
    exact hOut (Block.contains_addr _)
  · have hCapacity := hHolding.recorded
    rwa [sizeAt, Function.update_of_ne (by omega)]

/-- Different elements do not overlap. -/
theorem slot_lt (hLt : i < j) (len : Nat) : i * len + len ≤ j * len := by
  have hMul := Nat.mul_le_mul_right len hLt
  rwa [Nat.succ_mul] at hMul

end Words

section Append

variable {win count len metadata capacity : Nat} {s : State} {xs : List (List UInt8)}
  {elem : List UInt8}

/-- One more element in a block with room for it. -/
theorem Holding.append (hHolding : Holding win count len s metadata capacity)
    (hLength : sizeAt s.mem metadata = xs.length) (hRoom : xs.length < capacity)
    (hElements : ∀ (i : Nat) (h : i < xs.length), elementAt s.mem metadata len i = xs[i])
    (hElem : elem.length = len) :
    Represents win count len (appendElement s metadata elem) metadata capacity (xs ++ [elem]) := by
  subst hElem
  have hAligned := hHolding.aligned
  have hSmall := hHolding.small
  have hSlot := slot_lt hRoom elem.length
  have hOffset : sizeAt s.mem metadata * elem.length % 2 ^ 64 = xs.length * elem.length := by
    rw [hLength]
    exact Nat.mod_eq_of_lt (by omega)
  have hCount : (xs.length + 1) % 2 ^ 64 = xs.length + 1 := by
    have hWord : xs.length < 2 ^ 64 := hLength ▸ Nat.mod_lt _ (by omega)
    have hCapacity : capacity < 2 ^ 64 := hHolding.recorded ▸ Nat.mod_lt _ (by omega)
    exact Nat.mod_eq_of_lt (by omega)
  obtain ⟨g, hSound⟩ := hHolding.sound
  have hFits : dynarrayMetaSize + xs.length * elem.length + elem.length ≤
      (classBlock (metadata, dynarrayMetaSize + capacity * elem.length)).size := by
    have hBlock : _ ≤ _ := hSound.fits hHolding.held
    simp only at hBlock
    omega
  let mem := storeBytes s.mem (metadata + (dynarrayMetaSize + xs.length * elem.length)) elem
  -- The element goes behind the metadata.
  have hMeta : ∀ w, w < metadata + dynarrayMetaSize → mem w = s.mem w := by
    intro w hw
    apply storeBytes_word
    intro k _
    simp only [wordAddr, dynarrayMetaSize] at *
    omega
  have hStored : Holding win count elem.length { s with mem := mem } metadata capacity := by
    refine hHolding.write (fun w hOut => ?_) ?_
    · exact storeBytes_outside (p := (metadata, _)) hAligned hFits hOut
    · rw [sizeAt, hMeta _ (by simp [dynarrayMetaSize])]
      exact hHolding.recorded
  have hNow : sizeAt mem metadata = xs.length := by
    rw [sizeAt, hMeta _ (by simp [dynarrayMetaSize])]
    exact hLength
  have hAppend : appendElement s metadata elem =
      setSize { s with mem := mem } metadata (xs.length + 1) := by
    simp only [appendElement, hOffset]
    exact congrArg (fun n => setSize { s with mem := mem } metadata (n + 1)) hNow
  rw [hAppend]
  refine ⟨hStored.setCount _, ?_, ?_, ?_⟩
  · rw [sizeAt_setSize, hCount, List.length_append, List.length_singleton]
  · rw [List.length_append, List.length_singleton]
    exact hRoom
  · intro i hIndex
    rw [elementAt_setSize hAligned (by simp [dynarrayMetaSize])]
    rw [List.length_append, List.length_singleton] at hIndex
    rcases Nat.eq_or_lt_of_le (Nat.le_of_lt_succ hIndex) with rfl | hOld
    · rw [List.getElem_append_right (Nat.le_refl _)]
      simp only [Nat.sub_self, List.getElem_singleton]
      exact bytesAt_storeBytes
    · rw [List.getElem_append_left hOld, ← hElements i hOld]
      apply bytesAt_congr
      intro k hk
      have hBefore := slot_lt hOld elem.length
      exact byteAt_storeBytes_outside (.inl (by omega))

/-- The array with another number of elements. The slots behind the old ones have whatever is in
them. -/
theorem Holding.resize (hHolding : Holding win count len s metadata capacity) {newsize : Nat}
    (hRoom : newsize ≤ capacity) :
    Represents win count len (setSize s metadata newsize) metadata capacity
      ((List.range newsize).map (elementAt s.mem metadata len)) := by
  have hWord : capacity < 2 ^ 64 := hHolding.recorded ▸ Nat.mod_lt _ (by omega)
  refine ⟨hHolding.setCount _, ?_, by simpa using hRoom, fun i hIndex => ?_⟩
  · rw [sizeAt_setSize, List.length_map, List.length_range]
    exact Nat.mod_eq_of_lt (by omega)
  · rw [elementAt_setSize hHolding.aligned (by simp [dynarrayMetaSize])]
    simp

end Append

section Capacity

variable {win count len metadata capacity newcap id : Nat} {s s' : State}
  {pmm : Nat → Option Nat} {result : Option Nat} {mem mem' : Nat → Nat} {a x n i : Nat}

theorem byteAt_of_bytesAt (hSame : bytesAt mem' x n = bytesAt mem a n) (hIndex : i < n) :
    byteAt mem' (x + i) = byteAt mem (a + i) := by
  have hByte := congrArg (fun bytes => bytes[i]?) hSame
  simpa [bytesAt, hIndex] using hByte

/-- A change of the capacity that failed has changed nothing. Otherwise there is room for what was
asked, the number of elements is in its place, and the elements that fit are the old ones. -/
def Changed (win count len : Nat) (s : State) (metadata capacity newcap : Nat) :
    Option Nat → State → Prop
  | none, s' => s' = s
  | some newMeta, s' => ∃ capacity', newcap ≤ capacity' ∧
      Holding win count len s' newMeta capacity' ∧
      sizeAt s'.mem newMeta = sizeAt s.mem metadata ∧
      ∀ i, i < capacity → i < newcap →
        elementAt s'.mem newMeta len i = elementAt s.mem metadata len i

/-- Every way in which the capacity may change. Where a smaller block cannot be had the old one
stays, and the old capacity is in force. -/
theorem Holding.changeCap (hWin : 0 < win) (hBase : memHeapSlabSize ∣ win)
    (hHolding : Holding win count len s metadata capacity) (hWord : newcap < 2 ^ 64)
    (hSmall : dynarrayMetaSize + newcap * len < 2 ^ 64)
    (hPhys : ∀ i addr, pmm i = some addr →
      PageGrant win s.phys (physRequest (totalSize newcap len)) addr)
    (hCall : dynarrayChangeCap win s metadata len newcap id pmm = (result, s')) :
    Changed win count len s metadata capacity newcap result s' := by
  obtain ⟨g, hSound⟩ := hHolding.sound
  rcases hRealloc : memHeapRealloc win s.toKernelHeap metadata (totalSize newcap len)
    (totalSize capacity len) id pmm with ⟨outcome, h⟩
  simp only [dynarrayChangeCap, realloc, hHolding.recorded, hRealloc] at hCall
  have hLive : (metadata, totalSize capacity len) ∈ s.live := by
    rw [totalSize_eq hHolding.small]
    exact hHolding.held
  have hPositive : 0 < totalSize newcap len := by
    rw [totalSize_eq hSmall]
    simp only [dynarrayMetaSize]
    omega
  have hOutcome := hSound.realloc hWin hBase hLive hPositive hPhys hRealloc
  cases outcome with
  | none =>
      rw [Reallocated] at hOutcome
      subst hOutcome
      obtain ⟨rfl, rfl⟩ := Prod.mk.inj hCall
      simp only [reallocLive, hHolding.recorded]
      split_ifs with hSmaller
      · exact ⟨capacity, hSmaller, hHolding, rfl, fun _ _ _ => rfl⟩
      · rfl
  | some newMeta =>
      obtain ⟨rfl, rfl⟩ := Prod.mk.inj hCall
      obtain ⟨g', hMoved, hData, -⟩ := hOutcome
      rw [totalSize_eq hHolding.small, totalSize_eq hSmall] at hMoved hData
      simp only [reallocLive, totalSize_eq hHolding.small, totalSize_eq hSmall]
      have hAligned : newMeta % 16 = 0 := hMoved.aligned _ (List.mem_cons_self ..)
      have hOldAligned := hHolding.aligned
      -- Only the word of the capacity is written to the block that has been moved.
      have hKept : ∀ w, w ≠ newMeta + 8 →
          Function.update h.mem (newMeta + 8) (newcap % 2 ^ 64) w = h.mem w :=
        fun w hNe => Function.update_of_ne hNe _ _
      refine ⟨newcap, Nat.le_refl _, ⟨⟨g', hMoved.store fun x _ hFree => hKept x ?_⟩,
        List.mem_cons_self .., ?_, hSmall⟩, ?_, fun i hOld hNew => ?_⟩
      · rintro rfl
        refine hFree _ (List.mem_cons_self ..) ⟨Nat.le_add_right .., Nat.add_lt_add_left ?_ newMeta⟩
        have hFits : _ ≤ _ := hMoved.fits (List.mem_cons_self ..)
        simp only [dynarrayMetaSize] at hFits ⊢
        omega
      · rw [sizeAt_setSize]
        exact Nat.mod_eq_of_lt hWord
      · rw [sizeAt, mem_setSize (by omega)]
        refine word_eq_of_byteAt (by omega) (by omega) fun k hk => byteAt_of_bytesAt hData ?_
        simp only [dynarrayMetaSize]
        omega
      · rw [elementAt_setSize hAligned (by simp [dynarrayMetaSize])]
        have hSlotOld := slot_lt hOld len
        have hSlotNew := slot_lt hNew len
        refine bytesAt_congr fun k hk => ?_
        have hShift : ∀ m,
            m + (dynarrayMetaSize + i * len) + k = m + (dynarrayMetaSize + i * len + k) :=
          fun m => Nat.add_assoc ..
        rw [hShift, hShift]
        exact byteAt_of_bytesAt hData (by omega)

end Capacity

section Steps

variable {win count len metadata capacity id : Nat} {c : Client} {s : State}
  {pmm : Nat → Option Nat} {result : Option Nat} {xs : List (List UInt8)}

/-- The dynarray of the client has the elements of the list. -/
def Simulates (win count len : Nat) (c : Client) (xs : List (List UInt8)) : Prop :=
  ∃ metadata capacity, c.dynarray = metadata + dynarrayMetaSize ∧
    Represents win count len c.toState metadata capacity xs

@[simp] theorem dynarrayToMeta_add (metadata : Nat) :
    dynarrayToMeta (metadata + dynarrayMetaSize) = metadata := Nat.add_sub_cancel ..

theorem Represents.push (hWin : 0 < win) (hBase : memHeapSlabSize ∣ win)
    (hRep : Represents win count len s metadata capacity xs) {elem : List UInt8}
    (hElem : elem.length = len)
    (hSlots : capacity ≤ xs.length → capacity + dynarrayGrowthDelta < 2 ^ 64)
    (hFits : capacity ≤ xs.length →
      dynarrayMetaSize + (capacity + dynarrayGrowthDelta) * len < 2 ^ 64)
    (hPhys : ∀ i addr, pmm i = some addr →
      PageGrant win s.phys (physRequest (totalSize (capacity + dynarrayGrowthDelta) len)) addr)
    {s' : State}
    (hPush : dynarrayPush win s (metadata + dynarrayMetaSize) elem id pmm = (result, s')) :
    ∃ xs', ListStep xs (.push elem result) xs' ∧
      Simulates win count len ⟨s', result.getD (metadata + dynarrayMetaSize)⟩ xs' := by
  simp only [dynarrayPush, dynarrayToMeta_add, hRep.recorded, hRep.length, hElem] at hPush
  split_ifs at hPush with hFree
  · obtain ⟨rfl, rfl⟩ := Prod.mk.inj hPush
    exact ⟨_, .push, metadata, capacity, rfl,
      hRep.toHolding.append hRep.length hFree hRep.elements hElem⟩
  · have hFull := Nat.le_of_not_lt hFree
    have hWord := hSlots hFull
    rw [Nat.mod_eq_of_lt hWord] at hPush
    rcases hCall : dynarrayChangeCap win s metadata len (capacity + dynarrayGrowthDelta) id pmm
      with ⟨outcome, s₁⟩
    rw [hCall] at hPush
    have hChanged := hRep.toHolding.changeCap hWin hBase hWord (hFits hFull) hPhys hCall
    have hRoom := hRep.room
    cases outcome with
    | none =>
        obtain ⟨rfl, rfl⟩ := Prod.mk.inj hPush
        rw [Changed] at hChanged
        subst hChanged
        exact ⟨xs, .pushFails, metadata, capacity, rfl, hRep⟩
    | some newMeta =>
        obtain ⟨rfl, rfl⟩ := Prod.mk.inj hPush
        obtain ⟨capacity', hMore, hMoved, hLength, hElements⟩ := hChanged
        simp only [dynarrayGrowthDelta] at hMore hElements
        refine ⟨_, .push, newMeta, capacity', rfl, hMoved.append (hLength.trans hRep.length)
          (by omega) (fun i hIndex => ?_) hElem⟩
        rw [hElements i (by omega) (by omega)]
        exact hRep.elements i hIndex

theorem le_newCapacity {newsize : Nat} (hSlots : newsize + (dynarrayGrowthDelta - 1) < 2 ^ 64) :
    newsize ≤ newCapacity newsize ∧ newCapacity newsize < 2 ^ 64 := by
  rw [newCapacity, Nat.mod_eq_of_lt hSlots]
  simp only [alignDown, dynarrayGrowthDelta] at *
  omega

/-- Elements below both lengths are kept. -/
theorem Represents.resized {s' : State} {newMeta capacity' newsize dynarray : Nat}
    (hRep : Represents win count len s metadata capacity xs)
    (hHolding : Holding win count len s' newMeta capacity') (hRoom : newsize ≤ capacity')
    (hElements : ∀ i, i < capacity → i < newsize →
      elementAt s'.mem newMeta len i = elementAt s.mem metadata len i) :
    ∃ xs', ListStep xs (.resize newsize (some dynarray)) xs' ∧
      Represents win count len (setSize s' newMeta newsize) newMeta capacity' xs' := by
  refine ⟨_, .resize (by simp) ?_, hHolding.resize hRoom⟩
  apply List.ext_getElem
  · simp
  · intro i hLeft hRight
    simp only [List.length_take, List.length_map, List.length_range] at hLeft
    have hIndex : i < xs.length := by omega
    have hBelow := hRep.room
    simp only [List.getElem_take, List.getElem_map, List.getElem_range]
    rw [hElements i (by omega) (by omega)]
    exact hRep.elements i hIndex

theorem Represents.resize (hWin : 0 < win) (hBase : memHeapSlabSize ∣ win)
    (hRep : Represents win count len s metadata capacity xs) {newsize : Nat}
    (hSlots : newsize + (dynarrayGrowthDelta - 1) < 2 ^ 64)
    (hFits : dynarrayMetaSize + newCapacity newsize * len < 2 ^ 64)
    (hPhys : ∀ i addr, pmm i = some addr →
      PageGrant win s.phys (physRequest (totalSize (newCapacity newsize) len)) addr) {s' : State}
    (hResize : dynarrayResize win s (metadata + dynarrayMetaSize) len newsize id pmm =
      (result, s')) :
    ∃ xs', ListStep xs (.resize newsize result) xs' ∧
      Simulates win count len ⟨s', result.getD (metadata + dynarrayMetaSize)⟩ xs' := by
  obtain ⟨hLe, hWord⟩ := le_newCapacity hSlots
  simp only [dynarrayResize, dynarrayToMeta_add, hRep.recorded] at hResize
  split_ifs at hResize with hSame
  · obtain ⟨rfl, rfl⟩ := Prod.mk.inj hResize
    obtain ⟨xs', hList, hNext⟩ :=
      hRep.resized hRep.toHolding (hSame ▸ hLe) fun _ _ _ => rfl
    exact ⟨xs', hList, metadata, capacity, rfl, hNext⟩
  · rcases hCall : dynarrayChangeCap win s metadata len (newCapacity newsize) id pmm
      with ⟨outcome, s₁⟩
    rw [hCall] at hResize
    have hChanged := hRep.toHolding.changeCap hWin hBase hWord hFits hPhys hCall
    cases outcome with
    | none =>
        obtain ⟨rfl, rfl⟩ := Prod.mk.inj hResize
        rw [Changed] at hChanged
        subst hChanged
        exact ⟨xs, .resizeFails, metadata, capacity, rfl, hRep⟩
    | some newMeta =>
        obtain ⟨rfl, rfl⟩ := Prod.mk.inj hResize
        obtain ⟨capacity', hMore, hMoved, -, hElements⟩ := hChanged
        obtain ⟨xs', hList, hNext⟩ := hRep.resized hMoved (Nat.le_trans hLe hMore)
          fun i hOld hNew => hElements i hOld (Nat.lt_of_lt_of_le hNew hLe)
        exact ⟨xs', hList, newMeta, capacity', rfl, hNext⟩

theorem Represents.destroyed (hRep : Represents win count len s metadata capacity xs) :
    Dynarray.destroyed s.mem (metadata + dynarrayMetaSize) len =
      (metadata, dynarrayMetaSize + capacity * len) := by
  rw [Dynarray.destroyed, dynarrayToMeta_add, hRep.recorded, totalSize_eq hRep.small]

/-- What others do with the heap does not reach the array. -/
theorem Represents.other (hWin : 0 < win) (hBase : memHeapSlabSize ∣ win)
    (hRep : Represents win count len s metadata capacity xs) {event : ReallocEvent} {s' : State}
    (hStep : ReallocStep win s event s') (hNames : ¬event.Names metadata)
    (hStore : event = .store → ∀ x,
      (classBlock (metadata, dynarrayMetaSize + capacity * len)).Contains x →
        s'.mem x = s.mem x) :
    Represents win count len s' metadata capacity xs := by
  obtain ⟨g, hSound⟩ := hRep.sound
  obtain ⟨hHeld, hSame⟩ := hSound.step_spares hWin hBase hStep hRep.held hNames hStore
  obtain ⟨g', hSound'⟩ := hSound.step hWin hBase hStep
  have hWord : ∀ x, x < dynarrayMetaSize + capacity * len → s'.mem (metadata + x) =
      s.mem (metadata + x) := fun x hx => hSame _ (hRep.toHolding.contains hx)
  have hSlots : dynarrayMetaSize ≤ dynarrayMetaSize + capacity * len := Nat.le_add_right ..
  simp only [dynarrayMetaSize] at hSlots
  refine ⟨⟨⟨g', hSound'⟩, hHeld, ?_, hRep.small⟩, ?_, hRep.room, fun i hIndex => ?_⟩
  · rw [sizeAt, hWord 8 (by simp only [dynarrayMetaSize]; omega)]
    exact hRep.recorded
  · have hFirst := hWord 0 (by simp only [dynarrayMetaSize]; omega)
    rw [Nat.add_zero] at hFirst
    rw [sizeAt, hFirst]
    exact hRep.length
  · rw [← hRep.elements i hIndex]
    have hSlot := slot_lt (Nat.lt_of_lt_of_le hIndex hRep.room) len
    refine bytesAt_congr fun k hk => byteAt_congr (hSame _ ?_)
    apply wordAddr_mem (hSound.aligned _ hRep.held)
    rw [Nat.add_assoc]
    exact hRep.toHolding.contains (by omega)

theorem Simulates.step (hWin : 0 < win) (hBase : memHeapSlabSize ∣ win) {event : Event}
    {c' : Client} (hSim : Simulates win count len c xs) (hStep : Step win len c event c') :
    ∃ xs', ListStep xs event xs' ∧ Simulates win count len c' xs' := by
  obtain ⟨metadata, capacity, hAddr, hRep⟩ := hSim
  have hCapacity := hRep.recorded
  cases hStep with
  | push hElem hFits hSlots hPhys hPush =>
      rw [hAddr] at hFits hSlots hPhys hPush ⊢
      rw [Full, dynarrayLen, dynarrayToMeta_add, hCapacity, hRep.length] at hFits hSlots
      simp only [dynarrayToMeta_add, hCapacity] at hPhys
      exact hRep.push hWin hBase hElem hSlots hFits hPhys hPush
  | resize hSlots hFits hPhys hResize =>
      rw [hAddr] at hResize ⊢
      exact hRep.resize hWin hBase hSlots hFits hPhys hResize
  | other hHeap hNames hStore =>
      rw [hAddr] at hNames hStore ⊢
      rw [dynarrayToMeta_add] at hNames
      rw [hRep.destroyed] at hStore
      exact ⟨xs, .other, metadata, capacity, rfl, hRep.other hWin hBase hHeap hNames hStore⟩

theorem simulates_init (hWin : 0 < win) (hBase : memHeapSlabSize ∣ win)
    (hInit : (system win count len).init c) : Simulates win count len c [] := by
  obtain ⟨trace, s, id, pmm, run, hPhys, hNew⟩ := hInit
  obtain ⟨g, hSound⟩ := sound_run hWin hBase run
  rcases hAlloc : memHeapAllocOnBehalf win s.toKernelHeap dynarrayMetaSize id pmm with ⟨answer, h⟩
  simp only [dynarrayNew, hAlloc] at hNew
  obtain ⟨g', hAllocated⟩ := hSound.alloc hWin hBase hPhys hAlloc
  cases answer with
  | none => cases (Prod.mk.inj hNew).1
  | some metadata =>
      obtain ⟨hAddr, hState⟩ := Prod.mk.inj hNew
      have hHead : (metadata, dynarrayMetaSize) ∈ (metadata, dynarrayMetaSize) :: s.live :=
        List.mem_cons_self ..
      have hOutside : ∀ x y, ¬(classBlock (metadata, dynarrayMetaSize)).Contains x →
          y < dynarrayMetaSize → x ≠ metadata + y := by
        rintro x y hOut hIn rfl
        have hFits : _ ≤ _ := hAllocated.fits hHead
        exact hOut ⟨Nat.le_add_right .., Nat.add_lt_add_left (Nat.lt_of_lt_of_le hIn hFits) _⟩
      refine ⟨metadata, 0, (Option.some.inj hAddr).symm, ?_⟩
      rw [← hState]
      refine ⟨⟨⟨g', hAllocated.store fun x _ hFree => ?_⟩, ?_, ?_, by simp [dynarrayMetaSize]⟩,
        ?_, Nat.le_refl _, fun i hIndex => absurd hIndex (Nat.not_lt_zero i)⟩
      · have hOut := hFree _ hHead
        exact (mem_setSize (hOutside x 8 hOut (by decide))).trans
          (mem_setSize (hOutside x 0 hOut (by decide)))
      · simp [setSize]
      · rw [sizeAt_setSize]
        rfl
      · rw [sizeAt, mem_setSize (by omega), ← sizeAt, sizeAt_setSize]
        rfl

end Steps

/-- On a node without slabs the page allocator is asked for a chunk. -/
theorem alloc_from_chunk {win size id n a order : Nat} {h : KernelHeap} {rest : List Nat}
    {pmm : Nat → Option Nat} (hOrder : memHeapGetSizeOrder size memHeapSlabOrders = order)
    (hSmall : order ≠ memHeapSlabOrders) (hNeighbours : (h.nodes id).neighbours = n :: rest)
    (hEmpty : (h.nodes n).slabData = ⟨fun _ => null, null⟩) (hAnswer : pmm 0 = some a) :
    ∃ p h', memHeapAllocOnBehalf win h size id pmm = (some p, h') ∧
      h'.phys = (memAllocateNewSlabsChunk win h n (some a)).2.phys := by
  rw [memHeapAllocOnBehalf, hOrder, if_neg hSmall, hNeighbours, allocFromNeighbours, hEmpty,
    if_neg (not_not_intro rfl), if_neg (not_not_intro rfl), hAnswer]
  rcases hGrown : memAllocateNewSlabsChunk win h n (some a) with ⟨ok, h'⟩
  have hOk : ok = true := (congrArg Prod.fst hGrown).symm
  subst hOk
  exact ⟨_, _, rfl, Layout.memHeapAddSlab_phys h' n order⟩

/-- Every use of a dynarray is one of a list. The array has the length and the elements of the
list, no more of them than its capacity, and the size that destroying it computes from the
capacity is that of a block which the heap has handed out, with the order that freeing uses. -/
theorem dynarray_refines_list {la57 : Bool} {count len : Nat} {trace : List Event} {c : Client}
    (run : (system (memWbPhysWinBase la57) count len).Execution trace c) :
    ∃ xs g, listSystem.Execution trace xs ∧
      dynarrayLen c.mem c.dynarray = xs.length ∧
      (∀ (i : Nat) (h : i < xs.length), bytesAt c.mem (c.dynarray + i * len) len = xs[i]) ∧
      xs.length ≤ sizeAt c.mem (dynarrayToMeta c.dynarray + 8) ∧
      destroyed c.mem c.dynarray len ∈ c.live ∧
      Linked count c.toKernelHeap g ∧
      (c.live.map classBlock ++ g.pieces count).Pairwise Block.Apart ∧
      Matches g c.phys (destroyed c.mem c.dynarray len) := by
  have hWin : 0 < memWbPhysWinBase la57 := by cases la57 <;> decide
  have hBase : memHeapSlabSize ∣ memWbPhysWinBase la57 := by cases la57 <;> decide
  obtain ⟨xs, hList, metadata, capacity, hAddr, hRep⟩ := run.simulate
    (R := Simulates (memWbPhysWinBase la57) count len) (A := listSystem)
    (fun c hInit => ⟨[], rfl, simulates_init hWin hBase hInit⟩)
    fun c xs event c' hSim hStep => hSim.step hWin hBase hStep
  obtain ⟨g, hSound⟩ := hRep.sound
  have hLinked := hSound.layout.linked
  have hRecorded := hRep.recorded
  rw [hAddr, hRep.destroyed, dynarrayLen, dynarrayToMeta_add, hRecorded]
  refine ⟨xs, g, hList, hRep.length, fun i hIndex => ?_, hRep.room, hRep.held,
    ⟨hLinked.free, hLinked.unused, hLinked.owner⟩, hSound.layout.apart, hSound.matches hRep.held⟩
  rw [← hRep.elements i hIndex, elementAt, Nat.add_assoc]

/-- A new array gets its first element, of 5000 bytes, and moves from a slab to pages. -/
theorem dynarray_refines_list_first_push :
    ∃ c dynarray, (system (memWbPhysWinBase false) 2 5000).Execution
        [.push (List.replicate 5000 7) (some dynarray)] c ∧
      ∃ xs, listSystem.Execution [.push (List.replicate 5000 7) (some dynarray)] xs ∧
        dynarrayLen c.mem c.dynarray = xs.length := by
  let win := memWbPhysWinBase false
  let nodes : Nat → NumaNode := fun _ => ⟨[1, 0], ⟨fun _ => null, null⟩⟩
  let s₀ : State := ⟨⟨nodes, fun _ => 0, []⟩, []⟩
  let chunk : Nat → Option Nat := fun _ => some 4096
  let pages : Nat → Option Nat := fun _ => some 0x800000
  have hStart : (reallocSystem win 2).init s₀ := by
    refine ⟨rfl, rfl, fun id => ⟨rfl, ?_⟩⟩
    simp [s₀, nodes]
  have hChunk : ∀ i addr, chunk i = some addr →
      PageGrant win s₀.phys (physRequest dynarrayMetaSize) addr := by
    intro i addr hAnswer
    cases hAnswer
    exact ⟨by decide, rfl, by simp [s₀]⟩
  obtain ⟨p, h, hAlloc, hRecords⟩ : ∃ p h,
      memHeapAllocOnBehalf win s₀.toKernelHeap dynarrayMetaSize 1 chunk = (some p, h) ∧
      h.phys = (memAllocateNewSlabsChunk win s₀.toKernelHeap 1 (some 4096)).2.phys :=
    alloc_from_chunk (show memHeapGetSizeOrder dynarrayMetaSize memHeapSlabOrders = 4 by rfl)
      (by decide) rfl rfl rfl
  have hChunkRecord : (memAllocateNewSlabsChunk win s₀.toKernelHeap 1 (some 4096)).2.phys =
      [Block.ofSize (win + 4096) memHeapChunkSize] := by decide +kernel
  rw [hChunkRecord] at hRecords
  let s₁ := setSize (setSize ⟨h, [(p, dynarrayMetaSize)]⟩ p 0) (p + 8) 0
  have hNew : dynarrayNew win s₀ 1 chunk = (some (p + dynarrayMetaSize), s₁) := by
    rw [dynarrayNew, hAlloc]
  let c₀ : Client := ⟨s₁, p + dynarrayMetaSize⟩
  have hInit : (system win 2 5000).init c₀ := ⟨[], s₀, 1, chunk, .start hStart, hChunk, hNew⟩
  obtain ⟨metadata, capacity, hAddr, hRep⟩ := simulates_init (by decide) (by decide) hInit
  have hMeta : metadata = p := (Nat.add_right_cancel hAddr).symm
  subst hMeta
  have hCapacity : capacity = 0 := hRep.recorded.symm.trans sizeAt_setSize
  subst hCapacity
  obtain ⟨g, hSound⟩ := hRep.sound
  have hNull : metadata ≠ null := hSound.ne_null (by decide) hRep.held
  obtain ⟨h', hRealloc⟩ : ∃ h', memHeapRealloc win c₀.toKernelHeap metadata
      (totalSize ((0 + dynarrayGrowthDelta) % 2 ^ 64) 5000) (totalSize 0 5000) 1 pages =
        (some (win + 0x800000), h') := by
    rw [memHeapRealloc, if_neg hNull, if_neg (by decide), if_neg (by decide),
      memHeapAllocOnBehalf, if_pos (by decide)]
    exact ⟨_, rfl⟩
  have hPages : ∀ i addr, pages i = some addr → PageGrant win c₀.phys (physRequest (totalSize
      (sizeAt c₀.mem (dynarrayToMeta c₀.dynarray + 8) + dynarrayGrowthDelta) 5000)) addr := by
    intro i addr hAnswer
    cases hAnswer
    rw [hAddr, dynarrayToMeta_add, hRep.recorded]
    refine ⟨by decide, rfl, fun b hb => ?_⟩
    have hPhys : c₀.phys = [Block.ofSize (win + 4096) memHeapChunkSize] := hRecords
    rw [hPhys, List.map_singleton, pageBlock_chunk, List.mem_singleton] at hb
    rw [hb]
    exact Or.inr (by decide +kernel)
  obtain ⟨s, hPush⟩ : ∃ s, dynarrayPush win c₀.toState c₀.dynarray (List.replicate 5000 7) 1 pages =
      (some (win + 0x800000 + dynarrayMetaSize), s) := by
    rw [dynarrayPush, hAddr, dynarrayToMeta_add, hRep.recorded, hRep.length, if_neg (by omega),
      List.length_replicate, dynarrayChangeCap, hRep.recorded, realloc, hRealloc]
    exact ⟨_, rfl⟩
  have run := (System.Execution.start hInit).step (Step.push List.length_replicate
    (fun _ => by rw [hAddr, dynarrayToMeta_add, hRep.recorded]; decide)
    (fun _ => by rw [hAddr, dynarrayToMeta_add, hRep.recorded]; decide) hPages hPush)
  obtain ⟨xs, g, hList, hLength, -⟩ := dynarray_refines_list run
  exact ⟨_, _, run, xs, hList, hLength⟩
end Ricerca.Dynarray
