import Ricerca.Mem.PhysSlabSafety

/-! Which free blocks an allocation finds. The free lists above `max_freed_order` are not looked
at; when the last block of the topmost list is handed out as a whole, the scan for the next
non-empty list leaves out the one just below and settles for the lowest. -/
namespace Ricerca.PhysSlab

open Ricerca.Foundation

/-- `max_freed_order` is at least every order with a free block. -/
def Visible (slab : MemPhysSlab) : Prop :=
  ∀ i < memPhysSlabOrdersCount, slab.freeLists i ≠ physNull → i ≤ slab.maxFreedOrder

/-- An allocation fails only when there is no free block that is large enough, and the rest of
the range is too short. -/
def FindsFree (r : Region) : Prop :=
  ∀ size, (memPhysSlabAlloc r size).1 = physNull →
    (∀ i < memPhysSlabOrdersCount, memPhysSlabGetOrder size ≤ i →
      r.slab.freeLists i = physNull) ∧
    r.slab.length < r.slab.brkBytes + 2 ^ memPhysSlabGetOrder size

/-- The list that a scan below `order` finds is the only one. -/
def ScanFindsAll (slab : MemPhysSlab) (order : Nat) : Prop :=
  slab.freeLists (order - 1) = physNull ∧
  ∀ i < order - 1, ∀ j < order - 1,
    slab.freeLists i ≠ physNull → slab.freeLists j ≠ physNull → i = j

instance (slab : MemPhysSlab) (order : Nat) : Decidable (ScanFindsAll slab order) :=
  inferInstanceAs (Decidable (_ ∧ _))

/-- An allocation that takes the last block of the topmost list as a whole does so only when the
scan finds all that is left. -/
def Rescanned (s : State) : Event → Prop
  | .alloc size _ =>
      memPhysSlabGetOrder size = s.slab.maxFreedOrder →
      s.slab.freeLists (memPhysSlabGetOrder size) ≠ physNull →
      s.mem (s.slab.freeLists (memPhysSlabGetOrder size)) = physNull →
      ScanFindsAll s.slab (memPhysSlabGetOrder size)
  | _ => True

instance (s : State) : DecidablePred (Rescanned s)
  | .alloc _ _ => inferInstanceAs (Decidable (_ → _))
  | .free _ _ => inferInstanceAs (Decidable True)
  | .store => inferInstanceAs (Decidable True)

section Lists

variable {r : Region} {order target block i bound : Nat} {freeLists : Nat → Nat}

theorem Visible.enqueue (h : Visible r.slab) :
    Visible (memPhysSlabEnqueue r order block).slab := by
  intro i hi hNonempty
  simp only [memPhysSlabEnqueue] at hNonempty ⊢
  by_cases hEq : i = order
  · subst hEq
    split_ifs <;> omega
  · rw [Function.update_of_ne hEq] at hNonempty
    have hLe := h i hi hNonempty
    split_ifs <;> omega

theorem Visible.splitUntilTarget {base : Nat} (h : Visible r.slab) :
    Visible (memPhysSlabSplitUntilTarget r base order target).slab := by
  induction order generalizing r with
  | zero => exact h
  | succ order ih =>
      rw [memPhysSlabSplitUntilTarget]
      split_ifs
      · exact ih h.enqueue
      · exact h

/-- A block that is put on a list below others makes them visible. -/
theorem visible_enqueue_of_le (hOrder : ∀ i < memPhysSlabOrdersCount,
    r.slab.freeLists i ≠ physNull → i ≤ order) :
    Visible (memPhysSlabEnqueue r order block).slab := by
  intro i hi hNonempty
  simp only [memPhysSlabEnqueue] at hNonempty ⊢
  have hLe : i ≤ order := by
    by_cases hEq : i = order
    · omega
    · rw [Function.update_of_ne hEq] at hNonempty
      exact hOrder i hi hNonempty
  split_ifs <;> omega

/-- The scan gives the lowest non-empty list below `bound`, or the value it started with. -/
theorem rescanFreeLists_spec (freeLists : Nat → Nat) (bound start : Nat) :
    (rescanFreeLists freeLists bound start = start ∧ ∀ i < bound, freeLists i = physNull) ∨
    (rescanFreeLists freeLists bound start < bound ∧
      freeLists (rescanFreeLists freeLists bound start) ≠ physNull ∧
      ∀ i < rescanFreeLists freeLists bound start, freeLists i = physNull) := by
  induction bound generalizing start with
  | zero => exact .inl ⟨rfl, fun _ hi => (Nat.not_lt_zero _ hi).elim⟩
  | succ bound ih =>
      rw [rescanFreeLists]
      by_cases hTop : freeLists bound ≠ physNull
      · rw [if_pos hTop]
        rcases ih bound with ⟨hSame, hNone⟩ | ⟨hLt, hFound, hLowest⟩
        · rw [hSame]
          exact .inr ⟨Nat.lt_succ_self bound, hTop, hNone⟩
        · exact .inr ⟨Nat.lt_succ_of_lt hLt, hFound, hLowest⟩
      · rw [if_neg hTop]
        rcases ih start with ⟨hSame, hNone⟩ | ⟨hLt, hFound, hLowest⟩
        · refine .inl ⟨hSame, fun i hi => ?_⟩
          rcases Nat.lt_succ_iff_lt_or_eq.mp hi with hi | rfl
          · exact hNone i hi
          · exact not_not.mp hTop
        · exact .inr ⟨Nat.lt_succ_of_lt hLt, hFound, hLowest⟩

/-- When all lists below the topmost one are visible after it has become empty. -/
theorem rescan_visible_iff {slab : MemPhysSlab} (hOrder : 1 < order)
    (hBelow : ∀ i < order, freeLists i = slab.freeLists i) :
    (∀ i < order, freeLists i ≠ physNull → i ≤ rescanFreeLists freeLists (order - 1) 0) ↔
      ScanFindsAll slab order := by
  have hSpec := rescanFreeLists_spec freeLists (order - 1) 0
  generalize rescanFreeLists freeLists (order - 1) 0 = found at hSpec ⊢
  have hFound : found < order - 1 := by omega
  constructor
  · intro hVisible
    refine ⟨?_, fun i hi j hj hI hJ => ?_⟩
    · rw [← hBelow _ (by omega)]
      by_contra hNonempty
      have := hVisible (order - 1) (by omega) hNonempty
      omega
    · rw [← hBelow _ (by omega)] at hI hJ
      have hLeI := hVisible i (by omega) hI
      have hLeJ := hVisible j (by omega) hJ
      rcases hSpec with ⟨-, hNone⟩ | ⟨-, -, hLowest⟩
      · exact absurd (hNone i hi) hI
      · have hNotI : ¬ i < found := fun hLt => hI (hLowest i hLt)
        have hNotJ : ¬ j < found := fun hLt => hJ (hLowest j hLt)
        omega
  · rintro ⟨hTop, hOnly⟩ i hi hNonempty
    rw [hBelow i hi] at hNonempty
    have hNotTop : i ≠ order - 1 := fun hEq => hNonempty (hEq ▸ hTop)
    rcases hSpec with ⟨-, hNone⟩ | ⟨hLt, hLowest, -⟩
    · exact absurd (hBelow i hi ▸ hNone i (by omega)) hNonempty
    · rw [hBelow _ (by omega)] at hLowest
      exact Nat.le_of_eq (hOnly i (by omega) found hLt hNonempty hLowest)

end Lists

section Allocation

variable {base length size : Nat} {r : Region} {held : List Block} {free : Nat → List Nat}

theorem firstFreeOrder_none {slab : MemPhysSlab} {order i : Nat}
    (h : firstFreeOrder slab order = none) (hOrder : order ≤ i) (hMax : i ≤ slab.maxFreedOrder) :
    slab.freeLists i = physNull := by
  have hMem : i ∈ List.range' order (slab.maxFreedOrder + 1 - order) :=
    List.mem_range'_1.mpr ⟨hOrder, by omega⟩
  simpa using List.find?_eq_none.mp h i hMem

theorem memPhysSlabGetOrder_ge (h : memPhysSlabGetOrder size < memPhysSlabOrdersCount) :
    physSlabGran ≤ memPhysSlabGetOrder size :=
  (getOrderLoop_spec size (memPhysSlabOrdersCount - physSlabGran) rfl (fun _ => rfl) h).2

/-- Taking a block keeps all others visible when it is not the last of the topmost list. -/
theorem Visible.dequeue {i : Nat} (h : Visible r.slab)
    (hNot : ¬ (r.mem (r.slab.freeLists i) = physNull ∧ r.slab.maxFreedOrder = i))
    (hNonempty : r.slab.freeLists i ≠ physNull) (hi : i < memPhysSlabOrdersCount) :
    Visible (memPhysSlabDequeue r i).2.slab := by
  intro j hj hRest
  simp only [memPhysSlabDequeue, if_neg hNot] at hRest ⊢
  by_cases hEq : j = i
  · exact hEq ▸ h i hi hNonempty
  · rw [Function.update_of_ne hEq] at hRest
    exact h j hj hRest

/-- What is left once the topmost list has become empty. -/
theorem dequeue_top {i j : Nat} (h : Visible r.slab) (hTop : r.slab.maxFreedOrder = i)
    (hLast : r.mem (r.slab.freeLists i) = physNull) (hj : j < memPhysSlabOrdersCount)
    (hNonempty : (memPhysSlabDequeue r i).2.slab.freeLists j ≠ physNull) : j < i := by
  simp only [memPhysSlabDequeue] at hNonempty
  by_cases hEq : j = i
  · rw [hEq, Function.update_self] at hNonempty
    exact absurd hLast hNonempty
  · rw [Function.update_of_ne hEq] at hNonempty
    have := h j hj hNonempty
    omega

/-- An allocation keeps the free blocks visible exactly when the scan finds all of them. -/
theorem Visible.alloc_iff (h : Visible r.slab) (hLayout : Layout base length r held free)
    (size : Nat) :
    Visible (memPhysSlabAlloc r size).2.slab ↔
      (memPhysSlabGetOrder size = r.slab.maxFreedOrder →
        r.slab.freeLists (memPhysSlabGetOrder size) ≠ physNull →
        r.mem (r.slab.freeLists (memPhysSlabGetOrder size)) = physNull →
        ScanFindsAll r.slab (memPhysSlabGetOrder size)) := by
  have hMaxLt := hLayout.max_lt
  unfold memPhysSlabAlloc
  by_cases hTooBig : memPhysSlabGetOrder size = memPhysSlabOrdersCount
  · simp only [if_pos hTooBig]
    exact iff_of_true h fun hMax => by omega
  have hOrder := memPhysSlabGetOrder_lt hTooBig
  have hGran := memPhysSlabGetOrder_ge hOrder
  generalize memPhysSlabGetOrder size = order at *
  simp only [if_neg hTooBig]
  cases hFirst : firstFreeOrder r.slab order with
  | none =>
      refine iff_of_true ?_ fun hMax hNonempty => ?_
      · simp only
        split_ifs <;> exact h
      · exact absurd (firstFreeOrder_none hFirst (Nat.le_refl _) (Nat.le_of_eq hMax)) hNonempty
  | some i =>
      obtain ⟨hLe, hMax, hNonempty⟩ := firstFreeOrder_spec hFirst
      have hi : i < memPhysSlabOrdersCount := Nat.lt_of_le_of_lt hMax hMaxLt
      simp only
      by_cases hLast : r.mem (r.slab.freeLists i) = physNull ∧ r.slab.maxFreedOrder = i
      · have hBelow := fun j => dequeue_top (j := j) h hLast.2 hLast.1
        rcases Nat.lt_or_eq_of_le hLe with hSplit | rfl
        · refine iff_of_true ?_ fun hEq => by omega
          obtain ⟨k, rfl⟩ := Nat.exists_eq_succ_of_ne_zero (Nat.ne_zero_of_lt hSplit)
          rw [memPhysSlabSplitUntilTarget, if_pos hSplit]
          refine Visible.splitUntilTarget (visible_enqueue_of_le fun j hj hRest => ?_)
          exact Nat.le_of_lt_succ (hBelow j hj hRest)
        · have hWhole : memPhysSlabSplitUntilTarget (memPhysSlabDequeue r order).2
              (memPhysSlabDequeue r order).1 order order = (memPhysSlabDequeue r order).2 := by
            cases order with
            | zero => rfl
            | succ order => rw [memPhysSlabSplitUntilTarget, if_neg (Nat.lt_irrefl _)]
          have hScan : 1 < order := by
            simp only [physSlabGran] at hGran
            omega
          have hLists : ∀ j < order, (memPhysSlabDequeue r order).2.slab.freeLists j =
              r.slab.freeLists j := fun j hj => Function.update_of_ne (Nat.ne_of_lt hj) _ _
          have hFound : (memPhysSlabDequeue r order).2.slab.maxFreedOrder =
              rescanFreeLists (memPhysSlabDequeue r order).2.slab.freeLists (order - 1) 0 := by
            refine (if_pos hLast).trans ?_
            rw [hLast.2]
            rfl
          rw [hWhole, Visible, hFound]
          constructor
          · intro hVisible _ _ _
            exact (rescan_visible_iff hScan hLists).mp fun j hj => hVisible j (by omega)
          · intro hRescan j hj hRest
            have hAll := hRescan hLast.2.symm hNonempty hLast.1
            exact (rescan_visible_iff hScan hLists).mpr hAll j (hBelow j hj hRest) hRest
      · refine iff_of_true (Visible.splitUntilTarget (h.dequeue hLast hNonempty hi)) ?_
        intro hEq _ hNull
        have hSame : i = order := by omega
        exact absurd ⟨hSame ▸ hNull, hEq.symm.trans hSame.symm⟩ hLast

/-- While all free blocks are visible, an allocation finds one. -/
theorem Visible.findsFree (h : Visible r.slab) (hLayout : Layout base length r held free) :
    FindsFree r := by
  intro size hNull
  have hBrk := hLayout.brk_le
  have hEnd := hLayout.end_lt
  have hBase := hLayout.base_pos
  have hBaseEq := hLayout.base_eq
  have hLengthEq := hLayout.length_eq
  unfold memPhysSlabAlloc at hNull
  by_cases hTooBig : memPhysSlabGetOrder size = memPhysSlabOrdersCount
  · rw [hTooBig]
    refine ⟨fun i hi hLe => absurd hi (Nat.not_lt.mpr hLe), ?_⟩
    rw [hLengthEq, memPhysSlabOrdersCount]
    omega
  have hOrder := memPhysSlabGetOrder_lt hTooBig
  simp only [if_neg hTooBig] at hNull
  cases hFirst : firstFreeOrder r.slab (memPhysSlabGetOrder size) with
  | some i =>
      simp only [hFirst, memPhysSlabDequeue] at hNull
      exact absurd hNull (firstFreeOrder_spec hFirst).2.2
  | none =>
      constructor
      · intro i hi hLe
        by_contra hNonempty
        exact hNonempty (firstFreeOrder_none hFirst hLe (h i hi hNonempty))
      · have hPow : 2 ^ memPhysSlabGetOrder size ≤ 2 ^ 63 :=
          Nat.pow_le_pow_right (by omega) (Nat.le_of_lt_succ hOrder)
        have hNew : wrap (r.slab.brkBytes + wrap (2 ^ memPhysSlabGetOrder size)) =
            r.slab.brkBytes + 2 ^ memPhysSlabGetOrder size := by
          have hShift : wrap (2 ^ memPhysSlabGetOrder size) = 2 ^ memPhysSlabGetOrder size :=
            Nat.mod_eq_of_lt (by omega)
          rw [hShift]
          exact Nat.mod_eq_of_lt (by omega)
        have hAddr : wrap (r.slab.brkBytes + r.slab.base) = r.slab.brkBytes + base := by
          rw [hBaseEq]
          exact Nat.mod_eq_of_lt (by omega)
        simp only [hFirst, hNew, hAddr] at hNull
        split_ifs at hNull with hFits
        · simp only [physNull] at hNull
          omega
        · exact Nat.lt_of_not_le hFits

end Allocation

section Runs

variable {base length : Nat} {s s' : State} {event : Event} {trace : List Event}

/-- Free memory is visible and found. -/
def Sound (s : State) : Prop := Visible s.slab ∧ FindsFree s.toRegion

theorem Safe.sound (hSafe : Safe base length s) (hVisible : Visible s.slab) : Sound s := by
  obtain ⟨⟨free, hLayout⟩, -⟩ := hSafe
  exact ⟨hVisible, hVisible.findsFree hLayout⟩

theorem step_visible_iff (hSafe : Safe base length s) (hVisible : Visible s.slab)
    (hStep : Step s event s') : Visible s'.slab ↔ Rescanned s event := by
  obtain ⟨⟨free, hLayout⟩, -⟩ := hSafe
  cases hStep with
  | @alloc size addr r hAlloc =>
      have hIff := hVisible.alloc_iff hLayout size
      rw [hAlloc] at hIff
      exact hIff
  | free hLive => exact iff_of_true hVisible.enqueue trivial
  | store hSame => exact iff_of_true hVisible trivial

theorem visible_init (h : (system base length).init s) : Visible s.slab := by
  intro i hi hNonempty
  rw [h.1] at hNonempty
  exact absurd rfl hNonempty

/-- The uses of a slab in which free memory is visible and found at all times are those in which
the last block of the topmost list is taken as a whole only when the scan finds all that is
left. -/
theorem free_memory_found_iff (hBase : 0 < base) (hEnd : base + length < 2 ^ 63)
    (trace : List Event) (s : State) :
    ((system base length).restrict Rescanned).Execution trace s ↔
      ((system base length).restrict fun s _ => Sound s).Execution trace s ∧ Sound s := by
  constructor
  · intro run
    induction run with
    | start h => exact ⟨.start h, (safe_init hBase hEnd h).sound (visible_init h)⟩
    | @step trace s s' event prior last ih =>
        obtain ⟨hRun, hSound⟩ := ih
        have hSafe := safe_run hBase hEnd prior.ofRestrict
        have hVisible := (step_visible_iff hSafe hSound.1 last.2).mpr last.1
        exact ⟨.step hRun ⟨hSound, last.2⟩, (safe_step hSafe last.2).sound hVisible⟩
  · rintro ⟨run, hSound⟩
    induction run with
    | start h => exact .start h
    | @step trace s s' event prior last ih =>
        have hSafe := safe_run hBase hEnd prior.ofRestrict
        exact .step (ih last.1) ⟨(step_visible_iff hSafe last.1.1 last.2).mp hSound.1, last.2⟩

/-- The next state, for events that can happen. -/
def next (s : State) : Event → Option State
  | .alloc size addr =>
      if (memPhysSlabAlloc s.toRegion size).1 = addr then
        some ⟨(memPhysSlabAlloc s.toRegion size).2,
          if addr = physNull then s.live else (addr, size) :: s.live⟩
      else none
  | .free addr size =>
      if (addr, size) ∈ s.live then
        some ⟨memPhysSlabFree s.toRegion addr size, s.live.erase (addr, size)⟩
      else none
  | .store => some s

theorem next_step (h : next s event = some s') : Step s event s' := by
  cases event with
  | alloc size addr =>
      rw [next] at h
      by_cases hAddr : (memPhysSlabAlloc s.toRegion size).1 = addr
      · rw [if_pos hAddr] at h
        cases h
        exact .alloc (Prod.ext hAddr rfl)
      · rw [if_neg hAddr] at h
        cases h
  | free addr size =>
      rw [next] at h
      split_ifs at h with hLive
      cases h
      exact .free hLive
  | store =>
      cases h
      exact .store fun _ _ => rfl

def freshState (base length : Nat) : State := ⟨⟨memPhysSlabInit base length, fun _ => 0⟩, []⟩

/-- The whole range is handed out in blocks of three orders, and given back. -/
def exampleUses : List Event :=
  [.alloc 4096 4096, .alloc 8192 8192, .alloc 16384 16384,
    .free 4096 4096, .free 8192 8192, .free 16384 16384]

/-- The block below the topmost one is taken, and then the topmost one is split. -/
theorem free_memory_found_iff_split :
    ∃ s, ((system 4096 28672).restrict fun s _ => Sound s).Execution
      (exampleUses ++ [.alloc 8192 8192, .alloc 8192 16384]) s ∧ Sound s := by
  have hStep : ∀ s event s', (if Rescanned s event then next s event else none) = some s' →
      ((system 4096 28672).restrict Rescanned).step s event s' := by
    intro s event s' hNext
    split_ifs at hNext with hRescanned
    exact ⟨hRescanned, next_step hNext⟩
  have hSome : ((exampleUses ++ [Event.alloc 8192 8192, .alloc 8192 16384]).foldlM
      (fun s event => if Rescanned s event then next s event else none)
      (freshState 4096 28672)).isSome := by decide +kernel
  obtain ⟨s, hs⟩ := Option.isSome_iff_exists.mp hSome
  have run := System.Execution.append_foldlM hStep (.start ⟨rfl, rfl⟩) hs
  exact ⟨s, (free_memory_found_iff (by omega) (by omega) _ s).mp run⟩

/-- The topmost block is taken as a whole. Afterwards a block of two pages is on a free list, and
is not found. -/
theorem free_memory_not_found :
    ∃ s, (system 4096 28672).Execution (exampleUses ++ [.alloc 16384 16384]) s ∧
      memPhysSlabGetOrder 8192 = 13 ∧ s.slab.freeLists 13 = 8192 ∧
      (memPhysSlabAlloc s.toRegion 8192).1 = physNull ∧ ¬ Sound s := by
  have hRun : ((exampleUses ++ [Event.alloc 16384 16384]).foldlM next
      (freshState 4096 28672)).any fun s =>
        s.slab.freeLists 13 = 8192 ∧ (memPhysSlabAlloc s.toRegion 8192).1 = physNull := by
    decide +kernel
  obtain ⟨s, hs, hFacts⟩ := Option.any_eq_true _ _ |>.mp hRun
  obtain ⟨hFree, hNull⟩ := of_decide_eq_true hFacts
  have hOrder : memPhysSlabGetOrder 8192 = 13 := rfl
  have run := System.Execution.append_foldlM (S := system 4096 28672)
    (fun _ _ _ => next_step) (.start ⟨rfl, rfl⟩) hs
  refine ⟨s, run, hOrder, hFree, hNull, fun hSound => ?_⟩
  have hNone := (hSound.2 8192 hNull).1 13 (by decide) (Nat.le_of_eq hOrder)
  rw [hFree] at hNone
  cases hNone

end Runs

end Ricerca.PhysSlab
