import Mathlib.Data.Finset.Card
import Mathlib.Data.Option.Basic
import Ricerca.Mem.Phys
import Ricerca.Mem.PhysSlabSafety

/-! The range lists. The link of a range is too large by the number of blocks that are
allocated from the range, so the lists are as `mem_phys_init` left them only until the first
allocation succeeds. What the slabs and the object data say about the blocks stays right as
long as no call takes something else for a range. -/
namespace Ricerca.Phys

open Ricerca.Foundation Ricerca.PhysSlab

/-- What has become of a range while `count` references to it are borrowed. -/
structure RangeKept (count : Nat) (held : List Block) (before after : MemRange) : Prop where
  next : after.nextRange = wrap (before.nextRange + count)
  rcBase : after.rcBase = before.rcBase
  layout : ∃ free,
    Layout before.region.slab.base before.region.slab.length after.region held free

/-- The invariant of the ranges and the blocks allocated from them. -/
structure Kept (start s : State) : Prop where
  nodes : s.numaNodes = start.numaNodes
  earlier : s.earlier = start.earlier
  ranges : ∀ p, Option.Rel (RangeKept (s.live.countP (·.range = p)) (s.held p))
    (start.ranges p) (s.ranges p)
  known : ∀ a ∈ s.live, (start.ranges a.range).isSome
  order : ∀ a ∈ s.live, memPhysSlabGetOrder a.size < memPhysSlabOrdersCount

/-- The object data of every block is right. -/
def Recorded (s : State) : Prop :=
  ∀ a ∈ s.live, ∃ id, s.memPhysObjectsInfo (a.addr / pageSize) = ⟨a.range, a.size, id⟩

section Blocks

/-- Blocks of at least a page that are apart begin on different pages. -/
theorem page_ne {b c : Block} (hApart : b.Apart c) (hb : pageSize ≤ b.size) (hc : pageSize ≤ c.size) :
    b.addr / pageSize ≠ c.addr / pageSize := by
  have hPage : pageSize = 4096 := rfl
  rw [hPage] at hb hc ⊢
  simp only [Block.Apart] at hApart
  omega

theorem pageSize_le_liveBlock {a : Nat × Nat} (h : memPhysSlabGetOrder a.2 < memPhysSlabOrdersCount) :
    pageSize ≤ (liveBlock a).size :=
  (Nat.le_max_right _ _).trans (memPhysSlabGetOrder_spec h)

theorem wrap_borrow (n count : Nat) : wrap (wrap (n + count) + 1) = wrap (n + (count + 1)) := by
  simp only [wrap]
  omega

theorem wrap_drop (n count : Nat) :
    wrap (wrap (n + (count + 1)) + (2 ^ 64 - 1)) = wrap (n + count) := by
  simp only [wrap]
  omega

end Blocks

section Steps

variable {start s s' : State} {pointer addr size id : Nat} {range : MemRange}

theorem Initialised.kept (h : Initialised start) : Kept start start := by
  refine ⟨rfl, rfl, fun p => ?_, ?_, ?_⟩
  · cases hRange : start.ranges p with
    | none => exact .none
    | some range =>
        refine .some ⟨?_, rfl, ?_⟩
        · rw [h.live, List.countP_nil]
          exact (Nat.mod_eq_of_lt (h.word p range hRange)).symm
        · obtain ⟨hBase, hEnd, trace, run⟩ := h.slab p range hRange
          obtain ⟨hLayout, -⟩ := safe_run hBase hEnd run
          simpa [State.held, h.live, State.allocated] using hLayout
  · simp [h.live]
  · simp [h.live]

/-- A range of the state with what it was at the start. -/
theorem Kept.origin (h : Kept start s) (hRange : s.ranges pointer = some range) :
    ∃ before, start.ranges pointer = some before ∧
      RangeKept (s.live.countP (·.range = pointer)) (s.held pointer) before range := by
  have hRel := h.ranges pointer
  rw [hRange] at hRel
  cases hStart : start.ranges pointer with
  | none =>
      rw [hStart] at hRel
      cases hRel
  | some before =>
      rw [hStart] at hRel
      cases hRel with
      | some hKept => exact ⟨before, rfl, hKept⟩

/-- A range of the start with what it is now. -/
theorem Kept.current (h : Kept start s) {before : MemRange}
    (hBefore : start.ranges pointer = some before) :
    ∃ range, s.ranges pointer = some range ∧
      RangeKept (s.live.countP (·.range = pointer)) (s.held pointer) before range := by
  have hRel := h.ranges pointer
  rw [hBefore] at hRel
  cases hRange : s.ranges pointer with
  | none =>
      rw [hRange] at hRel
      cases hRel
  | some range =>
      rw [hRange] at hRel
      cases hRel with
      | some hKept => exact ⟨range, rfl, hKept⟩

/-- A slab that cannot serve a request stays as it is. -/
theorem Kept.refused (h : Kept start s) (hRange : s.ranges pointer = some range)
    (hRefused : (memPhysSlabAlloc range.region size).1 = physNull) :
    memPhysSlabAlloc range.region size = (physNull, range.region) := by
  obtain ⟨before, -, -, -, free, hLayout⟩ := h.origin hRange
  rcases (hLayout.alloc size).1 with hSame | ⟨hServed, -⟩
  · exact hSame
  · exact (hServed hRefused).elim

theorem State.setRange_self (hRange : s.ranges pointer = some range) : s.setRange pointer range = s := by
  rw [State.setRange, ← hRange, Function.update_eq_self]

/-- The loop changes nothing, or stores the block that the range it stops at has served. -/
theorem Kept.allocLoop (h : Kept start s) {fuel head : Nat}
    (hLoop : allocLoop size id fuel s head = some (addr, pointer, s')) :
    (addr = physNull ∧ s' = s) ∨
    (addr ≠ physNull ∧ ∃ range, s.ranges pointer = some range ∧
      (memPhysSlabAlloc range.region size).1 = addr ∧
      s' = memPhysStoreInfo s addr size pointer
        { range with region := (memPhysSlabAlloc range.region size).2 } id) := by
  induction fuel generalizing head with
  | zero => cases hLoop
  | succ fuel ih =>
      simp only [Phys.allocLoop] at hLoop
      split_ifs at hLoop with hEnd
      · simp only [Option.some.injEq, Prod.mk.injEq] at hLoop
        exact .inl ⟨hLoop.1.symm, hLoop.2.2.symm⟩
      · cases hRange : s.ranges head with
        | none => simp [hRange] at hLoop
        | some range =>
            simp only [hRange] at hLoop
            split_ifs at hLoop with hServed
            · simp only [Option.some.injEq, Prod.mk.injEq] at hLoop
              obtain ⟨rfl, rfl, rfl⟩ := hLoop
              exact .inr ⟨hServed, range, hRange, rfl, rfl⟩
            · rw [not_not] at hServed
              rw [h.refused hRange hServed, State.setRange_self hRange] at hLoop
              exact ih hLoop

/-- The block of an allocation. -/
def Allocation.block (a : Allocation) : Block := liveBlock (a.addr, a.size)

theorem Kept.within (h : Kept start s) {a : Allocation} (ha : a ∈ s.live) :
    ∃ before, start.ranges a.range = some before ∧ before.region.slab.base ≤ a.addr ∧
      a.addr + a.block.size ≤ before.region.slab.base + before.region.slab.length ∧
      a.addr < 2 ^ 63 := by
  obtain ⟨before, hBefore⟩ := Option.isSome_iff_exists.mp (h.known a ha)
  obtain ⟨range, -, -, -, free, hLayout⟩ := h.current hBefore
  have hHeld : a.block ∈ s.held a.range :=
    List.mem_append_left _ (List.mem_map.mpr ⟨a, List.mem_filter.mpr ⟨ha, by simp⟩, rfl⟩)
  have hIn := hLayout.tiles.within (List.mem_append_left _ hHeld)
  have hBelow := (hLayout.within (List.mem_append_left _ hHeld)).2
  have hBrk := hLayout.brk_le
  have hAddr : a.block.addr = a.addr := rfl
  exact ⟨before, hBefore, by omega, by omega, by omega⟩

/-- No two blocks overlap. -/
theorem Kept.pairwise (hStart : Initialised start) (h : Kept start s) :
    s.live.Pairwise fun a b => a.block.Apart b.block := by
  rw [List.pairwise_iff_forall_sublist]
  intro a b hSub
  have ha : a ∈ s.live := hSub.subset (by simp)
  have hb : b ∈ s.live := hSub.subset (by simp)
  obtain ⟨before, hBefore, hLow, hHigh, -⟩ := h.within ha
  by_cases hSame : b.range = a.range
  · obtain ⟨range, -, -, -, free, hLayout⟩ := h.current hBefore
    have hPairwise := (List.pairwise_append.mp (List.pairwise_append.mp hLayout.tiles.1).1).1
    have hFilter := hSub.filter (·.range = a.range)
    simp only [List.filter_cons, hSame, decide_true, if_true, List.filter_nil] at hFilter
    exact List.pairwise_iff_forall_sublist.mp hPairwise (hFilter.map Allocation.block)
  · obtain ⟨other, hOther, hLow', hHigh', -⟩ := h.within hb
    have hApart := hStart.apart _ _ _ _ hBefore hOther (Ne.symm hSame)
    have hA : a.block.addr = a.addr := rfl
    have hB : b.block.addr = b.addr := rfl
    simp only [Block.Apart]
    omega

/-- Only one range changes. -/
theorem Kept.update (h : Kept start s) {before after : MemRange}
    (hNodes : s'.numaNodes = s.numaNodes) (hEarlier : s'.earlier = s.earlier)
    (hRanges : s'.ranges = Function.update s.ranges pointer (some after))
    (hElse : ∀ p, p ≠ pointer → s'.live.filter (·.range = p) = s.live.filter (·.range = p))
    (hBefore : start.ranges pointer = some before)
    (hKept : RangeKept (s'.live.countP (·.range = pointer)) (s'.held pointer) before after)
    (hKnown : ∀ a ∈ s'.live, (start.ranges a.range).isSome)
    (hOrder : ∀ a ∈ s'.live, memPhysSlabGetOrder a.size < memPhysSlabOrdersCount) :
    Kept start s' := by
  refine ⟨hNodes.trans h.nodes, hEarlier.trans h.earlier, fun p => ?_, hKnown, hOrder⟩
  rw [hRanges]
  by_cases hEq : p = pointer
  · subst hEq
    rw [hBefore, Function.update_self]
    exact .some hKept
  · rw [Function.update_of_ne hEq]
    have hOld := h.ranges p
    have hHeld : s'.held p = s.held p := by rw [State.held, State.held, hElse p hEq, hEarlier]
    rw [List.countP_eq_length_filter] at hOld ⊢
    rw [hElse p hEq, hHeld]
    exact hOld

/-- A block that a slab has handed out. -/
theorem Kept.served (h : Kept start s) (hRange : s.ranges pointer = some range)
    (hAddr : (memPhysSlabAlloc range.region size).1 = addr) (hServed : addr ≠ physNull) :
    ∃ before, start.ranges pointer = some before ∧
      memPhysSlabGetOrder size < memPhysSlabOrdersCount ∧
      RangeKept (s.live.countP (·.range = pointer) + 1) (liveBlock (addr, size) :: s.held pointer)
        before (memRcBorrow { range with region := (memPhysSlabAlloc range.region size).2 }) := by
  obtain ⟨before, hBefore, hNext, hBase, free, hLayout⟩ := h.origin hRange
  rcases (hLayout.alloc size).1 with hRefused | ⟨-, hOrder, free', hLayout'⟩
  · rw [hRefused] at hAddr
    exact (hServed hAddr.symm).elim
  · refine ⟨before, hBefore, hOrder, ?_, hBase, free', ?_⟩
    · simp only [memRcBorrow, hNext]
      exact wrap_borrow ..
    · rw [hAddr] at hLayout'
      exact hLayout'

theorem Kept.alloc (hStart : Initialised start) (h : Kept start s) (hRecorded : Recorded s)
    (hRange : s.ranges pointer = some range)
    (hAddr : (memPhysSlabAlloc range.region size).1 = addr) (hServed : addr ≠ physNull)
    (hAfter : s' = { memPhysStoreInfo s addr size pointer
        { range with region := (memPhysSlabAlloc range.region size).2 } id with
      live := ⟨addr, size, pointer⟩ :: s.live }) :
    Kept start s' ∧ Recorded s' := by
  obtain ⟨before, hBefore, hOrder, hNew⟩ := h.served hRange hAddr hServed
  have hLive : s'.live = ⟨addr, size, pointer⟩ :: s.live := by rw [hAfter]
  have hKept : Kept start s' := by
    refine h.update (by rw [hAfter]; rfl) (by rw [hAfter]; rfl) (by rw [hAfter]; rfl) (fun p hp => ?_)
      hBefore ?_ ?_ ?_
    · simp [hLive, Ne.symm hp]
    · have hHeld : s'.held pointer = liveBlock (addr, size) :: s.held pointer := by
        simp [hAfter, State.held, memPhysStoreInfo, State.setRange]
      rw [hHeld, hLive, List.countP_cons_of_pos (by simp)]
      exact hNew
    · rw [hLive, List.forall_mem_cons]
      exact ⟨by simp [hBefore], h.known⟩
    · rw [hLive, List.forall_mem_cons]
      exact ⟨hOrder, h.order⟩
  refine ⟨hKept, ?_⟩
  have hPairwise := hKept.pairwise hStart
  rw [hLive, List.pairwise_cons] at hPairwise
  rw [Recorded, hLive, List.forall_mem_cons]
  refine ⟨⟨id, ?_⟩, fun a ha => ?_⟩
  · simp [hAfter, memPhysStoreInfo]
  · obtain ⟨node, hInfo⟩ := hRecorded a ha
    have hPage : a.addr / pageSize ≠ addr / pageSize :=
      (page_ne (hPairwise.1 a ha) (pageSize_le_liveBlock hOrder)
        (pageSize_le_liveBlock (h.order a ha))).symm
    refine ⟨node, ?_⟩
    rw [hAfter, memPhysStoreInfo, ← hInfo]
    exact Function.update_of_ne hPage _ _

/-- A block goes back to the slab that it was allocated from. -/
theorem Recorded.free {a : Allocation} (h : Recorded s) (ha : a ∈ s.live)
    (hFree : memPhysFree s a.addr = some s') :
    ∃ range after, s.ranges a.range = some range ∧
      memRcDrop { range with region := memPhysSlabFree range.region a.addr a.size } = some after ∧
      s' = s.setRange a.range after := by
  obtain ⟨id, hInfo⟩ := h a ha
  simp only [memPhysFree, hInfo] at hFree
  cases hRange : s.ranges a.range with
  | none => simp [hRange] at hFree
  | some range =>
      simp only [hRange] at hFree
      obtain ⟨after, hDrop, hEq⟩ := Option.map_eq_some_iff.mp hFree
      exact ⟨range, after, rfl, hDrop, hEq.symm⟩

theorem Kept.free {a : Allocation} (h : Kept start s) (ha : a ∈ s.live) {after : MemRange}
    (hRange : s.ranges a.range = some range)
    (hDrop : memRcDrop { range with region := memPhysSlabFree range.region a.addr a.size } =
      some after) :
    Kept start { s.setRange a.range after with live := s.live.erase a } := by
  obtain ⟨before, hBefore, hNext, hBase, free, hLayout⟩ := h.origin hRange
  have hPerm := List.perm_cons_erase ha
  have hCount := (hPerm.countP_eq (·.range = a.range)).trans (List.countP_cons_of_pos (by simp))
  have hHeld : (s.held a.range).Perm
      (liveBlock (a.addr, a.size) :: ({ s with live := s.live.erase a } : State).held a.range) := by
    have hFilter := hPerm.filter (·.range = a.range)
    rw [List.filter_cons_of_pos (by simp)] at hFilter
    exact (hFilter.map _).append_right _
  have hFreed := (hLayout.perm hHeld).enqueue (h.order a ha)
  simp only [memRcDrop] at hDrop
  split_ifs at hDrop
  rw [Option.some.injEq] at hDrop
  refine h.update rfl rfl rfl (fun p hp => ?_) hBefore ⟨?_, ?_, ?_⟩ (fun b hb => ?_) fun b hb => ?_
  · have hOther : a ∉ s.live.filter (·.range = p) := by simp [Ne.symm hp]
    rw [← List.erase_filter, List.erase_of_not_mem hOther]
  · rw [← hDrop, hNext, hCount]
    exact wrap_drop ..
  · rw [← hDrop]
    exact hBase
  · rw [← hDrop]
    exact ⟨_, hFreed⟩
  · exact h.known b (List.mem_of_mem_erase hb)
  · exact h.order b (List.mem_of_mem_erase hb)

/-- The owner of a block writes to it. -/
theorem Kept.store (h : Kept start s) {mem : Nat → Nat} (hRange : s.ranges pointer = some range)
    (hOwn : ∀ address, (∀ b ∈ s.held pointer, ¬b.Contains address) →
      mem address = range.region.mem address) :
    Kept start (s.setRange pointer { range with region.mem := mem }) := by
  obtain ⟨before, hBefore, hNext, hBase, free, hLayout⟩ := h.origin hRange
  exact h.update rfl rfl rfl (fun _ _ => rfl) hBefore ⟨hNext, hBase, free, hLayout.store hOwn⟩
    h.known h.order

theorem Kept.step {event : Event} (hStart : Initialised start) (h : Kept start s)
    (hRecorded : Recorded s) (hStep : Step s event s') (hKnown : event ≠ .stray) :
    Kept start s' ∧ Recorded s' := by
  cases hStep with
  | @alloc after fuel size id addr pointer hAlloc =>
      rcases h.allocLoop hAlloc with ⟨rfl, rfl⟩ | ⟨hServed, range, hRange, hAddr, rfl⟩
      · exact ⟨h, hRecorded⟩
      · rw [if_neg hServed]
        exact h.alloc hStart hRecorded hRange hAddr hServed rfl
  | @free after a hLive hFree =>
      obtain ⟨range, after, hRange, hDrop, rfl⟩ := hRecorded.free hLive hFree
      exact ⟨h.free hLive hRange hDrop, fun b hb => hRecorded b (List.mem_of_mem_erase hb)⟩
  | store hRange hOwn => exact ⟨h.store hRange hOwn, hRecorded⟩
  | strayAlloc => exact (hKnown rfl).elim
  | strayFree => exact (hKnown rfl).elim

theorem Initialised.recorded (h : Initialised start) : Recorded start := by
  intro a ha
  rw [h.live] at ha
  cases ha

theorem Kept.run {trace : List Event} (hStart : Initialised start)
    (run : (tracked start).Execution trace s) : Kept start s ∧ Recorded s := by
  refine run.stateInvariant (P := fun s => Kept start s ∧ Recorded s) (fun s hs => ?_)
    fun s event s' h hStep => ?_
  · rw [hs]
    exact ⟨hStart.kept, hStart.recorded⟩
  · exact h.1.step hStart h.2 hStep.2 hStep.1

end Steps

section Lists

variable {start s : State} {size id : Nat}

/-- Fewer blocks are allocated from a range than a link can count. -/
theorem Kept.countP_lt (hStart : Initialised start) (h : Kept start s) (pointer : Nat) :
    s.live.countP (·.range = pointer) < 2 ^ 64 := by
  have hNodup : ((s.live.filter (·.range = pointer)).map (·.addr)).Nodup := by
    rw [List.Nodup, List.pairwise_map]
    exact ((h.pairwise hStart).filter _).imp Block.Apart.addr_ne
  have hSub : ((s.live.filter (·.range = pointer)).map (·.addr)).toFinset ⊆ Finset.range (2 ^ 63) := by
    intro addr hAddr
    simp only [List.mem_toFinset, List.mem_map, List.mem_filter] at hAddr
    obtain ⟨a, ⟨ha, -⟩, rfl⟩ := hAddr
    obtain ⟨-, -, -, -, hBelow⟩ := h.within ha
    exact Finset.mem_range.mpr hBelow
  have hCard := Finset.card_le_card hSub
  rw [List.toFinset_card_of_nodup hNodup, Finset.card_range, List.length_map,
    ← List.countP_eq_length_filter] at hCard
  omega

/-- The links are those of the start only while no block is allocated. -/
theorem Kept.nextRange_eq_iff (hStart : Initialised start) (h : Kept start s) :
    s.nextRange = start.nextRange ↔ s.live = [] := by
  constructor
  · intro hSame
    rw [List.eq_nil_iff_forall_not_mem]
    intro a ha
    obtain ⟨before, hBefore, -⟩ := h.within ha
    obtain ⟨range, hRange, hNext, -⟩ := h.current hBefore
    have hWord := hStart.word _ _ hBefore
    have hCount := h.countP_lt hStart a.range
    have hPos : 0 < s.live.countP (·.range = a.range) :=
      List.countP_pos_iff.mpr ⟨a, ha, by simp⟩
    have hEq := congrFun hSame a.range
    simp only [State.nextRange, hBefore, hRange, Option.map_some, Option.getD_some, hNext, wrap] at hEq
    omega
  · intro hLive
    funext p
    cases hBefore : start.ranges p with
    | none =>
        have hRel := h.ranges p
        rw [hBefore] at hRel
        generalize hRange : s.ranges p = found at hRel
        cases hRel
        simp [State.nextRange, hBefore, hRange]
    | some before =>
        obtain ⟨range, hRange, hNext, -⟩ := h.current hBefore
        have hWord := hStart.word _ _ hBefore
        rw [hLive, List.countP_nil] at hNext
        simp only [State.nextRange, hBefore, hRange, Option.map_some, Option.getD_some, hNext, wrap]
        omega

/-- The ranges of a list are tried one after the other, up to the first one that serves
the request. -/
def allocInOrder (s : State) (size id : Nat) : List Nat → Nat × Nat × State
  | [] => (physNull, 0, s)
  | pointer :: rest =>
      match s.ranges pointer with
      | none => (physNull, 0, s)
      | some range =>
          if (memPhysSlabAlloc range.region size).1 ≠ physNull then
            ((memPhysSlabAlloc range.region size).1, pointer,
              memPhysStoreInfo s (memPhysSlabAlloc range.region size).1 size pointer
                { range with region := (memPhysSlabAlloc range.region size).2 } id)
          else allocInOrder s size id rest

/-- Along an intact list, the loop tries the ranges in order. -/
theorem Kept.allocLoop_eq (h : Kept start s) {head fuel : Nat} {pointers : List Nat}
    (hChain : Chain s.nextRange 0 head pointers)
    (hSome : ∀ pointer ∈ pointers, (s.ranges pointer).isSome) (hFuel : pointers.length < fuel) :
    Phys.allocLoop size id fuel s head = some (allocInOrder s size id pointers) := by
  induction hChain generalizing fuel with
  | nil =>
      cases fuel with
      | zero => omega
      | succ fuel => rfl
  | @cons pointer rest hNe hRest ih =>
      cases fuel with
      | zero => omega
      | succ fuel =>
          obtain ⟨range, hRange⟩ := Option.isSome_iff_exists.mp (hSome pointer (List.mem_cons_self ..))
          have hNext : s.nextRange pointer = range.nextRange := by simp [State.nextRange, hRange]
          simp only [Phys.allocLoop, if_neg hNe, hRange, allocInOrder]
          split_ifs with hServed
          · rfl
          · rw [not_not] at hServed
            rw [h.refused hRange hServed, State.setRange_self hRange, ← hNext]
            refine ih (fun p hp => hSome p (List.mem_cons_of_mem _ hp)) ?_
            rw [List.length_cons] at hFuel
            omega

/-- The links are those that `mem_phys_init` left, and a request is served by the first
range of the list that can. -/
def Undisturbed (start s : State) : Prop :=
  s.nextRange = start.nextRange ∧
  ∀ size id, ∃ pointers, Chain start.nextRange 0 (start.numaNodes id) pointers ∧
    ∀ fuel, pointers.length < fuel →
      memPhysAllocSpecificNolock fuel s size id = some (allocInOrder s size id pointers)

theorem Kept.undisturbed (hStart : Initialised start) (h : Kept start s) (hLive : s.live = []) :
    Undisturbed start s := by
  have hLinks := (h.nextRange_eq_iff hStart).mpr hLive
  refine ⟨hLinks, fun size id => ?_⟩
  obtain ⟨pointers, hChain, hSome⟩ := hStart.listed id
  refine ⟨pointers, hChain, fun fuel hFuel => ?_⟩
  refine h.allocLoop_eq ?_ (fun pointer hPointer => ?_) hFuel
  · rw [hLinks, h.nodes]
    exact hChain
  · obtain ⟨before, hBefore⟩ := Option.isSome_iff_exists.mp (hSome pointer hPointer)
    obtain ⟨range, hRange, -⟩ := h.current hBefore
    rw [hRange]
    rfl

/-- Only a successful allocation adds a block. -/
theorem Step.live_eq_nil {event : Event} {s' : State} (h : Kept start s) (hLive : s.live = [])
    (hStep : Step s event s') (hRefused : event.Refused) (hKnown : event ≠ .stray) :
    s'.live = [] := by
  cases hStep with
  | alloc hAlloc =>
      rcases h.allocLoop hAlloc with ⟨rfl, rfl⟩ | ⟨hServed, -⟩
      · exact hLive
      · exact (hServed hRefused).elim
  | free hOne =>
      rw [hLive] at hOne
      cases hOne
  | store => exact hLive
  | strayAlloc => exact (hKnown rfl).elim
  | strayFree => exact (hKnown rfl).elim

/-- Along intact lists every call finds ranges. -/
theorem Undisturbed.not_stray {event : Event} {s' : State} (h : Undisturbed start s)
    (hLive : s.live = []) (hStep : Step s event s') : event ≠ .stray := by
  rintro rfl
  cases hStep with
  | @strayAlloc _ size id hStray =>
      obtain ⟨pointers, -, hFound⟩ := h.2 size id
      have hSome := hFound _ (Nat.lt_succ_self _)
      rw [hStray] at hSome
      cases hSome
  | strayFree hOne =>
      rw [hLive] at hOne
      cases hOne

/-- While no allocation succeeds, no call goes astray. -/
theorem refusing_run {trace : List Event} (hStart : Initialised start)
    (run : (refusing start).Execution trace s) : Kept start s ∧ Recorded s ∧ s.live = [] := by
  refine run.stateInvariant (P := fun s => Kept start s ∧ Recorded s ∧ s.live = []) (fun s hs => ?_)
    fun s event s' h hStep => ?_
  · rw [hs]
    exact ⟨hStart.kept, hStart.recorded, hStart.live⟩
  · obtain ⟨hKept, hRecorded, hLive⟩ := h
    have hKnown := (hKept.undisturbed hStart hLive).not_stray hLive hStep.2
    obtain ⟨hKept', hRecorded'⟩ := hKept.step hStart hRecorded hStep.2 hKnown
    exact ⟨hKept', hRecorded', hStep.2.live_eq_nil hKept hLive hStep.1 hKnown⟩

/-- The first allocation that succeeds leaves a block. -/
theorem Step.live_ne_nil {addr : Nat} {s' : State}
    (hStep : Step s (.alloc size id addr) s') (hServed : addr ≠ physNull) : s'.live ≠ [] := by
  cases hStep with
  | alloc hAlloc => simp [hServed]

/-- The block at `a` goes back to the slab and the order that it was allocated from, before
the reference to the range is dropped. -/
def FreedRight (s : State) (a : Allocation) : Prop :=
  ∃ range, s.ranges a.range = some range ∧
    memPhysFree s a.addr = (memRcDrop { range with
      region := memPhysSlabEnqueue range.region (memPhysSlabGetOrder a.size) a.addr }).map
        (s.setRange a.range)

theorem Kept.freedRight (h : Kept start s) (hRecorded : Recorded s) {a : Allocation}
    (ha : a ∈ s.live) : FreedRight s a := by
  obtain ⟨before, hBefore⟩ := Option.isSome_iff_exists.mp (h.known a ha)
  obtain ⟨range, hRange, -⟩ := h.current hBefore
  obtain ⟨id, hInfo⟩ := hRecorded a ha
  refine ⟨range, hRange, ?_⟩
  simp only [memPhysFree, hInfo, hRange]
  rfl

/-- After every sequence of allocations, frees and writes to allocated memory in which no
allocation has succeeded, the range lists are undisturbed, and the next allocation leaves
them so exactly when it fails. Afterwards, as long as no call takes something else for a
range, the lists are undisturbed exactly while no block is allocated, and a block that is
freed goes back to the slab and the order that it was allocated from. -/
theorem phys_range_lists (hStart : Initialised start) :
    (∀ trace s, (refusing start).Execution trace s → Undisturbed start s ∧ s.live = [] ∧
      ∀ size id addr s', Step s (.alloc size id addr) s' →
        (Undisturbed start s' ↔ addr = physNull)) ∧
    ∀ trace s, (tracked start).Execution trace s →
      (Undisturbed start s ↔ s.live = []) ∧ ∀ a ∈ s.live, FreedRight s a := by
  have hIff : ∀ s, Kept start s → (Undisturbed start s ↔ s.live = []) := fun s h =>
    ⟨fun hSame => (h.nextRange_eq_iff hStart).mp hSame.1, h.undisturbed hStart⟩
  refine ⟨fun trace s run => ?_, fun trace s run => ?_⟩
  · obtain ⟨hKept, hRecorded, hLive⟩ := refusing_run hStart run
    refine ⟨hKept.undisturbed hStart hLive, hLive, fun size id addr s' hStep => ?_⟩
    have hKnown : Event.alloc size id addr ≠ .stray := Event.noConfusion
    rw [hIff s' (hKept.step hStart hRecorded hStep hKnown).1]
    constructor
    · intro hNone
      by_contra hServed
      exact hStep.live_ne_nil hServed hNone
    · exact fun hRefused => hStep.live_eq_nil hKept hLive hRefused hKnown
  · obtain ⟨hKept, hRecorded⟩ := Kept.run hStart run
    exact ⟨hIff s hKept, fun a ha => hKept.freedRight hRecorded ha⟩

/-- One node with a single range of two pages. -/
def twoPages : State where
  numaNodes _ := 64
  ranges := Function.update (fun _ => none) 64
    (some ⟨0, 0, ⟨memPhysSlabInit 4096 8192, fun _ => 0⟩⟩)
  memPhysObjectsInfo _ := ⟨0, 0, 0⟩
  earlier _ := []
  live := []

theorem initialised_twoPages : Initialised twoPages := by
  have hOnly : ∀ p range, twoPages.ranges p = some range →
      p = 64 ∧ range = ⟨0, 0, ⟨memPhysSlabInit 4096 8192, fun _ => 0⟩⟩ := by
    intro p range hRange
    by_cases hp : p = 64
    · subst hp
      exact ⟨rfl, (Option.some.inj hRange).symm⟩
    · have hNone : twoPages.ranges p = none := by simp [twoPages, hp]
      rw [hNone] at hRange
      cases hRange
  refine ⟨rfl, fun id => ⟨[64], .cons (show 64 ≠ 0 by omega) .nil, by simp [twoPages]⟩, ?_, ?_, ?_⟩
  · intro p range hRange
    obtain ⟨-, rfl⟩ := hOnly p range hRange
    decide
  · intro p range hRange
    obtain ⟨-, rfl⟩ := hOnly p range hRange
    exact ⟨by decide, by decide, [], .start ⟨rfl, rfl⟩⟩
  · intro p q range other hRange hOther hNe
    exact (hNe ((hOnly p range hRange).1.trans (hOnly q other hOther).1.symm)).elim

/-- A request for three pages is refused and leaves the list of the two pages alone. A
request for one page is served, and the page can be given back. -/
theorem phys_range_lists_two_pages :
    (∃ s, (refusing twoPages).Execution [.alloc 12288 0 0] s ∧ Undisturbed twoPages s) ∧
    ∃ s, (tracked twoPages).Execution [.alloc 4096 0 4096] s ∧ ¬Undisturbed twoPages s ∧
      FreedRight s ⟨4096, 4096, 64⟩ := by
  have hLaw := phys_range_lists initialised_twoPages
  have hRefused : memPhysAllocSpecificNolock 2 twoPages 12288 0 =
      some (0, 0, twoPages.setRange 64 ⟨0, 0, ⟨memPhysSlabInit 4096 8192, fun _ => 0⟩⟩) := rfl
  have hServed : memPhysAllocSpecificNolock 1 twoPages 4096 0 = some (4096, 64, _) := rfl
  have first : (refusing twoPages).Execution [.alloc 12288 0 0] _ :=
    .step (.start rfl) ⟨rfl, .alloc hRefused⟩
  have second : (tracked twoPages).Execution [.alloc 4096 0 4096] _ :=
    .step (.start rfl) ⟨Event.noConfusion, .alloc hServed⟩
  refine ⟨⟨_, first, (hLaw.1 _ _ first).1⟩, _, second, ?_, ?_⟩
  · rw [(hLaw.2 _ _ second).1]
    exact List.cons_ne_nil _ _
  · exact (hLaw.2 _ _ second).2 _ (List.mem_cons_self ..)

/-- The first page that is allocated turns the end of the list into an odd address. -/
theorem alloc_disturbs_range_list :
    ¬∀ start trace s, Initialised start → (system start).Execution trace s → Undisturbed start s := by
  intro h
  have first : (system twoPages).Execution [] twoPages := .start rfl
  have hAlloc : memPhysAllocSpecificNolock 1 twoPages 4096 0 = some (4096, 64, _) := rfl
  have run := first.step (Step.alloc hAlloc)
  have hLinks := congrFun (h _ _ _ initialised_twoPages run).1 64
  revert hLinks
  decide

end Lists

end Ricerca.Phys
