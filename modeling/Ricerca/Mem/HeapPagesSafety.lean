import Ricerca.Mem.HeapPages

/-! The kernel heap and the page allocator keep out of each other's memory. The heap writes to
blocks that it has from the page allocator, which writes to free blocks of its ranges only. So
the answers that the heap gets are those that it relies on, and whatever is done with the page
allocator looks to the heap like a store into memory that is not its own. -/
namespace Ricerca.HeapPages

open Ricerca.Foundation
open Ricerca.Heap (KernelHeap memHeapGetSizeOrder memHeapSlabOrders memHeapChunkSize
  memHeapSlabSize null memWbPhysWinBase physRequest pageBlock classBlock PageGrant Spares Sound
  ReallocEvent ReallocStep)
open Ricerca.Phys (Allocation MemRange Kept Recorded Initialised memRcDrop)
open Ricerca.PhysSlab (physNull Coarse Layout memPhysSlabAlloc memPhysSlabFree
  memPhysSlabGetOrder memPhysSlabOrdersCount)

/-- The memory of an allocation, as the heap sees it. -/
def windowBlock (win : Nat) (a : Allocation) : Block :=
  Block.ofOrder (win + a.addr) (memPhysSlabGetOrder a.size)

/-- The page allocator is in order while its links are in the memory of the machine. -/
structure Intact (win : Nat) (start : Phys.State) (mem : Nat → Nat) (pages : Phys.State) : Prop where
  kept : Kept start (lend win mem pages)
  recorded : Recorded pages
  coarse : ∀ pointer range, pages.ranges pointer = some range → Coarse range.region

section Views

variable {win pointer x : Nat} {start pages pages' : Phys.State} {mem mem' : Nat → Nat}
  {range : MemRange} {a b : Allocation}

theorem lend_ranges (hRange : pages.ranges pointer = some range) :
    (lend win mem pages).ranges pointer =
      some { range with region.mem := fun a => mem (win + a) } := by
  simp [lend, hRange]

/-- A range with lent memory is one of the ranges. -/
theorem of_lend_ranges (hRange : (lend win mem pages).ranges pointer = some range) :
    ∃ own, pages.ranges pointer = some own ∧
      range = { own with region.mem := fun a => mem (win + a) } := by
  simp only [lend, Option.map_eq_some_iff] at hRange
  obtain ⟨own, hOwn, rfl⟩ := hRange
  exact ⟨own, hOwn, rfl⟩

@[simp]
theorem lend_lend : lend win mem (lend win mem' pages) = lend win mem pages := by
  simp [lend, Option.map_map, Function.comp_def]

theorem windowBlock_apart (hApart : a.block.Apart b.block) :
    (windowBlock win a).Apart (windowBlock win b) := by
  simp only [Block.Apart, windowBlock, Allocation.block, PhysSlab.liveBlock, Block.ofOrder] at *
  omega

theorem windowBlock_contains : (windowBlock win a).Contains (win + x) ↔ a.block.Contains x := by
  simp only [Block.Contains, windowBlock, Allocation.block, PhysSlab.liveBlock, Block.ofOrder]
  omega

/-- Every word of an allocation is behind the start of the window. -/
theorem exists_of_windowBlock_contains (hx : (windowBlock win a).Contains x) :
    ∃ y, x = win + y ∧ a.block.Contains y := by
  have hLow := hx.1
  simp only [windowBlock, Block.ofOrder] at hLow
  obtain ⟨y, rfl⟩ := Nat.exists_eq_add_of_le (Nat.le_trans (Nat.le_add_right win a.addr) hLow)
  exact ⟨y, rfl, windowBlock_contains.mp hx⟩

/-- The ranges have the bounds that they started with, so they are apart. -/
theorem ranges_apart (hStart : Initialised start) (hKept : Kept start pages) {p q : Nat}
    {range other : MemRange} (hRange : pages.ranges p = some range)
    (hOther : pages.ranges q = some other) (hNe : p ≠ q) :
    range.region.slab.base + range.region.slab.length ≤ other.region.slab.base ∨
    other.region.slab.base + other.region.slab.length ≤ range.region.slab.base := by
  obtain ⟨before, hBefore, -, -, free, hLayout⟩ := hKept.origin hRange
  obtain ⟨before', hBefore', -, -, free', hLayout'⟩ := hKept.origin hOther
  rw [hLayout.base_eq, hLayout.length_eq, hLayout'.base_eq, hLayout'.length_eq]
  exact hStart.apart p q before before' hBefore hBefore' hNe

theorem mem_held (ha : a ∈ pages.live) : a.block ∈ pages.held a.range :=
  List.mem_append_left _ (List.mem_map.mpr ⟨a, List.mem_filter.mpr ⟨ha, by simp⟩, rfl⟩)

/-- A word of an allocation is in no range but the one that has served it. -/
theorem range_of_contains (hStart : Initialised start) (hKept : Kept start pages)
    (ha : a ∈ pages.live) (hx : a.block.Contains x) (hRange : pages.ranges pointer = some range)
    (hLow : range.region.slab.base ≤ x)
    (hHigh : x < range.region.slab.base + range.region.slab.length) : a.range = pointer := by
  by_contra hNe
  obtain ⟨before, hBefore, hIn, hEnd, -⟩ := hKept.within ha
  obtain ⟨own, hOwn, -, -, free, hLayout⟩ := hKept.current hBefore
  have hApart := ranges_apart hStart hKept hOwn hRange hNe
  have hAddr : a.block.addr = a.addr := rfl
  simp only [Block.Contains] at hx
  rw [hLayout.base_eq, hLayout.length_eq] at hApart
  omega

/-- The ranges may be given other memory when it has what they have written into their free
blocks. -/
theorem kept_lend (hKept : Kept start pages)
    (hSame : ∀ pointer range, pages.ranges pointer = some range → ∀ a,
      range.region.slab.base ≤ a → a < range.region.slab.base + range.region.slab.length →
      (∀ b ∈ pages.held pointer, ¬b.Contains a) → mem (win + a) = range.region.mem a) :
    Kept start (lend win mem pages) := by
  refine ⟨hKept.nodes, hKept.earlier, fun p => ?_, hKept.known, hKept.order⟩
  have hRel := hKept.ranges p
  cases hRange : pages.ranges p with
  | none =>
      have hNone : (lend win mem pages).ranges p = none := by simp [lend, hRange]
      rw [hNone]
      rwa [hRange] at hRel
  | some range =>
      obtain ⟨before, hBefore, hNext, hBase, free, hLayout⟩ := hKept.origin hRange
      rw [lend_ranges hRange, hBefore]
      refine .some ⟨hNext, hBase, free, hLayout.view fun a hLow hHigh hFree => ?_⟩
      rw [← hLayout.base_eq] at hLow hHigh
      rw [← hLayout.length_eq] at hHigh
      exact hSame p range hRange a hLow hHigh hFree

theorem adopt_in (hLow : range.region.slab.base ≤ x)
    (hHigh : x < range.region.slab.base + range.region.slab.length) :
    adopt win (some range) mem (win + x) = range.region.mem x := by
  have hEq : win + x - win = x := by omega
  simp only [adopt, hEq]
  rw [if_pos (by omega)]

theorem adopt_out (hOut : ¬(range.region.slab.base ≤ x ∧
    x < range.region.slab.base + range.region.slab.length)) :
    adopt win (some range) mem (win + x) = mem (win + x) := by
  simp only [adopt]
  rw [if_neg (by omega)]

/-- One range has written to its memory, and the machine adopts it. -/
theorem kept_adopt (hStart : Initialised start) (hKept : Kept start pages)
    (hRange : pages.ranges pointer = some range)
    (hElse : ∀ p other, p ≠ pointer → pages.ranges p = some other →
      other.region.mem = fun a => mem (win + a)) :
    Kept start (lend win (adopt win (pages.ranges pointer) mem) pages) := by
  refine kept_lend hKept fun p other hOther a hLow hHigh _ => ?_
  rw [hRange]
  by_cases hEq : p = pointer
  · subst hEq
    obtain rfl : range = other := Option.some.inj (hRange.symm.trans hOther)
    exact adopt_in hLow hHigh
  · have hApart := ranges_apart hStart hKept hOther hRange hEq
    rw [adopt_out (by omega), hElse p other hEq hOther]

/-- What a range adopts is in none of the other blocks. -/
theorem adopt_spares (hStart : Initialised start) (hKept : Kept start pages)
    (hRange : pages.ranges pointer = some range) (hb : b ∈ pages.live)
    (hSame : b.range = pointer → ∀ y, b.block.Contains y → range.region.mem y = mem (win + y))
    (hx : (windowBlock win b).Contains x) : adopt win (pages.ranges pointer) mem x = mem x := by
  obtain ⟨y, rfl, hy⟩ := exists_of_windowBlock_contains hx
  rw [hRange]
  by_cases hIn : range.region.slab.base ≤ y ∧
      y < range.region.slab.base + range.region.slab.length
  · rw [adopt_in hIn.1 hIn.2]
    exact hSame (range_of_contains hStart hKept hb hy hRange hIn.1 hIn.2) y hy
  · exact adopt_out hIn

theorem Intact.coarse_lend (h : Intact win start mem pages)
    (hRange : (lend win mem pages).ranges pointer = some range) : Coarse range.region := by
  obtain ⟨own, hOwn, rfl⟩ := of_lend_ranges hRange
  exact h.coarse pointer own hOwn

/-- A call has put another range in the place of one. -/
theorem intact_adopt (hStart : Initialised start) (h : Intact win start mem pages)
    (hKept : Kept start pages') (hRecorded : Recorded pages') (hCoarse : Coarse range.region)
    (hRanges : pages'.ranges =
      Function.update (lend win mem pages).ranges pointer (some range)) :
    Intact win start (adopt win (pages'.ranges pointer) mem) pages' := by
  have hRange : pages'.ranges pointer = some range := by rw [hRanges, Function.update_self]
  have hElse : ∀ p other, p ≠ pointer → pages'.ranges p = some other →
      ∃ own, pages.ranges p = some own ∧
        other = { own with region.mem := fun a => mem (win + a) } := by
    intro p other hNe hOther
    rw [hRanges, Function.update_of_ne hNe] at hOther
    exact of_lend_ranges hOther
  refine ⟨?_, hRecorded, fun p other hOther => ?_⟩
  · refine kept_adopt hStart hKept hRange fun p other hNe hOther => ?_
    obtain ⟨own, -, rfl⟩ := hElse p other hNe hOther
    rfl
  · by_cases hEq : p = pointer
    · subst hEq
      obtain rfl : range = other := Option.some.inj (hRange.symm.trans hOther)
      exact hCoarse
    · obtain ⟨own, hOwn, rfl⟩ := hElse p other hEq hOther
      exact h.coarse p own hOwn

end Views

section Calls

variable {win fuel size id addr : Nat} {start pages pages' : Phys.State} {mem mem' : Nat → Nat}
  {a : Allocation}

/-- Memory changes that leave the free blocks alone. -/
theorem Intact.store (h : Intact win start mem pages)
    (hSame : ∀ pointer range, pages.ranges pointer = some range → ∀ a,
      range.region.slab.base ≤ a → a < range.region.slab.base + range.region.slab.length →
      (∀ b ∈ pages.held pointer, ¬b.Contains a) → mem' (win + a) = mem (win + a)) :
    Intact win start mem' pages := by
  refine ⟨?_, h.recorded, h.coarse⟩
  have hKept : Kept start (lend win mem' (lend win mem pages)) := by
    refine kept_lend h.kept fun pointer range hRange a hLow hHigh hFree => ?_
    obtain ⟨own, hOwn, rfl⟩ := of_lend_ranges hRange
    exact hSame pointer own hOwn a hLow hHigh hFree
  rwa [lend_lend] at hKept

/-- A request is refused and nothing changes, or it is served. -/
theorem Intact.alloc (hStart : Initialised start) (h : Intact win start mem pages)
    (hAlloc : memPhysAllocSpecific win fuel mem pages size id = some (addr, mem', pages')) :
    Intact win start mem' pages' ∧ Spares (pages.live.map (windowBlock win)) mem mem' ∧
      (addr = physNull ∧ mem' = mem ∧ pages'.live = pages.live ∨
        addr ≠ physNull ∧ ∃ pointer, pages'.live = ⟨addr, size, pointer⟩ :: pages.live) := by
  simp only [memPhysAllocSpecific] at hAlloc
  rcases hLoop : Phys.memPhysAllocSpecificNolock fuel (lend win mem pages) size id with
    _ | ⟨found, pointer, after⟩
  · simp [hLoop] at hAlloc
  · simp only [hLoop] at hAlloc
    rcases h.kept.allocLoop hLoop with ⟨rfl, rfl⟩ | ⟨hServed, range, hRange, hFound, rfl⟩
    · rw [if_pos rfl] at hAlloc
      cases hAlloc
      refine ⟨⟨?_, h.recorded, fun p range hRange => h.coarse_lend hRange⟩, fun _ _ _ _ => rfl,
        Or.inl ⟨rfl, rfl, rfl⟩⟩
      rw [lend_lend]
      exact h.kept
    · rw [if_neg hServed] at hAlloc
      simp only [Option.some.injEq, Prod.mk.injEq] at hAlloc
      obtain ⟨rfl, hMem, hPages⟩ := hAlloc
      obtain rfl : adopt win (pages'.ranges pointer) mem = mem' := by rw [← hMem, ← hPages]
      obtain ⟨hKept, hRecorded⟩ :=
        h.kept.alloc hStart h.recorded hRange hFound hServed hPages.symm
      have hLive : pages'.live = ⟨found, size, pointer⟩ :: pages.live := by rw [← hPages]; rfl
      have hRanges := congrArg Phys.State.ranges hPages.symm
      refine ⟨intact_adopt hStart h hKept hRecorded (h.coarse_lend hRange).alloc hRanges, ?_,
        Or.inr ⟨hServed, pointer, hLive⟩⟩
      intro b hb x hx
      obtain ⟨a, ha, rfl⟩ := List.mem_map.mp hb
      have hNow := (congrFun hRanges pointer).trans (Function.update_self ..)
      refine adopt_spares hStart hKept hNow (hLive ▸ List.mem_cons_of_mem _ ha)
        (fun hSame y hy => ?_) hx
      obtain ⟨before, -, -, -, free, hLayout⟩ := h.kept.origin hRange
      have hHeld : a.block ∈ pages.held pointer := hSame ▸ mem_held ha
      rw [Phys.memRcBorrow, hLayout.alloc_mem hHeld hy]
      obtain ⟨own, -, rfl⟩ := of_lend_ranges hRange
      rfl

theorem memRcDrop_region {range after : MemRange} (hDrop : memRcDrop range = some after) :
    after.region = range.region := by
  simp only [memRcDrop] at hDrop
  split_ifs at hDrop
  rw [← Option.some.inj hDrop]

theorem Intact.pairwise (hStart : Initialised start) (h : Intact win start mem pages) :
    pages.live.Pairwise fun a b => a.block.Apart b.block := by
  have hPairwise := h.kept.pairwise hStart
  exact hPairwise

theorem filter_addr (hApart : pages.live.Pairwise fun a b => a.block.Apart b.block)
    (ha : a ∈ pages.live) : pages.live.filter (·.addr ≠ a.addr) = pages.live.erase a := by
  have hNodup : pages.live.Nodup :=
    hApart.imp fun h hEq => h.addr_ne (congrArg (fun a => a.block.addr) hEq)
  rw [hNodup.erase_eq_filter]
  refine List.filter_congr fun b hb => ?_
  by_cases hEq : b = a
  · simp [hEq]
  · have hNe : b.addr ≠ a.addr := (hApart.forall hb ha hEq).addr_ne
    simp [hEq, hNe]

/-- A block goes back. -/
theorem Intact.free (hStart : Initialised start) (h : Intact win start mem pages)
    (ha : a ∈ pages.live) (hFree : memPhysFree win mem pages a.addr = some (mem', pages')) :
    Intact win start mem' pages' ∧ Spares (pages'.live.map (windowBlock win)) mem mem' ∧
      pages'.live = pages.live.filter (·.addr ≠ a.addr) := by
  have hApart := h.pairwise hStart
  simp only [memPhysFree] at hFree
  cases hCall : Phys.memPhysFree (lend win mem pages) a.addr with
  | none => simp [hCall] at hFree
  | some after =>
      obtain ⟨id, hInfo⟩ := h.recorded a ha
      obtain ⟨range, freed, hRange, hDrop, rfl⟩ :=
        Recorded.free (s := lend win mem pages) h.recorded ha hCall
      simp only [hCall, hInfo, Option.some.injEq, Prod.mk.injEq] at hFree
      obtain ⟨hMem, hPages⟩ := hFree
      obtain rfl : adopt win (pages'.ranges a.range) mem = mem' := by rw [← hMem, ← hPages]
      have hKept : Kept start pages' := by
        have hFreed := h.kept.free ha hRange hDrop
        have hErase : (lend win mem pages).live.erase a =
            pages.live.filter (·.addr ≠ a.addr) := (filter_addr hApart ha).symm
        rw [hErase] at hFreed
        rw [← hPages]
        exact hFreed
      have hLive : pages'.live = pages.live.filter (·.addr ≠ a.addr) := by rw [← hPages]; rfl
      have hRanges := congrArg Phys.State.ranges hPages.symm
      have hRegion := memRcDrop_region hDrop
      have hRecorded : Recorded pages' := by
        intro b hb
        rw [← hPages]
        exact h.recorded b (List.mem_of_mem_filter (hLive ▸ hb))
      have hCoarse : Coarse freed.region := hRegion ▸ (h.coarse_lend hRange).slabFree
      refine ⟨intact_adopt hStart h hKept hRecorded hCoarse hRanges, ?_, hLive⟩
      intro c hc x hx
      obtain ⟨b, hb, rfl⟩ := List.mem_map.mp hc
      have hNow := (congrFun hRanges a.range).trans (Function.update_self ..)
      refine adopt_spares hStart hKept hNow hb (fun _ y hy => ?_) hx
      rw [hLive] at hb
      have hNe : b ≠ a := by
        rintro rfl
        simp at hb
      have hOther := hApart.forall (List.mem_of_mem_filter hb) ha hNe
      rw [hRegion, PhysSlab.free_mem]
      · obtain ⟨own, -, rfl⟩ := of_lend_ranges hRange
        rfl
      · rintro rfl
        exact hOther.not_contains hy (Block.contains_addr a.block)

end Calls

theorem pageSize_dvd_liveBlock (a : Nat × Nat) : pageSize ∣ (PhysSlab.liveBlock a).size :=
  Nat.pow_dvd_pow 2 (Heap.memPhysSlabGetOrder_bounds a.2).1

/-- What a request for pages of one size leaves behind, and an oracle that has answered it. -/
structure Answered (win : Nat) (start : Phys.State) (mem : Nat → Nat) (pages : Phys.State)
    (size : Nat) (pmm : Nat → Option Nat) (mem' : Nat → Nat) (pages' : Phys.State) : Prop where
  intact : Intact win start mem' pages'
  spares : Spares (pages.live.map (windowBlock win)) mem mem'
  subset : pages.live ⊆ pages'.live
  served : ∀ i addr, pmm i = some addr →
    ∃ pointer, pages'.live = ⟨addr, size, pointer⟩ :: pages.live

/-- The blocks that the heap has are allocations of the page allocator. -/
def Owned (win : Nat) (phys : List Block) (pages : Phys.State) : Prop :=
  ∀ b ∈ phys, ∃ a ∈ pages.live, 0 < a.size ∧ b = Block.ofSize (win + a.addr) a.size

section Answers

variable {win fuel size id addr order i : Nat} {start pages pages' : Phys.State}
  {mem mem' : Nat → Nat} {h h' : KernelHeap} {ptr : Option Nat} {pmm : Nat → Option Nat}
  {ids : List Nat} {phys : List Block}

theorem Answered.refl (hIntact : Intact win start mem pages) :
    Answered win start mem pages size (fun _ => none) mem pages :=
  ⟨hIntact, fun _ _ _ _ => rfl, List.Subset.refl _, fun _ _ hNone => by cases hNone⟩

/-- A request that one node refuses goes on at the next one. -/
theorem Answered.after (h : Answered win start mem pages' size pmm mem' pages)
    {before : Phys.State} (hLive : pages'.live = before.live) :
    Answered win start mem before size pmm mem' pages :=
  ⟨h.intact, hLive ▸ h.spares, hLive ▸ h.subset, fun i addr hServed => hLive ▸ h.served i addr hServed⟩

/-- The one answer of a node that has served the request. -/
theorem answered_served (hIntact : Intact win start mem' pages')
    (hSpares : Spares (pages.live.map (windowBlock win)) mem mem') {pointer : Nat}
    (hLive : pages'.live = ⟨addr, size, pointer⟩ :: pages.live)
    (hOnly : ∀ i a, pmm i = some a → a = addr) :
    Answered win start mem pages size pmm mem' pages' :=
  ⟨hIntact, hSpares, hLive ▸ List.subset_cons_self .., fun i a hServed =>
    ⟨pointer, (hOnly i a hServed).symm ▸ hLive⟩⟩

theorem answered_onBehalf (hStart : Initialised start) (hIntact : Intact win start mem pages)
    (hRun : memPhysAllocOnBehalf win fuel size ids mem pages = some (addr, mem', pages')) :
    Answered win start mem pages size (fun _ => if addr = physNull then none else some addr)
      mem' pages' := by
  induction ids generalizing mem pages with
  | nil =>
      simp only [memPhysAllocOnBehalf, Option.some.injEq, Prod.mk.injEq] at hRun
      obtain ⟨rfl, rfl, rfl⟩ := hRun
      exact .refl hIntact
  | cons n rest ih =>
      simp only [memPhysAllocOnBehalf] at hRun
      rcases hCall : memPhysAllocSpecific win fuel mem pages size n with _ | ⟨found, mem₁, pages₁⟩
      · simp [hCall] at hRun
      · simp only [hCall] at hRun
        obtain ⟨hIntact₁, hSpares, ⟨hNull, rfl, hLive⟩ | ⟨hServed, pointer, hLive⟩⟩ :=
          hIntact.alloc hStart hCall
        · rw [if_pos hNull] at hRun
          exact (ih hIntact₁ hRun).after hLive
        · rw [if_neg hServed] at hRun
          simp only [Option.some.injEq, Prod.mk.injEq] at hRun
          obtain ⟨rfl, rfl, rfl⟩ := hRun
          refine answered_served hIntact₁ hSpares hLive fun i a hAnswer => ?_
          rw [if_neg hServed] at hAnswer
          exact (Option.some.inj hAnswer).symm

/-- The loop over the neighbours runs as with an oracle. The page allocator may have changed the
memory before the heap does. -/
theorem answered_neighbours (hStart : Initialised start) (hIntact : Intact win start h.mem pages)
    (hRun : allocFromNeighbours win order fuel ids h pages = some (ptr, h', pages')) (i : Nat) :
    ∃ pmm mem, Answered win start h.mem pages memHeapChunkSize pmm mem pages' ∧
      (∀ j < i, pmm j = none) ∧
      Heap.allocFromNeighbours win order pmm i ids { h with mem := mem } = (ptr, h') := by
  induction ids generalizing pages i with
  | nil =>
      simp only [allocFromNeighbours, Option.some.injEq, Prod.mk.injEq] at hRun
      obtain ⟨rfl, rfl, rfl⟩ := hRun
      exact ⟨_, h.mem, .refl hIntact, fun _ _ => rfl, rfl⟩
  | cons n rest ih =>
      simp only [allocFromNeighbours] at hRun
      split_ifs at hRun with hFree hUnused
      · simp only [Option.some.injEq, Prod.mk.injEq] at hRun
        obtain ⟨rfl, rfl, rfl⟩ := hRun
        refine ⟨_, h.mem, .refl hIntact, fun _ _ => rfl, ?_⟩
        simp only [Heap.allocFromNeighbours]
        rw [if_pos hFree]
      · simp only [Option.some.injEq, Prod.mk.injEq] at hRun
        obtain ⟨rfl, rfl, rfl⟩ := hRun
        refine ⟨_, h.mem, .refl hIntact, fun _ _ => rfl, ?_⟩
        simp only [Heap.allocFromNeighbours]
        rw [if_neg hFree, if_pos hUnused]
      · rcases hCall : memPhysAllocSpecific win fuel h.mem pages memHeapChunkSize n with
          _ | ⟨found, mem₁, pages₁⟩
        · simp [hCall] at hRun
        · simp only [hCall] at hRun
          obtain ⟨hIntact₁, hSpares, ⟨hNull, rfl, hLive⟩ | ⟨hServed, pointer, hLive⟩⟩ :=
            hIntact.alloc hStart hCall
          · rw [if_pos hNull] at hRun
            obtain ⟨pmm, mem, hAnswered, hBefore, hHeap⟩ := ih hIntact₁ hRun (i + 1)
            refine ⟨pmm, mem, hAnswered.after hLive, fun j hj => hBefore j (by omega), ?_⟩
            simp only [Heap.allocFromNeighbours]
            rw [if_neg hFree, if_neg hUnused, hBefore i (by omega)]
            exact hHeap
          · rw [if_neg hServed] at hRun
            simp only [Option.some.injEq, Prod.mk.injEq] at hRun
            obtain ⟨rfl, rfl, rfl⟩ := hRun
            refine ⟨fun j => if j = i then some found else none, mem₁,
              answered_served hIntact₁ hSpares hLive fun j a hAnswer => ?_, fun j hj => ?_, ?_⟩
            · split_ifs at hAnswer
              exact (Option.some.inj hAnswer).symm
            · exact if_neg (Nat.ne_of_lt hj)
            · simp only [Heap.allocFromNeighbours, if_true]
              rw [if_neg hFree, if_neg hUnused]
              rfl

/-- An allocation on the heap is one with an oracle. -/
theorem answered_alloc (hStart : Initialised start) (hIntact : Intact win start h.mem pages)
    (hRun : memHeapAllocOnBehalf win fuel h pages size id = some (ptr, h', pages')) :
    ∃ pmm mem, Answered win start h.mem pages (physRequest size) pmm mem pages' ∧
      Heap.memHeapAllocOnBehalf win { h with mem := mem } size id pmm = (ptr, h') := by
  simp only [memHeapAllocOnBehalf] at hRun
  split_ifs at hRun with hDirect
  · rcases hCall : memPhysAllocOnBehalf win fuel size (h.nodes id).neighbours h.mem pages with
      _ | ⟨found, mem₁, pages₁⟩
    · simp [hCall] at hRun
    · simp only [hCall] at hRun
      have hAnswered := answered_onBehalf hStart hIntact hCall
      rw [physRequest, if_pos hDirect]
      split_ifs at hRun with hNull
      · simp only [Option.some.injEq, Prod.mk.injEq] at hRun
        obtain ⟨rfl, rfl, rfl⟩ := hRun
        refine ⟨_, mem₁, hAnswered, ?_⟩
        simp only [Heap.memHeapAllocOnBehalf]
        rw [if_pos hDirect, if_pos hNull]
      · simp only [Option.some.injEq, Prod.mk.injEq] at hRun
        obtain ⟨rfl, rfl, rfl⟩ := hRun
        refine ⟨_, mem₁, hAnswered, ?_⟩
        simp only [Heap.memHeapAllocOnBehalf]
        rw [if_pos hDirect, if_neg hNull]
  · obtain ⟨pmm, mem, hAnswered, -, hHeap⟩ := answered_neighbours hStart hIntact hRun 0
    rw [physRequest, if_neg hDirect]
    refine ⟨pmm, mem, hAnswered, ?_⟩
    simp only [Heap.memHeapAllocOnBehalf]
    rw [if_neg hDirect]
    exact hHeap

/-- The page allocator gives what the heap relies on. -/
theorem Answered.grant (hStart : Initialised start)
    (hAligned : ∀ pointer range, start.ranges pointer = some range →
      range.region.slab.base % pageSize = 0)
    (h : Answered win start mem pages size pmm mem' pages') (hOwned : Owned win phys pages) :
    ∀ i addr, pmm i = some addr → PageGrant win phys size addr := by
  intro i addr hServed
  obtain ⟨pointer, hLive⟩ := h.served i addr hServed
  have hHead : ⟨addr, size, pointer⟩ ∈ pages'.live := hLive ▸ List.mem_cons_self ..
  have hOrder : memPhysSlabGetOrder size < memPhysSlabOrdersCount := h.intact.kept.order _ hHead
  refine ⟨hOrder, ?_, fun c hc => ?_⟩
  · obtain ⟨before, hBefore, -⟩ := h.intact.kept.within hHead
    obtain ⟨range, hRange, -, -, free, hLayout⟩ := h.intact.kept.current hBefore
    refine hLayout.aligned (h.intact.coarse_lend hRange) (hAligned pointer before hBefore)
      (fun b hb => ?_) (mem_held hHead)
    rcases List.mem_append.mp hb with hNow | hEarlier
    · obtain ⟨a, -, rfl⟩ := List.mem_map.mp hNow
      exact pageSize_dvd_liveBlock _
    · obtain ⟨a, -, rfl⟩ := List.mem_map.mp hEarlier
      exact pageSize_dvd_liveBlock a
  · obtain ⟨b, hb, rfl⟩ := List.mem_map.mp hc
    obtain ⟨a, ha, hPos, rfl⟩ := hOwned b hb
    have hPairwise := h.intact.pairwise hStart
    rw [hLive, List.pairwise_cons] at hPairwise
    rw [Heap.ofSize_two_pow, Heap.pageBlock_ofSize hPos]
    exact windowBlock_apart (hPairwise.1 a ha)

end Answers

/-- What holds in all states: the heap has come here in a run of its own, the page allocator is
in order, and the blocks of the heap are allocations. -/
structure Joined (win count : Nat) (start : Phys.State) (s : State) : Prop where
  run : ∃ trace, (Heap.reallocSystem win count).Execution trace s.heap
  intact : Intact win start s.heap.mem s.pages
  owned : Owned win s.heap.phys s.pages

section Heap

variable {win order size id i : Nat} {start pages : Phys.State} {mem mem' : Nat → Nat}
  {h h' : KernelHeap} {ptr : Option Nat} {pmm : Nat → Option Nat} {phys : List Block} {b : Block}

theorem Owned.window (hOwned : Owned win phys pages) (hb : b ∈ phys) :
    ∃ a ∈ pages.live, pageBlock b = windowBlock win a ∧ b.addr = win + a.addr := by
  obtain ⟨a, ha, hPos, rfl⟩ := hOwned b hb
  exact ⟨a, ha, Heap.pageBlock_ofSize hPos, rfl⟩

/-- The page allocator does not write to what the heap has. -/
theorem Owned.spared (hOwned : Owned win phys pages)
    (hSpares : Spares (pages.live.map (windowBlock win)) mem mem') :
    ∀ x, (∃ b ∈ phys, (pageBlock b).Contains x) → mem' x = mem x := by
  rintro x ⟨b, hb, hx⟩
  obtain ⟨a, ha, hEq, -⟩ := hOwned.window hb
  exact hSpares _ (List.mem_map_of_mem ha) x (hEq ▸ hx)

/-- Writes to blocks that the heap has leave the page allocator in order. -/
theorem Intact.writes (hStart : Initialised start) (hIntact : Intact win start mem pages)
    (hOwned : Owned win phys pages)
    (hWrites : ∀ x, mem' x ≠ mem x → ∃ b ∈ phys, (pageBlock b).Contains x) :
    Intact win start mem' pages := by
  refine hIntact.store fun pointer range hRange x hLow hHigh hFree => ?_
  by_contra hNe
  obtain ⟨b, hb, hx⟩ := hWrites _ hNe
  obtain ⟨a, ha, hEq, -⟩ := hOwned.window hb
  rw [hEq, windowBlock_contains] at hx
  have hServed : a.range = pointer :=
    range_of_contains hStart hIntact.kept ha hx (lend_ranges hRange) hLow hHigh
  exact hFree a.block (hServed ▸ mem_held ha) hx

/-- What an allocation takes from the page allocator. -/
theorem alloc_phys (hAlloc : Heap.memHeapAllocOnBehalf win h size id pmm = (ptr, h')) :
    ∀ b ∈ h'.phys, b ∈ h.phys ∨
      ∃ i addr, pmm i = some addr ∧ b = Block.ofSize (win + addr) (physRequest size) := by
  have hLoop : ∀ ids i, Heap.allocFromNeighbours win
      (memHeapGetSizeOrder size memHeapSlabOrders) pmm i ids h = (ptr, h') → ∀ b ∈ h'.phys,
      b ∈ h.phys ∨ ∃ i addr, pmm i = some addr ∧ b = Block.ofSize (win + addr) memHeapChunkSize := by
    intro ids
    induction ids with
    | nil =>
        intro i hDone b hb
        rw [← (Prod.mk.inj hDone).2] at hb
        exact Or.inl hb
    | cons n rest ih =>
        intro i hRun b hb
        simp only [Heap.allocFromNeighbours] at hRun
        split_ifs at hRun
        · rw [← (Prod.mk.inj hRun).2] at hb
          exact Or.inl hb
        · rw [← (Prod.mk.inj hRun).2] at hb
          exact Or.inl (Heap.Layout.memHeapAddSlab_phys h n _ ▸ hb)
        · rcases hChunk : Heap.memAllocateNewSlabsChunk win h n (pmm i) with ⟨ok, h₁⟩
          rw [hChunk] at hRun
          cases ok with
          | false =>
              rw [Heap.Layout.memAllocateNewSlabsChunk_false hChunk] at hRun
              exact ih (i + 1) hRun b hb
          | true =>
              obtain ⟨addr, hAnswer⟩ := Heap.Layout.memAllocateNewSlabsChunk_true hChunk
              have hPhys := Heap.Layout.newSlabsChunk_phys win h n addr
              rw [← hAnswer, hChunk] at hPhys
              rw [← (Prod.mk.inj hRun).2] at hb
              have hMem : b ∈ h₁.phys := Heap.Layout.memHeapAddSlab_phys h₁ n _ ▸ hb
              rw [hPhys, List.mem_cons] at hMem
              rcases hMem with rfl | hOld
              · exact Or.inr ⟨i, addr, hAnswer.symm ▸ rfl, rfl⟩
              · exact Or.inl hOld
  intro b hb
  simp only [Heap.memHeapAllocOnBehalf] at hAlloc
  split_ifs at hAlloc with hDirect
  · cases hAnswer : pmm 0 with
    | none =>
        rw [hAnswer] at hAlloc
        exact Or.inl ((Prod.mk.inj hAlloc).2 ▸ hb)
    | some addr =>
        rw [hAnswer] at hAlloc
        rw [← (Prod.mk.inj hAlloc).2, List.mem_cons] at hb
        rcases hb with rfl | hOld
        · exact Or.inr ⟨0, addr, hAnswer, by rw [physRequest, if_pos hDirect]⟩
        · exact Or.inl hOld
  · rw [physRequest, if_neg hDirect]
    exact hLoop _ 0 hAlloc b hb

theorem physRequest_pos (size : Nat) : 0 < physRequest size := by
  rw [physRequest]
  split_ifs with hDirect
  · exact Heap.direct_pos hDirect
  · decide

end Heap

section Steps

variable {win count fuel size id : Nat} {start pages : Phys.State} {s : State} {h : KernelHeap}
  {ptr : Option Nat}

/-- The memory that is not the heap's has changed. -/
theorem Joined.outside (hJoined : Joined win count start s) {mem : Nat → Nat}
    (hSame : ∀ x, (∃ b ∈ s.heap.phys, (pageBlock b).Contains x) →
      (∀ p ∈ s.heap.live, ¬(classBlock p).Contains x) → mem x = s.heap.mem x) :
    ∃ trace, (Heap.reallocSystem win count).Execution trace { s.heap with mem := mem } := by
  obtain ⟨trace, run⟩ := hJoined.run
  exact ⟨_, run.step (.store hSame)⟩

theorem Joined.alloc (hWin : 0 < win) (hBase : memHeapSlabSize ∣ win) (hStart : Initialised start)
    (hAligned : ∀ pointer range, start.ranges pointer = some range →
      range.region.slab.base % pageSize = 0) (hJoined : Joined win count start s)
    (hAlloc : memHeapAllocOnBehalf win fuel s.heap.toKernelHeap s.pages size id =
      some (ptr, h, pages)) :
    Joined win count start ⟨⟨h, (ptr.map (·, size)).toList ++ s.heap.live⟩, pages⟩ := by
  obtain ⟨pmm, mem, hAnswered, hHeap⟩ := answered_alloc hStart hJoined.intact hAlloc
  obtain ⟨trace, run⟩ := hJoined.outside fun x hx _ => hJoined.owned.spared hAnswered.spares x hx
  have hGrant := hAnswered.grant hStart hAligned hJoined.owned
  obtain ⟨g, hSound⟩ := Heap.sound_run hWin hBase run
  have hWrites := hSound.alloc_writes hWin hBase hGrant hHeap
  have hOwned : Owned win h.phys pages := by
    intro b hb
    rcases alloc_phys hHeap b hb with hOld | ⟨i, addr, hServed, rfl⟩
    · obtain ⟨a, ha, hEq⟩ := hJoined.owned b hOld
      exact ⟨a, hAnswered.subset ha, hEq⟩
    · obtain ⟨pointer, hLive⟩ := hAnswered.served i addr hServed
      exact ⟨_, hLive ▸ List.mem_cons_self .., physRequest_pos size, rfl⟩
  refine ⟨⟨_, run.step (.alloc hGrant hHeap)⟩, ?_, hOwned⟩
  refine hAnswered.intact.writes hStart hOwned fun x hNe => ?_
  obtain ⟨⟨c, hc, hx⟩, -⟩ := hWrites.2 x hNe
  obtain ⟨b, hb, rfl⟩ := List.mem_map.mp hc
  exact ⟨b, hb, hx⟩

/-- The pages of the heap go back to the page allocator, its objects to a free list. -/
theorem Joined.free (hWin : 0 < win) (hBase : memHeapSlabSize ∣ win) (hStart : Initialised start)
    (hJoined : Joined win count start s) {addr requested : Nat}
    (hLive : (addr, requested) ∈ s.heap.live)
    (hClass : memHeapGetSizeOrder size memHeapSlabOrders =
      memHeapGetSizeOrder requested memHeapSlabOrders)
    (hFree : memHeapFree win s.heap.toKernelHeap s.pages addr size = some (h, pages)) :
    Joined win count start ⟨⟨h, s.heap.live.erase (addr, requested)⟩, pages⟩ := by
  obtain ⟨trace, run⟩ := hJoined.run
  obtain ⟨g, hSound⟩ := Heap.sound_run hWin hBase run
  have freed := run.step (.free hLive hClass)
  simp only [memHeapFree] at hFree
  split_ifs at hFree with hDirect
  · have hMatches := hSound.matches hLive
    rw [Heap.Matches, if_pos (hClass ▸ hDirect)] at hMatches
    obtain ⟨b, hb, hAddr, -⟩ := hMatches
    obtain ⟨a, ha, -, hWindow⟩ := hJoined.owned.window hb
    have hPage : addr - win = a.addr := by
      simp only at hAddr
      omega
    rw [hPage] at hFree
    rcases hCall : memPhysFree win s.heap.mem s.pages a.addr with _ | ⟨mem, pages'⟩
    · simp [hCall] at hFree
    · simp only [hCall, Option.some.injEq, Prod.mk.injEq] at hFree
      obtain ⟨rfl, rfl⟩ := hFree
      obtain ⟨hIntact, hSpares, hGone⟩ := hJoined.intact.free hStart ha hCall
      have hOwned : Owned win (Heap.memPhysFree win s.heap.toKernelHeap a.addr).phys pages' := by
        intro c hc
        obtain ⟨hc, hNe⟩ := List.mem_filter.mp hc
        obtain ⟨a', ha', hPos, rfl⟩ := hJoined.owned c hc
        refine ⟨a', ?_, hPos, rfl⟩
        rw [hGone, List.mem_filter]
        simpa [Block.ofSize, ha'] using hNe
      simp only [Heap.memHeapFree, if_pos hDirect, hPage] at freed
      exact ⟨⟨_, freed.step (.store fun x hx _ => hOwned.spared hSpares x hx)⟩, hIntact, hOwned⟩
  · simp only [Option.some.injEq, Prod.mk.injEq] at hFree
    obtain ⟨rfl, rfl⟩ := hFree
    have hPhys : (Heap.memHeapFree win s.heap.toKernelHeap addr size).phys = s.heap.phys := by
      simp only [Heap.memHeapFree, if_neg hDirect]
      rfl
    refine ⟨⟨_, freed⟩, ?_, ?_⟩
    · refine hJoined.intact.writes hStart hJoined.owned fun x hNe => ?_
      have hWord : x = addr := by
        by_contra hOther
        exact hNe (Heap.memHeapFree_mem hOther)
      obtain ⟨c, hc, hInside⟩ := hSound.layout.inside _
        (List.mem_append_left _ (List.mem_map_of_mem hLive))
      obtain ⟨b, hb, rfl⟩ := List.mem_map.mp hc
      exact ⟨b, hb, hInside.contains (hWord ▸ Block.contains_addr (classBlock (addr, requested)))⟩
    · rw [Owned, hPhys]
      exact hJoined.owned

/-- Others take pages. -/
theorem Joined.pagesAlloc (hStart : Initialised start) (hJoined : Joined win count start s)
    {addr : Nat} {mem : Nat → Nat}
    (hAlloc : memPhysAllocSpecific win fuel s.heap.mem s.pages size id = some (addr, mem, pages)) :
    Joined win count start ⟨{ s.heap with mem := mem }, pages⟩ := by
  obtain ⟨hIntact, hSpares, hAnswer⟩ := hJoined.intact.alloc hStart hAlloc
  refine ⟨hJoined.outside fun x hx _ => hJoined.owned.spared hSpares x hx, hIntact, fun b hb => ?_⟩
  obtain ⟨a, ha, hEq⟩ := hJoined.owned b hb
  rcases hAnswer with ⟨-, -, hLive⟩ | ⟨-, pointer, hLive⟩
  · exact ⟨a, hLive ▸ ha, hEq⟩
  · exact ⟨a, hLive ▸ List.mem_cons_of_mem _ ha, hEq⟩

/-- Others give back pages that are not the heap's. -/
theorem Joined.pagesFree (hStart : Initialised start) (hJoined : Joined win count start s)
    {a : Allocation} {mem : Nat → Nat} (ha : a ∈ s.pages.live) (hOther : ¬s.Owns win a)
    (hFree : memPhysFree win s.heap.mem s.pages a.addr = some (mem, pages)) :
    Joined win count start ⟨{ s.heap with mem := mem }, pages⟩ := by
  obtain ⟨hIntact, hSpares, hGone⟩ := hJoined.intact.free hStart ha hFree
  have hOwned : Owned win s.heap.phys pages := by
    intro b hb
    obtain ⟨a', ha', hPos, rfl⟩ := hJoined.owned b hb
    refine ⟨a', ?_, hPos, rfl⟩
    have hNe : a'.addr ≠ a.addr := fun hEq => hOther ⟨_, hb, congrArg (win + ·) hEq⟩
    rw [hGone, List.mem_filter]
    exact ⟨ha', by simpa using hNe⟩
  exact ⟨hJoined.outside fun x hx _ => hOwned.spared hSpares x hx, hIntact, hOwned⟩

/-- What others have from the page allocator is apart from what the heap has. -/
theorem Joined.others_apart (hStart : Initialised start) (hJoined : Joined win count start s)
    {pointer : Nat} {range : MemRange} (hRange : s.pages.ranges pointer = some range) {b : Block}
    (hb : s.OthersHave win pointer b) {a : Allocation} (ha : a ∈ s.pages.live)
    (hOwns : s.Owns win a) : b.Apart a.block := by
  rcases hb with ⟨a', ha', -, hNot, rfl⟩ | ⟨e, he, rfl⟩
  · refine (hJoined.intact.pairwise hStart).forall ha' ha fun hEq => hNot (hEq ▸ hOwns)
  · obtain ⟨before, hBefore, -, -, free, hLayout⟩ :=
      hJoined.intact.kept.origin (lend_ranges hRange)
    have hEarlier : PhysSlab.liveBlock e ∈ (s.pages.earlier pointer).map PhysSlab.liveBlock :=
      List.mem_map_of_mem he
    by_cases hSame : a.range = pointer
    · have hPairwise := (List.pairwise_append.mp (List.pairwise_append.mp hLayout.tiles.1).1).2.2
      refine (hPairwise a.block ?_ _ hEarlier).symm
      exact List.mem_map.mpr ⟨a, List.mem_filter.mpr ⟨ha, by simp [hSame]⟩, rfl⟩
    · obtain ⟨own, hOwn, hLow, hHigh, -⟩ := hJoined.intact.kept.within ha
      have hIn := hLayout.tiles.within
        (List.mem_append_left _ (List.mem_append_right _ hEarlier))
      have hApart := hStart.apart _ _ own before hOwn hBefore hSame
      have hBrk := hLayout.brk_le
      have hAddr : a.block.addr = a.addr := rfl
      simp only [Block.Apart]
      omega

/-- What clients and free lists of the heap have lies inside allocations of the heap. -/
theorem Joined.inside (hJoined : Joined win count start s) {g : Heap.Ledger}
    (hSound : Sound win count s.heap g) :
    ∀ b ∈ s.heap.live.map classBlock ++ g.pieces count,
      ∃ a ∈ s.pages.live, s.Owns win a ∧ b.Inside (windowBlock win a) := by
  intro b hb
  obtain ⟨c, hc, hInside⟩ := hSound.layout.inside b hb
  obtain ⟨page, hPage, rfl⟩ := List.mem_map.mp hc
  obtain ⟨a, ha, hEq, hAddr⟩ := hJoined.owned.window hPage
  exact ⟨a, ha, ⟨page, hPage, hAddr⟩, hEq ▸ hInside⟩

/-- Clients and others write to what they have. -/
theorem Joined.store (hWin : 0 < win) (hBase : memHeapSlabSize ∣ win) (hStart : Initialised start)
    (hJoined : Joined win count start s) {mem : Nat → Nat}
    (hSame : ∀ pointer range, s.pages.ranges pointer = some range → ∀ a,
      range.region.slab.base ≤ a → a < range.region.slab.base + range.region.slab.length →
      (∀ p ∈ s.heap.live, ¬(classBlock p).Contains (win + a)) →
      (∀ b, s.OthersHave win pointer b → ¬b.Contains a) → mem (win + a) = s.heap.mem (win + a)) :
    Joined win count start ⟨{ s.heap with mem := mem }, s.pages⟩ := by
  obtain ⟨trace, run⟩ := hJoined.run
  obtain ⟨g, hSound⟩ := Heap.sound_run hWin hBase run
  have hKept := hJoined.intact.kept
  refine ⟨hJoined.outside ?_, hJoined.intact.store ?_, hJoined.owned⟩
  · rintro x ⟨b, hb, hx⟩ hFree
    obtain ⟨a, ha, hEq, hAddr⟩ := hJoined.owned.window hb
    rw [hEq] at hx
    obtain ⟨y, rfl, hy⟩ := exists_of_windowBlock_contains hx
    obtain ⟨before, hBefore, hLow, hHigh, -⟩ := hKept.within ha
    obtain ⟨lent, hLent, -, -, free, hLayout⟩ := hKept.current hBefore
    obtain ⟨range, hRange, rfl⟩ := of_lend_ranges hLent
    have hBounds : range.region.slab.base = before.region.slab.base ∧
        range.region.slab.length = before.region.slab.length :=
      ⟨hLayout.base_eq, hLayout.length_eq⟩
    have hStartAddr : a.block.addr = a.addr := rfl
    have hIn := hy
    simp only [Block.Contains] at hIn
    refine hSame a.range range hRange y (by omega) (by omega) hFree fun c hc => ?_
    exact (hJoined.others_apart hStart hRange hc ha ⟨b, hb, hAddr⟩).symm.not_contains hy
  · intro pointer range hRange x hLow hHigh hFree
    refine hSame pointer range hRange x hLow hHigh (fun p hp hx => ?_) fun b hb hx => ?_
    · obtain ⟨a, ha, -, hInside⟩ :=
        hJoined.inside hSound _ (List.mem_append_left _ (List.mem_map_of_mem hp))
      have hy := windowBlock_contains.mp (hInside.contains hx)
      have hServed : a.range = pointer :=
        range_of_contains hStart hKept ha hy (lend_ranges hRange) hLow hHigh
      exact hFree a.block (hServed ▸ mem_held ha) hy
    · rcases hb with ⟨a, ha, hServed, -, rfl⟩ | ⟨e, he, rfl⟩
      · exact hFree _ (hServed ▸ mem_held ha) hx
      · exact hFree _ (List.mem_append_right _ (List.mem_map_of_mem he)) hx

theorem Joined.step (hWin : 0 < win) (hBase : memHeapSlabSize ∣ win) (hStart : Initialised start)
    (hAligned : ∀ pointer range, start.ranges pointer = some range →
      range.region.slab.base % pageSize = 0) (hJoined : Joined win count start s) {event : Event}
    {s' : State} (hStep : Step win s event s') : Joined win count start s' := by
  cases hStep with
  | alloc hAlloc => exact hJoined.alloc hWin hBase hStart hAligned hAlloc
  | free hLive hClass hFree => exact hJoined.free hWin hBase hStart hLive hClass hFree
  | pagesAlloc hAlloc => exact hJoined.pagesAlloc hStart hAlloc
  | pagesFree ha hOther hFree => exact hJoined.pagesFree hStart ha hOther hFree
  | store hSame => exact hJoined.store hWin hBase hStart hSame

theorem joined_init (hStart : Initialised start) (hInit : (system win count start).init s) :
    Joined win count start s := by
  obtain ⟨rfl, hHeap, hView⟩ := hInit
  refine ⟨⟨[], .start hHeap⟩, ⟨?_, fun a ha => ?_, fun pointer range hRange => ?_⟩, fun b hb => ?_⟩
  · exact kept_lend hStart.kept fun pointer range hRange a hLow hHigh _ =>
      hView pointer range hRange a hLow hHigh
  · rw [hStart.live] at ha
    cases ha
  · obtain ⟨-, -, trace, run⟩ := hStart.slab pointer range hRange
    exact PhysSlab.coarse_run run
  · rw [hHeap.2.1] at hb
    cases hb

end Steps

/-- In the one memory, the lists of the heap and of all ranges are linked as they should be, what
the heap has lies inside allocations of its own, and these are apart from everything else that
the page allocator has handed out. -/
structure Whole (win count : Nat) (s : State) : Prop where
  heap : ∃ g, Heap.Linked count s.heap.toKernelHeap g ∧
    (s.heap.live.map classBlock ++ g.pieces count).Pairwise Block.Apart ∧
    ∀ b ∈ s.heap.live.map classBlock ++ g.pieces count,
      ∃ a ∈ s.pages.live, s.Owns win a ∧ b.Inside (windowBlock win a)
  pages : ∀ pointer range, s.pages.ranges pointer = some range → ∃ free,
    Layout range.region.slab.base range.region.slab.length
      { range.region with mem := fun a => s.heap.mem (win + a) } (s.pages.held pointer) free
  apart : ∀ pointer range, s.pages.ranges pointer = some range → ∀ b,
    s.OthersHave win pointer b → ∀ a ∈ s.pages.live, s.Owns win a → b.Apart a.block

/-- Over any run of clients of the heap and of the page allocator, the heap goes through a run
on an abstract page allocator that gives what the heap relies on, and the memory is whole. -/
theorem heap_on_pages {la57 : Bool} {count : Nat} {start : Phys.State}
    (hStart : Initialised start)
    (hAligned : ∀ pointer range, start.ranges pointer = some range →
      range.region.slab.base % pageSize = 0) {trace : List Event} {s : State}
    (run : (system (memWbPhysWinBase la57) count start).Execution trace s) :
    (∃ events, (Heap.reallocSystem (memWbPhysWinBase la57) count).Execution events s.heap) ∧
      Whole (memWbPhysWinBase la57) count s := by
  have hWin : 0 < memWbPhysWinBase la57 := by cases la57 <;> decide
  have hBase : memHeapSlabSize ∣ memWbPhysWinBase la57 := by cases la57 <;> decide
  have hJoined : Joined (memWbPhysWinBase la57) count start s := by
    refine run.stateInvariant (fun s hInit => joined_init hStart hInit) fun s event s' h hStep => ?_
    exact h.step hWin hBase hStart hAligned hStep
  obtain ⟨events, heapRun⟩ := hJoined.run
  obtain ⟨g, hSound⟩ := Heap.sound_run hWin hBase heapRun
  have hLinked := hSound.layout.linked
  refine ⟨⟨events, heapRun⟩, ⟨g, ⟨hLinked.free, hLinked.unused, hLinked.owner⟩,
    hSound.layout.apart, hJoined.inside hSound⟩, fun pointer range hRange => ?_, ?_⟩
  · obtain ⟨before, -, -, -, free, hLayout⟩ := hJoined.intact.kept.origin (lend_ranges hRange)
    refine ⟨free, ?_⟩
    have hOwn := hLayout
    rw [← hLayout.base_eq, ← hLayout.length_eq] at hOwn
    exact hOwn
  · intro pointer range hRange b hb a ha hOwns
    exact hJoined.others_apart hStart hRange hb ha hOwns

/-- The heap takes one of the two pages of a range. -/
theorem heap_on_pages_one_page :
    ∃ s, (system (memWbPhysWinBase false) 1 Phys.twoPages).Execution
        [.alloc 4096 0 (some (memWbPhysWinBase false + 4096))] s ∧
      s.heap.live = [(memWbPhysWinBase false + 4096, 4096)] ∧
      Whole (memWbPhysWinBase false) 1 s := by
  let nodes : Nat → Heap.NumaNode := fun _ => ⟨[0], ⟨fun _ => null, null⟩⟩
  let s₀ : State := ⟨⟨⟨nodes, fun _ => 0, []⟩, []⟩, Phys.twoPages⟩
  have hOnly : ∀ p range, Phys.twoPages.ranges p = some range →
      range = ⟨0, 0, ⟨PhysSlab.memPhysSlabInit 4096 8192, fun _ => 0⟩⟩ := by
    intro p range hRange
    simp only [Phys.twoPages, Function.update_apply] at hRange
    split_ifs at hRange
    exact (Option.some.inj hRange).symm
  have hInit : (system (memWbPhysWinBase false) 1 Phys.twoPages).init s₀ := by
    refine ⟨rfl, ⟨rfl, rfl, fun id => ⟨rfl, by simp [s₀, nodes]⟩⟩, fun p range hRange a _ _ => ?_⟩
    rw [hOnly p range hRange]
  have hServed : (memHeapAllocOnBehalf (memWbPhysWinBase false) 1 s₀.heap.toKernelHeap
      Phys.twoPages 4096 0).map (·.1) = some (some (memWbPhysWinBase false + 4096)) := by
    decide +kernel
  obtain ⟨⟨ptr, h, pages⟩, hAlloc, hPtr⟩ := Option.map_eq_some_iff.mp hServed
  obtain rfl : ptr = some (memWbPhysWinBase false + 4096) := hPtr
  have run := (System.Execution.start hInit).step (Step.alloc hAlloc)
  refine ⟨_, run, rfl, (heap_on_pages Phys.initialised_twoPages ?_ run).2⟩
  intro p range hRange
  rw [hOnly p range hRange]
  decide

end Ricerca.HeapPages
