import Ricerca.Mem.HeapClasses

/-! Reallocation on the kernel heap keeps what is in a block. An allocation writes into slabs
that nobody holds, a copy into the new block, and freeing into the old one; and a block that
stays where it is keeps the class that it has. -/
namespace Ricerca.Heap

open Ricerca.Foundation
open Ricerca.PhysSlab (memPhysSlabGetOrder memPhysSlabOrdersCount)

/-- Nothing is written into the blocks that are held. -/
def Spares (held : List Block) (mem mem' : Nat → Nat) : Prop :=
  ∀ b ∈ held, ∀ a, b.Contains a → mem' a = mem a

/-- All writes go to blocks that the heap has from the page allocator, and to nothing that is
held. -/
def Writes (held : List Block) (h h' : KernelHeap) : Prop :=
  h.phys ⊆ h'.phys ∧ ∀ x, h'.mem x ≠ h.mem x →
    (∃ b ∈ h'.phys, b.Contains x) ∧ ∀ b ∈ held, ¬b.Contains x

section Frames

variable {win count order n a : Nat} {h h' h'' : KernelHeap} {held : List Block} {g : Ledger}

theorem Writes.spares (h : Writes held h' h'') : Spares held h'.mem h''.mem := by
  intro b hb x hx
  by_contra hNe
  exact (h.2 x hNe).2 b hb hx

theorem Writes.refl (held : List Block) (h : KernelHeap) : Writes held h h :=
  ⟨List.Subset.refl _, fun _ hNe => absurd rfl hNe⟩

theorem Writes.trans (hFirst : Writes held h h') (hSecond : Writes held h' h'') :
    Writes held h h'' := by
  refine ⟨List.Subset.trans hFirst.1 hSecond.1, fun x hNe => ?_⟩
  by_cases hSame : h''.mem x = h'.mem x
  · obtain ⟨⟨b, hb, hContains⟩, hHeld⟩ := hFirst.2 x (hSame ▸ hNe)
    exact ⟨⟨b, hSecond.1 hb, hContains⟩, hHeld⟩
  · exact hSecond.2 x hSame

/-- A loop that writes one word in each round. -/
theorem foldl_mem {step : KernelHeap → Nat → KernelHeap} {written : Nat → Nat}
    (hStep : ∀ h x a, a ≠ written x → (step h x).mem a = h.mem a) (l : List Nat) (h : KernelHeap)
    (hNot : ∀ x ∈ l, a ≠ written x) : (l.foldl step h).mem a = h.mem a := by
  induction l generalizing h with
  | nil => rfl
  | cons x l ih =>
      rw [List.foldl_cons, ih _ fun y hy => hNot y (List.mem_cons_of_mem _ hy)]
      exact hStep h x a (hNot x (List.mem_cons_self ..))

/-- A slab is carved inside. -/
theorem Layout.addSlab_writes (hLayout : Layout win count h held g) (hNode : n < count)
    (hOrder : order < memHeapSlabOrders) (hUnused : g.unused n ≠ []) :
    Writes held h (memHeapAddSlab h n order) := by
  obtain ⟨slab, cells, hCells⟩ := List.exists_cons_of_ne_nil hUnused
  have hAligned := hLayout.unused_aligned n hNode slab (hCells ▸ List.mem_cons_self ..)
  obtain ⟨hHead, hPopped⟩ := hLayout.popSlab hNode hCells
  have hKept : ∀ a, ¬(Block.ofSize slab memHeapSlabSize).Contains a →
      (memHeapAddSlab h n order).mem a = h.mem a := by
    intro a hOutside
    have hSlab : a ≠ slab := by
      rintro rfl
      exact hOutside (Block.contains_addr _)
    have hObjects : ∀ x ∈ slabObjects slab order, a ≠ x := by
      rintro x hx rfl
      obtain ⟨hLow, hHigh, -⟩ := Layout.mem_objects hAligned hOrder hx
      apply hOutside
      simp only [Block.Contains, Block.ofSize, memHeapSlabSize] at *
      have hPos := Nat.two_pow_pos order
      omega
    rw [memHeapAddSlab, hHead]
    refine (foldl_mem (fun h x a hNe => ?_) _ _ hObjects).trans ?_
    · exact Function.update_of_ne hNe _ _
    · exact Function.update_of_ne hSlab _ _
  have hPhys := memHeapAddSlab_phys h n order
  refine ⟨hPhys ▸ List.Subset.refl _, fun a hNe => ?_⟩
  have hIn := Classical.not_not.mp (mt (hKept a) hNe)
  obtain ⟨p, hp, hInside⟩ := hPopped.inside _ (List.mem_cons_self ..)
  refine ⟨⟨p, hPhys ▸ hp, hInside.contains hIn⟩, fun b hb => ?_⟩
  exact ((List.pairwise_cons.mp hPopped.apart).1 b (List.mem_append_left _ hb)).not_contains hIn

theorem foldl_linkSlab_phys (slabs : List Nat) (h : KernelHeap) :
    (slabs.foldl (Heap.linkSlab win n) h).phys = h.phys := by
  induction slabs generalizing h with
  | nil => rfl
  | cons a slabs ih => exact ih _

theorem Layout.newSlabsChunk_phys (win : Nat) (h : KernelHeap) (n a : Nat) :
    (memAllocateNewSlabsChunk win h n (some a)).2.phys =
      Block.ofSize (win + a) memHeapChunkSize :: h.phys := by
  have hEq : (memAllocateNewSlabsChunk win h n (some a)).2 =
      (chunkSlabs a).foldl (Heap.linkSlab win n)
        { h with phys := Block.ofSize (win + a) memHeapChunkSize :: h.phys } := rfl
  rw [hEq, foldl_linkSlab_phys]

/-- A chunk from the page allocator is apart from what is held. -/
theorem Layout.newSlabsChunk_writes (hLayout : Layout win count h held g)
    (hPhys : PhysAnswer win h.phys memHeapChunkSize a) :
    Writes held h (memAllocateNewSlabsChunk win h n (some a)).2 := by
  have hEq : (memAllocateNewSlabsChunk win h n (some a)).2 =
      (chunkSlabs a).foldl (Heap.linkSlab win n)
        { h with phys := Block.ofSize (win + a) memHeapChunkSize :: h.phys } := rfl
  refine ⟨memAllocateNewSlabsChunk_phys win h n (some a), fun x hNe => ?_⟩
  have hIn : (Block.ofSize (win + a) memHeapChunkSize).Contains x := by
    by_contra hOutside
    refine hNe ?_
    rw [hEq]
    refine foldl_mem (fun h y a hNe => Function.update_of_ne hNe _ _) _ _ fun y hy hWord => ?_
    obtain ⟨hLow, hHigh, -⟩ := mem_chunkSlabs hy
    have hSize : 8 < memHeapSlabSize := by decide
    have hChunk := Nat.le_max_right 1 memHeapChunkSize
    apply hOutside
    simp only [Block.Contains, Block.ofSize]
    omega
  refine ⟨⟨_, ?_, hIn⟩, fun b hb => ?_⟩
  · rw [newSlabsChunk_phys]
    exact List.mem_cons_self ..
  · exact (hLayout.physApart hPhys.2 b (List.mem_append_left _ hb)).not_contains hIn

theorem Layout.allocFromNeighbours_writes (hWin : 0 < win) (hBase : memHeapSlabSize ∣ win)
    (hOrder : order < memHeapSlabOrders) {pmm : Nat → Option Nat}
    (hPhys : ∀ i addr, pmm i = some addr → PhysAnswer win h.phys memHeapChunkSize addr)
    (hLayout : Layout win count h held g) (ids : List Nat) (hIds : ∀ n ∈ ids, n < count) (i : Nat) :
    Writes held h (Heap.allocFromNeighbours win order pmm i ids h).2 := by
  induction ids generalizing i with
  | nil => exact .refl ..
  | cons n rest ih =>
      have hNode := hIds n (List.mem_cons_self ..)
      have hRest := ih (fun m hm => hIds m (List.mem_cons_of_mem _ hm)) (i + 1)
      simp only [Heap.allocFromNeighbours]
      split_ifs with hFree hUnused
      · exact .refl ..
      · refine hLayout.addSlab_writes hNode hOrder fun hNil => hUnused ?_
        exact (hLayout.linked.unused n hNode).eq_nil_iff.mp hNil
      · rcases hChunk : memAllocateNewSlabsChunk win h n (pmm i) with ⟨ok, h'⟩
        cases ok with
        | false =>
            rw [Layout.memAllocateNewSlabsChunk_false hChunk]
            exact hRest
        | true =>
            obtain ⟨addr, hAnswer⟩ := Layout.memAllocateNewSlabsChunk_true hChunk
            obtain ⟨g', hLayout', -, hSlabs⟩ :=
              hLayout.newSlabsChunk hWin hBase hNode (hPhys i addr hAnswer)
            have hWrites := hLayout.newSlabsChunk_writes (n := n) (hPhys i addr hAnswer)
            rw [← hAnswer, hChunk] at hLayout' hWrites
            exact hWrites.trans (hLayout'.addSlab_writes hNode hOrder hSlabs)

/-- Where an allocation writes. -/
theorem Layout.alloc_writes (hWin : 0 < win) (hBase : memHeapSlabSize ∣ win)
    (hLayout : Layout win count h held g) {size id : Nat} {pmm : Nat → Option Nat}
    (hPhys : ∀ i addr, pmm i = some addr → PhysAnswer win h.phys (physRequest size) addr) :
    Writes held h (memHeapAllocOnBehalf win h size id pmm).2 := by
  simp only [memHeapAllocOnBehalf]
  split_ifs with hDirect
  · cases pmm 0 with
    | none => exact .refl ..
    | some res => exact ⟨List.subset_cons_self .., fun _ hNe => absurd rfl hNe⟩
  · simp only [physRequest, if_neg hDirect] at hPhys
    have hOrder := Nat.lt_of_le_of_ne (memHeapGetSizeOrder_le size) hDirect
    exact hLayout.allocFromNeighbours_writes hWin hBase hOrder hPhys _ (hLayout.neighbours id) 0

/-- An allocation that fails has not changed anything. -/
theorem alloc_none {size id : Nat} {pmm : Nat → Option Nat}
    (hAlloc : memHeapAllocOnBehalf win h size id pmm = (none, h')) : h' = h := by
  have hLoop : ∀ ids i, allocFromNeighbours win (memHeapGetSizeOrder size memHeapSlabOrders) pmm i
      ids h = (none, h') → h' = h := by
    intro ids
    induction ids with
    | nil => exact fun i hNone => (Prod.mk.inj hNone).2.symm
    | cons n rest ih =>
        intro i hNone
        simp only [allocFromNeighbours] at hNone
        split_ifs at hNone
        · cases hNone
        · cases hNone
        · rcases hChunk : memAllocateNewSlabsChunk win h n (pmm i) with ⟨ok, h''⟩
          rw [hChunk] at hNone
          cases ok with
          | false =>
              rw [Layout.memAllocateNewSlabsChunk_false hChunk] at hNone
              exact ih (i + 1) hNone
          | true => cases hNone
  simp only [memHeapAllocOnBehalf] at hAlloc
  split_ifs at hAlloc
  · cases hPages : pmm 0 with
    | none =>
        rw [hPages] at hAlloc
        exact (Prod.mk.inj hAlloc).2.symm
    | some res =>
        rw [hPages] at hAlloc
        cases hAlloc
  · exact hLoop _ 0 hAlloc

end Frames

/-- The invariant of the heap with reallocations: it is safe when every request is rounded
up to its class, and every request fits the class that it has. -/
structure Sound (win count : Nat) (s : State) (g : Ledger) : Prop where
  safe : Safe win count s.rounded g
  classes : ∀ p ∈ s.live, sizeClass p.2 < 64
  aligned : ∀ p ∈ s.live, p.1 % 16 = 0

/-- Nothing is left of an allocation with the page allocator, or its object is on exactly one
free list, once. -/
def GivenBack (count : Nat) (g : Ledger) (phys : List Block) (p : Nat × Nat) : Prop :=
  if memHeapGetSizeOrder p.2 memHeapSlabOrders = memHeapSlabOrders then ∀ b ∈ phys, b.addr ≠ p.1
  else (g.freeObjects count).count (classBlock p) = 1

section Invariant

variable {win count : Nat} {s : State} {g : Ledger} {p : Nat × Nat}

theorem Safe.perm {live : List (Nat × Nat)} (hSafe : Safe win count s g)
    (hPerm : s.live.Perm live) : Safe win count ⟨s.toKernelHeap, live⟩ g :=
  ⟨hSafe.1.perm (hPerm.map liveBlock), fun p hp => hSafe.2 p (hPerm.mem_iff.mpr hp)⟩

theorem erase_map_perm {live : List (Nat × Nat)} (hMem : p ∈ live) :
    ((live.map roundUp).erase (roundUp p)).Perm ((live.erase p).map roundUp) := by
  have hMap := (List.perm_cons_erase hMem).map roundUp
  have hErase := List.perm_cons_erase (List.mem_map_of_mem (f := roundUp) hMem)
  exact (hErase.symm.trans hMap).cons_inv

/-- The blocks that the clients hold are held in the rounded heap. -/
theorem Sound.layout (hSound : Sound win count s g) :
    Layout win count s.toKernelHeap.rounded (s.live.map classBlock) g := by
  have hBlocks : s.rounded.live.map liveBlock = s.live.map classBlock := by
    rw [State.rounded, List.map_map]
    exact List.map_congr_left fun p _ => liveBlock_roundUp p
  exact hBlocks ▸ hSound.safe.1

theorem Sound.ne_null (hWin : 0 < win) (hSound : Sound win count s g) (hp : p ∈ s.live) :
    p.1 ≠ null :=
  hSound.layout.ne_null hWin (List.mem_append_left _ (List.mem_map_of_mem hp))

theorem Sound.fits (hSound : Sound win count s g) (hp : p ∈ s.live) :
    p.2 ≤ (classBlock p).size :=
  le_two_pow_sizeClass (hSound.classes p hp)

/-- Small objects are aligned to their order, and pages to the size of a page. -/
theorem alloc_aligned {h h' : KernelHeap} {size id ptr : Nat} {pmm : Nat → Option Nat}
    (hBase : memHeapSlabSize ∣ win)
    (hPhys : ∀ i addr, pmm i = some addr → PageGrant win h.phys (physRequest size) addr)
    (hAlloc : memHeapAllocOnBehalf win h size id pmm = (some ptr, h'))
    (hPlaced : Placed g h'.rounded.phys (roundUp (ptr, size))) : ptr % 16 = 0 := by
  by_cases hDirect : memHeapGetSizeOrder size memHeapSlabOrders = memHeapSlabOrders
  · simp only [memHeapAllocOnBehalf, if_pos hDirect] at hAlloc
    cases hPages : pmm 0 with
    | none => simp [hPages] at hAlloc
    | some res =>
        rw [hPages] at hAlloc
        have hAligned := (hPhys 0 res hPages).2.1
        have hPtr : win + res = ptr := Option.some.inj (Prod.mk.inj hAlloc).1
        simp only [memHeapSlabSize, pageSize] at hBase hAligned
        omega
  · rw [Placed, if_neg (by simpa [roundUp] using hDirect)] at hPlaced
    have hOrder := (memHeapGetSizeOrder_bounds (2 ^ sizeClass size) memHeapSlabOrders (by decide)).1
    have hDvd := Nat.dvd_trans (Nat.pow_dvd_pow 2 hOrder) (Nat.dvd_of_mod_eq_zero hPlaced.2)
    exact Nat.mod_eq_zero_of_dvd hDvd

theorem Sound.alloc (hWin : 0 < win) (hBase : memHeapSlabSize ∣ win) (hSound : Sound win count s g)
    {size id : Nat} {pmm : Nat → Option Nat} {ptr : Option Nat} {h : KernelHeap}
    (hPhys : ∀ i addr, pmm i = some addr → PageGrant win s.phys (physRequest size) addr)
    (hAlloc : memHeapAllocOnBehalf win s.toKernelHeap size id pmm = (ptr, h)) :
    ∃ g', Sound win count ⟨h, (ptr.map (·, size)).toList ++ s.live⟩ g' := by
  have hRounded := rounded_alloc win s.toKernelHeap size id pmm
  rw [hAlloc] at hRounded
  have hAnswers : ∀ i addr, pmm i = some addr →
      PhysAnswer win s.rounded.phys (physRequest (2 ^ sizeClass size)) addr := by
    intro i addr hAnswer
    rw [physRequest_two_pow]
    exact (hPhys i addr hAnswer).2
  obtain ⟨g', hSafe⟩ := hSound.safe.alloc hWin hBase hAnswers hRounded
  cases ptr with
  | none => exact ⟨g', hSafe, hSound.classes, hSound.aligned⟩
  | some ptr =>
      have hAligned := alloc_aligned hBase hPhys hAlloc (hSafe.2 _ (List.mem_cons_self ..))
      refine ⟨g', hSafe, ?_, ?_⟩
      · exact List.forall_mem_cons.mpr ⟨sizeClass_lt_of_alloc hPhys hAlloc, hSound.classes⟩
      · exact List.forall_mem_cons.mpr ⟨hAligned, hSound.aligned⟩

theorem Sound.store (hSound : Sound win count s g) {mem : Nat → Nat}
    (hSame : ∀ a, (∃ b ∈ s.phys, (pageBlock b).Contains a) →
      (∀ p ∈ s.live, ¬(classBlock p).Contains a) → mem a = s.mem a) :
    Sound win count { s with mem := mem } g := by
  refine ⟨hSound.safe.store fun a hOwned hFree => hSame a ?_ fun p hp => ?_,
    hSound.classes, hSound.aligned⟩
  · obtain ⟨b, hb, hContains⟩ := hOwned
    obtain ⟨c, hc, rfl⟩ := List.mem_map.mp hb
    exact ⟨c, hc, hContains⟩
  · rw [← liveBlock_roundUp]
    exact hFree _ (List.mem_map_of_mem hp)

theorem nodup_of_apart {blocks : List Block} (hApart : blocks.Pairwise Block.Apart) :
    blocks.Nodup :=
  hApart.imp fun h hEq => h.addr_ne (congrArg Block.addr hEq)

/-- What is freed goes back, to the page allocator or to a free list. -/
theorem Sound.free (hWin : 0 < win) (hSound : Sound win count s g) {ptr requested size : Nat}
    (hLive : (ptr, requested) ∈ s.live)
    (hClass : memHeapGetSizeOrder size memHeapSlabOrders =
      memHeapGetSizeOrder requested memHeapSlabOrders) :
    ∃ g', Sound win count
        ⟨memHeapFree win s.toKernelHeap ptr size, s.live.erase (ptr, requested)⟩ g' ∧
      GivenBack count g' (memHeapFree win s.toKernelHeap ptr size).phys (ptr, requested) := by
  have hMem : (ptr, 2 ^ sizeClass requested) ∈ s.rounded.live := List.mem_map_of_mem hLive
  have hFreed := rounded_free win s.toKernelHeap ptr size
  have hLeft : ∀ p ∈ s.live.erase (ptr, requested), p ∈ s.live := fun p => List.mem_of_mem_erase
  by_cases hDirect : memHeapGetSizeOrder requested memHeapSlabOrders = memHeapSlabOrders
  · have hSafe := (hSound.safe.freePages hMem (by simpa using hDirect)).perm (erase_map_perm hLive)
    simp only [memHeapFree, memHeapGetSizeOrder_two_pow, hClass, if_pos hDirect] at hFreed ⊢
    refine ⟨g, ⟨?_, fun p hp => hSound.classes p (hLeft p hp),
      fun p hp => hSound.aligned p (hLeft p hp)⟩, ?_⟩
    · rw [State.rounded, ← hFreed]
      exact hSafe
    · rw [GivenBack, if_pos hDirect]
      intro b hb
      have hPlaced := hSound.safe.2 _ hMem
      rw [Placed, if_pos (by simpa using hDirect)] at hPlaced
      have hWindow := hSound.safe.1.phys_window _ hPlaced
      have hNe := (List.mem_filter.mp hb).2
      rw [liveBlock_addr] at hWindow
      simp only [ne_eq, decide_eq_true_eq] at hNe
      simp only at hWindow
      omega
  · obtain ⟨hNode, hCarved, hSafe⟩ := hSound.safe.freeObject hWin hMem
      (memHeapGetSizeOrder_two_pow requested) hDirect
    have hLt := Nat.lt_of_le_of_ne (memHeapGetSizeOrder_le requested) hDirect
    replace hSafe := hSafe.perm (erase_map_perm hLive)
    simp only [memHeapFree, memHeapGetSizeOrder_two_pow, hClass, if_neg hDirect] at hFreed ⊢
    let owner := s.mem (alignDown ptr memHeapSlabSize)
    let order := memHeapGetSizeOrder requested memHeapSlabOrders
    refine ⟨g.setFree owner order (ptr :: g.free owner order), ⟨?_,
      fun p hp => hSound.classes p (hLeft p hp), fun p hp => hSound.aligned p (hLeft p hp)⟩, ?_⟩
    · rw [State.rounded, ← hFreed]
      exact hSafe
    · have hApart := (List.pairwise_append.mp (List.pairwise_append.mp hSafe.1.apart).2.1).1
      rw [GivenBack, if_neg hDirect]
      refine List.count_eq_one_of_mem (nodup_of_apart hApart) ?_
      rw [classBlock, sizeClass_small hDirect]
      simp only [Ledger.freeObjects, List.mem_flatMap, List.mem_range, List.mem_map]
      refine ⟨owner, hNode, order, hLt, ptr, ?_, rfl⟩
      simp [Ledger.setFree]

end Invariant

section Copy

variable {win count : Nat} {s : State} {g : Ledger} {h h' : KernelHeap} {held : List Block}
  {p : Nat × Nat} {mem mem' : Nat → Nat} {x w offset ptr oldsize newsize size id : Nat}
  {bytes : List UInt8} {pmm : Nat → Option Nat}

/-- A block starts with a whole word. -/
theorem wordAddr_mem (hAligned : p.1 % 16 = 0) (hx : (classBlock p).Contains x) :
    (classBlock p).Contains (wordAddr x) := by
  have hAddr : (classBlock p).addr = p.1 := rfl
  simp only [Block.Contains, wordAddr] at *
  omega

theorem Spares.byteAt_eq (hSpares : Spares held mem mem') (hBlock : classBlock p ∈ held)
    (hAligned : p.1 % 16 = 0) (hx : (classBlock p).Contains x) : byteAt mem' x = byteAt mem x :=
  byteAt_congr (hSpares _ hBlock _ (wordAddr_mem hAligned hx))

/-- Bytes that are stored inside a block change no word outside of it. -/
theorem storeBytes_outside (hAligned : p.1 % 16 = 0)
    (hFits : offset + bytes.length ≤ (classBlock p).size) (hOut : ¬(classBlock p).Contains w) :
    storeBytes mem (p.1 + offset) bytes w = mem w := by
  have hAddr : (classBlock p).addr = p.1 := rfl
  apply storeBytes_word
  intro i hIndex hEq
  apply hOut
  rw [← hEq]
  apply wordAddr_mem hAligned
  simp only [Block.Contains]
  omega

theorem memHeapFree_mem (hNe : w ≠ ptr) : (memHeapFree win h ptr size).mem w = h.mem w := by
  simp only [memHeapFree]
  split_ifs
  · rfl
  · exact Function.update_of_ne hNe _ _

/-- Freeing a block changes no byte of the others. -/
theorem memHeapFree_byteAt (hApart : (classBlock p).Apart (classBlock (ptr, oldsize)))
    (hAligned : p.1 % 16 = 0) (hx : (classBlock p).Contains x) :
    byteAt (memHeapFree win h ptr size).mem x = byteAt h.mem x := by
  apply byteAt_congr
  apply memHeapFree_mem
  intro hEq
  apply hApart.not_contains (wordAddr_mem hAligned hx)
  rw [hEq]
  exact Block.contains_addr (classBlock (ptr, oldsize))

theorem Sound.alloc_writes (hWin : 0 < win) (hBase : memHeapSlabSize ∣ win)
    (hSound : Sound win count s g) {ptr : Option Nat}
    (hPhys : ∀ i addr, pmm i = some addr → PageGrant win s.phys (physRequest size) addr)
    (hAlloc : memHeapAllocOnBehalf win s.toKernelHeap size id pmm = (ptr, h)) :
    Writes (s.live.map classBlock) s.toKernelHeap.rounded h.rounded := by
  have hAnswers : ∀ i addr, pmm i = some addr →
      PhysAnswer win s.rounded.phys (physRequest (2 ^ sizeClass size)) addr := by
    intro i addr hAnswer
    rw [physRequest_two_pow]
    exact (hPhys i addr hAnswer).2
  have hWrites : Writes _ _ (memHeapAllocOnBehalf win _ _ id pmm).2 :=
    hSound.layout.alloc_writes hWin hBase hAnswers
  rwa [rounded_alloc, hAlloc] at hWrites

/-- A pointer may be held with another size of its class. -/
theorem Sound.relabel (hSound : Sound win count s g) (hLive : (ptr, oldsize) ∈ s.live)
    (hSame : sizeClass oldsize = sizeClass newsize) :
    Sound win count ⟨s.toKernelHeap, (ptr, newsize) :: s.live.erase (ptr, oldsize)⟩ g := by
  have hRounded : roundUp (ptr, oldsize) = roundUp (ptr, newsize) := by simp only [roundUp, hSame]
  have hPerm := (List.perm_cons_erase hLive).map roundUp
  rw [List.map_cons, hRounded] at hPerm
  refine ⟨hSound.safe.perm hPerm, ?_, ?_⟩
  · refine List.forall_mem_cons.mpr ⟨?_, fun p hp => hSound.classes p (List.mem_of_mem_erase hp)⟩
    exact hSame ▸ hSound.classes _ hLive
  · refine List.forall_mem_cons.mpr ⟨?_, fun p hp => hSound.aligned p (List.mem_of_mem_erase hp)⟩
    exact hSound.aligned (ptr, oldsize) hLive

/-- What a reallocation leaves behind: nothing has changed, or the block that it returns has the
data, all other blocks are as they were, and the old block is the new one or has gone back. -/
def Reallocated (win count : Nat) (s : State) (ptr newsize oldsize : Nat) :
    Option Nat → KernelHeap → Prop
  | none, h => h = s.toKernelHeap
  | some block, h => ∃ g, Sound win count ⟨h, (block, newsize) :: s.live.erase (ptr, oldsize)⟩ g ∧
      bytesAt h.mem block (min oldsize newsize) = bytesAt s.mem ptr (min oldsize newsize) ∧
      Spares ((s.live.erase (ptr, oldsize)).map classBlock) s.mem h.mem ∧
      (block = ptr ∧ h = s.toKernelHeap ∨ block ≠ ptr ∧ GivenBack count g h.phys (ptr, oldsize))

/-- The path through a new block: allocate, copy, free. -/
theorem Sound.move (hWin : 0 < win) (hBase : memHeapSlabSize ∣ win) (hSound : Sound win count s g)
    {block : Nat} (hLive : (ptr, oldsize) ∈ s.live)
    (hPhys : ∀ i addr, pmm i = some addr → PageGrant win s.phys (physRequest newsize) addr)
    (hAlloc : memHeapAllocOnBehalf win s.toKernelHeap newsize id pmm = (some block, h')) :
    Reallocated win count s ptr newsize oldsize (some block) (memHeapFree win
      { h' with mem := copyBytes h'.mem block ptr (min oldsize newsize) } ptr oldsize) := by
  obtain ⟨g₁, hAllocated⟩ := hSound.alloc hWin hBase hPhys hAlloc
  have hHead : (block, newsize) ∈ (block, newsize) :: s.live := List.mem_cons_self ..
  have hAligned := hAllocated.aligned _ hHead
  have hRoom : min oldsize newsize ≤ (classBlock (block, newsize)).size :=
    Nat.le_trans (Nat.min_le_right ..) (hAllocated.fits hHead)
  have hFits : 0 + (bytesAt h'.mem ptr (min oldsize newsize)).length ≤
      (classBlock (block, newsize)).size := by
    rwa [bytesAt_length, Nat.zero_add]
  have hCopy : ∀ w, ¬(classBlock (block, newsize)).Contains w →
      copyBytes h'.mem block ptr (min oldsize newsize) w = h'.mem w :=
    fun w hOut => storeBytes_outside hAligned hFits hOut
  have hCopied : Sound win count ⟨{ h' with
      mem := copyBytes h'.mem block ptr (min oldsize newsize) }, (block, newsize) :: s.live⟩ g₁ :=
    hAllocated.store fun w _ hOut => hCopy w (hOut _ hHead)
  obtain ⟨g₂, hFreed, hGiven⟩ := hCopied.free hWin (List.mem_cons_of_mem _ hLive) rfl
  -- The old block, the new one and the others lie apart while all of them are held.
  have hPairs := (((List.perm_cons_erase hLive).cons (block, newsize)).map classBlock).pairwise
    (List.pairwise_append.mp hAllocated.layout.apart).1 Block.Apart.symm
  obtain ⟨hFromNew, hRest⟩ := List.pairwise_cons.mp hPairs
  have hFromOld := (List.pairwise_cons.mp hRest).1
  have hNe : block ≠ ptr := (hFromNew _ (List.mem_cons_self ..)).addr_ne
  have hErase : ((block, newsize) :: s.live).erase (ptr, oldsize) =
      (block, newsize) :: s.live.erase (ptr, oldsize) := by
    rw [List.erase_cons_tail]
    simpa using fun hEq => absurd hEq hNe
  have hSpared := (hSound.alloc_writes hWin hBase hPhys hAlloc).spares
  have hOldWord : (classBlock (ptr, oldsize)).Contains ptr := Block.contains_addr _
  refine ⟨g₂, hErase ▸ hFreed, ?_, ?_, Or.inr ⟨hNe, hGiven⟩⟩
  · apply bytesAt_congr
    intro i hIndex
    have hNew : (classBlock (block, newsize)).Contains (block + i) :=
      ⟨Nat.le_add_right .., Nat.add_lt_add_left (Nat.lt_of_lt_of_le hIndex hRoom) block⟩
    have hOld : (classBlock (ptr, oldsize)).Contains (ptr + i) := by
      refine ⟨Nat.le_add_right .., Nat.add_lt_add_left ?_ ptr⟩
      exact Nat.lt_of_lt_of_le hIndex (Nat.le_trans (Nat.min_le_left ..) (hSound.fits hLive))
    rw [memHeapFree_byteAt (hFromNew _ (List.mem_cons_self ..)) hAligned hNew,
      byteAt_copyBytes hIndex]
    exact hSpared.byteAt_eq (List.mem_map_of_mem hLive) (hSound.aligned _ hLive) hOld
  · intro b hb x hx
    have hMem : b ∈ s.live.map classBlock :=
      ((List.erase_sublist ..).map classBlock).mem hb
    have hNot : x ≠ ptr := by
      rintro rfl
      exact (hFromOld b hb).symm.not_contains hx hOldWord
    rw [memHeapFree_mem hNot]
    exact (hCopy x ((hFromNew b (List.mem_cons_of_mem _ hb)).symm.not_contains hx)).trans
      (hSpared b hMem x hx)

/-- Every path of `mem_heap_realloc` on a block that is held. -/
theorem Sound.realloc (hWin : 0 < win) (hBase : memHeapSlabSize ∣ win)
    (hSound : Sound win count s g) {result : Option Nat} (hLive : (ptr, oldsize) ∈ s.live)
    (hPositive : 0 < newsize)
    (hPhys : ∀ i addr, pmm i = some addr → PageGrant win s.phys (physRequest newsize) addr)
    (hRealloc : memHeapRealloc win s.toKernelHeap ptr newsize oldsize id pmm = (result, h)) :
    Reallocated win count s ptr newsize oldsize result h := by
  have hNull : ptr ≠ null := hSound.ne_null hWin hLive
  have hMin : (if oldsize < newsize then oldsize else newsize) = min oldsize newsize := by
    split_ifs <;> omega
  simp only [memHeapRealloc, if_neg hNull, if_neg (Nat.ne_of_gt hPositive), hMin] at hRealloc
  split_ifs at hRealloc with hSame
  · rw [← sizeClass_eq, ← sizeClass_eq] at hSame
    obtain ⟨rfl, rfl⟩ := Prod.mk.inj hRealloc
    exact ⟨g, hSound.relabel hLive hSame, rfl, fun _ _ _ _ => rfl, Or.inl ⟨rfl, rfl⟩⟩
  · rcases hAlloc : memHeapAllocOnBehalf win s.toKernelHeap newsize id pmm with ⟨answer, h'⟩
    rw [hAlloc] at hRealloc
    cases answer with
    | none =>
        obtain ⟨rfl, rfl⟩ := Prod.mk.inj hRealloc
        exact alloc_none hAlloc
    | some block =>
        obtain ⟨rfl, rfl⟩ := Prod.mk.inj hRealloc
        exact hSound.move hWin hBase hLive hPhys hAlloc

end Copy

section Runs

variable {win count : Nat} {s : State} {g : Ledger} {p : Nat × Nat}

theorem sound_init (hInit : (reallocSystem win count).init s) :
    Sound win count s ⟨fun _ _ => [], fun _ => [], []⟩ := by
  obtain ⟨hLive, hPhys, hNodes⟩ := hInit
  refine ⟨safe_init ⟨?_, ?_, hNodes⟩, ?_, ?_⟩
  · rw [State.rounded, hLive, List.map_nil]
  · simp [State.rounded, KernelHeap.rounded, hPhys]
  · simp [hLive]
  · simp [hLive]

theorem Sound.step (hWin : 0 < win) (hBase : memHeapSlabSize ∣ win) (hSound : Sound win count s g)
    {event : ReallocEvent} {s' : State} (hStep : ReallocStep win s event s') :
    ∃ g', Sound win count s' g' := by
  cases hStep with
  | alloc hPhys hAlloc => exact hSound.alloc hWin hBase hPhys hAlloc
  | @realloc _ _ _ _ _ result _ hLive hPositive hPhys hRealloc =>
      have hOutcome := hSound.realloc hWin hBase hLive hPositive hPhys hRealloc
      cases result with
      | none =>
          rw [Reallocated] at hOutcome
          subst hOutcome
          exact ⟨g, hSound⟩
      | some block =>
          obtain ⟨g', hMoved, -⟩ := hOutcome
          exact ⟨g', hMoved⟩
  | free hLive hClass =>
      obtain ⟨g', hFreed, -⟩ := hSound.free hWin hLive hClass
      exact ⟨g', hFreed⟩
  | store hSame => exact ⟨g, hSound.store hSame⟩

theorem sound_run (hWin : 0 < win) (hBase : memHeapSlabSize ∣ win) {trace : List ReallocEvent}
    (run : (reallocSystem win count).Execution trace s) : ∃ g, Sound win count s g := by
  induction run with
  | start hInit => exact ⟨_, sound_init hInit⟩
  | step prior last ih =>
      obtain ⟨g, hSound⟩ := ih
      exact hSound.step hWin hBase last

/-- The event frees or reallocates this pointer. -/
def ReallocEvent.Names : ReallocEvent → Nat → Prop
  | .realloc ptr .., p => p = ptr
  | .free ptr _, p => p = ptr
  | _, _ => False

/-- What others do with the heap leaves a block alone, unless they store into it. -/
theorem Sound.step_spares (hWin : 0 < win) (hBase : memHeapSlabSize ∣ win)
    (hSound : Sound win count s g) {event : ReallocEvent} {s' : State}
    (hStep : ReallocStep win s event s') (hp : p ∈ s.live) (hNames : ¬event.Names p.1)
    (hStore : event = .store → ∀ x, (classBlock p).Contains x → s'.mem x = s.mem x) :
    p ∈ s'.live ∧ ∀ x, (classBlock p).Contains x → s'.mem x = s.mem x := by
  cases hStep with
  | alloc hPhys hAlloc =>
      refine ⟨List.mem_append_right _ hp, ?_⟩
      exact (hSound.alloc_writes hWin hBase hPhys hAlloc).spares _ (List.mem_map_of_mem hp)
  | @realloc ptr newsize oldsize _ _ result _ hLive hPositive hPhys hRealloc =>
      have hOutcome := hSound.realloc hWin hBase hLive hPositive hPhys hRealloc
      have hLeft : p ∈ s.live.erase (ptr, oldsize) :=
        (List.mem_erase_of_ne fun hEq : p = (ptr, oldsize) => hNames (hEq ▸ rfl)).mpr hp
      cases result with
      | none =>
          rw [Reallocated] at hOutcome
          subst hOutcome
          exact ⟨hp, fun _ _ => rfl⟩
      | some block =>
          obtain ⟨_, _, _, hOthers, -⟩ := hOutcome
          exact ⟨List.mem_cons_of_mem _ hLeft, hOthers _ (List.mem_map_of_mem hLeft)⟩
  | @free ptr requested size hLive hClass =>
      have hLeft : p ∈ s.live.erase (ptr, requested) :=
        (List.mem_erase_of_ne fun hEq : p = (ptr, requested) => hNames (hEq ▸ rfl)).mpr hp
      refine ⟨hLeft, fun x hx => memHeapFree_mem ?_⟩
      rintro rfl
      have hPairs := ((List.perm_cons_erase hLive).map classBlock).pairwise
        (List.pairwise_append.mp hSound.layout.apart).1 Block.Apart.symm
      have hApart := (List.pairwise_cons.mp hPairs).1 _ (List.mem_map_of_mem hLeft)
      exact hApart.not_contains (Block.contains_addr (classBlock (x, requested))) hx
  | store hSame => exact ⟨hp, hStore rfl⟩

/-- Freeing with this size uses the order that the allocation really has: that of its slab, or
the one that the page allocator has recorded. -/
def Matches (g : Ledger) (phys : List Block) (p : Nat × Nat) : Prop :=
  if memHeapGetSizeOrder p.2 memHeapSlabOrders = memHeapSlabOrders then
    ∃ b ∈ phys, b.addr = p.1 ∧ memPhysSlabGetOrder b.size = memPhysSlabGetOrder p.2
  else Layout.CarvedFor g (memHeapGetSizeOrder p.2 memHeapSlabOrders) p.1

theorem Sound.matches (hSound : Sound win count s g) (hp : p ∈ s.live) : Matches g s.phys p := by
  have hPlaced := hSound.safe.2 (roundUp p) (List.mem_map_of_mem hp)
  rw [Placed, liveBlock_roundUp, roundUp, memHeapGetSizeOrder_two_pow] at hPlaced
  rw [Matches]
  split_ifs at hPlaced ⊢ with hDirect
  · obtain ⟨b, hb, hEq⟩ := List.mem_map.mp hPlaced
    obtain ⟨hAddr, hSize⟩ := Block.mk.inj hEq
    refine ⟨b, hb, hAddr, ?_⟩
    rw [(Nat.pow_right_inj (by omega)).mp hSize, sizeClass_direct hDirect]
  · exact hPlaced

end Runs

/-- A reallocation that fails changes nothing. Otherwise the block has room for the request, it
has the old bytes as far as they fit, the other live blocks keep theirs, and freeing it with the
new size uses the order that it has. Either it is the old block and nothing has been written, or
the old one has gone back once. -/
theorem realloc_keeps_data {la57 : Bool} {count : Nat} {trace : List ReallocEvent} {s : State}
    (run : (reallocSystem (memWbPhysWinBase la57) count).Execution trace s)
    {ptr oldsize newsize id : Nat} {pmm : Nat → Option Nat} {result : Option Nat} {h : KernelHeap}
    (hLive : (ptr, oldsize) ∈ s.live) (hPositive : 0 < newsize)
    (hPhys : ∀ i addr, pmm i = some addr →
      PageGrant (memWbPhysWinBase la57) s.phys (physRequest newsize) addr)
    (hRealloc : memHeapRealloc (memWbPhysWinBase la57) s.toKernelHeap ptr newsize oldsize id pmm =
      (result, h)) :
    (result = none → h = s.toKernelHeap) ∧
    ∀ block, result = some block →
      newsize ≤ (classBlock (block, newsize)).size ∧
      bytesAt h.mem block (min oldsize newsize) = bytesAt s.mem ptr (min oldsize newsize) ∧
      (∀ p ∈ s.live.erase (ptr, oldsize), bytesAt h.mem p.1 p.2 = bytesAt s.mem p.1 p.2) ∧
      ∃ g, Linked count h g ∧
        (((block, newsize) :: s.live.erase (ptr, oldsize)).map classBlock ++
          g.pieces count).Pairwise Block.Apart ∧
        Matches g h.phys (block, newsize) ∧
        (block = ptr ∧ h = s.toKernelHeap ∨
          block ≠ ptr ∧ GivenBack count g h.phys (ptr, oldsize)) := by
  have hWin : 0 < memWbPhysWinBase la57 := by cases la57 <;> decide
  have hBase : memHeapSlabSize ∣ memWbPhysWinBase la57 := by cases la57 <;> decide
  obtain ⟨g, hSound⟩ := sound_run hWin hBase run
  have hOutcome := hSound.realloc hWin hBase hLive hPositive hPhys hRealloc
  refine ⟨fun hNone => ?_, fun block hSome => ?_⟩
  · rwa [hNone, Reallocated] at hOutcome
  · rw [hSome] at hOutcome
    obtain ⟨g', hMoved, hData, hOthers, hOld⟩ := hOutcome
    have hHead : (block, newsize) ∈ (block, newsize) :: s.live.erase (ptr, oldsize) :=
      List.mem_cons_self ..
    have hLinked := hMoved.layout.linked
    refine ⟨hMoved.fits hHead, hData, fun p hp => ?_, g',
      ⟨hLinked.free, hLinked.unused, hLinked.owner⟩, hMoved.layout.apart,
      hMoved.matches hHead, hOld⟩
    apply bytesAt_congr
    intro i hIndex
    have hMem := List.mem_of_mem_erase hp
    refine hOthers.byteAt_eq (List.mem_map_of_mem hp) (hSound.aligned p hMem) ?_
    refine ⟨Nat.le_add_right .., Nat.add_lt_add_left ?_ p.1⟩
    exact Nat.lt_of_lt_of_le hIndex (hSound.fits hMem)

/-- An object from a slab grows into pages of its own. -/
theorem realloc_keeps_data_from_slab_to_pages :
    ∃ (s : State) (ptr block : Nat) (h : KernelHeap), (reallocSystem (memWbPhysWinBase false) 2).Execution
        [.alloc 2000 1 (some ptr)] s ∧
      memHeapRealloc (memWbPhysWinBase false) s.toKernelHeap ptr 5000 2000 1
        (fun _ => some 0x800000) = (some block, h) ∧
      5000 ≤ (classBlock (block, 5000)).size ∧
      bytesAt h.mem block 2000 = bytesAt s.mem ptr 2000 := by
  let win := memWbPhysWinBase false
  let nodes : Nat → NumaNode := fun _ => ⟨[1, 0], ⟨fun _ => null, null⟩⟩
  let s₀ : State := ⟨⟨nodes, fun _ => 0, []⟩, []⟩
  let ptr := win + 4192256
  let chunk : Nat → Option Nat := fun _ => some 4096
  let pages : Nat → Option Nat := fun _ => some 0x800000
  let outcome := memHeapAllocOnBehalf win s₀.toKernelHeap 2000 1 chunk
  let s₁ : State := ⟨outcome.2, [(ptr, 2000)]⟩
  have hAlloc : memHeapAllocOnBehalf win s₀.toKernelHeap 2000 1 chunk = (some ptr, outcome.2) :=
    Prod.ext (by decide +kernel) (by dsimp only [outcome])
  have hChunk : ∀ i addr, chunk i = some addr → PageGrant win s₀.phys (physRequest 2000) addr := by
    intro i addr hAnswer
    cases hAnswer
    exact ⟨by decide, rfl, by simp [s₀]⟩
  have hStart : (reallocSystem win 2).init s₀ := by
    refine ⟨rfl, rfl, fun id => ⟨rfl, ?_⟩⟩
    simp [s₀, nodes]
  have run := (System.Execution.start hStart).step (ReallocStep.alloc hChunk hAlloc)
  have hPhys : outcome.2.phys = [Block.ofSize (win + 4096) memHeapChunkSize] := by decide +kernel
  have hPages : ∀ i addr, pages i = some addr → PageGrant win s₁.phys (physRequest 5000) addr := by
    intro i addr hAnswer
    cases hAnswer
    refine ⟨by decide, rfl, fun b hb => ?_⟩
    simp only [s₁, hPhys, List.map_cons, List.map_nil, List.mem_singleton, pageBlock_chunk] at hb
    rw [hb]
    exact Or.inr (by decide +kernel)
  have hRealloc : memHeapRealloc win s₁.toKernelHeap ptr 5000 2000 1 pages =
      (some (win + 0x800000), (memHeapRealloc win s₁.toKernelHeap ptr 5000 2000 1 pages).2) :=
    Prod.ext (by decide +kernel) rfl
  obtain ⟨hRoom, hData, -⟩ :=
    (realloc_keeps_data run (List.mem_cons_self ..) (by omega) hPages hRealloc).2 _ rfl
  exact ⟨s₁, ptr, _, _, run, hRealloc, hRoom, hData⟩

end Ricerca.Heap
