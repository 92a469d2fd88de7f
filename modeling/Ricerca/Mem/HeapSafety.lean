import Ricerca.Foundation.Chain
import Ricerca.Mem.Heap

/-! Safety of the kernel heap. Live blocks, free objects, unused slabs and slab
headers never overlap, and the header found by rounding an object's address down
names the node whose free lists the object belongs to. -/
namespace Ricerca.Heap

open Ricerca.Foundation

/-- A slab that was carved into objects of one order for one node. -/
structure Carving where
  addr : Nat
  owner : Nat
  order : Nat
  deriving DecidableEq

/-- What the heap's lists contain: the free objects of each node and order, the
unused slabs of each node, and the slabs carved so far. -/
structure Ledger where
  free : Nat → Nat → List Nat
  unused : Nat → List Nat
  carved : List Carving

namespace Ledger

variable (g : Ledger) (count : Nat)

def freeObjects : List Block :=
  (List.range count).flatMap fun n =>
    (List.range memHeapSlabOrders).flatMap fun order => (g.free n order).map (Block.ofOrder · order)

def unusedSlabs : List Block :=
  (List.range count).flatMap fun n => (g.unused n).map (Block.ofSize · memHeapSlabSize)

def headers : List Block := g.carved.map fun c => Block.ofSize c.addr memHeapSlabHdrSize

/-- Everything that belongs to the heap itself. -/
def pieces : List Block := g.freeObjects count ++ (g.unusedSlabs count ++ g.headers)

def setFree (n order : Nat) (cells : List Nat) : Ledger :=
  { g with free := Function.update g.free n (Function.update (g.free n) order cells) }

def setUnused (n : Nat) (cells : List Nat) : Ledger :=
  { g with unused := Function.update g.unused n cells }

variable {g count} {n order a : Nat} {cells : List Nat}

@[simp]
theorem setFree_unused : (g.setFree n order cells).unused = g.unused := rfl

@[simp]
theorem setUnused_free : (g.setUnused n cells).free = g.free := rfl

theorem setUnused_unused (m : Nat) :
    (g.setUnused n cells).unused m = if m = n then cells else g.unused m := by
  by_cases hNode : m = n <;> simp [setUnused, hNode]

theorem setFree_self : g.setFree n order (g.free n order) = g := by
  simp [setFree]

theorem setUnused_self : g.setUnused n (g.unused n) = g := by
  simp [setUnused]

theorem setFree_free (m o : Nat) :
    (g.setFree n order cells).free m o = if m = n ∧ o = order then cells else g.free m o := by
  by_cases hNode : m = n
  · subst hNode
    by_cases hOrder : o = order <;> simp [setFree, hOrder]
  · simp [setFree, hNode]

theorem mem_pieces_of_free (hNode : n < count) (hOrder : order < memHeapSlabOrders)
    (hMem : a ∈ g.free n order) : Block.ofOrder a order ∈ g.pieces count := by
  apply List.mem_append_left
  refine List.mem_flatMap.mpr ⟨n, List.mem_range.mpr hNode, ?_⟩
  exact List.mem_flatMap.mpr ⟨order, List.mem_range.mpr hOrder, List.mem_map_of_mem hMem⟩

theorem mem_pieces_of_unused (hNode : n < count) (hMem : a ∈ g.unused n) :
    Block.ofSize a memHeapSlabSize ∈ g.pieces count := by
  apply List.mem_append_right
  apply List.mem_append_left
  exact List.mem_flatMap.mpr ⟨n, List.mem_range.mpr hNode, List.mem_map_of_mem hMem⟩

theorem mem_pieces_of_carved {c : Carving} (hMem : c ∈ g.carved) :
    Block.ofSize c.addr memHeapSlabHdrSize ∈ g.pieces count := by
  apply List.mem_append_right
  apply List.mem_append_right
  exact List.mem_map_of_mem hMem

/-- One more free object is one more piece. -/
theorem pieces_setFree (hNode : n < count) (hOrder : order < memHeapSlabOrders)
    (cells : List Nat) :
    ((g.setFree n order (a :: cells)).pieces count).Perm
      (Block.ofOrder a order :: (g.setFree n order cells).pieces count) := by
  have hObjects : ((g.setFree n order (a :: cells)).freeObjects count).Perm
      (Block.ofOrder a order :: (g.setFree n order cells).freeObjects count) := by
    refine flatMap_range_perm_cons hNode ?_ ?_
    · refine flatMap_range_perm_cons hOrder ?_ ?_
      · simp [setFree]
      · intro o ho
        simp [setFree, ho]
    · intro m hm
      simp [setFree, hm]
  exact hObjects.append_right _

/-- One more unused slab is one more piece. -/
theorem pieces_setUnused (hNode : n < count) (cells : List Nat) :
    ((g.setUnused n (a :: cells)).pieces count).Perm
      (Block.ofSize a memHeapSlabSize :: (g.setUnused n cells).pieces count) := by
  have hSlabs : ((g.setUnused n (a :: cells)).unusedSlabs count).Perm
      (Block.ofSize a memHeapSlabSize :: (g.setUnused n cells).unusedSlabs count) := by
    refine flatMap_range_perm_cons hNode ?_ ?_
    · simp [setUnused]
    · intro m hm
      simp [setUnused, hm]
  exact ((hSlabs.append_right _).append_left _).trans List.perm_middle

/-- Carving a slab adds its header. -/
theorem pieces_carved (count : Nat) (c : Carving) :
    (({ g with carved := c :: g.carved } : Ledger).pieces count).Perm
      (Block.ofSize c.addr memHeapSlabHdrSize :: g.pieces count) := by
  have hHeaders : (g.unusedSlabs count ++ ({ g with carved := c :: g.carved } : Ledger).headers).Perm
      (Block.ofSize c.addr memHeapSlabHdrSize :: (g.unusedSlabs count ++ g.headers)) :=
    List.perm_middle
  exact (hHeaders.append_left _).trans List.perm_middle

end Ledger

/-- The words through which the heap links its lists say what the ledger says. -/
structure Linked (count : Nat) (h : KernelHeap) (g : Ledger) : Prop where
  free : ∀ n < count, ∀ order < memHeapSlabOrders,
    Chain h.mem null ((h.nodes n).slabData.freeLists order) (g.free n order)
  unused : ∀ n < count, Chain (fun a => h.mem (a + 8)) null (h.nodes n).slabData.slabs (g.unused n)
  owner : ∀ c ∈ g.carved, h.mem c.addr = c.owner

/-- The heap's memory while some blocks are held, by clients or by a call that is
moving them between lists. -/
structure Layout (win count : Nat) (h : KernelHeap) (held : List Block) (g : Ledger) : Prop where
  linked : Linked count h g
  apart : (held ++ g.pieces count).Pairwise Block.Apart
  inside : ∀ b ∈ held ++ g.pieces count, ∃ p ∈ h.phys, b.Inside p
  phys_apart : h.phys.Pairwise Block.Apart
  phys_window : ∀ p ∈ h.phys, win ≤ p.addr
  carved_node : ∀ c ∈ g.carved, c.owner < count
  carved_aligned : ∀ c ∈ g.carved, c.addr % memHeapSlabSize = 0
  free_carved : ∀ n < count, ∀ order < memHeapSlabOrders, ∀ a ∈ g.free n order,
    ⟨alignDown a memHeapSlabSize, n, order⟩ ∈ g.carved ∧ a % 2 ^ order = 0
  unused_aligned : ∀ n < count, ∀ a ∈ g.unused n, a % memHeapSlabSize = 0
  neighbours : ∀ n, ∀ m ∈ (h.nodes n).neighbours, m < count

/-- Links survive every write that spares the heap's own pieces. -/
theorem Linked.write {count : Nat} {h h' : KernelHeap} {g : Ledger} (hLinked : Linked count h g)
    (hNodes : ∀ n, (h'.nodes n).slabData = (h.nodes n).slabData)
    (hSame : ∀ b ∈ g.pieces count, ∀ a, b.Contains a → h'.mem a = h.mem a) :
    Linked count h' g := by
  refine ⟨?_, ?_, ?_⟩
  · intro n hn order ho
    rw [hNodes]
    refine (hLinked.free n hn order ho).congr fun a ha => ?_
    exact hSame _ (Ledger.mem_pieces_of_free hn ho ha) a (Block.contains_addr _)
  · intro n hn
    rw [hNodes]
    refine (hLinked.unused n hn).congr fun a ha => ?_
    refine hSame _ (Ledger.mem_pieces_of_unused hn ha) (a + 8) ?_
    simp only [Block.Contains, Block.ofSize, memHeapSlabSize]
    omega
  · intro c hc
    rw [← hLinked.owner c hc]
    exact hSame _ (Ledger.mem_pieces_of_carved hc) c.addr (Block.contains_addr _)

theorem le_alignUp (val : Nat) {align : Nat} (hPos : 0 < align) : val ≤ alignUp val align := by
  have hDiv := Nat.div_add_mod (val + align - 1) align
  have hMod := Nat.mod_lt (val + align - 1) hPos
  rw [Nat.mul_comm] at hDiv
  simp only [alignUp, alignDown]
  omega

theorem alignUp_lt (val : Nat) {align : Nat} (hPos : 0 < align) :
    alignUp val align < val + align := by
  have hLe := Nat.div_mul_le_self (val + align - 1) align
  simp only [alignUp, alignDown]
  omega

theorem dvd_alignDown (val align : Nat) : align ∣ alignDown val align := Nat.dvd_mul_left ..

theorem dvd_alignUp (val align : Nat) : align ∣ alignUp val align := dvd_alignDown ..

/-- Rounding down finds the only multiple of `align` that close below. -/
theorem alignDown_eq {val align base : Nat} (hDvd : align ∣ base) (hLe : base ≤ val)
    (hLt : val < base + align) : alignDown val align = base := by
  obtain ⟨k, rfl⟩ := hDvd
  have hDiv : val / align = k := by
    apply Nat.div_eq_of_lt_le
    · rw [Nat.mul_comm]
      exact hLe
    · rw [Nat.succ_mul, Nat.mul_comm]
      exact hLt
  rw [alignDown, hDiv, Nat.mul_comm]

/-- Two different multiples are at least one step apart. -/
theorem add_le_of_dvd {step a b : Nat} (ha : step ∣ a) (hb : step ∣ b) (hLt : a < b) :
    a + step ≤ b := by
  obtain ⟨i, rfl⟩ := ha
  obtain ⟨j, rfl⟩ := hb
  have hIndex : i + 1 ≤ j := Nat.lt_of_mul_lt_mul_left hLt
  exact Nat.mul_le_mul_left step hIndex

theorem slabOrder_dvd {order : Nat} (hOrder : order < memHeapSlabOrders) :
    2 ^ order ∣ memHeapSlabSize := by
  have hPow : memHeapSlabSize = 2 ^ 16 := rfl
  simp only [memHeapSlabOrders] at hOrder
  exact hPow ▸ Nat.pow_dvd_pow 2 (by omega)

namespace Layout

variable {win count : Nat} {h : KernelHeap} {held : List Block} {g : Ledger} {n order a : Nat}

theorem perm {other : List Block} (hLayout : Layout win count h held g) (hPerm : held.Perm other) :
    Layout win count h other g :=
  { hLayout with
    apart := (hPerm.append_right _).pairwise hLayout.apart Block.Apart.symm
    inside := fun b hb => hLayout.inside b ((hPerm.append_right _).mem_iff.mpr hb) }

/-- Two ledgers that account for the same blocks have the same geometry. -/
theorem regroup {held' : List Block} {h' : KernelHeap} {g' : Ledger}
    (hLayout : Layout win count h held g)
    (hPerm : (held ++ g.pieces count).Perm (held' ++ g'.pieces count))
    (hLinked : Linked count h' g') (hPhys : h'.phys = h.phys) (hCarved : g'.carved = g.carved)
    (hFree : ∀ n < count, ∀ order < memHeapSlabOrders, ∀ a ∈ g'.free n order,
      ⟨alignDown a memHeapSlabSize, n, order⟩ ∈ g.carved ∧ a % 2 ^ order = 0)
    (hUnused : ∀ n < count, ∀ a ∈ g'.unused n, a % memHeapSlabSize = 0)
    (hNeighbours : ∀ n, (h'.nodes n).neighbours = (h.nodes n).neighbours) :
    Layout win count h' held' g' where
  linked := hLinked
  apart := hPerm.pairwise hLayout.apart Block.Apart.symm
  inside b hb := by
    rw [hPhys]
    exact hLayout.inside b (hPerm.mem_iff.mpr hb)
  phys_apart := by rw [hPhys]; exact hLayout.phys_apart
  phys_window := by rw [hPhys]; exact hLayout.phys_window
  carved_node := by rw [hCarved]; exact hLayout.carved_node
  carved_aligned := by rw [hCarved]; exact hLayout.carved_aligned
  free_carved := by rw [hCarved]; exact hFree
  unused_aligned := hUnused
  neighbours n := by rw [hNeighbours]; exact hLayout.neighbours n

/-- A held block contains none of the addresses of the heap's pieces. -/
theorem held_spares_pieces {b : Block} (hLayout : Layout win count h (b :: held) g)
    (ha : b.Contains a) : ∀ p ∈ g.pieces count, ¬p.Contains a := by
  intro p hp
  have hApart := (List.pairwise_cons.mp hLayout.apart).1 p (List.mem_append_right held hp)
  exact hApart.not_contains ha

theorem ne_null {b : Block} (hWin : 0 < win) (hLayout : Layout win count h held g)
    (hMem : b ∈ held ++ g.pieces count) : b.addr ≠ null := by
  obtain ⟨p, hp, hInside⟩ := hLayout.inside b hMem
  have hWindow := hLayout.phys_window p hp
  simp only [Block.Inside, null] at *
  omega

/-- Putting a held object on the free list of its slab's owner. -/
theorem pushObject (hWin : 0 < win)
    (hLayout : Layout win count h (Block.ofOrder a order :: held) g)
    (hNode : n < count) (hOrder : order < memHeapSlabOrders)
    (hCarved : ⟨alignDown a memHeapSlabSize, n, order⟩ ∈ g.carved) (hAligned : a % 2 ^ order = 0) :
    Layout win count (pushObject n order h a) held (g.setFree n order (a :: g.free n order)) := by
  have hSpares := hLayout.held_spares_pieces (Block.contains_addr (Block.ofOrder a order))
  have hNe : a ≠ null := hLayout.ne_null hWin (List.mem_cons_self ..)
  have hWrite : Linked count
      { h with mem := Function.update h.mem a ((h.nodes n).slabData.freeLists order) } g := by
    refine hLayout.linked.write (fun _ => rfl) fun b hb x hx => ?_
    exact Function.update_of_ne (fun hEq : x = a => hSpares b hb (hEq ▸ hx)) _ _
  have hNot : ∀ m < count, ∀ o < memHeapSlabOrders, a ∉ g.free m o := fun m hm o ho hMem =>
    hSpares _ (Ledger.mem_pieces_of_free hm ho hMem) (Block.contains_addr _)
  refine hLayout.regroup ?_ ⟨?_, ?_, hWrite.owner⟩ rfl rfl ?_ hLayout.unused_aligned
    (KernelHeap.neighbours_setSlabData h n _)
  · have hPerm := Ledger.pieces_setFree (g := g) (a := a) hNode hOrder (g.free n order)
    rw [Ledger.setFree_self] at hPerm
    exact List.perm_middle.symm.trans (hPerm.symm.append_left held)
  · intro m hm o ho
    have hOld := hWrite.free m hm o ho
    simp only [Heap.pushObject, KernelHeap.slabData_setSlabData, Ledger.setFree_free]
    by_cases hEq : m = n
    · subst hEq
      by_cases hSame : o = order
      · subst hSame
        simpa using (hLayout.linked.free m hm o ho).push hNe (hNot m hm o ho)
      · simpa [hSame] using hOld
    · simpa [hEq] using hOld
  · intro m hm
    have hOld := hWrite.unused m hm
    simp only [Heap.pushObject, KernelHeap.slabData_setSlabData]
    by_cases hEq : m = n
    · subst hEq
      simpa using hOld
    · simpa [hEq] using hOld
  · intro m hm o ho x hx
    rw [Ledger.setFree_free] at hx
    split_ifs at hx with hHere
    · obtain ⟨rfl, rfl⟩ := hHere
      rcases List.mem_cons.mp hx with rfl | hx
      · exact ⟨hCarved, hAligned⟩
      · exact hLayout.free_carved m hm o ho x hx
    · exact hLayout.free_carved m hm o ho x hx

/-- Taking the first object off a free list. -/
theorem popObject {cells : List Nat} (hLayout : Layout win count h held g)
    (hNode : n < count) (hOrder : order < memHeapSlabOrders) (hFree : g.free n order = a :: cells) :
    (memAllocateFromSlab h n order).1 = a ∧
    Layout win count (memAllocateFromSlab h n order).2 (Block.ofOrder a order :: held)
      (g.setFree n order cells) := by
  have hChain := hLayout.linked.free n hNode order hOrder
  rw [hFree] at hChain
  obtain ⟨hHead, -, hRest⟩ := hChain.pop
  refine ⟨hHead, hLayout.regroup ?_ ⟨?_, ?_, hLayout.linked.owner⟩ rfl rfl ?_ hLayout.unused_aligned
    (KernelHeap.neighbours_setSlabData h n _)⟩
  · have hPerm := Ledger.pieces_setFree (g := g) (a := a) hNode hOrder cells
    rw [← hFree, Ledger.setFree_self] at hPerm
    exact (hPerm.append_left held).trans List.perm_middle
  · intro m hm o ho
    have hOld := hLayout.linked.free m hm o ho
    simp only [memAllocateFromSlab, KernelHeap.slabData_setSlabData, Ledger.setFree_free]
    by_cases hEq : m = n
    · subst hEq
      by_cases hSame : o = order
      · subst hSame
        simpa [hHead] using hRest
      · simpa [hSame] using hOld
    · simpa [hEq] using hOld
  · intro m hm
    have hOld := hLayout.linked.unused m hm
    simp only [memAllocateFromSlab, KernelHeap.slabData_setSlabData]
    by_cases hEq : m = n
    · subst hEq
      simpa using hOld
    · simpa [hEq] using hOld
  · intro m hm o ho x hx
    rw [Ledger.setFree_free] at hx
    split_ifs at hx with hHere
    · obtain ⟨rfl, rfl⟩ := hHere
      exact hLayout.free_carved m hm o ho x (hFree ▸ List.mem_cons_of_mem a hx)
    · exact hLayout.free_carved m hm o ho x hx

theorem slabLinks_update (mem : Nat → Nat) (slab v : Nat) :
    (fun a => Function.update mem (slab + 8) v (a + 8)) =
      Function.update (fun a => mem (a + 8)) slab v := by
  funext a
  by_cases hEq : a = slab
  · subst hEq
    simp
  · simp [hEq]

/-- Putting a held slab on the list of unused slabs. -/
theorem linkSlab (hWin : 0 < win)
    (hLayout : Layout win count h (Block.ofSize (win + a) memHeapSlabSize :: held) g)
    (hNode : n < count) (hAligned : (win + a) % memHeapSlabSize = 0) :
    Layout win count (linkSlab win n h a) held (g.setUnused n ((win + a) :: g.unused n)) := by
  have hSlab : (Block.ofSize (win + a) memHeapSlabSize).Contains (win + a + 8) := by
    simp only [Block.Contains, Block.ofSize, memHeapSlabSize]
    omega
  have hNe : win + a ≠ null := hLayout.ne_null hWin (List.mem_cons_self ..)
  have hSpares := hLayout.held_spares_pieces hSlab
  have hWrite : Linked count
      { h with mem := Function.update h.mem (win + a + 8) (h.nodes n).slabData.slabs } g := by
    refine hLayout.linked.write (fun _ => rfl) fun b hb x hx => ?_
    exact Function.update_of_ne (fun hEq : x = win + a + 8 => hSpares b hb (hEq ▸ hx)) _ _
  have hNot : ∀ m < count, win + a ∉ g.unused m := fun m hm hMem =>
    hLayout.held_spares_pieces (Block.contains_addr _) _ (Ledger.mem_pieces_of_unused hm hMem)
      (Block.contains_addr (Block.ofSize (win + a) memHeapSlabSize))
  refine hLayout.regroup ?_ ⟨?_, ?_, hWrite.owner⟩ rfl rfl hLayout.free_carved ?_
    (KernelHeap.neighbours_setSlabData h n _)
  · have hPerm := Ledger.pieces_setUnused (g := g) (a := win + a) hNode (g.unused n)
    rw [Ledger.setUnused_self] at hPerm
    exact List.perm_middle.symm.trans (hPerm.symm.append_left held)
  · intro m hm o ho
    have hOld := hWrite.free m hm o ho
    simp only [Heap.linkSlab, KernelHeap.slabData_setSlabData]
    by_cases hEq : m = n
    · subst hEq
      simpa using hOld
    · simpa [hEq] using hOld
  · intro m hm
    have hOld := hWrite.unused m hm
    simp only [Heap.linkSlab, KernelHeap.slabData_setSlabData, Ledger.setUnused_unused]
    by_cases hEq : m = n
    · subst hEq
      simpa [slabLinks_update] using (hLayout.linked.unused m hm).push hNe (hNot m hm)
    · simpa [hEq] using hOld
  · intro m hm x hx
    rw [Ledger.setUnused_unused] at hx
    split_ifs at hx with hHere
    · subst hHere
      rcases List.mem_cons.mp hx with rfl | hx
      · exact hAligned
      · exact hLayout.unused_aligned m hm x hx
    · exact hLayout.unused_aligned m hm x hx

/-- The objects of one slab, all at once. -/
theorem pushObjects (hWin : 0 < win) (objs : List Nat)
    (hLayout : Layout win count h (objs.map (Block.ofOrder · order) ++ held) g)
    (hNode : n < count) (hOrder : order < memHeapSlabOrders)
    (hObjs : ∀ a ∈ objs, ⟨alignDown a memHeapSlabSize, n, order⟩ ∈ g.carved ∧ a % 2 ^ order = 0) :
    ∃ g', Layout win count (objs.foldl (Heap.pushObject n order) h) held g' ∧
      g'.carved = g.carved ∧ (objs ≠ [] ∨ g.free n order ≠ [] → g'.free n order ≠ []) := by
  induction objs generalizing h g with
  | nil => exact ⟨g, hLayout, rfl, by simp⟩
  | cons a objs ih =>
      obtain ⟨hCarved, hAligned⟩ := hObjs a (List.mem_cons_self ..)
      have hPushed := hLayout.pushObject hWin hNode hOrder hCarved hAligned
      obtain ⟨g', hLayout', hSame, hNonempty⟩ := ih hPushed
        fun b hb => hObjs b (List.mem_cons_of_mem _ hb)
      refine ⟨g', hLayout', hSame, fun _ => hNonempty (Or.inr ?_)⟩
      simp [Ledger.setFree_free]

/-- The slabs of one chunk, all at once. -/
theorem linkSlabs (hWin : 0 < win) (slabs : List Nat)
    (hLayout : Layout win count h
      (slabs.map (fun a => Block.ofSize (win + a) memHeapSlabSize) ++ held) g)
    (hNode : n < count) (hSlabs : ∀ a ∈ slabs, (win + a) % memHeapSlabSize = 0) :
    ∃ g', Layout win count (slabs.foldl (Heap.linkSlab win n) h) held g' ∧
      g'.carved = g.carved ∧ (slabs ≠ [] ∨ g.unused n ≠ [] → g'.unused n ≠ []) := by
  induction slabs generalizing h g with
  | nil => exact ⟨g, hLayout, rfl, by simp⟩
  | cons a slabs ih =>
      have hLinked := hLayout.linkSlab hWin hNode (hSlabs a (List.mem_cons_self ..))
      obtain ⟨g', hLayout', hSame, hNonempty⟩ := ih hLinked
        fun b hb => hSlabs b (List.mem_cons_of_mem _ hb)
      refine ⟨g', hLayout', hSame, fun _ => hNonempty (Or.inr ?_)⟩
      simp [Ledger.setUnused_unused]

/-- The objects that `mem_heap_add_slab` makes lie inside the slab, above its
header. -/
theorem mem_objects {slab : Nat} (hSlab : slab % memHeapSlabSize = 0)
    (hOrder : order < memHeapSlabOrders)
    (ha : a ∈ addrRange (alignUp (slab + memHeapSlabHdrSize) (2 ^ order)) (slab + memHeapSlabSize)
      (2 ^ order)) :
    slab + memHeapSlabHdrSize ≤ a ∧ a + 2 ^ order ≤ slab + memHeapSlabSize ∧ a % 2 ^ order = 0 ∧
    alignDown a memHeapSlabSize = slab := by
  have hPos := Nat.two_pow_pos order
  have hStep := slabOrder_dvd hOrder
  have hBase : memHeapSlabSize ∣ slab := Nat.dvd_of_mod_eq_zero hSlab
  obtain ⟨i, hEq, hLt⟩ := (mem_addrRange hPos).mp ha
  have hLow := le_alignUp (slab + memHeapSlabHdrSize) hPos
  have hDvd : 2 ^ order ∣ a := by
    rw [hEq]
    exact Nat.dvd_add (dvd_alignUp ..) (Nat.dvd_mul_left ..)
  refine ⟨by omega, ?_, Nat.mod_eq_zero_of_dvd hDvd, ?_⟩
  · exact add_le_of_dvd hDvd (Nat.dvd_add (Nat.dvd_trans hStep hBase) hStep) hLt
  · exact alignDown_eq hBase (by omega) hLt

/-- The header and the objects of a slab. -/
def slabPieces (slab order : Nat) (objs : List Nat) : List Block :=
  Block.ofSize slab memHeapSlabHdrSize :: objs.map (Block.ofOrder · order)

/-- The addresses of the objects that `mem_heap_add_slab` makes. -/
def slabObjects (slab order : Nat) : List Nat :=
  addrRange (alignUp (slab + memHeapSlabHdrSize) (2 ^ order)) (slab + memHeapSlabSize) (2 ^ order)

theorem slabPieces_inside {slab : Nat} (hSlab : slab % memHeapSlabSize = 0)
    (hOrder : order < memHeapSlabOrders) :
    ∀ p ∈ slabPieces slab order (slabObjects slab order),
      p.Inside (Block.ofSize slab memHeapSlabSize) := by
  intro p hp
  rcases List.mem_cons.mp hp with rfl | hp
  · simp [Block.Inside, Block.ofSize, memHeapSlabHdrSize, memHeapSlabSize]
  · obtain ⟨a, ha, rfl⟩ := List.mem_map.mp hp
    obtain ⟨hLow, hHigh, -⟩ := mem_objects hSlab hOrder ha
    simp only [Block.Inside, Block.ofSize, Block.ofOrder]
    omega

theorem slabPieces_apart {slab : Nat} (hSlab : slab % memHeapSlabSize = 0)
    (hOrder : order < memHeapSlabOrders) :
    (slabPieces slab order (slabObjects slab order)).Pairwise Block.Apart := by
  refine List.pairwise_cons.mpr
    ⟨?_, addrRange_pairwise_apart _ _ (fun _ => rfl) fun _ => Nat.le_refl _⟩
  intro p hp
  obtain ⟨a, ha, rfl⟩ := List.mem_map.mp hp
  left
  have hLow := (mem_objects hSlab hOrder ha).1
  simpa [Block.ofSize, Block.ofOrder, memHeapSlabHdrSize] using hLow

/-- Taking the first slab off the list of unused slabs. -/
theorem popSlab {slab : Nat} {cells : List Nat} (hLayout : Layout win count h held g)
    (hNode : n < count) (hUnused : g.unused n = slab :: cells) :
    (h.nodes n).slabData.slabs = slab ∧
    Layout win count (h.setSlabData n { (h.nodes n).slabData with slabs := h.mem (slab + 8) })
      (Block.ofSize slab memHeapSlabSize :: held) (g.setUnused n cells) := by
  have hChain := hLayout.linked.unused n hNode
  rw [hUnused] at hChain
  obtain ⟨hHead, -, hRest⟩ := hChain.pop
  refine ⟨hHead, hLayout.regroup ?_ ⟨?_, ?_, hLayout.linked.owner⟩ rfl rfl hLayout.free_carved ?_
    (KernelHeap.neighbours_setSlabData h n _)⟩
  · have hPerm := Ledger.pieces_setUnused (g := g) (a := slab) hNode cells
    rw [← hUnused, Ledger.setUnused_self] at hPerm
    exact (hPerm.append_left held).trans List.perm_middle
  · intro m hm o ho
    have hOld := hLayout.linked.free m hm o ho
    simp only [KernelHeap.slabData_setSlabData]
    by_cases hEq : m = n
    · subst hEq
      simpa using hOld
    · simpa [hEq] using hOld
  · intro m hm
    have hOld := hLayout.linked.unused m hm
    simp only [KernelHeap.slabData_setSlabData, Ledger.setUnused_unused]
    by_cases hEq : m = n
    · subst hEq
      simpa using hRest
    · simpa [hEq] using hOld
  · intro m hm x hx
    rw [Ledger.setUnused_unused] at hx
    split_ifs at hx with hEq
    · subst hEq
      exact hLayout.unused_aligned m hm x (hUnused ▸ List.mem_cons_of_mem slab hx)
    · exact hLayout.unused_aligned m hm x hx

/-- Cutting a held slab into its header, which joins the heap's pieces, and
objects. -/
theorem carve {slab : Nat} {objs : List Nat}
    (hLayout : Layout win count h (Block.ofSize slab memHeapSlabSize :: held) g)
    (hNode : n < count) (hSlab : slab % memHeapSlabSize = 0)
    (hApart : (slabPieces slab order objs).Pairwise Block.Apart)
    (hInside : ∀ p ∈ slabPieces slab order objs, p.Inside (Block.ofSize slab memHeapSlabSize)) :
    Layout win count { h with mem := Function.update h.mem slab n }
      (objs.map (Block.ofOrder · order) ++ held)
      { g with carved := ⟨slab, n, order⟩ :: g.carved } := by
  have hSpares := hLayout.held_spares_pieces
    (Block.contains_addr (Block.ofSize slab memHeapSlabSize))
  have hWrite : Linked count { h with mem := Function.update h.mem slab n } g := by
    refine hLayout.linked.write (fun _ => rfl) fun b hb x hx => ?_
    exact Function.update_of_ne (fun hEq : x = slab => hSpares b hb (hEq ▸ hx)) _ _
  have hCut : (slabPieces slab order objs ++ (held ++ g.pieces count)).Perm
      ((objs.map (Block.ofOrder · order) ++ held) ++
        ({ g with carved := ⟨slab, n, order⟩ :: g.carved } : Ledger).pieces count) := by
    have hPerm := Ledger.pieces_carved (g := g) count ⟨slab, n, order⟩
    rw [List.append_assoc]
    refine List.Perm.trans ?_ ((hPerm.symm.append_left held).append_left _)
    refine List.Perm.trans ?_ (List.perm_middle.symm.append_left _)
    exact List.perm_middle.symm
  refine { hLayout with
    linked := ⟨hWrite.free, hWrite.unused, ?_⟩
    apart := hCut.pairwise (Block.pairwise_apart_replace hLayout.apart hApart hInside)
      Block.Apart.symm
    inside := ?_, carved_node := ?_, carved_aligned := ?_, free_carved := ?_ }
  · intro c hc
    rcases List.mem_cons.mp hc with rfl | hc
    · exact Function.update_self ..
    · exact hWrite.owner c hc
  · intro b hb
    rcases List.mem_append.mp (hCut.mem_iff.mpr hb) with hNew | hOld
    · obtain ⟨p, hp, hWhole⟩ := hLayout.inside _ (List.mem_cons_self ..)
      exact ⟨p, hp, (hInside b hNew).trans hWhole⟩
    · exact hLayout.inside b (List.mem_cons_of_mem _ hOld)
  · intro c hc
    rcases List.mem_cons.mp hc with rfl | hc
    · exact hNode
    · exact hLayout.carved_node c hc
  · intro c hc
    rcases List.mem_cons.mp hc with rfl | hc
    · exact hSlab
    · exact hLayout.carved_aligned c hc
  · intro m hm o ho a ha
    obtain ⟨hCarved, hMod⟩ := hLayout.free_carved m hm o ho a ha
    exact ⟨List.mem_cons_of_mem _ hCarved, hMod⟩

/-- `mem_heap_add_slab` leaves at least one object on the free list. -/
theorem addSlab (hWin : 0 < win) (hLayout : Layout win count h held g) (hNode : n < count)
    (hOrder : order < memHeapSlabOrders) (hUnused : g.unused n ≠ []) :
    ∃ g', Layout win count (memHeapAddSlab h n order) held g' ∧ g.carved ⊆ g'.carved ∧
      g'.free n order ≠ [] := by
  obtain ⟨slab, cells, hCells⟩ := List.exists_cons_of_ne_nil hUnused
  have hAligned := hLayout.unused_aligned n hNode slab (hCells ▸ List.mem_cons_self ..)
  have hPos := Nat.two_pow_pos order
  have hFirst : alignUp (slab + memHeapSlabHdrSize) (2 ^ order) < slab + memHeapSlabSize := by
    have hLt := alignUp_lt (slab + memHeapSlabHdrSize) hPos
    have hPow : 2 ^ order ≤ 2 ^ 11 :=
      Nat.pow_le_pow_right (by omega) (by simp only [memHeapSlabOrders] at hOrder; omega)
    simp only [memHeapSlabHdrSize, memHeapSlabSize] at *
    omega
  obtain ⟨hHead, hPopped⟩ := hLayout.popSlab hNode hCells
  have hObjs : ∀ a ∈ slabObjects slab order, _ := fun a ha => mem_objects hAligned hOrder ha
  obtain ⟨g', hLayout', hSame, hNonempty⟩ :=
    (hPopped.carve hNode hAligned (slabPieces_apart hAligned hOrder)
      (slabPieces_inside hAligned hOrder)).pushObjects hWin _ hNode hOrder fun a ha =>
        ⟨(hObjs a ha).2.2.2 ▸ List.mem_cons_self .., (hObjs a ha).2.2.1⟩
  refine ⟨g', ?_, ?_, hNonempty (Or.inl ?_)⟩
  · simpa only [memHeapAddSlab, hHead, slabObjects, KernelHeap.mem_setSlabData] using hLayout'
  · rw [hSame]
    exact List.subset_cons_self ..
  · refine List.ne_nil_of_mem ((mem_addrRange hPos).mpr ⟨0, rfl, ?_⟩)
    simpa using hFirst

/-- A new block from the page allocator is apart from everything the heap has. -/
theorem physApart {b : Block} (hLayout : Layout win count h held g)
    (hNew : ∀ p ∈ h.phys, b.Apart p) : ∀ c ∈ held ++ g.pieces count, b.Apart c := by
  intro c hc
  obtain ⟨p, hp, hInside⟩ := hLayout.inside c hc
  exact (hInside.apart (hNew p hp).symm).symm

/-- Pieces of a new block from the page allocator join the held blocks. -/
theorem addPhys {b : Block} (hLayout : Layout win count h held g) (new : List Block)
    (hNew : ∀ p ∈ h.phys, b.Apart p) (hWindow : win ≤ b.addr) (hApart : new.Pairwise Block.Apart)
    (hInside : ∀ c ∈ new, c.Inside b) :
    Layout win count { h with phys := b :: h.phys } (new ++ held) g := by
  refine { hLayout with
    linked := hLayout.linked.write (fun _ => rfl) fun _ _ _ _ => rfl
    apart := ?_, inside := ?_, phys_apart := ?_, phys_window := ?_ }
  · rw [List.append_assoc]
    refine Block.pairwise_apart_replace (b := b) ?_ hApart hInside
    exact List.pairwise_cons.mpr ⟨hLayout.physApart hNew, hLayout.apart⟩
  · intro c hc
    rw [List.append_assoc] at hc
    rcases List.mem_append.mp hc with hc | hc
    · exact ⟨b, List.mem_cons_self .., hInside c hc⟩
    · obtain ⟨p, hp, hOld⟩ := hLayout.inside c hc
      exact ⟨p, List.mem_cons_of_mem _ hp, hOld⟩
  · exact List.pairwise_cons.mpr ⟨hNew, hLayout.phys_apart⟩
  · intro p hp
    rcases List.mem_cons.mp hp with rfl | hp
    · exact hWindow
    · exact hLayout.phys_window p hp

/-- The slabs that `mem_allocate_new_slabs_chunk` makes of a chunk. -/
def chunkSlabs (a : Nat) : List Nat :=
  addrRange (alignUp a memHeapSlabSize) (alignDown (a + memHeapChunkSize) memHeapSlabSize)
    memHeapSlabSize

theorem mem_chunkSlabs {x : Nat} (hx : x ∈ chunkSlabs a) :
    a ≤ x ∧ x + memHeapSlabSize ≤ a + memHeapChunkSize ∧ memHeapSlabSize ∣ x := by
  have hPos : 0 < memHeapSlabSize := by decide
  have hLow := le_alignUp a hPos
  have hHigh : alignDown (a + memHeapChunkSize) memHeapSlabSize ≤ a + memHeapChunkSize :=
    Nat.div_mul_le_self _ _
  obtain ⟨i, hEq, hLt⟩ := (mem_addrRange hPos).mp hx
  have hDvd : memHeapSlabSize ∣ x := by
    rw [hEq]
    exact Nat.dvd_add (dvd_alignUp ..) (Nat.dvd_mul_left ..)
  have hEnd := add_le_of_dvd hDvd (dvd_alignDown ..) hLt
  exact ⟨by omega, by omega, hDvd⟩

/-- A chunk from the page allocator becomes unused slabs, at least one of them. -/
theorem newSlabsChunk (hWin : 0 < win) (hBase : memHeapSlabSize ∣ win)
    (hLayout : Layout win count h held g) (hNode : n < count)
    (hPhys : PhysAnswer win h.phys memHeapChunkSize a) :
    ∃ g', Layout win count (memAllocateNewSlabsChunk win h n (some a)).2 held g' ∧
      g'.carved = g.carved ∧ g'.unused n ≠ [] := by
  have hPos : 0 < memHeapSlabSize := by decide
  let slabs := chunkSlabs a
  have hSlabs : ∀ x ∈ slabs, _ := fun x hx => mem_chunkSlabs hx
  have hHeld := hLayout.addPhys (slabs.map fun x => Block.ofSize (win + x) memHeapSlabSize)
    hPhys.2 (Nat.le_add_right ..) ?_ ?_
  · obtain ⟨g', hLayout', hSame, hNonempty⟩ := hHeld.linkSlabs hWin slabs hNode fun x hx =>
      Nat.mod_eq_zero_of_dvd (Nat.dvd_add hBase (hSlabs x hx).2.2)
    refine ⟨g', hLayout', hSame, hNonempty (Or.inl ?_)⟩
    refine List.ne_nil_of_mem ((mem_addrRange hPos).mpr ⟨0, rfl, ?_⟩)
    simp only [alignUp, alignDown, memHeapChunkSize, memHeapSlabSize]
    omega
  · have hMap : slabs.map (fun x => Block.ofSize (win + x) memHeapSlabSize) =
        (addrRange (win + alignUp a memHeapSlabSize)
          (win + alignDown (a + memHeapChunkSize) memHeapSlabSize) memHeapSlabSize).map
          (Block.ofSize · memHeapSlabSize) := by
      simp only [slabs, chunkSlabs, addrRange, List.map_map, Nat.add_sub_add_left]
      refine List.map_congr_left fun i _ => ?_
      simp only [Function.comp_apply, Nat.add_assoc]
    rw [hMap]
    exact addrRange_pairwise_apart _ _ (fun _ => rfl) fun _ => Nat.le_refl _
  · intro c hc
    obtain ⟨x, hx, rfl⟩ := List.mem_map.mp hc
    obtain ⟨hFrom, hTo, -⟩ := hSlabs x hx
    simp only [Block.Inside, Block.ofSize, memHeapSlabSize, memHeapChunkSize] at *
    omega

/-- A block of the order lies in a slab that was carved for that order. -/
def CarvedFor (g : Ledger) (order a : Nat) : Prop :=
  (∃ owner, ⟨alignDown a memHeapSlabSize, owner, order⟩ ∈ g.carved) ∧ a % 2 ^ order = 0

/-- What an allocation of a small order does. -/
def Served (win count : Nat) (held : List Block) (g : Ledger) (phys : List Block) (order : Nat)
    (outcome : Option Nat × KernelHeap) : Prop :=
  ∃ g', g.carved ⊆ g'.carved ∧ phys ⊆ outcome.2.phys ∧
    match outcome.1 with
    | none => Layout win count outcome.2 held g'
    | some a => Layout win count outcome.2 (Block.ofOrder a order :: held) g' ∧ CarvedFor g' order a

theorem takeObject (hLayout : Layout win count h held g) (hNode : n < count)
    (hOrder : order < memHeapSlabOrders) (hFree : g.free n order ≠ []) :
    Served win count held g h.phys order
      (some (memAllocateFromSlab h n order).1, (memAllocateFromSlab h n order).2) := by
  obtain ⟨a, cells, hCells⟩ := List.exists_cons_of_ne_nil hFree
  obtain ⟨hObj, hTaken⟩ := hLayout.popObject hNode hOrder hCells
  obtain ⟨hCarved, hMod⟩ := hLayout.free_carved n hNode order hOrder a
    (hCells ▸ List.mem_cons_self ..)
  refine ⟨g.setFree n order cells, List.Subset.refl _, List.Subset.refl _, ?_⟩
  simp only [hObj]
  exact ⟨hTaken, ⟨n, hCarved⟩, hMod⟩

theorem Served.mono {phys phys' : List Block} {g' : Ledger} {outcome : Option Nat × KernelHeap}
    (hServed : Served win count held g' phys' order outcome) (hCarved : g.carved ⊆ g'.carved)
    (hPhys : phys ⊆ phys') : Served win count held g phys order outcome := by
  obtain ⟨last, hLedger, hPages, hLayout⟩ := hServed
  exact ⟨last, List.Subset.trans hCarved hLedger, List.Subset.trans hPhys hPages, hLayout⟩

theorem memHeapAddSlab_phys (h : KernelHeap) (n order : Nat) :
    (memHeapAddSlab h n order).phys = h.phys := by
  have hFold : ∀ (objs : List Nat) (k : KernelHeap),
      (objs.foldl (Heap.pushObject n order) k).phys = k.phys := by
    intro objs
    induction objs with
    | nil => exact fun _ => rfl
    | cons a objs ih => exact fun k => ih _
  exact hFold _ _

theorem memAllocateNewSlabsChunk_false {answer : Option Nat} {h' : KernelHeap}
    (hChunk : memAllocateNewSlabsChunk win h n answer = (false, h')) : h' = h := by
  cases answer with
  | none => exact (Prod.mk.inj hChunk).2.symm
  | some a => cases (Prod.mk.inj hChunk).1

theorem memAllocateNewSlabsChunk_true {answer : Option Nat} {h' : KernelHeap}
    (hChunk : memAllocateNewSlabsChunk win h n answer = (true, h')) : ∃ a, answer = some a := by
  cases answer with
  | none => cases (Prod.mk.inj hChunk).1
  | some a => exact ⟨a, rfl⟩

theorem memAllocateNewSlabsChunk_phys (win : Nat) (h : KernelHeap) (n : Nat) (answer : Option Nat) :
    h.phys ⊆ (memAllocateNewSlabsChunk win h n answer).2.phys := by
  have hFold : ∀ (slabs : List Nat) (k : KernelHeap),
      (slabs.foldl (Heap.linkSlab win n) k).phys = k.phys := by
    intro slabs
    induction slabs with
    | nil => exact fun _ => rfl
    | cons a slabs ih => exact fun k => ih _
  cases answer with
  | none => exact List.Subset.refl _
  | some a =>
      simp only [memAllocateNewSlabsChunk, hFold]
      exact List.subset_cons_self ..

theorem addSlabAndTake (hWin : 0 < win) (hLayout : Layout win count h held g) (hNode : n < count)
    (hOrder : order < memHeapSlabOrders) (hUnused : g.unused n ≠ []) :
    Served win count held g h.phys order
      (some (memAllocateFromSlab (memHeapAddSlab h n order) n order).1,
        (memAllocateFromSlab (memHeapAddSlab h n order) n order).2) := by
  obtain ⟨g', hLayout', hCarved, hFree⟩ := hLayout.addSlab hWin hNode hOrder hUnused
  refine (hLayout'.takeObject hNode hOrder hFree).mono hCarved ?_
  rw [memHeapAddSlab_phys]
  exact List.Subset.refl _

theorem allocFromNeighbours (hWin : 0 < win) (hBase : memHeapSlabSize ∣ win)
    (hOrder : order < memHeapSlabOrders) {pmm : Nat → Option Nat}
    (hPhys : ∀ i addr, pmm i = some addr → PhysAnswer win h.phys memHeapChunkSize addr)
    (hLayout : Layout win count h held g) (ids : List Nat) (hIds : ∀ n ∈ ids, n < count) (i : Nat) :
    Served win count held g h.phys order (allocFromNeighbours win order pmm i ids h) := by
  induction ids generalizing i with
  | nil => exact ⟨g, List.Subset.refl _, List.Subset.refl _, hLayout⟩
  | cons n rest ih =>
      have hNode := hIds n (List.mem_cons_self ..)
      have hRest := ih (fun m hm => hIds m (List.mem_cons_of_mem _ hm)) (i + 1)
      simp only [Heap.allocFromNeighbours]
      split_ifs with hFree hUnused
      · refine hLayout.takeObject hNode hOrder fun hNil => hFree ?_
        exact (hLayout.linked.free n hNode order hOrder).eq_nil_iff.mp hNil
      · refine hLayout.addSlabAndTake hWin hNode hOrder fun hNil => hUnused ?_
        exact (hLayout.linked.unused n hNode).eq_nil_iff.mp hNil
      · have hGrown := memAllocateNewSlabsChunk_phys win h n (pmm i)
        rcases hChunk : memAllocateNewSlabsChunk win h n (pmm i) with ⟨ok, h'⟩
        rw [hChunk] at hGrown
        cases ok with
        | false =>
            rw [memAllocateNewSlabsChunk_false hChunk]
            exact hRest
        | true =>
            obtain ⟨addr, hAnswer⟩ := memAllocateNewSlabsChunk_true hChunk
            obtain ⟨g', hLayout', hCarved, hSlabs⟩ :=
              hLayout.newSlabsChunk hWin hBase hNode (hPhys i addr hAnswer)
            rw [← hAnswer, hChunk] at hLayout'
            exact (hLayout'.addSlabAndTake hWin hNode hOrder hSlabs).mono
              (hCarved ▸ List.Subset.refl _) hGrown

end Layout

theorem sizeOrderLoop_spec (size left : Nat) {test result : Nat}
    (hResult : result + left = memHeapSlabOrders) (hTest : test = 2 ^ result) :
    result ≤ sizeOrderLoop size left test result ∧
    sizeOrderLoop size left test result ≤ memHeapSlabOrders ∧
    (sizeOrderLoop size left test result < memHeapSlabOrders →
      size ≤ 2 ^ sizeOrderLoop size left test result) := by
  induction left generalizing test result with
  | zero =>
      simp only [sizeOrderLoop]
      omega
  | succ left ih =>
      simp only [sizeOrderLoop]
      split_ifs with hBig
      · have hNext : test * 2 % 2 ^ 64 = 2 ^ (result + 1) := by
          rw [hTest, ← Nat.pow_succ]
          refine Nat.mod_eq_of_lt (Nat.pow_lt_pow_right (by omega) ?_)
          simp only [memHeapSlabOrders] at hResult
          omega
        obtain ⟨hLe, hMax, hSize⟩ := ih (by omega) hNext
        exact ⟨by omega, hMax, hSize⟩
      · exact ⟨Nat.le_refl _, by omega, fun _ => by omega⟩

theorem memHeapGetSizeOrder_le (size : Nat) :
    memHeapGetSizeOrder size memHeapSlabOrders ≤ memHeapSlabOrders :=
  (sizeOrderLoop_spec _ _ rfl (by omega)).2.1

/-- A block handed out has at least the requested number of bytes. -/
theorem size_le_liveBlock (p : Nat × Nat) : p.2 ≤ (liveBlock p).size := by
  simp only [liveBlock]
  split_ifs with hDirect
  · exact Nat.le_max_right ..
  · have hLt := Nat.lt_of_le_of_ne (memHeapGetSizeOrder_le p.2) hDirect
    have hSize := (sizeOrderLoop_spec (if p.2 < 16 then 16 else p.2) (memHeapSlabOrders - 4)
      rfl (by omega)).2.2 hLt
    simp only [Block.ofOrder]
    refine Nat.le_trans ?_ hSize
    split_ifs <;> omega

/-- Where a live pointer comes from: the page allocator, or a slab of its order. -/
def Placed (g : Ledger) (phys : List Block) (p : Nat × Nat) : Prop :=
  if memHeapGetSizeOrder p.2 memHeapSlabOrders = memHeapSlabOrders then liveBlock p ∈ phys
  else Layout.CarvedFor g (memHeapGetSizeOrder p.2 memHeapSlabOrders) p.1

theorem Placed.mono {g g' : Ledger} {phys phys' : List Block} {p : Nat × Nat}
    (h : Placed g phys p) (hCarved : g.carved ⊆ g'.carved) (hPhys : phys ⊆ phys') :
    Placed g' phys' p := by
  simp only [Placed] at *
  split_ifs at * with hDirect
  · exact hPhys h
  · obtain ⟨⟨owner, hMem⟩, hMod⟩ := h
    exact ⟨⟨owner, hCarved hMem⟩, hMod⟩

/-- The invariant of the heap together with its clients. -/
def Safe (win count : Nat) (s : State) (g : Ledger) : Prop :=
  Layout win count s.toKernelHeap (s.live.map liveBlock) g ∧ ∀ p ∈ s.live, Placed g s.phys p

theorem liveBlock_direct {p : Nat × Nat}
    (h : memHeapGetSizeOrder p.2 memHeapSlabOrders = memHeapSlabOrders) :
    liveBlock p = Block.ofSize p.1 p.2 := by
  simp [liveBlock, h]

theorem liveBlock_small {p : Nat × Nat}
    (h : memHeapGetSizeOrder p.2 memHeapSlabOrders ≠ memHeapSlabOrders) :
    liveBlock p = Block.ofOrder p.1 (memHeapGetSizeOrder p.2 memHeapSlabOrders) := by
  simp [liveBlock, h]

theorem liveBlock_addr (p : Nat × Nat) : (liveBlock p).addr = p.1 := by
  by_cases hDirect : memHeapGetSizeOrder p.2 memHeapSlabOrders = memHeapSlabOrders
  · rw [liveBlock_direct hDirect, Block.ofSize]
  · rw [liveBlock_small hDirect, Block.ofOrder]

theorem safe_init {win count : Nat} {s : State} (h : (system win count).init s) :
    Safe win count s ⟨fun _ _ => [], fun _ => [], []⟩ := by
  obtain ⟨hLive, hPhys, hNodes⟩ := h
  have hPieces : (⟨fun _ _ => [], fun _ => [], []⟩ : Ledger).pieces count = [] := by
    simp [Ledger.pieces, Ledger.freeObjects, Ledger.unusedSlabs, Ledger.headers]
  refine ⟨⟨⟨?_, ?_, by simp⟩, ?_, ?_, ?_, ?_, ?_, ?_, ?_, ?_, fun n => (hNodes n).2⟩, ?_⟩
  · intro n _ order _
    rw [(hNodes n).1]
    exact .nil
  · intro n _
    rw [(hNodes n).1]
    exact .nil
  all_goals simp [hLive, hPhys, hPieces]

section Steps

variable {win count : Nat} {s : State} {g : Ledger}

theorem Safe.alloc (hWin : 0 < win) (hBase : memHeapSlabSize ∣ win) (hSafe : Safe win count s g)
    {size id : Nat} {pmm : Nat → Option Nat} {ptr : Option Nat} {h : KernelHeap}
    (hPhys : ∀ i addr, pmm i = some addr → PhysAnswer win s.phys (physRequest size) addr)
    (hAlloc : memHeapAllocOnBehalf win s.toKernelHeap size id pmm = (ptr, h)) :
    ∃ g', Safe win count ⟨h, (ptr.map (·, size)).toList ++ s.live⟩ g' := by
  obtain ⟨hLayout, hPlaced⟩ := hSafe
  simp only [memHeapAllocOnBehalf] at hAlloc
  split_ifs at hAlloc with hDirect
  · simp only [physRequest, if_pos hDirect] at hPhys
    cases hAnswer : pmm 0 with
    | none =>
        rw [hAnswer] at hAlloc
        obtain ⟨rfl, rfl⟩ := Prod.mk.inj hAlloc
        exact ⟨g, hLayout, hPlaced⟩
    | some res =>
        rw [hAnswer] at hAlloc
        obtain ⟨rfl, rfl⟩ := Prod.mk.inj hAlloc
        have hBlock : liveBlock (win + res, size) = Block.ofSize (win + res) size :=
          liveBlock_direct hDirect
        refine ⟨g, ?_, ?_⟩
        · have hAdded := hLayout.addPhys [Block.ofSize (win + res) size] (hPhys 0 res hAnswer).2
            (Nat.le_add_right ..) (List.pairwise_singleton ..) ?_
          · simpa [hBlock] using hAdded
          · intro c hc
            rw [List.mem_singleton.mp hc]
            exact ⟨Nat.le_refl _, Nat.le_refl _⟩
        · intro p hp
          rcases List.mem_cons.mp hp with rfl | hp
          · rw [Placed, if_pos hDirect, hBlock]
            exact List.mem_cons_self ..
          · exact (hPlaced p hp).mono (List.Subset.refl _) (List.subset_cons_self ..)
  · simp only [physRequest, if_neg hDirect] at hPhys
    have hOrder := Nat.lt_of_le_of_ne (memHeapGetSizeOrder_le size) hDirect
    have hServed := hLayout.allocFromNeighbours hWin hBase hOrder hPhys _ (hLayout.neighbours id) 0
    rw [hAlloc] at hServed
    obtain ⟨g', hCarved, hPages, hOutcome⟩ := hServed
    have hOld : ∀ p ∈ s.live, Placed g' h.phys p := fun p hp => (hPlaced p hp).mono hCarved hPages
    cases ptr with
    | none => exact ⟨g', hOutcome, hOld⟩
    | some a =>
        refine ⟨g', ?_, ?_⟩
        · have hBlock : liveBlock (a, size) = Block.ofOrder a _ := liveBlock_small hDirect
          simpa [hBlock] using hOutcome.1
        · intro p hp
          rcases List.mem_cons.mp hp with rfl | hp
          · rw [Placed, if_neg hDirect]
            exact hOutcome.2
          · exact hOld p hp

/-- Giving pages back takes one block out of what the heap has. -/
theorem Safe.freePages {ptr requested : Nat} (hSafe : Safe win count s g)
    (hLive : (ptr, requested) ∈ s.live)
    (hDirect : memHeapGetSizeOrder requested memHeapSlabOrders = memHeapSlabOrders) :
    Safe win count ⟨memPhysFree win s.toKernelHeap (ptr - win), s.live.erase (ptr, requested)⟩ g := by
  obtain ⟨hLayout, hPlaced⟩ := hSafe
  have hPage : liveBlock (ptr, requested) ∈ s.phys := by
    have hAt := hPlaced _ hLive
    rwa [Placed, if_pos hDirect] at hAt
  have hAddr : win + (ptr - win) = (liveBlock (ptr, requested)).addr := by
    have hWindow := hLayout.phys_window _ hPage
    rw [liveBlock_addr] at *
    simp only at *
    omega
  have hHeld := hLayout.perm ((List.perm_cons_erase hLive).map liveBlock)
  have hFar := (List.pairwise_cons.mp hHeld.apart).1
  have hKept : ∀ p ∈ s.phys, p.addr ≠ win + (ptr - win) →
      p ∈ (memPhysFree win s.toKernelHeap (ptr - win)).phys := by
    intro p hp hNe
    exact List.mem_filter.mpr ⟨hp, by simpa using hNe⟩
  have hElse : ∀ p ∈ s.phys, p ≠ liveBlock (ptr, requested) → p.addr ≠ win + (ptr - win) := by
    intro p hp hNe
    rw [hAddr]
    exact (hLayout.phys_apart.forall hp hPage hNe).addr_ne
  refine ⟨?_, ?_⟩
  · refine { hLayout with
      linked := hLayout.linked.write (fun _ => rfl) fun _ _ _ _ => rfl
      apart := (List.pairwise_cons.mp hHeld.apart).2
      inside := ?_
      phys_apart := hLayout.phys_apart.filter _
      phys_window := fun p hp => hLayout.phys_window p (List.mem_of_mem_filter hp) }
    intro b hb
    obtain ⟨p, hp, hInside⟩ := hHeld.inside b (List.mem_cons_of_mem _ hb)
    refine ⟨p, hKept p hp (hElse p hp ?_), hInside⟩
    intro hEq
    exact (hEq ▸ hInside).not_apart (hFar b hb).symm
  · intro p hp
    have hAt := hPlaced p (List.mem_of_mem_erase hp)
    simp only [Placed] at *
    split_ifs at * with hBig
    · refine hKept _ hAt (hElse _ hAt fun hEq => ?_)
      have hOther := hFar _ (List.mem_append_left _ (List.mem_map_of_mem hp))
      exact hOther.addr_ne (by rw [hEq])
    · exact hAt

/-- The header below a live object names a node, and the object goes to the free
list that this node has for its order. -/
theorem Safe.freeObject (hWin : 0 < win) {ptr requested : Nat} (hSafe : Safe win count s g)
    (hLive : (ptr, requested) ∈ s.live) {order : Nat}
    (hOrder : memHeapGetSizeOrder requested memHeapSlabOrders = order)
    (hSmall : order ≠ memHeapSlabOrders) :
    let owner := s.mem (alignDown ptr memHeapSlabSize)
    owner < count ∧ ⟨alignDown ptr memHeapSlabSize, owner, order⟩ ∈ g.carved ∧
    Safe win count ⟨pushObject owner order s.toKernelHeap ptr, s.live.erase (ptr, requested)⟩
      (g.setFree owner order (ptr :: g.free owner order)) := by
  obtain ⟨hLayout, hPlaced⟩ := hSafe
  have hDirect : memHeapGetSizeOrder requested memHeapSlabOrders ≠ memHeapSlabOrders := hOrder ▸ hSmall
  have hAt := hPlaced _ hLive
  rw [Placed, if_neg hDirect, hOrder] at hAt
  obtain ⟨⟨owner, hCarved⟩, hMod⟩ := hAt
  have hOwner : s.mem (alignDown ptr memHeapSlabSize) = owner := hLayout.linked.owner _ hCarved
  rw [hOwner]
  have hNode : owner < count := hLayout.carved_node _ hCarved
  have hLt : order < memHeapSlabOrders :=
    Nat.lt_of_le_of_ne (hOrder ▸ memHeapGetSizeOrder_le requested) hSmall
  have hHeld := hLayout.perm ((List.perm_cons_erase hLive).map liveBlock)
  have hBlock : liveBlock (ptr, requested) = Block.ofOrder ptr order := hOrder ▸ liveBlock_small hDirect
  rw [List.map_cons, hBlock] at hHeld
  refine ⟨hNode, hCarved, hHeld.pushObject hWin hNode hLt hCarved hMod, fun p hp => ?_⟩
  exact (hPlaced p (List.mem_of_mem_erase hp)).mono (List.Subset.refl _) (List.Subset.refl _)

theorem Safe.store (hSafe : Safe win count s g) {mem : Nat → Nat}
    (hSame : ∀ a, (∃ b ∈ s.phys, b.Contains a) →
      (∀ p ∈ s.live, ¬(liveBlock p).Contains a) → mem a = s.mem a) :
    Safe win count { s with mem := mem } g := by
  obtain ⟨hLayout, hPlaced⟩ := hSafe
  refine ⟨{ hLayout with linked := hLayout.linked.write (fun _ => rfl) fun b hb a ha => ?_ }, hPlaced⟩
  obtain ⟨p, hp, hInside⟩ := hLayout.inside b (List.mem_append_right _ hb)
  refine hSame a ⟨p, hp, hInside.contains ha⟩ fun q hq => ?_
  have hApart := (List.pairwise_append.mp hLayout.apart).2.2 _ (List.mem_map_of_mem hq) b hb
  exact hApart.symm.not_contains ha

theorem Safe.step (hWin : 0 < win) (hBase : memHeapSlabSize ∣ win) (hSafe : Safe win count s g)
    {event : Event} {s' : State} (hStep : Step win s event s') : ∃ g', Safe win count s' g' := by
  cases hStep with
  | alloc hPhys hAlloc => exact hSafe.alloc hWin hBase hPhys hAlloc
  | @free ptr requested size hLive hClass =>
      simp only [memHeapFree, hClass]
      split_ifs with hDirect
      · exact ⟨g, hSafe.freePages hLive hDirect⟩
      · exact ⟨_, (hSafe.freeObject hWin hLive rfl hDirect).2.2⟩
  | store hSame => exact ⟨g, hSafe.store hSame⟩

end Steps

theorem safe_run {win count : Nat} (hWin : 0 < win) (hBase : memHeapSlabSize ∣ win)
    {trace : List Event} {s : State} (run : (system win count).Execution trace s) :
    ∃ g, Safe win count s g := by
  induction run with
  | start h => exact ⟨_, safe_init h⟩
  | step prior last ih =>
      obtain ⟨g, hSafe⟩ := ih
      exact hSafe.step hWin hBase last

/-- An aligned object does not reach over the end of its slab. -/
theorem inside_slab {order a : Nat} (hOrder : order < memHeapSlabOrders) (hAligned : a % 2 ^ order = 0) :
    (Block.ofOrder a order).Inside (Block.ofSize (alignDown a memHeapSlabSize) memHeapSlabSize) := by
  have hLe : alignDown a memHeapSlabSize ≤ a := Nat.div_mul_le_self _ _
  have hLt : a < alignDown a memHeapSlabSize + memHeapSlabSize := by
    simp only [alignDown, memHeapSlabSize]
    omega
  have hStep := slabOrder_dvd hOrder
  have hSlab := Nat.dvd_trans hStep (dvd_alignDown a memHeapSlabSize)
  have hEnd := add_le_of_dvd (Nat.dvd_of_mod_eq_zero hAligned) (Nat.dvd_add hSlab hStep) hLt
  refine ⟨hLe, Nat.le_trans hEnd ?_⟩
  simp only [Block.ofSize]
  omega

/-- In every state, what the lists of the heap hold is described by a ledger such
that live blocks, free objects, unused slabs and headers are pairwise apart. Free
objects lie in a slab whose header names their node and which was carved for
their order only, and freeing a small object puts it on the list of its order at
the node that the header of its slab names. -/
theorem heap_blocks_apart {la57 : Bool} {count : Nat} {trace : List Event} {s : State}
    (run : (system (memWbPhysWinBase la57) count).Execution trace s) :
    ∃ g : Ledger,
      Linked count s.toKernelHeap g ∧
      (s.live.map liveBlock ++ g.pieces count).Pairwise Block.Apart ∧
      (∀ p ∈ s.live, p.1 ≠ null ∧ (liveBlock p).addr = p.1 ∧ p.2 ≤ (liveBlock p).size) ∧
      (∀ n < count, ∀ order < memHeapSlabOrders, ∀ a ∈ g.free n order,
        (Block.ofOrder a order).Inside (Block.ofSize (alignDown a memHeapSlabSize) memHeapSlabSize) ∧
        s.mem (alignDown a memHeapSlabSize) = n ∧ a % 2 ^ order = 0 ∧
        ⟨alignDown a memHeapSlabSize, n, order⟩ ∈ g.carved) ∧
      (∀ c ∈ g.carved, ∀ d ∈ g.carved, c.addr = d.addr → c = d) ∧
      ∀ ptr requested size order, (ptr, requested) ∈ s.live →
        memHeapGetSizeOrder size memHeapSlabOrders = order →
        memHeapGetSizeOrder requested memHeapSlabOrders = order → order ≠ memHeapSlabOrders →
        let owner := s.mem (alignDown ptr memHeapSlabSize)
        let after := memHeapFree (memWbPhysWinBase la57) s.toKernelHeap ptr size
        owner < count ∧ ⟨alignDown ptr memHeapSlabSize, owner, order⟩ ∈ g.carved ∧
        Linked count after (g.setFree owner order (ptr :: g.free owner order)) := by
  have hWin : 0 < memWbPhysWinBase la57 := by cases la57 <;> decide
  have hBase : memHeapSlabSize ∣ memWbPhysWinBase la57 := by cases la57 <;> decide
  obtain ⟨g, hSafe⟩ := safe_run hWin hBase run
  have hLayout := hSafe.1
  refine ⟨g, hLayout.linked, hLayout.apart, ?_, ?_, ?_, ?_⟩
  · intro p hp
    have hNe := hLayout.ne_null hWin (List.mem_append_left _ (List.mem_map_of_mem hp))
    rw [liveBlock_addr] at hNe
    exact ⟨hNe, liveBlock_addr p, size_le_liveBlock p⟩
  · intro n hn order ho a ha
    obtain ⟨hCarved, hMod⟩ := hLayout.free_carved n hn order ho a ha
    exact ⟨inside_slab ho hMod, hLayout.linked.owner _ hCarved, hMod, hCarved⟩
  · intro c hc d hd hAddr
    by_contra hNe
    have hHeaders : (g.carved.map fun c => Block.ofSize c.addr memHeapSlabHdrSize).Pairwise
        Block.Apart :=
      (List.pairwise_append.mp (List.pairwise_append.mp (List.pairwise_append.mp
        hLayout.apart).2.1).2.1).2.1
    rw [List.pairwise_map] at hHeaders
    have hSymm : Std.Symm fun c d : Carving => (Block.ofSize c.addr memHeapSlabHdrSize).Apart
        (Block.ofSize d.addr memHeapSlabHdrSize) := ⟨fun _ _ => Block.Apart.symm⟩
    exact (hHeaders.forall hc hd hNe).addr_ne hAddr
  · intro ptr requested size order hLive hSize hOrder hSmall owner after
    obtain ⟨hOwner, hCarved, hFreed⟩ := hSafe.freeObject hWin hLive hOrder hSmall
    refine ⟨hOwner, hCarved, ?_⟩
    have hAfter : after = pushObject owner order s.toKernelHeap ptr := by
      simp only [after, memHeapFree, hSize, if_neg hSmall, owner]
    rw [hAfter]
    exact hFreed.1.linked

/-- Two nodes; the first request takes a chunk that starts one page into a slab,
and its object is freed again. -/
theorem heap_blocks_apart_one_object :
    ∃ s ptr, (system (memWbPhysWinBase false) 2).Execution
        [.alloc 2000 1 (some ptr), .free ptr 1500] s ∧ s.live = [] ∧
      ptr = memWbPhysWinBase false + 4192256 ∧
      ∃ g : Ledger, Linked 2 s.toKernelHeap g ∧ (g.pieces 2).Pairwise Block.Apart := by
  let nodes : Nat → NumaNode := fun _ => ⟨[1, 0], ⟨fun _ => null, null⟩⟩
  let s₀ : State := ⟨⟨nodes, fun _ => 0, []⟩, []⟩
  let pmm : Nat → Option Nat := fun _ => some 4096
  let ptr := memWbPhysWinBase false + 4192256
  let outcome := memHeapAllocOnBehalf (memWbPhysWinBase false) s₀.toKernelHeap 2000 1 pmm
  let s₁ : State := ⟨outcome.2, [(ptr, 2000)]⟩
  have hPtr : outcome.1 = some ptr := by decide +kernel
  have hAlloc : memHeapAllocOnBehalf (memWbPhysWinBase false) s₀.toKernelHeap 2000 1 pmm =
      (some ptr, outcome.2) := Prod.ext hPtr (by dsimp only [outcome])
  have first : Step (memWbPhysWinBase false) s₀ (.alloc 2000 1 (some ptr)) s₁ := by
    have hPhys : ∀ i addr, pmm i = some addr →
        PhysAnswer (memWbPhysWinBase false) s₀.phys (physRequest 2000) addr := by
      intro i addr hAnswer
      cases hAnswer
      exact ⟨rfl, by simp [s₀]⟩
    exact Step.alloc hPhys hAlloc
  have hStart : (system (memWbPhysWinBase false) 2).init s₀ := by
    refine ⟨rfl, rfl, fun id => ⟨rfl, ?_⟩⟩
    simp [s₀, nodes]
  have second : Step (memWbPhysWinBase false) s₁ (.free ptr 1500)
      ⟨memHeapFree (memWbPhysWinBase false) s₁.toKernelHeap ptr 1500, s₁.live.erase (ptr, 2000)⟩ :=
    Step.free (List.mem_cons_self ..) rfl
  have run := (System.Execution.start hStart |>.step first).step second
  obtain ⟨g, hLinked, hApart, -⟩ := heap_blocks_apart run
  refine ⟨_, ptr, run, by simp [s₁], rfl, g, hLinked, ?_⟩
  exact (List.pairwise_append.mp hApart).2.1

end Ricerca.Heap
