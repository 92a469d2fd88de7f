import Mathlib.Data.List.Dedup
import Ricerca.Sys.Numa

/-! The neighbour lists that `numa_init` makes. A list is sorted by distance and starts with the node
itself; but lists are only made for nodes whose ids are below the number of nodes. -/
namespace Ricerca.Numa

open Ricerca.Foundation Ricerca.Foundation.SelectionSort Ricerca.Acpi

section Distances

variable {slit : Slit} {i j : Nat}

theorem allM_some_true {α : Type} {p : α → Option Bool} {l : List α} (h : l.allM p = some true) :
    ∀ a ∈ l, p a = some true := by
  induction l with
  | nil => exact List.forall_mem_nil _
  | cons a l ih =>
      rw [List.allM_cons] at h
      cases hFirst : p a with
      | none => simp [hFirst] at h
      | some b =>
          cases b with
          | false => simp [hFirst] at h
          | true =>
              simp only [hFirst, Option.bind_eq_bind, Option.bind_some] at h
              exact List.forall_mem_cons.mpr ⟨hFirst, ih h⟩

/-- A node is at distance 10 from itself. -/
theorem validateLength_self (h : validateLength slit i i = some true) :
    slit.lengths (slit.index i i) = 10 := by
  by_contra hNe
  simp [validateLength, hNe] at h

/-- Other nodes are further away. -/
theorem validateLength_ne (h : validateLength slit i j = some true) (hNe : i ≠ j) :
    10 < slit.lengths (slit.index i j) := by
  by_contra hLe
  simp [validateLength, hNe, UInt8.not_lt.mp hLe] at h

/-- The check of the SLIT looks at every pair of localities. -/
theorem acpiValidateSlit_spec (h : acpiValidateSlit slit = some true) (hi : i < slit.localities)
    (hj : j < slit.localities) : validateLength slit i j = some true :=
  allM_some_true (allM_some_true h i (List.mem_range.mpr hi)) j (List.mem_range.mpr hj)

/-- There is no table, or it was accepted and has these nodes. -/
def Accepted (slit : Option Slit) (ids : List Nat) : Prop :=
  ∀ table, slit = some table →
    acpiValidateSlit table = some true ∧ ∀ id ∈ ids, id < table.localities

/-- No other node is as near as the node itself. -/
theorem Accepted.distance_lt {slit : Option Slit} {ids : List Nat} (h : Accepted slit ids)
    (hi : i ∈ ids) (hj : j ∈ ids) (hNe : j ≠ i) :
    acpiNumaGetDistance slit i i < acpiNumaGetDistance slit i j := by
  cases slit with
  | none => simp [acpiNumaGetDistance, Ne.symm hNe]
  | some table =>
      obtain ⟨hValid, hBelow⟩ := h table rfl
      have hSelf : table.lengths (table.index i i) = 10 :=
        validateLength_self (acpiValidateSlit_spec hValid (hBelow i hi) (hBelow i hi))
      have hOther : 10 < table.lengths (table.index i j) :=
        validateLength_ne (acpiValidateSlit_spec hValid (hBelow i hi) (hBelow j hj)) (Ne.symm hNe)
      rw [acpiNumaGetDistance, acpiNumaGetDistance, hSelf]
      exact UInt8.lt_iff_toNat_lt.mp hOther

end Distances

section Lists

variable {slit : Option Slit} {junk : Nat → Nat} {s : State} {id n : Nat}

theorem mem_ids : id ∈ s.ids ↔ id < s.size ∧ (s.nodes id).initialized = true := by
  rw [State.ids, List.mem_filter, List.mem_range]

theorem nodup_ids (s : State) : s.ids.Nodup := List.nodup_range.filter _

/-- The array of the nodes, and the next index. -/
theorem collectNodes_spec (nodes : Nat → NumaNode) (junk : Nat → Nat) (i : Nat) :
    contents (collectNodes nodes junk i).2 (collectNodes nodes junk i).1 =
      (List.range i).filter fun n => (nodes n).initialized := by
  induction i with
  | zero => rfl
  | succ i ih =>
      rw [collectNodes, List.range_succ, List.filter_append, ← ih]
      split_ifs with hInit
      · rw [contents_update, List.filter_singleton, hInit]
        rfl
      · rw [List.filter_singleton, eq_false_of_ne_true hInit]
        exact (List.append_nil _).symm

/-- `numa_nodes_count` is the number of the nodes that are initialised. -/
def Counted (s : State) : Prop := s.count = s.ids.length

theorem Counted.collected (h : Counted s) (junk : Nat → Nat) :
    contents s.count (collectNodes s.nodes junk s.size).1 = s.ids := by
  have hAll := collectNodes_spec s.nodes junk s.size
  have hIndex : (collectNodes s.nodes junk s.size).2 = s.count := by
    rw [h, ← length_contents (collectNodes s.nodes junk s.size).2
      (collectNodes s.nodes junk s.size).1, hAll]
    rfl
  rw [← hIndex]
  exact hAll

/-- The new neighbours of a node. -/
theorem neighbours_self (slit : Option Slit) (junk : Nat → Nat) (s : State) (id : Nat) :
    ((numaInitNeighbourList slit junk s id).nodes id).neighbours =
      some (sorted (acpiNumaGetDistance slit id) s.count (collectNodes s.nodes junk s.size).1) := by
  rw [numaInitNeighbourList]
  dsimp only
  rw [Function.update_self]

theorem neighbours_other (slit : Option Slit) (junk : Nat → Nat) (s : State) (hNe : n ≠ id) :
    (numaInitNeighbourList slit junk s id).nodes n = s.nodes n := Function.update_of_ne hNe _ _

/-- Every node is in the list once. -/
theorem Counted.perm (h : Counted s) (key : Nat → Nat) (junk : Nat → Nat) :
    (sorted key s.count (collectNodes s.nodes junk s.size).1).Perm s.ids := by
  have hPerm := sorted_perm key s.count (collectNodes s.nodes junk s.size).1
  rw [h.collected junk] at hPerm
  exact hPerm

/-- A neighbour list has all nodes, the nearest ones first, and the node itself before the others. -/
theorem neighbours_sorted (hCount : Counted s) (hSlit : Accepted slit s.ids) (hId : id < s.size)
    (hInit : (s.nodes id).initialized = true) :
    ∃ l, ((numaInitNeighbourList slit junk s id).nodes id).neighbours = some l ∧
      l.length = s.count ∧ l.Perm s.ids ∧
      (l.Pairwise fun a b => acpiNumaGetDistance slit id a ≤ acpiNumaGetDistance slit id b) ∧
      l.head? = some id := by
  have hPerm := hCount.perm (acpiNumaGetDistance slit id) junk
  have hSorted := sorted_pairwise (acpiNumaGetDistance slit id) s.count
    (collectNodes s.nodes junk s.size).1
  have hSelf : id ∈ s.ids := mem_ids.mpr ⟨hId, hInit⟩
  refine ⟨_, neighbours_self slit junk s id, hPerm.length_eq.trans hCount.symm, hPerm, hSorted, ?_⟩
  apply head_of_pairwise hSorted (hPerm.mem_iff.mpr hSelf)
  intro other hOther hNe
  exact hSlit.distance_lt hSelf (hPerm.mem_iff.mp hOther) hNe

/-- A SLIT of four localities. -/
def exampleSlit : Slit where
  localities := 4
  lengths := fun i => [10, 31, 21, 25, 31, 10, 21, 40, 21, 21, 10, 21, 25, 40, 21, 10].getD i 0

/-- Three nodes; the third entry of the array is not used. -/
def exampleNodes : State := ⟨fun id => ⟨id != 2, none⟩, 3, 4⟩

/-- The nodes in the order of the distances from the last one. -/
theorem neighbours_sorted_three : ∃ l,
    ((numaInitNeighbourList (some exampleSlit) (fun _ => 77) exampleNodes 3).nodes 3).neighbours =
      some l ∧ l.length = 3 ∧ l.Perm [0, 1, 3] ∧
      (l.Pairwise fun a b => acpiNumaGetDistance (some exampleSlit) 3 a ≤
        acpiNumaGetDistance (some exampleSlit) 3 b) ∧ l.head? = some 3 := by
  have hAccepted : Accepted (some exampleSlit) exampleNodes.ids := by
    intro table hTable
    obtain rfl := Option.some.inj hTable
    decide
  exact neighbours_sorted (s := exampleNodes) (rfl : exampleNodes.count = _) hAccepted
    (by decide) rfl

/-- The list of a node is there, with all nodes, and the allocators can read it. -/
def Filled (s : State) (id : Nat) : Prop :=
  ∃ l, (s.nodes id).neighbours = some l ∧ l.length = s.count ∧ l.Perm s.ids ∧
    neighboursRead s id = some l

/-- Reading the first entries of a list. -/
theorem mapM_getElem (l : List Nat) {k : Nat} (hk : k ≤ l.length) :
    (List.range k).mapM (fun i => l[i]?) = some (l.take k) := by
  induction k with
  | zero => rfl
  | succ k ih =>
      rw [List.range_succ, List.mapM_append, ih (Nat.le_of_succ_le hk), List.take_succ_eq_append_getElem hk,
        List.mapM_cons, List.mapM_nil, List.getElem?_eq_getElem hk]
      rfl

theorem neighboursRead_eq {l : List Nat} (hList : (s.nodes id).neighbours = some l)
    (hLength : l.length = s.count) : neighboursRead s id = some l := by
  rw [neighboursRead, hList, ← hLength]
  exact (mapM_getElem l le_rfl).trans (congrArg some (List.take_length))

/-- Making a list keeps which nodes are initialised. -/
theorem initialized_numaInitNeighbourList (slit : Option Slit) (junk : Nat → Nat) (s : State)
    (id n : Nat) :
    ((numaInitNeighbourList slit junk s id).nodes n).initialized = (s.nodes n).initialized := by
  rcases eq_or_ne n id with rfl | hNe
  · rw [numaInitNeighbourList]
    dsimp only
    rw [Function.update_self]
  · rw [neighbours_other slit junk s hNe]

theorem ids_numaInitNeighbourList (slit : Option Slit) (junk : Nat → Nat) (s : State) (id : Nat) :
    (numaInitNeighbourList slit junk s id).ids = s.ids := by
  apply List.filter_congr
  intro n _
  exact initialized_numaInitNeighbourList slit junk s id n

theorem Filled.self (hCount : Counted s) (slit : Option Slit) (junk : Nat → Nat) (id : Nat) :
    Filled (numaInitNeighbourList slit junk s id) id := by
  have hPerm := hCount.perm (acpiNumaGetDistance slit id) junk
  have hList := neighbours_self slit junk s id
  have hLength := hPerm.length_eq.trans hCount.symm
  rw [← ids_numaInitNeighbourList slit junk s id] at hPerm
  exact ⟨_, hList, hLength, hPerm, neighboursRead_eq hList hLength⟩

/-- The lists of other nodes stay. -/
theorem Filled.other (h : Filled s n) (slit : Option Slit) (junk : Nat → Nat) (hNe : n ≠ id) :
    Filled (numaInitNeighbourList slit junk s id) n := by
  obtain ⟨l, hList, hLength, hPerm, -⟩ := h
  rw [← neighbours_other slit junk s hNe] at hList
  rw [← ids_numaInitNeighbourList slit junk s id] at hPerm
  exact ⟨l, hList, hLength, hPerm, neighboursRead_eq hList hLength⟩

/-- What the loop over the neighbour lists has come to before round `i`. -/
structure ListsBefore (s s' : State) (i : Nat) : Prop where
  size : s'.size = s.size
  count : s'.count = s.count
  initialized : ∀ n, (s'.nodes n).initialized = (s.nodes n).initialized
  filled : ∀ n, n < i → (s.nodes n).initialized = true → Filled s' n
  rest : ∀ n, i ≤ n → (s'.nodes n).neighbours = (s.nodes n).neighbours

theorem ListsBefore.ids {s' : State} {i : Nat} (h : ListsBefore s s' i) : s'.ids = s.ids := by
  rw [State.ids, h.size]
  apply List.filter_congr
  intro n _
  exact h.initialized n

theorem ListsBefore.step {s' : State} {i : Nat} (h : ListsBefore s s' i) (hCount : Counted s)
    (slit : Option Slit) (junk : Nat → Nat) (hInit : (s'.nodes i).initialized = true) :
    ListsBefore s (numaInitNeighbourList slit junk s' i) (i + 1) := by
  have hCounted : Counted s' := by
    rw [Counted, h.count, h.ids]
    exact hCount
  constructor
  case size => exact h.size
  case count => exact h.count
  case initialized =>
    intro n
    exact (initialized_numaInitNeighbourList slit junk s' i n).trans (h.initialized n)
  case filled =>
    intro n hn hNode
    rcases Nat.lt_succ_iff_lt_or_eq.mp hn with hLess | rfl
    · exact (h.filled n hLess hNode).other slit junk hLess.ne
    · exact Filled.self hCounted slit junk n
  case rest =>
    intro n hn
    rw [neighbours_other slit junk s' (Nat.ne_of_gt hn)]
    exact h.rest n (Nat.le_of_succ_le hn)

/-- A node that is not initialised is passed over. -/
theorem ListsBefore.pass {s' : State} {i : Nat} (h : ListsBefore s s' i)
    (hInit : ¬ (s'.nodes i).initialized = true) : ListsBefore s s' (i + 1) := by
  refine ⟨h.size, h.count, h.initialized, ?_, fun n hn => h.rest n (Nat.le_of_succ_le hn)⟩
  intro n hn hNode
  rcases Nat.lt_succ_iff_lt_or_eq.mp hn with hLess | rfl
  · exact h.filled n hLess hNode
  · exact absurd ((h.initialized n).trans hNode) hInit

theorem initNeighbourLists_before (hCount : Counted s) (slit : Option Slit) (junk : Nat → Nat)
    (i : Nat) : ListsBefore s (initNeighbourLists slit junk s i) i := by
  induction i with
  | zero =>
      refine ⟨rfl, rfl, fun _ => rfl, ?_, fun _ _ => rfl⟩
      intro n hn
      exact absurd hn (Nat.not_lt_zero n)
  | succ i ih =>
      rw [initNeighbourLists]
      split_ifs with hInit
      · exact ih.step hCount slit junk hInit
      · exact ih.pass hInit

end Lists

section Marks

variable {s s' s'' : State} {id n : Nat} {ids ids' : List Nat}

/-- Nodes are marked as initialised, and counted. -/
structure Marked (ids : List Nat) (s s' : State) : Prop where
  size : s'.size = s.size
  initialized : ∀ n, (s'.nodes n).initialized = true ↔ n ∈ ids ∨ (s.nodes n).initialized = true
  neighbours : ∀ n, (s'.nodes n).neighbours = (s.nodes n).neighbours
  counted : Counted s → Counted s'

theorem Marked.refl (s : State) : Marked [] s s :=
  ⟨rfl, fun _ => by simp, fun _ => rfl, fun h => h⟩

theorem Marked.trans (h : Marked ids s s') (h' : Marked ids' s' s'') :
    Marked (ids ++ ids') s s'' := by
  refine ⟨h'.size.trans h.size, ?_, fun n => (h'.neighbours n).trans (h.neighbours n),
    fun hCount => h'.counted (h.counted hCount)⟩
  intro n
  rw [h'.initialized, h.initialized, List.mem_append]
  tauto

/-- One more node is among those that are initialised. -/
theorem counted_insert (hCount : Counted s) (hSize : s.size < 2 ^ 32) (hId : id < s.size)
    (hNew : ¬ (s.nodes id).initialized = true) (hSame : s'.size = s.size)
    (hNext : s'.count = (s.count + 1) % 2 ^ 32)
    (hInit : ∀ n, (s'.nodes n).initialized = true ↔ n = id ∨ (s.nodes n).initialized = true) :
    Counted s' := by
  have hNotMem : id ∉ s.ids := fun hMem => hNew (mem_ids.mp hMem).2
  have hNodup : (id :: s.ids).Nodup := List.nodup_cons.mpr ⟨hNotMem, nodup_ids s⟩
  have hPerm : s'.ids.Perm (id :: s.ids) := by
    apply (List.perm_ext_iff_of_nodup (nodup_ids s') hNodup).mpr
    intro n
    rw [mem_ids, List.mem_cons, mem_ids, hSame, hInit]
    constructor
    · rintro ⟨hn, hNode | hNode⟩
      · exact .inl hNode
      · exact .inr ⟨hn, hNode⟩
    · rintro (rfl | ⟨hn, hNode⟩)
      · exact ⟨hId, .inl rfl⟩
      · exact ⟨hn, .inr hNode⟩
  have hBound : (id :: s.ids).length ≤ s.size := by
    rw [← hPerm.length_eq, ← hSame, State.ids]
    exact (List.length_filter_le _ _).trans_eq List.length_range
  rw [List.length_cons, ← hCount] at hBound
  rw [Counted, hNext, hPerm.length_eq, List.length_cons, ← hCount]
  exact Nat.mod_eq_of_lt (hBound.trans_lt hSize)

theorem markNode_marked (hSize : s.size < 2 ^ 32) (hId : id < s.size) :
    Marked [id] s (markNode s id) := by
  rw [markNode]
  split_ifs with hOld
  · refine ⟨rfl, ?_, fun _ => rfl, fun h => h⟩
    intro n
    rw [List.mem_singleton, or_iff_right_of_imp]
    rintro rfl
    exact hOld
  · have hInit : ∀ n, (Function.update s.nodes id { s.nodes id with initialized := true } n).initialized =
        true ↔ n = id ∨ (s.nodes n).initialized = true := by
      intro n
      rw [Function.update_apply]
      split_ifs with hSame
      · simp [hSame]
      · simp [hSame]
    constructor
    case size => rfl
    case initialized =>
      intro n
      rw [List.mem_singleton]
      exact hInit n
    case neighbours =>
      intro n
      dsimp only
      rw [Function.update_apply]
      split_ifs with hSame
      · rw [hSame]
      · rfl
    case counted =>
      intro hCount
      exact counted_insert hCount hSize hId hOld rfl rfl hInit

theorem foldl_markNode (hSize : s.size < 2 ^ 32) (hIds : ∀ id ∈ ids, id < s.size) :
    Marked ids s (ids.foldl markNode s) := by
  induction ids generalizing s with
  | nil => exact Marked.refl s
  | cons id ids ih =>
      obtain ⟨hId, hRest⟩ := List.forall_mem_cons.mp hIds
      have hFirst := markNode_marked hSize hId
      rw [← hFirst.size] at hSize hRest
      exact hFirst.trans (ih hSize hRest)

/-- The search for the greatest id. -/
theorem foldl_greatest (ids : List Nat) (first : Nat) :
    first ≤ ids.foldl (fun max id => if max < id then id else max) first ∧
    (∀ id ∈ ids, id ≤ ids.foldl (fun max id => if max < id then id else max) first) ∧
    (ids.foldl (fun max id => if max < id then id else max) first = first ∨
      ids.foldl (fun max id => if max < id then id else max) first ∈ ids) := by
  induction ids generalizing first with
  | nil => exact ⟨le_rfl, List.forall_mem_nil _, .inl rfl⟩
  | cons id ids ih =>
      obtain ⟨hFirst, hAll, hFrom⟩ := ih (if first < id then id else first)
      rw [List.foldl_cons, List.forall_mem_cons, List.mem_cons]
      split_ifs at hFirst hAll hFrom ⊢ with hLess
      · refine ⟨hLess.le.trans hFirst, ⟨hFirst, hAll⟩, .inr ?_⟩
        exact hFrom
      · refine ⟨hFirst, ⟨(not_lt.mp hLess).trans hFirst, hAll⟩, ?_⟩
        exact hFrom.imp_right .inr

/-- The array has a place for every id. -/
theorem lt_numaNodesUpperBound (hFits : ∀ id ∈ ids, id + 1 < 2 ^ 32) :
    ∀ id ∈ ids, id < numaNodesUpperBound ids := by
  intro id hId
  obtain ⟨-, hAll, hFrom⟩ := foldl_greatest ids 0
  have hGreatest : ids.foldl (fun max id => if max < id then id else max) 0 + 1 < 2 ^ 32 := by
    rcases hFrom with hZero | hMem
    · rw [hZero]
      omega
    · exact hFits _ hMem
  rw [numaNodesUpperBound, Nat.mod_eq_of_lt hGreatest]
  exact Nat.lt_succ_of_le (hAll id hId)

/-- The state before the neighbour lists are made. -/
theorem markNodes_spec (hFits : ∀ id ∈ ids, id + 1 < 2 ^ 32) :
    Counted (markNodes ids) ∧ (∀ n, n ∈ (markNodes ids).ids ↔ n ∈ ids) ∧
      (markNodes ids).count = ids.dedup.length ∧ ∀ n, ((markNodes ids).nodes n).neighbours = none := by
  have hBelow := lt_numaNodesUpperBound hFits
  have hMarked := @foldl_markNode ⟨fun _ => ⟨false, none⟩, 0, numaNodesUpperBound ids⟩ ids
    (Nat.mod_lt _ (by omega)) hBelow
  have hCount : Counted (markNodes ids) := by
    apply hMarked.counted
    rw [Counted, State.ids, List.filter_false, List.length_nil]
  have hIds : ∀ n, n ∈ (markNodes ids).ids ↔ n ∈ ids := by
    intro n
    rw [mem_ids, markNodes, hMarked.initialized, hMarked.size, or_iff_left Bool.false_ne_true,
      and_iff_right_of_imp (hBelow n)]
  have hPerm : (markNodes ids).ids.Perm ids.dedup := by
    apply (List.perm_ext_iff_of_nodup (nodup_ids _) (List.nodup_dedup ids)).mpr
    intro n
    rw [hIds, List.mem_dedup]
  exact ⟨hCount, hIds, hCount.trans hPerm.length_eq, hMarked.neighbours⟩

/-- Every node gets a list exactly if all ids are below the number of nodes. -/
theorem all_filled_iff (slit : Option Slit) (junk : Nat → Nat) (hFits : ∀ id ∈ ids, id + 1 < 2 ^ 32) :
    (∀ id < (numaInit slit junk ids).size, ((numaInit slit junk ids).nodes id).initialized = true →
      Filled (numaInit slit junk ids) id) ↔ ∀ id ∈ ids, id < ids.dedup.length := by
  obtain ⟨hCount, hIds, hNumber, hNone⟩ := markNodes_spec hFits
  have hLists : ListsBefore (markNodes ids) (numaInit slit junk ids) (markNodes ids).count :=
    initNeighbourLists_before hCount slit junk _
  have hNode : ∀ id, id ∈ ids ↔ id < (numaInit slit junk ids).size ∧
      ((numaInit slit junk ids).nodes id).initialized = true := by
    intro id
    rw [← hIds, ← hLists.ids, mem_ids]
  rw [← hNumber]
  constructor
  · intro hAll id hId
    obtain ⟨hSize, hInit⟩ := (hNode id).mp hId
    obtain ⟨l, hList, -⟩ := hAll id hSize hInit
    by_contra hBeyond
    rw [hLists.rest id (not_lt.mp hBeyond), hNone] at hList
    cases hList
  · intro hAll id hSize hInit
    exact hLists.filled id (hAll id ((hNode id).mpr ⟨hSize, hInit⟩))
      ((hLists.initialized id).symm.trans hInit)

/-- Ids without gaps, in any order. -/
theorem all_filled_iff_dense : Filled (numaInit none (fun _ => 77) [2, 0, 1, 0]) 0 ∧
    Filled (numaInit none (fun _ => 77) [2, 0, 1, 0]) 1 ∧
    Filled (numaInit none (fun _ => 77) [2, 0, 1, 0]) 2 := by
  have hFits : ∀ id ∈ [2, 0, 1, 0], id + 1 < 2 ^ 32 := by decide
  have hAll := (all_filled_iff none (fun _ => 77) hFits).mpr (by decide)
  exact ⟨hAll 0 (by decide) rfl, hAll 1 (by decide) rfl,
    hAll 2 (by decide) rfl⟩

/-- An SRAT with memory of the domains 0 and 2. -/
def gapSrat : Table := fun addr =>
  if addr = 4 then 128 else if addr = 48 then 1 else if addr = 49 then 40 else if addr = 76 then 1
  else if addr = 88 then 1 else if addr = 89 then 40 else if addr = 90 then 2
  else if addr = 116 then 1 else 0

/-- The list of the second node is never stored, and the allocators read it all the same. -/
theorem gap_not_filled : enumeratedIds (some gapSrat) 3 3 (0, false) = some [0, 2] ∧
    ((numaInit none (fun _ => 77) [0, 2]).nodes 2).neighbours = none ∧
    neighboursRead (numaInit none (fun _ => 77) [0, 2]) 2 = none ∧
    ¬ (∀ ids : List Nat, (∀ id ∈ ids, id + 1 < 2 ^ 32) →
      ∀ id < (numaInit none (fun _ => 77) ids).size,
        ((numaInit none (fun _ => 77) ids).nodes id).initialized = true →
          Filled (numaInit none (fun _ => 77) ids) id) := by
  have hNone : ((numaInit none (fun _ => 77) [0, 2]).nodes 2).neighbours = none := rfl
  refine ⟨rfl, hNone, rfl, ?_⟩
  intro hAll
  obtain ⟨l, hList, -⟩ := hAll [0, 2] (by decide) 2 (by decide) rfl
  rw [hNone] at hList
  cases hList

end Marks

end Ricerca.Numa
