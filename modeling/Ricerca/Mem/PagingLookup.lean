import Ricerca.Mem.PagingTables

/-! Translation follows the path of an address through the tables. The lookup of an address
changes with the entry in its page of level 1, and with nothing else. -/
namespace Ricerca.Paging

open Ricerca.Foundation

/-- The indices of an address at the `n` highest levels. -/
def indices (lvls : Nat) (vaddr : Word) (n : Nat) : List Nat :=
  (List.range n).map fun i => memPagingGetLvlIndex vaddr (lvls - i)

/-- What an entry of level 1 says. -/
def decode (entry : Word) : Option Translation :=
  if entry &&& flagPresent = 0 then none
  else some (Translation.below ⟨0, true, true, false, false⟩ entry)

/-- The entry of level 1 for an address, along its path. -/
def lookup (lvls : Nat) (memory : Memory) (cr3 vaddr : Word) : Option Translation :=
  (descend (next memory) cr3 (indices lvls vaddr (lvls - 1))).bind fun table =>
    decode (memory (entryAt table (memPagingGetLvlIndex vaddr 1)))

section Walk

variable {memory memory' : Memory} {vaddr : Word}

/-- Only the words that are read matter for the walk. -/
theorem walk_congr {i : Nat} {above : Translation}
    (hSame : ∀ addr ∈ reads memory vaddr i above.frame, memory' addr = memory addr) :
    walk memory' vaddr i above = walk memory vaddr i above := by
  induction i generalizing above with
  | zero => rfl
  | succ i ih =>
      have hEntry := hSame (entryAt above.frame (memPagingGetLvlIndex vaddr (i + 1))) (by
        simp only [reads]
        split_ifs <;> simp)
      simp only [walk, hEntry]
      split_ifs with hAbsent hLarge
      · rfl
      · rfl
      · apply ih
        intro addr hRead
        apply hSame
        simp only [reads]
        rw [if_neg (by tauto)]
        exact List.mem_cons_of_mem _ hRead

theorem reads_congr {i : Nat} {table : Word}
    (hSame : ∀ addr ∈ reads memory vaddr i table, memory' addr = memory addr) :
    reads memory' vaddr i table = reads memory vaddr i table := by
  induction i generalizing table with
  | zero => rfl
  | succ i ih =>
      have hEntry := hSame (entryAt table (memPagingGetLvlIndex vaddr (i + 1))) (by
        simp only [reads]
        split_ifs <;> simp)
      simp only [reads, hEntry]
      split_ifs with hEnd
      · rfl
      · rw [ih]
        intro addr hRead
        apply hSame
        simp only [reads]
        rw [if_neg hEnd]
        exact List.mem_cons_of_mem _ hRead

theorem memsetPage_of_not_inPage {page addr : Word} (h : ¬ InPage page addr) :
    memsetPage memory page addr = memory addr :=
  if_neg h

end Walk

section Indices

variable {lvls : Nat} {vaddr vaddr' : Word}

theorem indices_length (n : Nat) : (indices lvls vaddr n).length = n := by
  simp [indices]

theorem indices_succ (n : Nat) : indices lvls vaddr (n + 1) =
    indices lvls vaddr n ++ [memPagingGetLvlIndex vaddr (lvls - n)] := by
  simp [indices, List.range_succ]

/-- The table of level `i + 1` is behind an entry of level `i + 2`. -/
theorem indices_level (vaddr : Word) {i : Nat} (hi : i + 2 ≤ lvls) :
    indices lvls vaddr (lvls - (i + 1)) =
      indices lvls vaddr (lvls - (i + 2)) ++ [memPagingGetLvlIndex vaddr (i + 2)] := by
  have hDepth : lvls - (i + 1) = lvls - (i + 2) + 1 := by omega
  have hLevel : lvls - (lvls - (i + 2)) = i + 2 := by omega
  rw [hDepth, indices_succ, hLevel]

theorem indices_prefix (lvls : Nat) (vaddr : Word) {m n : Nat} (h : m ≤ n) :
    indices lvls vaddr m <+: indices lvls vaddr n := by
  induction n, h using Nat.le_induction with
  | base => exact List.prefix_refl _
  | succ n _ ih =>
      rw [indices_succ]
      exact ih.trans (List.prefix_append _ _)

/-- The path of an address of the lower half stays in the lower half. -/
theorem LowerPage.path {roots : List Word} {cr3 : Word} (h : LowerPage lvls vaddr)
    (hRoot : cr3 ∈ roots) {n : Nat} (hShort : n < lvls) :
    Path lvls roots cr3 (indices lvls vaddr n) := by
  constructor
  case root => exact hRoot
  case short =>
    rw [indices_length]
    exact hShort
  case bound =>
    intro index hIndex
    obtain ⟨i, -, rfl⟩ := List.mem_map.mp hIndex
    exact memPagingGetLvlIndex_lt vaddr (lvls - i)
  case lower =>
    intro index hIndex
    cases n with
    | zero => simp [indices] at hIndex
    | succ n =>
        have hFirst : index = memPagingGetLvlIndex vaddr lvls := by
          simpa [indices, List.range_succ_eq_map, eq_comm] using hIndex
        have hDiv : vaddr.toNat / 2 ^ (9 * lvls + 3) < 2 ^ 8 := by
          have hExponent : 8 + (9 * lvls + 3) = 9 * lvls + 11 := by omega
          rw [Nat.div_lt_iff_lt_mul (Nat.two_pow_pos _), ← Nat.pow_add, hExponent]
          exact h.lower
        rw [hFirst, memPagingGetLvlIndex_eq]
        exact (Nat.mod_le _ _).trans_lt hDiv

/-- The pages that the levels up to `n` tell apart. -/
theorem page_mod_of_levels (n : Nat)
    (hSame : ∀ i < n, memPagingGetLvlIndex vaddr (i + 1) = memPagingGetLvlIndex vaddr' (i + 1)) :
    vaddr.toNat / 4096 % 512 ^ n = vaddr'.toNat / 4096 % 512 ^ n := by
  induction n with
  | zero => simp [Nat.mod_one]
  | succ n ih =>
      have hBelow := ih fun i hi => hSame i (by omega)
      have hLast := hSame n (by omega)
      have hShift : ∀ a : Nat, a / 2 ^ (9 * (n + 1) + 3) = a / 4096 / 512 ^ n := by
        intro a
        have hExponent : 9 * (n + 1) + 3 = 12 + 9 * n := by omega
        rw [Nat.div_div_eq_div_mul, hExponent, Nat.pow_add, Nat.pow_mul]
      rw [memPagingGetLvlIndex_eq, memPagingGetLvlIndex_eq, hShift, hShift] at hLast
      rw [Nat.pow_succ, Nat.mod_mul, Nat.mod_mul, hBelow, hLast]

/-- Pages of the lower half with the same path and the same index at level 1 are the same. -/
theorem LowerPage.eq_of_indices (h : LowerPage lvls vaddr) (h' : LowerPage lvls vaddr')
    (hPath : indices lvls vaddr (lvls - 1) = indices lvls vaddr' (lvls - 1))
    (hLast : memPagingGetLvlIndex vaddr 1 = memPagingGetLvlIndex vaddr' 1) : vaddr = vaddr' := by
  have hLevels : ∀ i < lvls, memPagingGetLvlIndex vaddr (i + 1) =
      memPagingGetLvlIndex vaddr' (i + 1) := by
    intro i hi
    rcases Nat.eq_zero_or_pos i with rfl | hPos
    · exact hLast
    · have hAt := List.map_inj_left.mp hPath (lvls - (i + 1)) (by
        rw [List.mem_range]
        omega)
      have hLevel : lvls - (lvls - (i + 1)) = i + 1 := by omega
      rwa [hLevel] at hAt
  have hMod := page_mod_of_levels lvls hLevels
  have hLt : ∀ a : Word, LowerPage lvls a → a.toNat / 4096 < 512 ^ lvls := by
    intro a ha
    rw [Nat.div_lt_iff_lt_mul (by omega)]
    calc a.toNat < 2 ^ (9 * lvls + 11) := ha.lower
      _ ≤ 2 ^ (9 * lvls + 12) := Nat.pow_le_pow_right (by omega) (by omega)
      _ = 512 ^ lvls * 4096 := by rw [Nat.pow_add, Nat.pow_mul]
  rw [Nat.mod_eq_of_lt (hLt _ h), Nat.mod_eq_of_lt (hLt _ h')] at hMod
  have hAligned := h.aligned
  have hAligned' := h'.aligned
  exact BitVec.eq_of_toNat_eq (by omega)

end Indices

section Lookup

variable {κ : Type} {lvls : Nat} {memory memory' : Memory} {roots : List Word} {cache : κ → Word}
  {cr3 vaddr table : Word}

/-- From a table on the path of an address, the walk ends where the path does. -/
theorem Valid.walk_eq (h : Valid lvls memory roots cache) (hRoot : cr3 ∈ roots)
    (hVaddr : LowerPage lvls vaddr) {i : Nat} (hi : i + 1 ≤ lvls) {page : Translation}
    (hPage : page = ⟨table, true, true, false, false⟩)
    (hTable : descend (next memory) cr3 (indices lvls vaddr (lvls - (i + 1))) = some table) :
    walk memory vaddr (i + 1) page = lookup lvls memory cr3 vaddr := by
  subst hPage
  induction i generalizing table with
  | zero =>
      rw [lookup, hTable]
      simp [walk, decode, Translation.below]
  | succ i ih =>
      have hLonger := indices_level vaddr hi
      have hPath : Path lvls roots cr3 (indices lvls vaddr (lvls - (i + 1 + 1)) ++
          [memPagingGetLvlIndex vaddr (i + 2)]) := by
        rw [← hLonger]
        exact hVaddr.path hRoot (by omega)
      have hBelow : descend (next memory) cr3 (indices lvls vaddr (lvls - (i + 1))) =
          next memory table (memPagingGetLvlIndex vaddr (i + 2)) := by
        rw [hLonger, descend_snoc, hTable]
        rfl
      rcases h.entries cr3 _ _ table hPath hTable with hZero | ⟨page, hPage, -, hEntry⟩
      · obtain ⟨rest, hRest⟩ := indices_prefix lvls vaddr
          (show lvls - (i + 1) ≤ lvls - 1 by omega)
        rw [lookup, ← hRest, descend_append, hBelow]
        simp [walk, next, hZero]
      · rw [next_of_entry hPage hEntry] at hBelow
        have hPresent : (page ||| intermPerms) &&& flagPresent ≠ 0 := by
          rw [hPage.or_and rfl]
          decide
        have hSmall : (page ||| intermPerms) &&& flagLarge = 0 := by
          rw [hPage.or_and rfl]
          rfl
        have hAll : Translation.below ⟨table, true, true, false, false⟩ (page ||| intermPerms) =
            ⟨page, true, true, false, false⟩ := by
          simp only [Translation.below]
          rw [hPage.or_flags rfl, hPage.or_and rfl, hPage.or_and rfl,
            hPage.or_and rfl]
          simp only [Translation.mk.injEq, true_and]
          decide
        rw [← ih (by omega) hBelow]
        conv_lhs => rw [walk]
        simp only [hEntry, hPresent, hSmall, if_false, ne_eq, not_true_eq_false, and_false, hAll]

theorem Valid.translate_eq (h : Valid lvls memory roots cache) (hLvls : 2 ≤ lvls)
    (hRoot : cr3 ∈ roots) (hVaddr : LowerPage lvls vaddr) :
    translate lvls memory cr3 vaddr = lookup lvls memory cr3 vaddr := by
  obtain ⟨i, rfl⟩ : ∃ i, lvls = i + 1 := ⟨lvls - 1, by omega⟩
  refine h.walk_eq hRoot hVaddr (Nat.le_refl _) rfl ?_
  simp [indices]

/-- The path of an address ends at a table of level 1, the others do not. -/
theorem Valid.ne_leaf (h : Valid lvls memory roots cache) (hVaddr : LowerPage lvls vaddr)
    (hRoot : cr3 ∈ roots) {cr3' table' : Word} {path : List Nat}
    (hTable : descend (next memory) cr3 (indices lvls vaddr (lvls - 1)) = some table)
    (hPath : Path lvls roots cr3' path) (hTable' : descend (next memory) cr3' path = some table')
    (hShort : path.length + 1 < lvls) : table' ≠ table := by
  rintro rfl
  obtain ⟨-, rfl⟩ := h.unshared.once cr3' path cr3 _ table' hPath
    (hVaddr.path hRoot (by omega)) hTable' hTable
  rw [indices_length] at hShort
  omega

/-- Lookups and the upper halves of the roots stay as they are. -/
structure Keeps (lvls : Nat) (roots : List Word) (memory memory' : Memory) : Prop where
  lookups : ∀ cr3 ∈ roots, ∀ vaddr, LowerPage lvls vaddr →
    lookup lvls memory' cr3 vaddr = lookup lvls memory cr3 vaddr
  upper : ∀ cr3 ∈ roots, ∀ index, 256 ≤ index → index < 512 →
    memory' (entryAt cr3 index) = memory (entryAt cr3 index)

theorem Keeps.refl : Keeps lvls roots memory memory :=
  ⟨fun _ _ _ _ => rfl, fun _ _ _ _ _ => rfl⟩

theorem Keeps.trans {memory'' : Memory} (h : Keeps lvls roots memory memory')
    (h' : Keeps lvls roots memory' memory'') : Keeps lvls roots memory memory'' where
  lookups := fun cr3 hRoot vaddr hVaddr =>
    (h'.lookups cr3 hRoot vaddr hVaddr).trans (h.lookups cr3 hRoot vaddr hVaddr)
  upper := fun cr3 hRoot index hUpper hIndex =>
    (h'.upper cr3 hRoot index hUpper hIndex).trans (h.upper cr3 hRoot index hUpper hIndex)

/-- A new table is empty, so nothing is found behind it. -/
theorem Valid.attach_keeps (h : Valid lvls memory roots cache) {path : List Nat} {index : Nat} {k : κ}
    (hStep : Path lvls roots cr3 (path ++ [index]))
    (hTable : descend (next memory) cr3 path = some table)
    (hEmpty : memory (entryAt table index) = 0) (hSome : cache k ≠ physNull) :
    Keeps lvls roots memory (attached memory table index (cache k)) := by
  have hShort := hStep.short
  rw [List.length_append, List.length_singleton] at hShort
  constructor
  case lookups =>
    intro cr3' hRoot' vaddr' hVaddr'
    have hPath' := hVaddr'.path hRoot' (show lvls - 1 < lvls by omega)
    rw [lookup, lookup, h.attach_descend hStep hTable hEmpty hSome hPath']
    split_ifs with hNew
    · have hGone : descend (next memory) cr3' (indices lvls vaddr' (lvls - 1)) = none := by
        rw [hNew.1, hNew.2, descend_snoc, hTable]
        simp [next, hEmpty]
      have hZero : attached memory table index (cache k)
          (entryAt (cache k) (memPagingGetLvlIndex vaddr' 1)) = 0 :=
        h.attach_zero hStep hTable hSome (memPagingGetLvlIndex_lt vaddr' 1)
      rw [hGone, Option.bind_some, hZero]
      simp [decode]
    · cases hLeaf : descend (next memory) cr3' (indices lvls vaddr' (lvls - 1)) with
      | none => rfl
      | some leaf =>
          have hNe : table ≠ leaf :=
            h.ne_leaf hVaddr' hRoot' hLeaf hStep.before hTable hShort
          rw [Option.bind_some, Option.bind_some, h.attach_other hStep hTable
            (h.frame hPath' hLeaf) (memPagingGetLvlIndex_lt vaddr' 1) fun hSame => hNe hSame.1.symm]
  case upper =>
    intro cr3' hRoot' index' hUpper hIndex'
    apply h.attach_other hStep hTable (h.rootFrame cr3' hRoot') hIndex'
    rintro ⟨rfl, rfl⟩
    obtain ⟨-, rfl⟩ := h.unshared.once cr3' [] cr3 path cr3' (Path.nil hRoot' (by omega))
      hStep.before rfl hTable
    have hLower := hStep.lower index' rfl
    omega

section Write

variable (h : Valid lvls memory roots cache) (hRoot : cr3 ∈ roots) (hVaddr : LowerPage lvls vaddr)
  (hTable : descend (next memory) cr3 (indices lvls vaddr (lvls - 1)) = some table) (value : Word)

include h hRoot hVaddr hTable

theorem Valid.write_inner {cr3' table' : Word} {path : List Nat} {index : Nat}
    (hPath : Path lvls roots cr3' path) (hTable' : descend (next memory) cr3' path = some table')
    (hShort : path.length + 1 < lvls) (hIndex : index < 512) :
    Function.update memory (entryAt table (memPagingGetLvlIndex vaddr 1)) value
      (entryAt table' index) = memory (entryAt table' index) := by
  apply h.write_of_ne (hVaddr.path hRoot (by omega)) hTable (memPagingGetLvlIndex_lt vaddr 1)
    (h.frame hPath hTable') hIndex
  intro hSame
  exact h.ne_leaf hVaddr hRoot hTable hPath hTable' hShort hSame.1

/-- An entry of level 1 is no part of the tree of tables. -/
theorem Valid.write (hLvls : 2 ≤ lvls) : Valid lvls
    (Function.update memory (entryAt table (memPagingGetLvlIndex vaddr 1)) value) roots cache := by
  refine h.touch ?_ ?_ h.once
  · intro cr3' path table' hPath hTable' index hIndex hShort
    exact h.write_inner hRoot hVaddr hTable value hPath hTable' hShort hIndex
  · intro k hSome
    obtain ⟨hFrame, hZero, hUnused⟩ := h.cached k hSome
    refine ⟨hFrame, ?_, hUnused⟩
    intro index hIndex
    have hPath := hVaddr.path hRoot (show lvls - 1 < lvls by omega)
    rw [h.write_of_ne hPath hTable (memPagingGetLvlIndex_lt vaddr 1) hFrame hIndex]
    · exact hZero index hIndex
    · rintro ⟨hSame, -⟩
      exact hUnused cr3 _ hPath (hSame ▸ hTable)

/-- The lookup of an address changes with its entry of level 1, the others stay. -/
theorem Valid.write_lookup (hLvls : 2 ≤ lvls) {cr3' vaddr' : Word} (hRoot' : cr3' ∈ roots)
    (hVaddr' : LowerPage lvls vaddr') :
    lookup lvls (Function.update memory (entryAt table (memPagingGetLvlIndex vaddr 1)) value)
      cr3' vaddr' =
      if cr3' = cr3 ∧ vaddr' = vaddr then decode value else lookup lvls memory cr3' vaddr' := by
  have hPath := hVaddr.path hRoot (show lvls - 1 < lvls by omega)
  have hPath' := hVaddr'.path hRoot' (show lvls - 1 < lvls by omega)
  have hSame : descend (next (Function.update memory
      (entryAt table (memPagingGetLvlIndex vaddr 1)) value)) cr3' (indices lvls vaddr' (lvls - 1)) =
      descend (next memory) cr3' (indices lvls vaddr' (lvls - 1)) := by
    refine h.congr ?_ hPath'
    intro r path table' hWay hTable' index hIndex hShort
    exact h.write_inner hRoot hVaddr hTable value hWay hTable' hShort hIndex
  rw [lookup, hSame]
  split_ifs with hHere
  · rw [hHere.1, hHere.2, hTable, Option.bind_some, Function.update_self]
  · rw [lookup]
    cases hLeaf : descend (next memory) cr3' (indices lvls vaddr' (lvls - 1)) with
    | none => rfl
    | some leaf =>
        rw [Option.bind_some, Option.bind_some, h.write_of_ne hPath hTable
          (memPagingGetLvlIndex_lt vaddr 1) (h.frame hPath' hLeaf) (memPagingGetLvlIndex_lt vaddr' 1)]
        rintro ⟨rfl, hIndex⟩
        obtain ⟨hRoots, hIndices⟩ := h.unshared.once cr3' _ cr3 _ leaf hPath' hPath hLeaf hTable
        exact hHere ⟨hRoots, hVaddr'.eq_of_indices hVaddr hIndices hIndex⟩

theorem Valid.write_upper (hLvls : 2 ≤ lvls) {cr3' : Word} (hRoot' : cr3' ∈ roots) {index : Nat}
    (hIndex : index < 512) :
    Function.update memory (entryAt table (memPagingGetLvlIndex vaddr 1)) value (entryAt cr3' index) =
      memory (entryAt cr3' index) :=
  h.write_inner hRoot hVaddr hTable value (Path.nil hRoot' (by omega)) rfl hLvls hIndex

end Write

end Lookup

end Ricerca.Paging
