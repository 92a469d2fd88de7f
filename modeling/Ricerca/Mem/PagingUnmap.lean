import Ricerca.Mem.PagingRefinement

/-! `mem_paging_unmap_at`. The walk does not check that an entry leads to a table, so below an
empty entry it goes on at the physical address 0. -/
namespace Ricerca.Paging

open Ricerca.Foundation

variable {Task : Type} {lvls : Nat}

/-- The loop of `mem_paging_unmap_at` over the intermediate tables, from level `i` down: the
entries that it reads, and the address that it ends with. -/
def unmapIntermediate (memory : Memory) (vaddr : Word) : Nat → Word → List Word × Word
  | i + 2, currentPhys =>
      let entry := entryAt currentPhys (memPagingGetLvlIndex vaddr (i + 2))
      let (accessed, table) := unmapIntermediate memory vaddr (i + 1) (memory entry &&& ~~~flagsMask)
      (entry :: accessed, table)
  | _, currentPhys => ([], currentPhys)

/-- What a call of `mem_paging_unmap_at` does: the address that it returns, the memory that it
leaves, and the words that it reads or writes. -/
structure Unmapping where
  addr : Word
  memory : Memory
  accessed : List Word

/-- `mem_paging_unmap_at` after its assertions. -/
def memPagingUnmapAt (lvls : Nat) (memory : Memory) (cr3 vaddr : Word) : Unmapping :=
  let (accessed, table) := unmapIntermediate memory vaddr lvls cr3
  let entry := entryAt table (memPagingGetLvlIndex vaddr 1)
  { addr := memory entry &&& ~~~flagsMask
    memory := Function.update memory entry 0
    accessed := accessed ++ [entry] }

/-- The virtual addresses that the processor accepts. -/
def Canonical (lvls : Nat) (vaddr : Word) : Prop :=
  vaddr.toNat < 2 ^ (9 * lvls + 11) ∨ 2 ^ 64 - 2 ^ (9 * lvls + 11) ≤ vaddr.toNat

/-- The page of an address. -/
def pageOf (vaddr : Word) : Word := BitVec.ofNat 64 (vaddr.toNat / 4096 * 4096)

/-- A word in a table of the lower half of a root. -/
def InTables (lvls : Nat) (s : State Task) (cr3 addr : Word) : Prop :=
  ∃ path table, Path lvls s.roots cr3 path ∧ descend (next s.memory) cr3 path = some table ∧
    InPage table addr

/-- What `mem_paging_unmap_at` is for. -/
structure Exact (lvls : Nat) (s : State Task) (cr3 vaddr : Word) : Prop where
  result : (memPagingUnmapAt lvls s.memory cr3 vaddr).addr =
    match translate lvls s.memory cr3 vaddr with
    | some found => found.frame
    | none => 0
  unmapped : ∀ vaddr', Canonical lvls vaddr' → pageOf vaddr' = vaddr →
    translate lvls (memPagingUnmapAt lvls s.memory cr3 vaddr).memory cr3 vaddr' = none
  others : ∀ cr3' ∈ s.roots, ∀ vaddr', Canonical lvls vaddr' →
    ¬ (cr3' = cr3 ∧ pageOf vaddr' = vaddr) →
    translate lvls (memPagingUnmapAt lvls s.memory cr3 vaddr).memory cr3' vaddr' =
      translate lvls s.memory cr3' vaddr'
  accesses : ∀ addr ∈ (memPagingUnmapAt lvls s.memory cr3 vaddr).accessed, InTables lvls s cr3 addr
  writes : ∀ addr, addr ∉ (memPagingUnmapAt lvls s.memory cr3 vaddr).accessed →
    (memPagingUnmapAt lvls s.memory cr3 vaddr).memory addr = s.memory addr

/-- All tables on the way to an address are there. -/
def TablesExist (lvls : Nat) (memory : Memory) (cr3 vaddr : Word) : Prop :=
  descend (next memory) cr3 (indices lvls vaddr (lvls - 1)) ≠ none

/-- An address of the upper half, as the table of the root tells. -/
def Upper (lvls : Nat) (vaddr : Word) : Prop := 256 ≤ memPagingGetLvlIndex vaddr lvls

/-- No address of the upper half needs an entry. -/
def Unread (lvls : Nat) (memory : Memory) (roots : List Word) (table : Word) (index : Nat) : Prop :=
  ∀ cr3 ∈ roots, ∀ vaddr, Upper lvls vaddr → entryAt table index ∉ reads memory vaddr lvls cr3

/-- The tables of the upper halves are no tables of lower halves and no pages of mappers. -/
structure Apart {κ : Type} (lvls : Nat) (memory : Memory) (roots : List Word) (cache : κ → Word) :
    Prop where
  mappers : ∀ k, cache k ≠ physNull → ∀ index < 512, Unread lvls memory roots (cache k) index
  entries : ∀ cr3 path table index, Path lvls roots cr3 path → (path = [] → index < 256) →
    index < 512 → descend (next memory) cr3 path = some table → Unread lvls memory roots table index

/-- A call of `mem_paging_map_at`, or one of `mem_paging_unmap_at` with what it returned. -/
inductive Change (Task : Type) where
  | map (call : Call Task)
  | unmap (cr3 vaddr result : Word)

inductive Change.Step [DecidableEq Task] (lvls : Nat) (s : State Task) :
    Change Task → State Task → Prop where
  | map {call : Call Task} {s' : State Task} (hStep : Paging.Step lvls s call s') :
      Change.Step lvls s (.map call) s'
  | unmap {cr3 vaddr : Word} (hRoot : cr3 ∈ s.roots) (hVaddr : LowerPage lvls vaddr) :
      Change.Step lvls s (.unmap cr3 vaddr (memPagingUnmapAt lvls s.memory cr3 vaddr).addr)
        { s with memory := (memPagingUnmapAt lvls s.memory cr3 vaddr).memory }

/-- Fresh roots. `mem_paging_new_root` fails if the page of the root is `PHYS_NULL`. -/
structure Started (lvls : Nat) (s : State Task) : Prop where
  fresh : Fresh lvls s
  roots : physNull ∉ s.roots
  apart : Apart lvls s.memory s.roots (cacheOf lvls s.zeroedPages)

def changes [DecidableEq Task] (lvls : Nat) : System (State Task) (Change Task) where
  init := Started lvls
  step := Change.Step lvls

/-- Addresses are unmapped only if all tables on the way are there. -/
def WithTables (lvls : Nat) (s : State Task) : Change Task → Prop
  | .map _ => True
  | .unmap cr3 vaddr _ => TablesExist lvls s.memory cr3 vaddr

section Addresses

variable {memory : Memory} {vaddr : Word}

theorem pageOf_toNat (vaddr : Word) : (pageOf vaddr).toNat = vaddr.toNat / 4096 * 4096 := by
  have hLt := vaddr.isLt
  rw [pageOf, BitVec.toNat_ofNat]
  omega

/-- The offset in a page has no part in the indices. -/
theorem memPagingGetLvlIndex_pageOf (vaddr : Word) (i : Nat) :
    memPagingGetLvlIndex (pageOf vaddr) (i + 1) = memPagingGetLvlIndex vaddr (i + 1) := by
  have hExponent : 9 * (i + 1) + 3 = 12 + 9 * i := by omega
  rw [memPagingGetLvlIndex_eq, memPagingGetLvlIndex_eq, pageOf_toNat, hExponent, Nat.pow_add,
    ← Nat.div_div_eq_div_mul, ← Nat.div_div_eq_div_mul]
  rw [Nat.mul_div_cancel _ (by omega)]

theorem walk_pageOf (i : Nat) (above : Translation) :
    walk memory (pageOf vaddr) i above = walk memory vaddr i above := by
  induction i generalizing above with
  | zero => rfl
  | succ i ih =>
      simp only [walk, memPagingGetLvlIndex_pageOf]
      rw [ih]

theorem translate_pageOf (cr3 : Word) :
    translate lvls memory cr3 (pageOf vaddr) = translate lvls memory cr3 vaddr :=
  walk_pageOf lvls _

/-- An address lies in a page of the lower half, or in the upper half. -/
theorem Canonical.cases (hLvls : lvls = 4 ∨ lvls = 5) (h : Canonical lvls vaddr) :
    LowerPage lvls (pageOf vaddr) ∨ Upper lvls vaddr := by
  have hLt := vaddr.isLt
  rcases h with hLower | hUpper
  · left
    constructor
    case aligned =>
      rw [pageOf_toNat]
      omega
    case lower =>
      rw [pageOf_toNat]
      exact (Nat.div_mul_le_self _ _).trans_lt hLower
  · right
    rw [Upper, memPagingGetLvlIndex_eq]
    rcases hLvls with rfl | rfl
    · simp only [Nat.reduceMul, Nat.reduceAdd] at hUpper ⊢
      omega
    · simp only [Nat.reduceMul, Nat.reduceAdd] at hUpper ⊢
      omega

end Addresses

section Entries

variable {κ : Type} {memory memory' : Memory} {roots : List Word} {cache : κ → Word}
  {cr3 table : Word} {index : Nat}

/-- A write to an entry that the upper halves do not need. -/
theorem Unread.reads_eq (h : Unread lvls memory roots table index) (value : Word) (hRoot : cr3 ∈ roots)
    {vaddr : Word} (hUpper : Upper lvls vaddr) :
    reads (Function.update memory (entryAt table index) value) vaddr lvls cr3 =
      reads memory vaddr lvls cr3 := by
  apply reads_congr
  intro addr hRead
  apply Function.update_of_ne
  rintro rfl
  exact h cr3 hRoot vaddr hUpper hRead

theorem Unread.translate_eq (h : Unread lvls memory roots table index) (value : Word)
    (hRoot : cr3 ∈ roots) {vaddr : Word} (hUpper : Upper lvls vaddr) :
    translate lvls (Function.update memory (entryAt table index) value) cr3 vaddr =
      translate lvls memory cr3 vaddr := by
  apply walk_congr
  intro addr hRead
  apply Function.update_of_ne
  rintro rfl
  exact h cr3 hRoot vaddr hUpper hRead

/-- The upper halves do not need an entry as long as their walks read the same words. -/
theorem Unread.congr (hSame : ∀ cr3 ∈ roots, ∀ vaddr, Upper lvls vaddr →
    reads memory' vaddr lvls cr3 = reads memory vaddr lvls cr3)
    (h : Unread lvls memory roots table index) : Unread lvls memory' roots table index := by
  intro cr3 hRoot vaddr hUpper
  rw [hSame cr3 hRoot vaddr hUpper]
  exact h cr3 hRoot vaddr hUpper

theorem Unread.update (hWritten : Unread lvls memory roots table index) (value : Word) {table' : Word}
    {index' : Nat} (h : Unread lvls memory roots table' index') :
    Unread lvls (Function.update memory (entryAt table index) value) roots table' index' :=
  Unread.congr (fun _ hRoot _ hUpper => hWritten.reads_eq value hRoot hUpper) h

/-- A word of a page that nothing reads. -/
theorem Free.unread_entry {page : Word} (h : Free lvls memory roots cache page) (hIndex : index < 512) :
    Unread lvls memory roots page index := by
  intro cr3 hRoot vaddr _ hRead
  apply h.unread cr3 hRoot vaddr _ hRead
  rw [InPage, entryAt_toNat h.frame.aligned hIndex]
  omega

/-- An entry of level 1 is none that the upper halves need. -/
theorem Apart.leaf (h : Apart lvls memory roots cache) {vaddr : Word} (hLvls : 2 ≤ lvls)
    (hRoot : cr3 ∈ roots) (hVaddr : LowerPage lvls vaddr)
    (hTable : descend (next memory) cr3 (indices lvls vaddr (lvls - 1)) = some table) :
    Unread lvls memory roots table (memPagingGetLvlIndex vaddr 1) := by
  apply h.entries cr3 _ table _ (hVaddr.path hRoot (by omega)) _ (memPagingGetLvlIndex_lt vaddr 1)
    hTable
  intro hNil
  have hLength := congrArg List.length hNil
  rw [indices_length, List.length_nil] at hLength
  omega

/-- A write to an entry of level 1. -/
theorem Apart.write (h : Apart lvls memory roots cache) (hValid : Valid lvls memory roots cache)
    {vaddr : Word} (hLvls : 2 ≤ lvls) (hRoot : cr3 ∈ roots) (hVaddr : LowerPage lvls vaddr)
    (hTable : descend (next memory) cr3 (indices lvls vaddr (lvls - 1)) = some table) (value : Word) :
    Apart lvls (Function.update memory (entryAt table (memPagingGetLvlIndex vaddr 1)) value) roots
      cache := by
  have hLeaf := h.leaf hLvls hRoot hVaddr hTable
  constructor
  case mappers =>
    intro k hSome index hIndex
    exact hLeaf.update value (h.mappers k hSome index hIndex)
  case entries =>
    intro cr3' path table' index hPath hFirst hIndex hTable'
    apply hLeaf.update value
    apply h.entries cr3' path table' index hPath hFirst hIndex
    rw [← hTable']
    symm
    apply hValid.congr _ hPath
    intro r way other hWay hReached i hi hShort
    exact hValid.write_inner hRoot hVaddr hTable value hWay hReached hShort hi

theorem keptByMapping_apart (hLvls : 2 ≤ lvls) :
    KeptByMapping lvls roots cr3 fun memory (cache : Task × Nat → Word) =>
      Apart lvls memory roots cache := by
  intro memory cache vaddr table paddr perms hValid hRoot hVaddr hTable _ h
  exact h.write hValid hLvls hRoot hVaddr hTable _

/-- The entries of level 1 are empty or present. -/
def Marked (lvls : Nat) (memory : Memory) (roots : List Word) : Prop :=
  ∀ cr3 path table index, Path lvls roots cr3 path → path.length + 1 = lvls → index < 512 →
    descend (next memory) cr3 path = some table →
    memory (entryAt table index) = 0 ∨ memory (entryAt table index) &&& flagPresent ≠ 0

/-- A write of an empty or present entry to a table of level 1. -/
theorem Marked.write (h : Marked lvls memory roots) (hValid : Valid lvls memory roots cache)
    {vaddr : Word} (hRoot : cr3 ∈ roots) (hVaddr : LowerPage lvls vaddr)
    (hTable : descend (next memory) cr3 (indices lvls vaddr (lvls - 1)) = some table) {value : Word}
    (hValue : value = 0 ∨ value &&& flagPresent ≠ 0) :
    Marked lvls (Function.update memory (entryAt table (memPagingGetLvlIndex vaddr 1)) value)
      roots := by
  intro cr3' path table' index hPath hLast hIndex hTable'
  have hSame : descend (next (Function.update memory
      (entryAt table (memPagingGetLvlIndex vaddr 1)) value)) cr3' path =
      descend (next memory) cr3' path := by
    apply hValid.congr _ hPath
    intro r way other hWay hReached i hi hShort
    exact hValid.write_inner hRoot hVaddr hTable value hWay hReached hShort hi
  rw [hSame] at hTable'
  rw [Function.update_apply]
  split_ifs
  · exact hValue
  · exact h cr3' path table' index hPath hLast hIndex hTable'

theorem keptByMapping_marked :
    KeptByMapping lvls roots cr3 fun memory (_ : Task × Nat → Word) => Marked lvls memory roots := by
  intro memory cache vaddr table paddr perms hValid hRoot hVaddr hTable hPaddr h
  apply h.write hValid hRoot hVaddr hTable
  right
  rw [hPaddr.or_and rfl]
  exact (permsMask_flags perms).2.1

variable [DecidableEq Task]

theorem keptByZeroing_apart : KeptByZeroing lvls roots fun memory (cache : Task × Nat → Word) =>
    Apart lvls memory roots cache := by
  intro memory cache page k hValid hFree h
  have hReads : ∀ cr3 ∈ roots, ∀ vaddr, Upper lvls vaddr →
      reads (memsetPage memory page) vaddr lvls cr3 = reads memory vaddr lvls cr3 :=
    fun cr3 hRoot vaddr _ => hFree.zeroed_reads hRoot vaddr
  constructor
  case mappers =>
    intro k' hSome index hIndex
    apply Unread.congr hReads
    by_cases hk : k' = k
    · rw [hk, Function.update_self]
      exact hFree.unread_entry hIndex
    · rw [Function.update_of_ne hk] at hSome ⊢
      exact h.mappers k' hSome index hIndex
  case entries =>
    intro cr3 path table index hPath hFirst hIndex hTable
    rw [hValid.zeroed_descend hFree hPath] at hTable
    exact Unread.congr hReads (h.entries cr3 path table index hPath hFirst hIndex hTable)

theorem keptByTables_apart : KeptByTables lvls roots cr3 fun memory (cache : Task × Nat → Word) =>
    Apart lvls memory roots cache := by
  intro memory cache path index table k hValid hStep hTable hEmpty hSome h
  have hBound := hStep.bound index (by simp)
  have hWritten : Unread lvls memory roots table index := by
    apply h.entries cr3 path table index hStep.before _ hBound hTable
    rintro rfl
    exact hStep.lower index rfl
  constructor
  case mappers =>
    intro k' hSome' index' hIndex'
    have hk : k' ≠ k := by
      rintro rfl
      simp at hSome'
    rw [Function.update_of_ne hk] at hSome' ⊢
    exact hWritten.update _ (h.mappers k' hSome' index' hIndex')
  case entries =>
    intro cr3' path' table' index' hPath' hFirst hIndex' hTable'
    apply hWritten.update
    rw [hValid.attach_descend hStep hTable hEmpty hSome hPath'] at hTable'
    split_ifs at hTable' with hNew
    · obtain rfl := Option.some.inj hTable'
      exact h.mappers k hSome index' hIndex'
    · exact h.entries cr3' path' table' index' hPath' hFirst hIndex' hTable'

theorem keptByZeroing_marked :
    KeptByZeroing lvls roots fun memory (_ : Task × Nat → Word) => Marked lvls memory roots := by
  intro memory cache page k hValid hFree h cr3 path table index hPath hLast hIndex hTable
  rw [hValid.zeroed_descend hFree hPath] at hTable
  have hNe : table ≠ page := by
    rintro rfl
    exact hFree.table cr3 path hPath hTable
  rw [memsetPage_of_ne hFree.frame.aligned (hValid.frame hPath hTable).aligned hNe hIndex]
  exact h cr3 path table index hPath hLast hIndex hTable

theorem keptByTables_marked :
    KeptByTables lvls roots cr3 fun memory (_ : Task × Nat → Word) => Marked lvls memory roots := by
  intro memory cache path index table k hValid hStep hTable hEmpty hSome h cr3' path' table' index'
    hPath' hLast hIndex' hTable'
  have hShort := hStep.short
  rw [List.length_append, List.length_singleton] at hShort
  rw [hValid.attach_descend hStep hTable hEmpty hSome hPath'] at hTable'
  split_ifs at hTable' with hNew
  · obtain rfl := Option.some.inj hTable'
    exact .inl (hValid.attach_zero hStep hTable hSome hIndex')
  · rw [hValid.attach_other hStep hTable (hValid.frame hPath' hTable') hIndex']
    · exact h cr3' path' table' index' hPath' hLast hIndex' hTable'
    · rintro ⟨rfl, -⟩
      obtain ⟨-, rfl⟩ :=
        hValid.unshared.once cr3' path' cr3 path table' hPath' hStep.before hTable' hTable
      omega

end Entries

section Walk

variable {κ : Type} {memory : Memory} {roots : List Word} {cache : κ → Word} {s : State Task}
  {cr3 vaddr table leaf : Word}

/-- No table is at the physical address 0. -/
theorem Valid.ne_null (h : Valid lvls memory roots cache) (hRoots : physNull ∉ roots)
    {path : List Nat} (hPath : Path lvls roots cr3 path)
    (hTable : descend (next memory) cr3 path = some table) : table ≠ physNull := by
  induction path using List.reverseRecOn with
  | nil =>
      obtain rfl := Option.some.inj hTable
      rintro rfl
      exact hRoots hPath.root
  | append_singleton path index ih =>
      rw [descend_snoc] at hTable
      obtain ⟨parent, hParent, hNext⟩ := Option.bind_eq_some_iff.mp hTable
      rcases h.entries cr3 path index parent hPath hParent with hZero | ⟨page, hPage, hSome, hEntry⟩
      · simp [next, hZero] at hNext
      · rw [next_of_entry hPage hEntry] at hNext
        obtain rfl := Option.some.inj hNext
        exact hSome

theorem inPage_entryAt (hTable : table.toNat % 4096 = 0) {index : Nat} (hIndex : index < 512) :
    InPage table (entryAt table index) := by
  rw [InPage, entryAt_toNat hTable hIndex]
  omega

/-- A word of the first page of physical memory is in no table. -/
theorem not_inTables_of_null (h : Valid lvls s.memory s.roots cache) (hRoots : physNull ∉ s.roots)
    {addr : Word} (hAddr : InPage physNull addr) : ¬ InTables lvls s cr3 addr := by
  rintro ⟨path, table, hPath, hTable, hIn⟩
  have hAligned := (h.frame hPath hTable).aligned
  have hNe : table.toNat ≠ 0 := by
    intro hZero
    exact h.ne_null hRoots hPath hTable (BitVec.eq_of_toNat_eq hZero)
  have hLow := hIn.1
  have hHigh := hAddr.2
  simp only [physNull, BitVec.toNat_zero, BitVec.ofNat_eq_ofNat] at hHigh
  omega

/-- The words that the code reads or writes from a table on. -/
def accessesFrom (memory : Memory) (vaddr : Word) (i : Nat) (table : Word) : List Word :=
  (unmapIntermediate memory vaddr (i + 1) table).1 ++
    [entryAt (unmapIntermediate memory vaddr (i + 1) table).2 (memPagingGetLvlIndex vaddr 1)]

theorem accessesFrom_succ (i : Nat) : accessesFrom memory vaddr (i + 1) table =
    entryAt table (memPagingGetLvlIndex vaddr (i + 2)) ::
      accessesFrom memory vaddr i
        (memory (entryAt table (memPagingGetLvlIndex vaddr (i + 2))) &&& ~~~flagsMask) := rfl

/-- Where all tables are there, the code ends at the table of level 1 and stays in tables. -/
theorem unmapIntermediate_spec (h : Valid lvls s.memory s.roots cache) (hRoot : cr3 ∈ s.roots)
    (hVaddr : LowerPage lvls vaddr)
    (hLeaf : descend (next s.memory) cr3 (indices lvls vaddr (lvls - 1)) = some leaf) {i : Nat}
    (hi : i + 1 ≤ lvls)
    (hTable : descend (next s.memory) cr3 (indices lvls vaddr (lvls - (i + 1))) = some table) :
    (unmapIntermediate s.memory vaddr (i + 1) table).2 = leaf ∧
      ∀ addr ∈ accessesFrom s.memory vaddr i table, InTables lvls s cr3 addr := by
  have hHere : ∀ level, InTables lvls s cr3 (entryAt table (memPagingGetLvlIndex vaddr level)) := by
    intro level
    have hPath := hVaddr.path hRoot (show lvls - (i + 1) < lvls by omega)
    exact ⟨_, table, hPath, hTable, inPage_entryAt (h.frame hPath hTable).aligned
      (memPagingGetLvlIndex_lt vaddr level)⟩
  induction i generalizing table with
  | zero =>
      obtain rfl := Option.some.inj (hTable.symm.trans hLeaf)
      refine ⟨rfl, ?_⟩
      intro addr hAddr
      rw [List.mem_singleton.mp hAddr]
      exact hHere 1
  | succ i ih =>
      have hLonger := indices_level vaddr hi
      obtain ⟨rest, hRest⟩ := indices_prefix lvls vaddr (show lvls - (i + 1) ≤ lvls - 1 by omega)
      rw [← hRest, descend_append] at hLeaf
      obtain ⟨child, hChild, hBelow⟩ := Option.bind_eq_some_iff.mp hLeaf
      have hNext := hChild
      rw [hLonger, descend_snoc, hTable, Option.bind_some, next] at hNext
      split_ifs at hNext with hEmpty
      obtain rfl := Option.some.inj hNext
      have hLeaf' : descend (next s.memory) cr3 (indices lvls vaddr (lvls - 1)) = some leaf := by
        rw [← hRest, descend_append, hChild]
        exact hBelow
      obtain ⟨hEnd, hIn⟩ := ih (by omega) hChild (by
        intro level
        have hPath := hVaddr.path hRoot (show lvls - (i + 1) < lvls by omega)
        exact ⟨_, _, hPath, hChild, inPage_entryAt (h.frame hPath hChild).aligned
          (memPagingGetLvlIndex_lt vaddr level)⟩)
      refine ⟨hEnd, ?_⟩
      intro addr hAddr
      rw [accessesFrom_succ] at hAddr
      rcases List.mem_cons.mp hAddr with rfl | hAddr
      · exact hHere (i + 2)
      · exact hIn addr hAddr

/-- From wherever it is, the code goes on with an entry of the page it is at. -/
theorem accessesFrom_head (memory : Memory) (vaddr table : Word) (i : Nat) : ∃ index < 512, entryAt table index ∈
    accessesFrom memory vaddr i table := by
  cases i with
  | zero => exact ⟨_, memPagingGetLvlIndex_lt vaddr 1, List.mem_singleton.mpr rfl⟩
  | succ i =>
      refine ⟨_, memPagingGetLvlIndex_lt vaddr (i + 2), ?_⟩
      rw [accessesFrom_succ]
      exact List.mem_cons_self

/-- Where a table is missing, the code goes on at the physical address 0. -/
theorem accessesFrom_null (hGone : descend (next memory) cr3 (indices lvls vaddr (lvls - 1)) = none)
    {i : Nat} (hi : i + 1 ≤ lvls)
    (hTable : descend (next memory) cr3 (indices lvls vaddr (lvls - (i + 1))) = some table) :
    ∃ addr ∈ accessesFrom memory vaddr i table, InPage physNull addr := by
  induction i generalizing table with
  | zero =>
      rw [hGone] at hTable
      cases hTable
  | succ i ih =>
      rw [accessesFrom_succ]
      by_cases hEmpty : memory (entryAt table (memPagingGetLvlIndex vaddr (i + 2))) = 0
      · obtain ⟨index, hIndex, hHead⟩ := accessesFrom_head memory vaddr physNull i
        refine ⟨entryAt physNull index, List.mem_cons_of_mem _ ?_, inPage_entryAt rfl hIndex⟩
        rw [hEmpty]
        exact hHead
      · obtain ⟨addr, hAddr, hNull⟩ := ih (by omega) (by
          rw [indices_level vaddr hi, descend_snoc, hTable]
          exact if_neg hEmpty)
        exact ⟨addr, List.mem_cons_of_mem _ hAddr, hNull⟩

end Walk

section Runs

variable {s s' : State Task} {cr3 vaddr leaf : Word}

/-- What all changes keep. -/
structure Kept (lvls : Nat) (s : State Task) : Prop where
  valid : s.Valid lvls
  roots : physNull ∉ s.roots
  apart : Apart lvls s.memory s.roots (cacheOf lvls s.zeroedPages)
  marked : Marked lvls s.memory s.roots

theorem Started.kept (hLvls : 2 ≤ lvls) (h : Started lvls s) : Kept lvls s := by
  refine ⟨h.fresh.valid, h.roots, h.apart, ?_⟩
  intro cr3 path table index hPath hLast _ hTable
  obtain ⟨rfl, -⟩ := h.fresh.descend_eq hPath hTable
  rw [List.length_nil] at hLast
  omega

/-- Where all tables are there, an entry of level 1 is read and cleared. -/
theorem Kept.unmapAt_eq (h : Kept lvls s) (hLvls : 2 ≤ lvls) (hRoot : cr3 ∈ s.roots)
    (hVaddr : LowerPage lvls vaddr)
    (hLeaf : descend (next s.memory) cr3 (indices lvls vaddr (lvls - 1)) = some leaf) :
    memPagingUnmapAt lvls s.memory cr3 vaddr =
      ⟨s.memory (entryAt leaf (memPagingGetLvlIndex vaddr 1)) &&& ~~~flagsMask,
        Function.update s.memory (entryAt leaf (memPagingGetLvlIndex vaddr 1)) 0,
        (memPagingUnmapAt lvls s.memory cr3 vaddr).accessed⟩ ∧
      ∀ addr ∈ (memPagingUnmapAt lvls s.memory cr3 vaddr).accessed, InTables lvls s cr3 addr := by
  obtain ⟨i, rfl⟩ : ∃ i, lvls = i + 1 := ⟨lvls - 1, by omega⟩
  obtain ⟨hEnd, hIn⟩ := unmapIntermediate_spec h.valid hRoot hVaddr hLeaf (Nat.le_refl _)
    (descend_top s.memory cr3 vaddr i)
  refine ⟨?_, hIn⟩
  subst hEnd
  rfl

/-- An entry that was empty or present is decoded to the page in it. -/
theorem frame_of_decode {entry : Word} (h : entry = 0 ∨ entry &&& flagPresent ≠ 0) :
    entry &&& ~~~flagsMask = match decode entry with
      | some found => found.frame
      | none => 0 := by
  rcases h with rfl | hPresent
  · rfl
  · rw [decode, if_neg hPresent]
    rfl

theorem Kept.exact (h : Kept lvls s) (hLvls : lvls = 4 ∨ lvls = 5) (hRoot : cr3 ∈ s.roots)
    (hVaddr : LowerPage lvls vaddr) (hTables : TablesExist lvls s.memory cr3 vaddr) :
    Exact lvls s cr3 vaddr := by
  have hTwo : 2 ≤ lvls := by omega
  obtain ⟨leaf, hLeaf⟩ := Option.ne_none_iff_exists'.mp hTables
  obtain ⟨hEq, hIn⟩ := h.unmapAt_eq hTwo hRoot hVaddr hLeaf
  have hMemory := congrArg Unmapping.memory hEq
  have hWritten := h.valid.write hRoot hVaddr hLeaf 0 hTwo
  have hLower : ∀ cr3' ∈ s.roots, ∀ vaddr', LowerPage lvls vaddr' →
      translate lvls (memPagingUnmapAt lvls s.memory cr3 vaddr).memory cr3' vaddr' =
        if cr3' = cr3 ∧ vaddr' = vaddr then none else translate lvls s.memory cr3' vaddr' := by
    intro cr3' hRoot' vaddr' hVaddr'
    rw [hMemory, hWritten.translate_eq hTwo hRoot' hVaddr',
      h.valid.write_lookup hRoot hVaddr hLeaf 0 hTwo hRoot' hVaddr',
      h.valid.translate_eq hTwo hRoot' hVaddr']
    rfl
  constructor
  case result =>
    rw [hEq, h.valid.translate_eq hTwo hRoot hVaddr, lookup, hLeaf, Option.bind_some]
    apply frame_of_decode
    apply h.marked cr3 _ leaf _ (hVaddr.path hRoot (by omega)) _ (memPagingGetLvlIndex_lt vaddr 1) hLeaf
    rw [indices_length]
    omega
  case unmapped =>
    rintro vaddr' - rfl
    rw [← translate_pageOf, hLower cr3 hRoot _ hVaddr, if_pos ⟨rfl, rfl⟩]
  case others =>
    intro cr3' hRoot' vaddr' hCanonical hOther
    rcases hCanonical.cases hLvls with hPage | hUpper
    · rw [← translate_pageOf, hLower cr3' hRoot' _ hPage, if_neg hOther, translate_pageOf]
    · rw [hMemory]
      exact (h.apart.leaf hTwo hRoot hVaddr hLeaf).translate_eq 0 hRoot' hUpper
  case accesses => exact hIn
  case writes =>
    intro addr hAddr
    apply Function.update_of_ne
    rintro rfl
    exact hAddr (List.mem_append_right _ (List.mem_singleton.mpr rfl))

/-- Without one of the tables the code reads the first page of physical memory. -/
theorem Kept.not_exact (h : Kept lvls s) (hLvls : 2 ≤ lvls) (hTables : ¬ TablesExist lvls s.memory cr3 vaddr) :
    ¬ Exact lvls s cr3 vaddr := by
  intro hExact
  obtain ⟨i, rfl⟩ : ∃ i, lvls = i + 1 := ⟨lvls - 1, by omega⟩
  obtain ⟨addr, hAddr, hNull⟩ := accessesFrom_null (not_not.mp hTables) (Nat.le_refl _)
    (descend_top s.memory cr3 vaddr i)
  exact not_inTables_of_null h.valid h.roots hNull (hExact.accesses addr hAddr)

variable [DecidableEq Task]

theorem Change.Step.kept (hLvls : 2 ≤ lvls) {change : Change Task} (h : Kept lvls s)
    (hTables : WithTables lvls s change) (hStep : Change.Step lvls s change s') : Kept lvls s' := by
  cases hStep with
  | map hStep =>
      obtain ⟨hRoots, -, -, hValid, -, -⟩ := Step.spec hLvls h.valid hStep
      constructor
      case valid => exact hValid
      case roots =>
        rw [hRoots]
        exact h.roots
      case apart =>
        rw [hRoots]
        exact hStep.keeps keptByZeroing_apart keptByTables_apart (keptByMapping_apart hLvls) hLvls
          h.valid h.apart
      case marked =>
        rw [hRoots]
        exact hStep.keeps keptByZeroing_marked keptByTables_marked keptByMapping_marked hLvls h.valid
          h.marked
  | @unmap cr3 vaddr hRoot hVaddr =>
      obtain ⟨leaf, hLeaf⟩ := Option.ne_none_iff_exists'.mp hTables
      have hMemory := congrArg Unmapping.memory (h.unmapAt_eq hLvls hRoot hVaddr hLeaf).1
      dsimp only at hMemory
      rw [hMemory]
      constructor
      case valid => exact h.valid.write hRoot hVaddr hLeaf 0 hLvls
      case roots => exact h.roots
      case apart => exact h.apart.write h.valid hLvls hRoot hVaddr hLeaf 0
      case marked => exact h.marked.write h.valid hRoot hVaddr hLeaf (.inl rfl)

theorem kept_run (hLvls : 2 ≤ lvls) {trace : List (Change Task)}
    (run : ((changes lvls).restrict (WithTables lvls)).Execution trace s) : Kept lvls s := by
  induction run with
  | start hInit => exact Started.kept hLvls hInit
  | step prior last ih => exact last.2.kept hLvls ih last.1

/-- As long as addresses are unmapped only if all tables on the way are there, unmapping one more
is exact if and only if this is so again. -/
theorem unmap_exact_iff (hLvls : lvls = 4 ∨ lvls = 5) {trace : List (Change Task)}
    (run : ((changes lvls).restrict (WithTables lvls)).Execution trace s) (hRoot : cr3 ∈ s.roots)
    (hVaddr : LowerPage lvls vaddr) :
    Exact lvls s cr3 vaddr ↔ TablesExist lvls s.memory cr3 vaddr := by
  have hTwo : 2 ≤ lvls := by omega
  have hKept := kept_run hTwo run
  constructor
  · intro hExact
    by_contra hTables
    exact hKept.not_exact hTwo hTables hExact
  · exact hKept.exact hLvls hRoot hVaddr

end Runs

section Example

/-- The empty root does not share tables with anything. -/
theorem emptyState_apart {memory : Memory} (hMemory : ∀ index < 512, memory (entryAt 0x1000 index) = 0) :
    Apart 4 memory emptyState.roots (cacheOf 4 emptyState.zeroedPages) := by
  have hFresh : Fresh 4 { emptyState with memory := memory } :=
    ⟨emptyState_fresh.roots, fun cr3 hRoot index hIndex => by
      rw [List.mem_singleton.mp hRoot]
      exact hMemory index (by omega), fun _ _ _ hSome => (hSome rfl).elim,
      emptyState_fresh.once⟩
  constructor
  case mappers =>
    intro k hSome
    simp [cacheOf, emptyState] at hSome
  case entries =>
    intro cr3 path table index hPath hFirst hIndex hTable cr3' hRoot' vaddr hUpper hRead
    obtain ⟨rfl, rfl⟩ := hFresh.descend_eq hPath hTable
    obtain rfl := List.mem_singleton.mp hPath.root
    obtain rfl := List.mem_singleton.mp hRoot'
    have hSame : entryAt 0x1000 index = entryAt 0x1000 (memPagingGetLvlIndex vaddr 4) := by
      have hZero := hMemory _ (memPagingGetLvlIndex_lt vaddr 4)
      rw [reads, hZero, if_pos (.inl rfl)] at hRead
      exact List.mem_singleton.mp hRead
    have hIndices := (entryAt_inj rfl rfl hIndex (memPagingGetLvlIndex_lt vaddr 4)
      hSame).2
    have hLower := hFirst rfl
    rw [Upper, ← hIndices] at hUpper
    omega

theorem emptyState_started : Started 4 emptyState :=
  ⟨emptyState_fresh, by decide, emptyState_apart fun _ _ => rfl⟩

/-- The first page of the program is mapped and unmapped again. -/
theorem unmap_exact_iff_first : ∃ s, ((changes 4).restrict (WithTables 4)).Execution
    [.map mapFirst] s ∧ Exact 4 s 0x1000 0x400000 ∧
    (memPagingUnmapAt 4 s.memory 0x1000 0x400000).addr = 0x9000 := by
  have hRun : ((changes 4).restrict (WithTables 4)).Execution [.map mapFirst] afterFirst :=
    .step (.start emptyState_started) ⟨trivial, .map mapFirst_step⟩
  have hExact := (unmap_exact_iff (.inl rfl) hRun (List.mem_singleton.mpr rfl)
    (show LowerPage 4 0x400000 from ⟨rfl, by decide⟩)).mpr (by
      rw [TablesExist]
      decide)
  exact ⟨_, hRun, hExact, rfl⟩

/-- The fifth word of physical memory is not zero. -/
def lowWord : State Unit where
  memory := fun addr => if addr = 32 then 0x5000 else 0
  roots := emptyState.roots
  zeroedPages := emptyState.zeroedPages

theorem lowWord_started : Started 4 lowWord := by
  have hTable : ∀ index < 512, lowWord.memory (entryAt 0x1000 index) = 0 := by
    intro index hIndex
    apply if_neg
    intro hSame
    have hNat := congrArg BitVec.toNat hSame
    rw [entryAt_toNat rfl hIndex] at hNat
    simp at hNat
    omega
  constructor
  case fresh =>
    constructor
    case roots => exact emptyState_fresh.roots
    case empty =>
      intro cr3 hRoot index hIndex
      obtain rfl := List.mem_singleton.mp hRoot
      exact hTable index (by omega)
    case cached =>
      intro task i _ hSome
      exact (hSome rfl).elim
    case once => exact emptyState_fresh.once
  case roots => decide
  case apart => exact emptyState_apart hTable

/-- Nothing is mapped, but unmapping `0x4000` returns what it finds in the fifth word of physical
memory, and clears it. -/
theorem unmap_leaves_tables : (changes 4).Execution [] lowWord ∧ LowerPage 4 0x4000 ∧
    translate 4 lowWord.memory 0x1000 0x4000 = none ∧
    (memPagingUnmapAt 4 lowWord.memory 0x1000 0x4000).addr = 0x5000 ∧
    (memPagingUnmapAt 4 lowWord.memory 0x1000 0x4000).memory 32 = 0 ∧
    (memPagingUnmapAt 4 lowWord.memory 0x1000 0x4000).accessed = [0x1000, 0, 0, 32] ∧
    ¬ Exact 4 lowWord 0x1000 0x4000 := by
  refine ⟨.start lowWord_started, ⟨rfl, by decide⟩, rfl, rfl, rfl, rfl, ?_⟩
  intro hExact
  have hResult := hExact.result
  revert hResult
  decide

end Example

end Ricerca.Paging
