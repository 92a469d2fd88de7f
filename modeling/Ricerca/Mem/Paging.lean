import Mathlib.Algebra.Group.Nat.Defs
import Mathlib.Logic.Function.Basic
import Ricerca.Foundation.Descent
import Ricerca.Foundation.Execution

/-! Page tables (`mem/virt/paging.c`). Physical memory is a function from the addresses of
64-bit words; a table is a page of 512 of them. `mem_paging_map_at` takes the tables it
needs from pages that the mapper of the task has zeroed before. -/
namespace Ricerca.Paging

open Ricerca.Foundation

/-- A word of memory, a physical or a virtual address. -/
abbrev Word := BitVec 64

/-- `PHYS_NULL`. -/
def physNull : Word := 0

/-- `FLAGS_MASK`. -/
def flagsMask : Word := 0o777 ||| (1 <<< 63)

/-- `FLAG_PRESENT`. -/
def flagPresent : Word := 1

/-- `FLAG_WRITABLE`. -/
def flagWritable : Word := 2

/-- `FLAGS_USER`. -/
def flagsUser : Word := 4

/-- `FLAGS_NOEXEC`. -/
def flagsNoexec : Word := 1 <<< 63

/-- `MEM_PAGING_WRITABLE`. -/
def memPagingWritable : BitVec 32 := 2

/-- `MEM_PAGING_EXECUTABLE`. -/
def memPagingExecutable : BitVec 32 := 4

/-- `MEM_PAGING_USER`. -/
def memPagingUser : BitVec 32 := 8

/-- Physical memory, word by word. -/
abbrev Memory := Word → Word

/-- The address of `table[index]`. -/
def entryAt (table : Word) (index : Nat) : Word := table + BitVec.ofNat 64 (8 * index)

/-- `mem_paging_get_lvl_index`. -/
def memPagingGetLvlIndex (addr : Word) (lvl : Nat) : Nat :=
  ((addr >>> (9 * lvl + 3)) &&& 0o777).toNat

/-- The part of `mem_paging_new_zeroed` that follows on the allocation. -/
def memsetPage (memory : Memory) (page : Word) : Memory := fun addr =>
  if page.toNat ≤ addr.toNat ∧ addr.toNat < page.toNat + 4096 then 0 else memory addr

/-- The loop of `mem_paging_regen_cache` from `i` on, with `left` rounds left. The page that
`mem_phys_alloc_on_behalf` returns in round `i` is `alloc i`. -/
def memPagingRegenCache (alloc : Nat → Word) :
    Nat → Nat → Memory → (Nat → Word) → Bool × Memory × (Nat → Word)
  | _, 0, memory, zeroedPages => (true, memory, zeroedPages)
  | i, left + 1, memory, zeroedPages =>
      if zeroedPages i = physNull then
        if alloc i = physNull then (false, memory, zeroedPages)
        else
          memPagingRegenCache alloc (i + 1) left (memsetPage memory (alloc i))
            (Function.update zeroedPages i (alloc i))
      else memPagingRegenCache alloc (i + 1) left memory zeroedPages

theorem memPagingRegenCache_kept {alloc : Nat → Word} {i left : Nat} {memory memory' : Memory}
    {pages pages' : Nat → Word} {result : Bool}
    (hRegen : memPagingRegenCache alloc i left memory pages = (result, memory', pages')) :
    ∀ j < i, pages' j = pages j := by
  induction left generalizing i memory pages with
  | zero =>
      simp only [memPagingRegenCache, Prod.mk.injEq] at hRegen
      obtain ⟨-, -, rfl⟩ := hRegen
      exact fun _ _ => rfl
  | succ left ih =>
      intro j hj
      simp only [memPagingRegenCache] at hRegen
      split_ifs at hRegen
      · simp only [Prod.mk.injEq] at hRegen
        rw [hRegen.2.2]
      · rw [ih hRegen j (by omega), Function.update_of_ne (by omega)]
      · exact ih hRegen j (by omega)

/-- A mapper that was refilled has a page in every slot. -/
theorem memPagingRegenCache_filled {alloc : Nat → Word} {i left : Nat} {memory memory' : Memory}
    {pages pages' : Nat → Word}
    (hRegen : memPagingRegenCache alloc i left memory pages = (true, memory', pages')) :
    ∀ j, i ≤ j → j < i + left → pages' j ≠ physNull := by
  induction left generalizing i memory pages with
  | zero =>
      intro j hFrom hTo
      omega
  | succ left ih =>
      intro j hFrom hTo
      simp only [memPagingRegenCache] at hRegen
      split_ifs at hRegen with hNull hFailed
      · simp at hRegen
      · rcases Nat.eq_or_lt_of_le hFrom with rfl | hLater
        · rw [memPagingRegenCache_kept hRegen i (by omega), Function.update_self]
          exact hFailed
        · exact ih hRegen j hLater (by omega)
      · rcases Nat.eq_or_lt_of_le hFrom with rfl | hLater
        · rw [memPagingRegenCache_kept hRegen i (by omega)]
          exact hNull
        · exact ih hRegen j hLater (by omega)

/-- The loop of `mem_paging_map_at` over the intermediate tables, from level `i` down. It
ends with the table of level 1. -/
def mapIntermediate (vaddr : Word) :
    Nat → Memory → (Nat → Word) → Word → Memory × (Nat → Word) × Word
  | i + 2, memory, zeroedPages, currentPhys =>
      let entry := entryAt currentPhys (memPagingGetLvlIndex vaddr (i + 2))
      if memory entry = 0 then
        mapIntermediate vaddr (i + 1)
          (Function.update memory entry
            (zeroedPages i ||| (flagPresent ||| flagWritable ||| flagsUser)))
          (Function.update zeroedPages i physNull) (zeroedPages i)
      else mapIntermediate vaddr (i + 1) memory zeroedPages (memory entry &&& ~~~flagsMask)
  | _, memory, zeroedPages, currentPhys => (memory, zeroedPages, currentPhys)

/-- The flags of a page of level 1. -/
def permsMask (perms : BitVec 32) : Word :=
  flagPresent ||| (if perms &&& memPagingWritable ≠ 0 then flagWritable else 0) |||
    (if perms &&& memPagingExecutable = 0 then flagsNoexec else 0) |||
    (if perms &&& memPagingUser ≠ 0 then flagsUser else 0)

/-- `mem_paging_map_at` after its assertions; `lvls` is 5 if `mem_5level_paging_enabled`,
else 4. -/
def memPagingMapAt (lvls : Nat) (alloc : Nat → Word) (memory : Memory) (zeroedPages : Nat → Word)
    (cr3 vaddr paddr : Word) (perms : BitVec 32) : Bool × Memory × (Nat → Word) :=
  match memPagingRegenCache alloc 0 (lvls - 1) memory zeroedPages with
  | (false, memory, zeroedPages) => (false, memory, zeroedPages)
  | (true, memory, zeroedPages) =>
      let (memory, zeroedPages, table) := mapIntermediate vaddr lvls memory zeroedPages cr3
      (true, Function.update memory (entryAt table (memPagingGetLvlIndex vaddr 1))
        (paddr ||| permsMask perms), zeroedPages)

/-- Bit 7 of an entry above level 1. The code never sets it; the processor ends the walk at an
entry that has it. -/
def flagLarge : Word := 128

/-- What the processor finds for a virtual address. -/
structure Translation where
  frame : Word
  writable : Bool
  user : Bool
  noexec : Bool
  large : Bool
  deriving DecidableEq

/-- What an entry allows, below an entry that allows `above`. -/
def Translation.below (above : Translation) (entry : Word) : Translation where
  frame := entry &&& ~~~flagsMask
  writable := above.writable && decide (entry &&& flagWritable ≠ 0)
  user := above.user && decide (entry &&& flagsUser ≠ 0)
  noexec := above.noexec || decide (entry &&& flagsNoexec ≠ 0)
  large := false

/-- The walk of the processor from level `i` down. -/
def walk (memory : Memory) (vaddr : Word) : Nat → Translation → Option Translation
  | 0, above => some above
  | i + 1, above =>
      let entry := memory (entryAt above.frame (memPagingGetLvlIndex vaddr (i + 1)))
      if entry &&& flagPresent = 0 then none
      else if i ≠ 0 ∧ entry &&& flagLarge ≠ 0 then some { above.below entry with large := true }
      else walk memory vaddr i (above.below entry)

def translate (lvls : Nat) (memory : Memory) (cr3 vaddr : Word) : Option Translation :=
  walk memory vaddr lvls ⟨cr3, true, true, false, false⟩

/-- The words that the walk reads. -/
def reads (memory : Memory) (vaddr : Word) : Nat → Word → List Word
  | 0, _ => []
  | i + 1, table =>
      let addr := entryAt table (memPagingGetLvlIndex vaddr (i + 1))
      let entry := memory addr
      if entry &&& flagPresent = 0 ∨ i ≠ 0 ∧ entry &&& flagLarge ≠ 0 then [addr]
      else addr :: reads memory vaddr i (entry &&& ~~~flagsMask)

/-- A page of physical memory. -/
structure PageFrame (page : Word) : Prop where
  aligned : page.toNat % 4096 = 0
  noFlags : page &&& flagsMask = 0

/-- The virtual address of a page in the lower half. -/
structure LowerPage (lvls : Nat) (vaddr : Word) : Prop where
  aligned : vaddr.toNat % 4096 = 0
  lower : vaddr.toNat < 2 ^ (9 * lvls + 11)

/-- The table that an entry leads to. -/
def next (memory : Memory) (table : Word) (index : Nat) : Option Word :=
  if memory (entryAt table index) = 0 then none
  else some (memory (entryAt table index) &&& ~~~flagsMask)

/-- The paths from the roots to the tables of the lower half. -/
structure Path (lvls : Nat) (roots : List Word) (cr3 : Word) (path : List Nat) : Prop where
  root : cr3 ∈ roots
  short : path.length < lvls
  bound : ∀ index ∈ path, index < 512
  lower : ∀ index ∈ path.head?, index < 256

/-- The memory, the roots of all address spaces, and the mappers of the tasks. -/
structure State (Task : Type) where
  memory : Memory
  roots : List Word
  zeroedPages : Task → Nat → Word

variable {Task : Type}

/-- A word lies in a page. -/
def InPage (page addr : Word) : Prop := page.toNat ≤ addr.toNat ∧ addr.toNat < page.toNat + 4096

/-- A page is a table of the lower half of a root, or it is needed to translate some address,
or it is in a mapper. -/
def State.InUse (s : State Task) (lvls : Nat) (page : Word) : Prop :=
  (∃ cr3 path, Path lvls s.roots cr3 path ∧ descend (next s.memory) cr3 path = some page) ∨
    (∃ cr3 ∈ s.roots, ∃ vaddr, ∃ addr ∈ reads s.memory vaddr lvls cr3, InPage page addr) ∨
    ∃ task, ∃ i < lvls - 1, s.zeroedPages task i = page

/-- What `mem_phys_alloc_on_behalf` promises to one call of `mem_paging_regen_cache`: pages
that are not in use. -/
structure Allocates (lvls : Nat) (s : State Task) (alloc : Nat → Word) : Prop where
  frame : ∀ i < lvls - 1, alloc i ≠ physNull → PageFrame (alloc i)
  unused : ∀ i < lvls - 1, alloc i ≠ physNull → ¬ s.InUse lvls (alloc i)
  once : ∀ i < lvls - 1, ∀ j < lvls - 1, alloc i ≠ physNull → alloc i = alloc j → i = j

/-- A call, with what it returned. -/
structure Call (Task : Type) where
  task : Task
  cr3 : Word
  vaddr : Word
  paddr : Word
  perms : BitVec 32
  result : Bool

/-- One call of `mem_paging_map_at`. -/
inductive Step [DecidableEq Task] (lvls : Nat) (s : State Task) : Call Task → State Task → Prop where
  | map {task : Task} {cr3 vaddr paddr : Word} {perms : BitVec 32} {alloc : Nat → Word}
      {result : Bool} {memory : Memory} {zeroedPages : Nat → Word} (hRoot : cr3 ∈ s.roots)
      (hVaddr : LowerPage lvls vaddr) (hPaddr : PageFrame paddr) (hAlloc : Allocates lvls s alloc)
      (hMap : memPagingMapAt lvls alloc s.memory (s.zeroedPages task) cr3 vaddr paddr perms =
        (result, memory, zeroedPages)) :
      Step lvls s ⟨task, cr3, vaddr, paddr, perms, result⟩
        { s with
          memory := memory
          zeroedPages := Function.update s.zeroedPages task zeroedPages }

/-- Roots with empty lower halves, and mappers with pages that were zeroed and are not used
for anything else. -/
structure Fresh (lvls : Nat) (s : State Task) : Prop where
  roots : ∀ cr3 ∈ s.roots, PageFrame cr3
  empty : ∀ cr3 ∈ s.roots, ∀ index < 256, s.memory (entryAt cr3 index) = 0
  cached : ∀ task, ∀ i < lvls - 1, s.zeroedPages task i ≠ physNull →
    PageFrame (s.zeroedPages task i) ∧ s.zeroedPages task i ∉ s.roots ∧
      ∀ index < 512, s.memory (entryAt (s.zeroedPages task i) index) = 0
  once : ∀ task task', ∀ i < lvls - 1, ∀ j < lvls - 1, s.zeroedPages task i ≠ physNull →
    s.zeroedPages task i = s.zeroedPages task' j → task = task' ∧ i = j

def system [DecidableEq Task] (lvls : Nat) : System (State Task) (Call Task) where
  init := Fresh lvls
  step := Step lvls

end Ricerca.Paging
