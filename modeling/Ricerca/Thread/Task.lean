import Ricerca.Foundation.Custody
import Ricerca.Mem.Paging

/-! Creation and disposal of tasks (`thread/tasking/task.c`), with the mappers of
`mem/virt/paging.c`. The kernel keeps account of the blocks of the heap and of the pages that
are allocated; a block is known by its address and its size. -/
namespace Ricerca.Task

open Ricerca.Foundation Ricerca.Paging

/-- `NULL`. -/
def null : Word := 0

/-- `THREAD_TASK_STACK_SIZE`. -/
def threadTaskStackSize : Nat := 0x10000

/-- `sizeof(struct thread_task)`. -/
def sizeofThreadTask : Nat := 272

/-- `GDT_CODE64`. -/
def gdtCode64 : Word := 0x28

/-- `GDT_DATA64`. -/
def gdtData64 : Word := 0x30

/-- The registers of `struct interrupt_frame` that are set for a new task. -/
structure InterruptFrame where
  rdi : Word
  rip : Word
  cs : Word
  rflags : Word
  rsp : Word
  ss : Word

/-- `struct thread_task`, without what only the scheduler uses. -/
structure ThreadTask where
  frame : InterruptFrame
  zeroedPages : Nat → Word
  stack : Word
  cr3 : Word

structure CallbackVoid where
  func : Word
  ctx : Word

structure Kernel where
  memory : Memory
  heap : Finset (Word × Nat)
  pages : Finset Word

/-- What the allocators return to a call of `thread_task_create_call`, and what is found in the
block of the task. -/
structure Allocation where
  task : Word
  stack : Word
  pages : Nat → Word
  stale : Nat → Word

def Kernel.memHeapAlloc (k : Kernel) (mem : Word) (size : Nat) : Kernel :=
  { k with heap := insert (mem, size) k.heap }

def Kernel.memHeapFree (k : Kernel) (mem : Word) (size : Nat) : Kernel :=
  { k with heap := k.heap.erase (mem, size) }

def Kernel.memPhysFree (k : Kernel) (addr : Word) : Kernel := { k with pages := k.pages.erase addr }

/-- `mem_paging_new_zeroed`, where `mem_phys_alloc_on_behalf` returns `res`. -/
def Kernel.memPagingNewZeroed (k : Kernel) (res : Word) : Kernel :=
  if res = physNull then k
  else
    { k with
      memory := memsetPage k.memory res
      pages := insert res k.pages }

/-- The loop of `mem_paging_init_mapper` from `i` on, with `left` rounds left. -/
def memPagingInitMapper (alloc : Nat → Word) :
    Nat → Nat → Kernel → (Nat → Word) → Bool × Kernel × (Nat → Word)
  | _, 0, k, zeroedPages => (true, k, zeroedPages)
  | i, left + 1, k, zeroedPages =>
      let k := k.memPagingNewZeroed (alloc i)
      let zeroedPages := Function.update zeroedPages i (alloc i)
      if alloc i = physNull then
        (false, (List.range i).foldl (fun k j => k.memPhysFree (zeroedPages j)) k, zeroedPages)
      else memPagingInitMapper alloc (i + 1) left k zeroedPages

/-- `mem_paging_deinit_mapper`. -/
def memPagingDeinitMapper (lvls : Nat) (zeroedPages : Nat → Word) (k : Kernel) : Kernel :=
  (List.range (lvls - 1)).foldl
    (fun k i => if zeroedPages i ≠ physNull then k.memPhysFree (zeroedPages i) else k) k

/-- `memset(task, 0, sizeof(struct thread_task))`. -/
def ThreadTask.memset (_task : ThreadTask) : ThreadTask where
  frame := ⟨0, 0, 0, 0, 0, 0⟩
  zeroedPages := fun _ => 0
  stack := 0
  cr3 := 0

/-- `thread_task_create_call`; `rdcr3` is the value of the register. -/
def threadTaskCreateCall (lvls : Nat) (a : Allocation) (callback : CallbackVoid) (rdcr3 : Word)
    (k : Kernel) : Option ThreadTask × Kernel :=
  if a.task = null then (none, k)
  else
    let k := k.memHeapAlloc a.task sizeofThreadTask
    if a.stack = null then (none, k.memHeapFree a.task sizeofThreadTask)
    else
      let k := k.memHeapAlloc a.stack threadTaskStackSize
      match memPagingInitMapper a.pages 0 (lvls - 1) k a.stale with
      | (false, k, _) =>
          (none, (k.memHeapFree a.task sizeofThreadTask).memHeapFree a.stack threadTaskStackSize)
      | (true, k, zeroedPages) =>
          let task := ThreadTask.memset ⟨⟨0, 0, 0, 0, 0, 0⟩, zeroedPages, 0, 0⟩
          let stack := a.stack + BitVec.ofNat 64 threadTaskStackSize
          (some { task with
            frame :=
              { cs := gdtCode64
                ss := gdtData64
                rip := callback.func
                rdi := callback.ctx
                rflags := 1 <<< 9
                rsp := stack }
            stack := stack
            cr3 := rdcr3 }, k)

/-- `thread_task_dispose` for the task in the block at `addr`. -/
def threadTaskDispose (lvls : Nat) (addr : Word) (task : ThreadTask) (k : Kernel) : Kernel :=
  ((memPagingDeinitMapper lvls task.zeroedPages k).memHeapFree
    (task.stack - BitVec.ofNat 64 threadTaskStackSize) threadTaskStackSize).memHeapFree
      addr sizeofThreadTask

/-- The pages that `mem_paging_regen_cache` allocates. -/
def regenPages (alloc : Nat → Word) : Nat → Nat → (Nat → Word) → List Word
  | _, 0, _ => []
  | i, left + 1, zeroedPages =>
      if zeroedPages i = physNull then
        if alloc i = physNull then []
        else alloc i :: regenPages alloc (i + 1) left (Function.update zeroedPages i (alloc i))
      else regenPages alloc (i + 1) left zeroedPages

/-- The pages that `mem_paging_map_at` makes tables. -/
def madeTables (vaddr : Word) : Nat → Memory → (Nat → Word) → Word → List Word
  | i + 2, memory, zeroedPages, currentPhys =>
      let entry := entryAt currentPhys (memPagingGetLvlIndex vaddr (i + 2))
      if memory entry = 0 then
        zeroedPages i :: madeTables vaddr (i + 1)
          (Function.update memory entry
            (zeroedPages i ||| (flagPresent ||| flagWritable ||| flagsUser)))
          (Function.update zeroedPages i physNull) (zeroedPages i)
      else madeTables vaddr (i + 1) memory zeroedPages (memory entry &&& ~~~flagsMask)
  | _, _, _, _ => []

/-- A call of `mem_paging_map_at`, with what the allocator returns to it. -/
structure MapCall where
  cr3 : Word
  vaddr : Word
  paddr : Word
  perms : BitVec 32
  alloc : Nat → Word

/-- A task that lives, and the pages that it has made tables so far. -/
structure Alive where
  kernel : Kernel
  task : ThreadTask
  tables : Finset Word

/-- One call of `mem_paging_map_at` by the task. -/
def Alive.mapAt (lvls : Nat) (s : Alive) (call : MapCall) : Alive :=
  let refilled := memPagingRegenCache call.alloc 0 (lvls - 1) s.kernel.memory s.task.zeroedPages
  let mapped := memPagingMapAt lvls call.alloc s.kernel.memory s.task.zeroedPages call.cr3 call.vaddr
    call.paddr call.perms
  { kernel :=
      { s.kernel with
        memory := mapped.2.1
        pages := s.kernel.pages ∪ (regenPages call.alloc 0 (lvls - 1) s.task.zeroedPages).toFinset }
    task := { s.task with zeroedPages := mapped.2.2 }
    tables := s.tables ∪
      if refilled.1 then (madeTables call.vaddr lvls refilled.2.1 refilled.2.2 call.cr3).toFinset else ∅ }

/-- What `mem_phys_alloc_on_behalf` promises: pages that are not allocated. -/
structure FreshPages (lvls : Nat) (k : Kernel) (alloc : Nat → Word) : Prop where
  unused : ∀ i < lvls - 1, alloc i ≠ physNull → alloc i ∉ k.pages
  once : ∀ i < lvls - 1, ∀ j < lvls - 1, alloc i ≠ physNull → alloc i = alloc j → i = j

/-- What both allocators promise. -/
structure Allocation.Fresh (lvls : Nat) (a : Allocation) (k : Kernel) : Prop where
  task : (a.task, sizeofThreadTask) ∉ k.heap
  stack : (a.stack, threadTaskStackSize) ∉ k.heap
  pages : FreshPages lvls k a.pages

/-- A task that calls `mem_paging_map_at` again and again. -/
def mapping (lvls : Nat) (k : Kernel) (task : ThreadTask) : System Alive MapCall where
  init s := s = ⟨k, task, ∅⟩
  step s call s' := FreshPages lvls s.kernel call.alloc ∧ s' = s.mapAt lvls call

/-- Creation fails, or it succeeds and the task is disposed in the end. This leaves a kernel, and
the pages that the task has made tables. -/
inductive Life (lvls : Nat) (a : Allocation) (callback : CallbackVoid) (rdcr3 : Word) (k : Kernel) :
    Kernel → Finset Word → Prop where
  | failed {k' : Kernel} (hCreate : threadTaskCreateCall lvls a callback rdcr3 k = (none, k')) :
      Life lvls a callback rdcr3 k k' ∅
  | disposed {task : ThreadTask} {k' : Kernel} {trace : List MapCall} {s : Alive}
      (hCreate : threadTaskCreateCall lvls a callback rdcr3 k = (some task, k'))
      (run : (mapping lvls k' task).Execution trace s) :
      Life lvls a callback rdcr3 k (threadTaskDispose lvls a.task s.task s.kernel) s.tables

/-- One of the allocations fails. -/
def Allocation.Fails (lvls : Nat) (a : Allocation) : Prop :=
  a.task = null ∨ a.stack = null ∨ ∃ i < lvls - 1, a.pages i = physNull

end Ricerca.Task
