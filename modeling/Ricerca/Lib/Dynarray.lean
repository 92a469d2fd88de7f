import Ricerca.Mem.HeapReallocSafety

/-! Dynamic arrays (`lib/dynarray.h`). The number of elements and the capacity stand in front
of the elements, in one block of the kernel heap; the address of a dynarray is that of its
first element. -/
namespace Ricerca.Dynarray

open Ricerca.Foundation Ricerca.Heap

/-- `DYNARRAY_GROWTH_DELTA`. -/
def dynarrayGrowthDelta : Nat := 16

/-- `sizeof(struct dynarray_meta)`: `count` at offset 0, `capacity` at offset 8. -/
def dynarrayMetaSize : Nat := 16

/-- A `size_t` in memory. -/
def sizeAt (mem : Nat → Nat) (a : Nat) : Nat := mem a % 2 ^ 64

def setSize (s : State) (a v : Nat) : State :=
  { s with mem := Function.update s.mem a (v % 2 ^ 64) }

def dynarrayToMeta (dynarray : Nat) : Nat := dynarray - dynarrayMetaSize

/-- The size of a block with room for `capacity` elements. -/
def totalSize (capacity len : Nat) : Nat := (dynarrayMetaSize + capacity * len) % 2 ^ 64

/-- `mem_heap_realloc`, with what is held afterwards. -/
def realloc (win : Nat) (s : State) (mem newsize oldsize id : Nat) (pmm : Nat → Option Nat) :
    Option Nat × State :=
  let outcome := memHeapRealloc win s.toKernelHeap mem newsize oldsize id pmm
  (outcome.1, ⟨outcome.2, reallocLive s.live mem newsize oldsize outcome.1⟩)

def dynarrayNew (win : Nat) (s : State) (id : Nat) (pmm : Nat → Option Nat) : Option Nat × State :=
  match memHeapAllocOnBehalf win s.toKernelHeap dynarrayMetaSize id pmm with
  | (none, h) => (none, ⟨h, s.live⟩)
  | (some metadata, h) =>
      (some (metadata + dynarrayMetaSize),
        setSize (setSize ⟨h, (metadata, dynarrayMetaSize) :: s.live⟩ metadata 0) (metadata + 8) 0)

/-- `dynarray_change_cap`: the new metadata, or `none` for `NULL`. An array that cannot be
moved to a smaller block stays where it is, with its capacity. -/
def dynarrayChangeCap (win : Nat) (s : State) (metadata len newcap id : Nat)
    (pmm : Nat → Option Nat) : Option Nat × State :=
  let capacity := sizeAt s.mem (metadata + 8)
  match realloc win s metadata (totalSize newcap len) (totalSize capacity len) id pmm with
  | (none, s') => (if newcap ≤ sizeAt s'.mem (metadata + 8) then some metadata else none, s')
  | (some newMeta, s') => (some newMeta, setSize s' (newMeta + 8) newcap)

/-- Copy the element behind the last one, and count it. -/
def appendElement (s : State) (metadata : Nat) (elem : List UInt8) : State :=
  let offset := sizeAt s.mem metadata * elem.length % 2 ^ 64
  let s' := { s with mem := storeBytes s.mem (metadata + (dynarrayMetaSize + offset)) elem }
  setSize s' metadata (sizeAt s'.mem metadata + 1)

def dynarrayPush (win : Nat) (s : State) (dynarray : Nat) (elem : List UInt8) (id : Nat)
    (pmm : Nat → Option Nat) : Option Nat × State :=
  let metadata := dynarrayToMeta dynarray
  let capacity := sizeAt s.mem (metadata + 8)
  if sizeAt s.mem metadata < capacity then (some dynarray, appendElement s metadata elem)
  else
    match dynarrayChangeCap win s metadata elem.length
        ((capacity + dynarrayGrowthDelta) % 2 ^ 64) id pmm with
    | (none, s') => (none, s')
    | (some newMeta, s') => (some (newMeta + dynarrayMetaSize), appendElement s' newMeta elem)

/-- `align_up` to the growth delta. -/
def newCapacity (newsize : Nat) : Nat :=
  alignDown ((newsize + (dynarrayGrowthDelta - 1)) % 2 ^ 64) dynarrayGrowthDelta

def dynarrayResize (win : Nat) (s : State) (dynarray len newsize id : Nat)
    (pmm : Nat → Option Nat) : Option Nat × State :=
  let metadata := dynarrayToMeta dynarray
  let newcap := newCapacity newsize
  if newcap = sizeAt s.mem (metadata + 8) then (some dynarray, setSize s metadata newsize)
  else
    match dynarrayChangeCap win s metadata len newcap id pmm with
    | (none, s') => (none, s')
    | (some newMeta, s') => (some (newMeta + dynarrayMetaSize), setSize s' newMeta newsize)

/-- The pointer that `dynarray_destroy` frees, and the size that it computes. -/
def destroyed (mem : Nat → Nat) (dynarray len : Nat) : Nat × Nat :=
  (dynarrayToMeta dynarray, totalSize (sizeAt mem (dynarrayToMeta dynarray + 8)) len)

def dynarrayLen (mem : Nat → Nat) (dynarray : Nat) : Nat := sizeAt mem (dynarrayToMeta dynarray)

/-- The heap, and the variable through which a client reaches its dynarray. -/
structure Client extends State where
  dynarray : Nat

inductive Event where
  | push (elem : List UInt8) (result : Option Nat)
  | resize (newsize : Nat) (result : Option Nat)
  | other

/-- There is no room for another element. -/
def Full (mem : Nat → Nat) (dynarray : Nat) : Prop :=
  sizeAt mem (dynarrayToMeta dynarray + 8) ≤ dynarrayLen mem dynarray

/-- The client pushes or resizes, where the sizes that the call computes do not wrap around, and
keeps its pointer when the call fails; or others use the heap, but not the block of the array. -/
inductive Step (win len : Nat) : Client → Event → Client → Prop where
  | push {c : Client} {elem : List UInt8} {id : Nat} {pmm : Nat → Option Nat}
      {result : Option Nat} {s : State} (hElem : elem.length = len)
      (hFits : Full c.mem c.dynarray → dynarrayMetaSize +
        (sizeAt c.mem (dynarrayToMeta c.dynarray + 8) + dynarrayGrowthDelta) * len < 2 ^ 64)
      (hSlots : Full c.mem c.dynarray →
        sizeAt c.mem (dynarrayToMeta c.dynarray + 8) + dynarrayGrowthDelta < 2 ^ 64)
      (hPhys : ∀ i addr, pmm i = some addr → PageGrant win c.phys (physRequest (totalSize
        (sizeAt c.mem (dynarrayToMeta c.dynarray + 8) + dynarrayGrowthDelta) len)) addr)
      (hPush : dynarrayPush win c.toState c.dynarray elem id pmm = (result, s)) :
      Step win len c (.push elem result) ⟨s, result.getD c.dynarray⟩
  | resize {c : Client} {newsize id : Nat} {pmm : Nat → Option Nat} {result : Option Nat}
      {s : State} (hSlots : newsize + (dynarrayGrowthDelta - 1) < 2 ^ 64)
      (hFits : dynarrayMetaSize + newCapacity newsize * len < 2 ^ 64)
      (hPhys : ∀ i addr, pmm i = some addr →
        PageGrant win c.phys (physRequest (totalSize (newCapacity newsize) len)) addr)
      (hResize : dynarrayResize win c.toState c.dynarray len newsize id pmm = (result, s)) :
      Step win len c (.resize newsize result) ⟨s, result.getD c.dynarray⟩
  | other {c : Client} {event : ReallocEvent} {s : State}
      (hStep : ReallocStep win c.toState event s)
      (hNames : ¬event.Names (dynarrayToMeta c.dynarray))
      (hStore : event = .store → ∀ x,
        (classBlock (destroyed c.mem c.dynarray len)).Contains x → s.mem x = c.mem x) :
      Step win len c .other ⟨s, c.dynarray⟩

/-- All uses of a dynarray from its creation on, at any time in the life of the heap. -/
def system (win count len : Nat) : System Client Event where
  init c := ∃ trace s id pmm, (reallocSystem win count).Execution trace s ∧
    (∀ i addr, pmm i = some addr → PageGrant win s.phys (physRequest dynarrayMetaSize) addr) ∧
    dynarrayNew win s id pmm = (some c.dynarray, c.toState)
  step := Step win len

/-- What the operations do to a list of elements. New elements that a resize makes room for may
be anything. -/
inductive ListStep : List (List UInt8) → Event → List (List UInt8) → Prop where
  | push {xs : List (List UInt8)} {x : List UInt8} {dynarray : Nat} :
      ListStep xs (.push x (some dynarray)) (xs ++ [x])
  | pushFails {xs : List (List UInt8)} {x : List UInt8} : ListStep xs (.push x none) xs
  | resize {xs ys : List (List UInt8)} {newsize dynarray : Nat} (hLength : ys.length = newsize)
      (hKept : ys.take (min xs.length newsize) = xs.take (min xs.length newsize)) :
      ListStep xs (.resize newsize (some dynarray)) ys
  | resizeFails {xs : List (List UInt8)} {newsize : Nat} : ListStep xs (.resize newsize none) xs
  | other {xs : List (List UInt8)} : ListStep xs .other xs

def listSystem : System (List (List UInt8)) Event where
  init xs := xs = []
  step := ListStep

end Ricerca.Dynarray
