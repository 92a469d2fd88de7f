import Ricerca.Foundation.SelectionSort
import Ricerca.Sys.Acpi

/-! NUMA nodes (`sys/numa/numa.c`), the distances between them (`sys/acpi/numa.c`) and the check of
the SLIT (`sys/acpi/acpi.c`). Ids and indices of nodes are below `numa_nodes_size`, which has 32
bits. -/
namespace Ricerca.Numa

open Ricerca.Foundation Ricerca.Acpi

/-- `struct acpi_slit`. The table of lengths is not bounded by the structure. -/
structure Slit where
  localities : Nat
  lengths : Nat → UInt8

/-- The index of a length; it has 64 bits. -/
def Slit.index (slit : Slit) (i j : Nat) : Nat := (i * slit.localities + j) % 2 ^ 64

/-- One round of `acpi_validate_slit`; `none` is a panic. -/
def validateLength (slit : Slit) (i j : Nat) : Option Bool :=
  let length := slit.lengths (slit.index i j)
  if i = j ∧ length ≠ 10 then some false
  else if i ≠ j ∧ length ≤ 10 then some false
  else if length = 255 then none
  else some true

/-- `acpi_validate_slit`. The loops end at the first bad length. -/
def acpiValidateSlit (slit : Slit) : Option Bool :=
  (List.range slit.localities).allM fun i =>
    (List.range slit.localities).allM fun j => validateLength slit i j

/-- `acpi_numa_get_distance`. There is a table only if `acpi_boot_slit` is set. -/
def acpiNumaGetDistance (slit : Option Slit) (id₁ id₂ : Nat) : Nat :=
  match slit with
  | some slit => (slit.lengths (slit.index id₁ id₂)).toNat
  | none => if id₁ = id₂ then 0 else 1

/-- `acpi_numa_enumerate_at_boot`, with the offset of the iterator and whether it has finished;
`none` when its loop takes more rounds than `fuel`. -/
def enumerateAtBoot (srat : Option Table) (fuel : Nat) (iter : Nat × Bool) :
    Option (Option Nat × (Nat × Bool)) :=
  match srat with
  | none => some (if iter.2 then (none, iter) else (some 0, (iter.1, true)))
  | some table =>
      ((Reading.loop (acpiNumaEnumerateAtBoot table) fuel (iter.1, ())).result table).map
        fun r => (r.1, (r.2.1, iter.2))

/-- All ids that an iterator gives, in at most `n` calls. -/
def enumeratedIds (srat : Option Table) (fuel : Nat) : Nat → Nat × Bool → Option (List Nat)
  | 0, _ => none
  | n + 1, iter =>
      match enumerateAtBoot srat fuel iter with
      | none => none
      | some (none, _) => some []
      | some (some id, iter) => (enumeratedIds srat fuel n iter).map (id :: ·)

/-- `struct numa_node`. The pointer to the neighbours is `none` while nothing was stored in it. -/
structure NumaNode where
  initialized : Bool
  neighbours : Option (List Nat)

/-- `numa_nodes`, `numa_nodes_count` and `numa_nodes_size`. -/
structure State where
  nodes : Nat → NumaNode
  count : Nat
  size : Nat

/-- The ids of the nodes that are initialised, in ascending order. -/
def State.ids (s : State) : List Nat := (List.range s.size).filter fun i => (s.nodes i).initialized

/-- The nodes below `i` that are initialised are stored in an array: its cells, and the next index. -/
def collectNodes (nodes : Nat → NumaNode) (junk : Nat → Nat) : Nat → (Nat → Nat) × Nat
  | 0 => (junk, 0)
  | i + 1 =>
      let collected := collectNodes nodes junk i
      if (nodes i).initialized then
        (Function.update collected.1 collected.2 i, collected.2 + 1)
      else collected

/-- `numa_init_neighbour_list`, given what is in the new array at first. -/
def numaInitNeighbourList (slit : Option Slit) (junk : Nat → Nat) (s : State) (id : Nat) : State :=
  let neighboursArray := (collectNodes s.nodes junk s.size).1
  let neighbours := SelectionSort.sorted (acpiNumaGetDistance slit id) s.count neighboursArray
  { s with
    nodes := Function.update s.nodes id { s.nodes id with neighbours := some neighbours } }

/-- `numa_nodes_upper_bound`, for the ids that are enumerated. -/
def numaNodesUpperBound (ids : List Nat) : Nat :=
  (ids.foldl (fun max id => if max < id then id else max) 0 + 1) % 2 ^ 32

/-- One round of the loop of `numa_init` over the enumerated ids. -/
def markNode (s : State) (id : Nat) : State :=
  if (s.nodes id).initialized then s
  else
    { s with
      nodes := Function.update s.nodes id { s.nodes id with initialized := true }
      count := (s.count + 1) % 2 ^ 32 }

/-- The nodes and their number, before neighbour lists are made. -/
def markNodes (ids : List Nat) : State :=
  ids.foldl markNode ⟨fun _ => ⟨false, none⟩, 0, numaNodesUpperBound ids⟩

/-- The loop of `numa_init` over the neighbour lists, after `i` rounds. -/
def initNeighbourLists (slit : Option Slit) (junk : Nat → Nat) (s : State) : Nat → State
  | 0 => s
  | i + 1 =>
      let s' := initNeighbourLists slit junk s i
      if (s'.nodes i).initialized then numaInitNeighbourList slit junk s' i else s'

/-- `numa_init`, for the ids that are enumerated. -/
def numaInit (slit : Option Slit) (junk : Nat → Nat) (ids : List Nat) : State :=
  initNeighbourLists slit junk (markNodes ids) (markNodes ids).count

/-- The nodes that the loops of `mem_phys_alloc_on_behalf` and `mem_heap_alloc_on_behalf` read from
the list of a node; `none` if one of them was never stored. -/
def neighboursRead (s : State) (id : Nat) : Option (List Nat) :=
  (List.range s.count).mapM fun i => (s.nodes id).neighbours.bind (·[i]?)

end Ricerca.Numa
