import Mathlib.Data.List.Find
import Ricerca.Foundation.Blocks

/-! Maps from integers to nodes (`lib/intmap.h`). The key is a field of the node, so
the functions get it as `key`. A bucket is the list of its nodes, from the head on. -/
namespace Ricerca.Lib

open Ricerca.Foundation

variable {ν : Type}

/-- `struct intmap`. -/
structure Intmap (ν : Type) where
  bucketsCount : Nat
  nodes : Nat → List ν

/-- `intmap_init`, when there is memory for the buckets. -/
def intmapInit (buckets : Nat) : Intmap ν := ⟨buckets, fun _ => []⟩

section Operations

variable (map : Intmap ν) (key : ν → UInt64)

/-- The bucket of a key. -/
def Intmap.bucket (map : Intmap ν) (k : UInt64) : Nat := k.toNat % map.bucketsCount

def intmapInsert (node : ν) : Intmap ν :=
  let mod := map.bucket (key node)
  { map with nodes := Function.update map.nodes mod (node :: map.nodes mod) }

def intmapSearch (k : UInt64) : Option ν :=
  (map.nodes (map.bucket k)).find? fun current => key current = k

def intmapRemove [DecidableEq ν] (node : ν) : Intmap ν :=
  let mod := map.bucket (key node)
  { map with nodes := Function.update map.nodes mod ((map.nodes mod).erase node) }

/-- Take the head off one bucket, as a loop over all nodes does. -/
def Intmap.removeHead (map : Intmap ν) (i : Nat) : Intmap ν :=
  { map with nodes := Function.update map.nodes i (map.nodes i).tail }

end Operations

/-- All nodes, bucket by bucket. -/
def Intmap.all (map : Intmap ν) : List ν := (List.range map.bucketsCount).flatMap map.nodes

/-- Every node stands in the bucket of its key. -/
def Intmap.Hashed (map : Intmap ν) (key : ν → UInt64) : Prop :=
  ∀ i < map.bucketsCount, ∀ node ∈ map.nodes i, map.bucket (key node) = i

section Lemmas

variable {map : Intmap ν} {key key' : ν → UInt64} {node : ν}

theorem mem_all :
    node ∈ map.all ↔ ∃ i < map.bucketsCount, node ∈ map.nodes i := by
  simp [Intmap.all]

theorem all_init (buckets : Nat) : (intmapInit buckets : Intmap ν).all = [] := by
  simp [Intmap.all, intmapInit]

theorem bucket_lt (hCount : 0 < map.bucketsCount) (k : UInt64) : map.bucket k < map.bucketsCount :=
  Nat.mod_lt _ hCount

theorem all_insert (hCount : 0 < map.bucketsCount) (key : ν → UInt64) (node : ν) :
    (intmapInsert map key node).all.Perm (node :: map.all) := by
  refine flatMap_range_perm_cons (bucket_lt hCount (key node)) ?_ fun i hi => ?_
  · simp [intmapInsert]
  · simp [intmapInsert, Function.update_of_ne hi]

/-- The search finds a node with the key that stands in the map. -/
theorem search_mem (hCount : 0 < map.bucketsCount) {k : UInt64}
    (h : intmapSearch map key k = some node) :
    node ∈ map.all ∧ key node = k ∧ node ∈ map.nodes (map.bucket (key node)) := by
  have hKey : key node = k := by simpa using List.find?_some h
  have hMem := List.mem_of_find?_eq_some h
  exact ⟨mem_all.mpr ⟨_, bucket_lt hCount k, hMem⟩, hKey, hKey ▸ hMem⟩

/-- The search misses no node. -/
theorem search_isSome (hHashed : map.Hashed key) (hMem : node ∈ map.all) :
    (intmapSearch map key (key node)).isSome := by
  obtain ⟨i, hi, hNode⟩ := mem_all.mp hMem
  rw [intmapSearch, List.find?_isSome]
  exact ⟨node, by rwa [hHashed i hi node hNode], by simp⟩

theorem search_congr {k : UInt64} (hSame : ∀ n ∈ map.nodes (map.bucket k), key' n = key n) :
    intmapSearch map key' k = intmapSearch map key k := by
  apply List.find?_congr
  intro n hMem
  rw [hSame n hMem]

/-- A new node is found under its key, in front of all others. -/
theorem search_insert (k : UInt64) : intmapSearch (intmapInsert map key node) key k =
    if key node = k then some node else intmapSearch map key k := by
  have hBucket : (intmapInsert map key node).bucket k = map.bucket k := rfl
  rw [intmapSearch, hBucket]
  simp only [intmapInsert]
  by_cases hHere : map.bucket k = map.bucket (key node)
  · rw [hHere, Function.update_self, List.find?_cons]
    by_cases hKey : key node = k
    · simp [hKey]
    · simp [hKey, intmapSearch, hHere]
  · have hKey : key node ≠ k := by
      rintro rfl
      exact hHere rfl
    rw [Function.update_of_ne hHere, if_neg hKey, intmapSearch]

theorem all_remove [DecidableEq ν] (hCount : 0 < map.bucketsCount) (hMem : node ∈ map.nodes (map.bucket (key node))) :
    map.all.Perm (node :: (intmapRemove map key node).all) := by
  refine flatMap_range_perm_cons (bucket_lt hCount (key node)) ?_ fun i hi => ?_
  · simp only [intmapRemove, Function.update_self]
    exact List.perm_cons_erase hMem
  · simp [intmapRemove, Function.update_of_ne hi]

theorem all_removeHead {i : Nat} (hi : i < map.bucketsCount) {rest : List ν}
    (hHead : map.nodes i = node :: rest) : map.all.Perm (node :: (map.removeHead i).all) := by
  refine flatMap_range_perm_cons hi ?_ fun j hj => ?_
  · simp [Intmap.removeHead, hHead]
  · simp [Intmap.removeHead, Function.update_of_ne hj]

theorem Intmap.Hashed.congr (h : map.Hashed key) (hSame : ∀ n ∈ map.all, key' n = key n) :
    map.Hashed key' := by
  intro i hi n hn
  rw [hSame n (mem_all.mpr ⟨i, hi, hn⟩)]
  exact h i hi n hn

theorem Intmap.Hashed.insert (h : map.Hashed key) (node : ν) : (intmapInsert map key node).Hashed key := by
  intro i hi n hn
  simp only [intmapInsert] at hn
  by_cases hEq : i = map.bucket (key node)
  · subst hEq
    rw [Function.update_self] at hn
    rcases List.mem_cons.mp hn with rfl | hn
    · rfl
    · exact h _ hi n hn
  · rw [Function.update_of_ne hEq] at hn
    exact h i hi n hn

/-- Fewer nodes in every bucket. -/
theorem Intmap.Hashed.sub {map' : Intmap ν} (h : map.Hashed key)
    (hCount : map'.bucketsCount = map.bucketsCount)
    (hSub : ∀ i, ∀ n ∈ map'.nodes i, n ∈ map.nodes i) : map'.Hashed key := by
  intro i hi n hn
  rw [Intmap.bucket, hCount]
  exact h i (hCount ▸ hi) n (hSub i n hn)

theorem Intmap.Hashed.remove [DecidableEq ν] (h : map.Hashed key) (node : ν) :
    (intmapRemove map key node).Hashed key := by
  refine h.sub rfl fun i n hn => ?_
  simp only [intmapRemove] at hn
  by_cases hEq : i = map.bucket (key node)
  · subst hEq
    rw [Function.update_self] at hn
    exact List.mem_of_mem_erase hn
  · rwa [Function.update_of_ne hEq] at hn

theorem Intmap.Hashed.removeHead (h : map.Hashed key) (j : Nat) : (map.removeHead j).Hashed key := by
  refine h.sub rfl fun i n hn => ?_
  simp only [Intmap.removeHead] at hn
  by_cases hEq : i = j
  · subst hEq
    rw [Function.update_self] at hn
    exact List.mem_of_mem_tail hn
  · rwa [Function.update_of_ne hEq] at hn

end Lemmas

end Ricerca.Lib
