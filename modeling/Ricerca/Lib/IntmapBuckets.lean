import Ricerca.Lib.Intmap
import Ricerca.Lib.ListsRefinement

/-! Maps from integers to nodes as they lie in memory: an array of intrusive lists. They
refine the maps whose buckets are sequences. -/
namespace Ricerca.Lib.Buckets

open Ricerca.Foundation

variable {ν : Type}

/-- `struct intmap`. -/
structure Intmap (ν : Type) where
  bucketsCount : Nat
  nodes : Nat → DList ν

/-- `intmap_init`, when there is memory for the buckets. -/
def intmapInit (buckets : Nat) : Intmap ν := ⟨buckets, fun _ => DList.empty⟩

section Operations

variable [DecidableEq ν] (intmap : Intmap ν) (m : Links ν) (key : ν → UInt64)

/-- Put a list, and the links it leaves, in the place of a bucket. -/
def Intmap.put (mod : Nat) (list : DList ν × Links ν) : Intmap ν × Links ν :=
  ({ intmap with nodes := Function.update intmap.nodes mod list.1 }, list.2)

def intmapInsert (node : ν) : Intmap ν × Links ν :=
  let mod := (key node).toNat % intmap.bucketsCount
  intmap.put mod (listAppendHead (intmap.nodes mod) m node)

/-- The loop of `intmap_search` from a node on. -/
def searchLoop (next : ν → Option ν) (key : ν → UInt64) (k : UInt64) :
    (fuel : Nat) → Option ν → Option (Option ν)
  | _, none => some none
  | 0, some _ => none
  | fuel + 1, some current =>
      if key current = k then some (some current) else searchLoop next key k fuel (next current)

/-- `intmap_search`; nothing is returned while the loop still runs. -/
def intmapSearch (fuel : Nat) (k : UInt64) : Option (Option ν) :=
  let mod := k.toNat % intmap.bucketsCount
  searchLoop m.next key k fuel (intmap.nodes mod).head

end Operations

/-- A search that has come to its end finds the same with more fuel. -/
theorem searchLoop_mono {next : ν → Option ν} {key : ν → UInt64} {k : UInt64} {fuel more : Nat}
    {head result : Option ν} (hFound : searchLoop next key k fuel head = some result)
    (hMore : fuel ≤ more) : searchLoop next key k more head = some result := by
  induction fuel generalizing more head with
  | zero =>
      cases head with
      | none => cases more <;> exact hFound
      | some current => cases hFound
  | succ fuel ih =>
      cases more with
      | zero => omega
      | succ more =>
          cases head with
          | none => exact hFound
          | some current =>
              rw [searchLoop] at hFound ⊢
              split_ifs at hFound ⊢ with hKey
              · exact hFound
              · exact ih hFound (by omega)

/-- The lists in memory hold the nodes of the buckets. -/
structure Holds (intmap : Intmap ν) (m : Links ν) (map : Lib.Intmap ν) : Prop where
  count : intmap.bucketsCount = map.bucketsCount
  lists : ∀ i, Represents m (intmap.nodes i) (map.nodes i)
  apart : ∀ i j, i ≠ j → (map.nodes i).Disjoint (map.nodes j)

namespace Holds

variable {intmap : Intmap ν} {m m' : Links ν} {map : Lib.Intmap ν} {key : ν → UInt64} {node : ν}

theorem init (m : Links ν) (buckets : Nat) :
    Holds (intmapInit buckets) m (Lib.intmapInit buckets : Lib.Intmap ν) where
  count := rfl
  lists _ := .empty m
  apart _ _ _ := List.disjoint_nil_left []

/-- One bucket is replaced. -/
theorem put (h : Holds intmap m map) (i : Nat) {list : DList ν × Links ν} {nodes : List ν}
    (hList : Represents list.2 list.1 nodes) (hSpares : Spares m list.2 nodes)
    (hNodes : ∀ a ∈ nodes, a ∈ map.nodes i ∨ ∀ j, a ∉ map.nodes j) :
    Holds (intmap.put i list).1 (intmap.put i list).2
      { map with nodes := Function.update map.nodes i nodes } := by
  have hApart : ∀ j, j ≠ i → nodes.Disjoint (map.nodes j) := by
    intro j hNe a ha hOther
    rcases hNodes a ha with hOld | hNew
    · exact h.apart j i hNe hOther hOld
    · exact hNew j hOther
  refine ⟨h.count, fun j => ?_, apart_update h.apart hApart⟩
  by_cases hEq : j = i
  · subst hEq
    simpa [Intmap.put] using hList
  · simp only [Intmap.put, Function.update_of_ne hEq]
    exact (h.lists j).congr fun a ha => hSpares a fun hIn => hApart j hEq hIn ha

theorem bucket_eq (h : Holds intmap m map) (k : UInt64) :
    k.toNat % intmap.bucketsCount = map.bucket k := by
  rw [h.count, Intmap.bucket]

theorem insert [DecidableEq ν] (h : Holds intmap m map) (key : ν → UInt64)
    (hNew : ∀ i, node ∉ map.nodes i) :
    Holds (intmapInsert intmap m key node).1 (intmapInsert intmap m key node).2
      (Lib.intmapInsert map key node) := by
  obtain ⟨hList, hSpares⟩ := listAppendHead_spec (h.lists (map.bucket (key node))) (hNew _)
  rw [intmapInsert, h.bucket_eq]
  apply h.put _ hList hSpares
  intro a ha
  rcases List.mem_cons.mp ha with rfl | hOld
  · exact Or.inr hNew
  · exact Or.inl hOld

theorem searchLoop_spec {next : ν → Option ν} {head : Option ν} {nodes : List ν} {fuel : Nat}
    (h : Linked next head nodes) (hFuel : nodes.length ≤ fuel) (k : UInt64) :
    searchLoop next key k fuel head = some (nodes.find? fun current => key current = k) := by
  induction h generalizing fuel with
  | nil => cases fuel <;> rfl
  | @cons current nodes _ ih =>
      cases fuel with
      | zero => simp at hFuel
      | succ fuel =>
          rw [searchLoop, List.find?_cons]
          split_ifs with hKey
          · simp [hKey]
          · simp only [hKey, decide_false]
            exact ih (by simpa using hFuel)

/-- The loop ends after at most as many rounds as there are nodes in the bucket. -/
theorem search [DecidableEq ν] (h : Holds intmap m map) {k : UInt64} {fuel : Nat}
    (hFuel : (map.nodes (map.bucket k)).length ≤ fuel) :
    intmapSearch intmap m key fuel k = some (Lib.intmapSearch map key k) := by
  rw [intmapSearch, h.bucket_eq]
  exact searchLoop_spec (h.lists _).follow.1 hFuel k

/-- The head of one bucket is taken off. -/
theorem removeHead [DecidableEq ν] (h : Holds intmap m map) (i : Nat) :
    (listRemoveHead (intmap.nodes i) m).1 = (map.nodes i).head? ∧
    Holds (intmap.put i (listRemoveHead (intmap.nodes i) m).2).1
      (listRemoveHead (intmap.nodes i) m).2.2 (map.removeHead i) := by
  obtain ⟨hResult, hList, hSpares⟩ := listRemoveHead_spec (h.lists i)
  exact ⟨hResult, h.put i hList hSpares fun a ha => Or.inl (List.mem_of_mem_tail ha)⟩

end Holds

end Ricerca.Lib.Buckets
