import Ricerca.User.Tls

/-! The table refines a total map from keys to values: it gives back what was set last, with
each key in one node, and its destruction gives every node back. -/
namespace Ricerca.Tls

open Ricerca.Foundation Ricerca.Lib
open Ricerca.Cookie (Status)

variable {ν : Type} {s s' : State ν} {map : Lib.Intmap ν} {key value : UInt64} {fuel : Nat}

/-- The invariant of a table: its nodes are those that the heap has handed out, each in the
bucket of its key, and no two with the same key. -/
structure Sound (s : State ν) (map : Lib.Intmap ν) : Prop where
  holds : Buckets.Holds s.keys s.links map
  count : map.bucketsCount = userTlsBuckets
  beyond : ∀ i, userTlsBuckets ≤ i → map.nodes i = []
  hashed : map.Hashed s.key
  unique : (map.all.map s.key).Nodup
  allocated : map.all.Perm s.allocated
  freed : s.freed = []

/-- What the table says about a key. -/
def State.lookup (s : State ν) (map : Lib.Intmap ν) (key : UInt64) : UInt64 :=
  match Lib.intmapSearch map s.key key with
  | some node => (s.nodes node).value
  | none => 0

namespace Sound

theorem count_pos (h : Sound s map) : 0 < map.bucketsCount := by
  rw [h.count]
  decide

theorem bucket_length_le (h : Sound s map) (i : Nat) : (map.nodes i).length ≤ s.allocated.length := by
  rw [← h.allocated.length_eq]
  rcases Nat.lt_or_ge i userTlsBuckets with hIn | hOut
  · have hMem : i ∈ List.range map.bucketsCount := List.mem_range.mpr (h.count ▸ hIn)
    rw [Intmap.all, List.flatMap_def]
    exact (List.sublist_flatten_of_mem (List.mem_map_of_mem hMem)).length_le
  · rw [h.beyond i hOut]
    exact Nat.zero_le _

theorem search [DecidableEq ν] (h : Sound s map) (hFuel : s.allocated.length ≤ fuel) (k : UInt64) :
    Buckets.intmapSearch s.keys s.links s.key fuel k = some (Lib.intmapSearch map s.key k) :=
  h.holds.search (Nat.le_trans (h.bucket_length_le _) hFuel)

theorem getKey [DecidableEq ν] (h : Sound s map) (hFuel : s.allocated.length ≤ fuel) (k : UInt64) :
    userTlsTableGetKey fuel s k = some (s.lookup map k) := by
  rw [userTlsTableGetKey, h.search hFuel, State.lookup]
  cases Lib.intmapSearch map s.key k <;> rfl

/-- A node that the table does not have is in none of its buckets. -/
theorem notMem_nodes (h : Sound s map) {node : ν} (hNew : node ∉ s.allocated) (i : Nat) :
    node ∉ map.nodes i := by
  intro hMem
  rcases Nat.lt_or_ge i userTlsBuckets with hIn | hOut
  · apply hNew
    exact h.allocated.mem_iff.mp (mem_all.mpr ⟨i, h.count ▸ hIn, hMem⟩)
  · rw [h.beyond i hOut] at hMem
    cases hMem

/-- A key that the table has is given another value. -/
theorem update [DecidableEq ν] (h : Sound s map) {node : ν}
    (hFound : Lib.intmapSearch map s.key key = some node) (value : UInt64) :
    let s' := { s with nodes := Function.update s.nodes node { s.nodes node with value := value } }
    Sound s' map ∧ ∀ k, s'.lookup map k = if k = key then value else s.lookup map k := by
  intro s'
  have hKey : s'.key = s.key := by
    funext n
    by_cases hEq : n = node
    · subst hEq
      simp [s', State.key]
    · simp [s', State.key, hEq]
  refine ⟨⟨h.holds, h.count, h.beyond, hKey ▸ h.hashed, hKey ▸ h.unique, h.allocated, h.freed⟩, ?_⟩
  intro k
  simp only [State.lookup, hKey]
  by_cases hSame : k = key
  · rw [if_pos hSame, hSame, hFound]
    simp [s']
  · rw [if_neg hSame]
    cases hOther : Lib.intmapSearch map s.key k with
    | none => rfl
    | some other =>
        have hNe : other ≠ node := by
          rintro rfl
          have hFirst := (search_mem h.count_pos hFound).2.1
          have hSecond := (search_mem h.count_pos hOther).2.1
          exact hSame (hSecond.symm.trans hFirst)
        simp [s', hNe]

/-- A key that the table does not have is put into a new node. -/
theorem insert [DecidableEq ν] (h : Sound s map) {node : ν} (hNew : node ∉ s.allocated)
    (hNone : Lib.intmapSearch map s.key key = none) (value : UInt64) :
    let filled := { s with
      nodes := Function.update s.nodes node ⟨key, value⟩, allocated := node :: s.allocated }
    let inserted := Buckets.intmapInsert filled.keys filled.links filled.key node
    let s' := { filled with keys := inserted.1, links := inserted.2 }
    Sound s' (Lib.intmapInsert map s'.key node) ∧
      ∀ k, s'.lookup (Lib.intmapInsert map s'.key node) k = if k = key then value else s.lookup map k := by
  intro filled inserted s'
  have hNode : s'.key node = key := by simp [s', filled, State.key]
  have hOld : ∀ n, n ≠ node → s'.nodes n = s.nodes n := fun n hNe => by simp [s', filled, hNe]
  have hOutside : ∀ i, ∀ n ∈ map.nodes i, n ≠ node := by
    rintro i n hMem rfl
    exact h.notMem_nodes hNew i hMem
  have hKeys : ∀ i, ∀ n ∈ map.nodes i, s'.key n = s.key n := by
    intro i n hMem
    rw [State.key, State.key, hOld n (hOutside i n hMem)]
  have hAll : ∀ n ∈ map.all, s'.key n = s.key n := by
    intro n hMem
    obtain ⟨i, -, hIn⟩ := mem_all.mp hMem
    exact hKeys i n hIn
  have hPerm := all_insert h.count_pos s'.key node
  refine ⟨⟨h.holds.insert s'.key (h.notMem_nodes hNew), h.count, ?_, ?_, ?_, ?_, h.freed⟩, ?_⟩
  · intro i hi
    have hBucket : map.bucket (s'.key node) < userTlsBuckets := h.count ▸ bucket_lt h.count_pos _
    have hNe : i ≠ map.bucket (s'.key node) := by omega
    simp only [Lib.intmapInsert, Function.update_of_ne hNe]
    exact h.beyond i hi
  · exact (h.hashed.congr hAll).insert node
  · apply (hPerm.map s'.key).nodup_iff.mpr
    rw [List.map_cons, List.map_congr_left hAll, hNode]
    refine List.nodup_cons.mpr ⟨fun hMem => ?_, h.unique⟩
    obtain ⟨other, hOther, hSame⟩ := List.mem_map.mp hMem
    have hFound := search_isSome h.hashed hOther
    rw [hSame, hNone] at hFound
    cases hFound
  · exact hPerm.trans (h.allocated.cons node)
  · intro k
    rw [State.lookup, search_insert, hNode]
    by_cases hSame : k = key
    · subst hSame
      simp [s', filled]
    · rw [if_neg (Ne.symm hSame), if_neg hSame, search_congr (hKeys _), State.lookup]
      cases hOther : Lib.intmapSearch map s.key k with
      | none => rfl
      | some other =>
          have hNe := hOutside _ other (List.mem_of_find?_eq_some hOther)
          simp only [hOld other hNe]

/-- A call that had enough fuel does the same with more. -/
theorem setKey_mono [DecidableEq ν] {more : Nat} {answer : Option ν} {result : Status × State ν}
    (hSet : userTlsTableSetKey fuel s key value answer = some result) (hMore : fuel ≤ more) :
    userTlsTableSetKey more s key value answer = some result := by
  unfold userTlsTableSetKey at hSet ⊢
  rw [Option.bind_eq_bind, Option.bind_eq_some_iff] at hSet ⊢
  obtain ⟨found, hSearch, hRest⟩ := hSet
  exact ⟨found, Buckets.searchLoop_mono hSearch hMore, hRest⟩

/-- What a call returns and does. -/
theorem setKey [DecidableEq ν] (h : Sound s map) {answer : Option ν}
    (hFresh : ∀ node, answer = some node → node ∉ s.allocated)
    (hFuel : s.allocated.length ≤ fuel) (key value : UInt64) :
    ∃ status s' map', userTlsTableSetKey fuel s key value answer = some (status, s') ∧
      Sound s' map' ∧
      (∀ k, s'.lookup map' k = if key = k ∧ status = .success then value else s.lookup map k) ∧
      (status = .success ∨ status = .outOfMemory ∧ s' = s ∧ answer = none) := by
  have hStart : userTlsTableSetKey fuel s key value answer =
      Option.bind (some (Lib.intmapSearch map s.key key)) _ :=
    congrArg (Option.bind · _) (h.search hFuel key)
  rw [hStart, Option.bind_some]
  cases hSearch : Lib.intmapSearch map s.key key with
  | some node =>
      obtain ⟨hSound, hLookup⟩ := h.update hSearch value
      refine ⟨.success, _, map, rfl, hSound, fun k => ?_, Or.inl rfl⟩
      rw [hLookup k]
      simp only [and_true, eq_comm]
  | none =>
      cases answer with
      | none =>
          refine ⟨.outOfMemory, s, map, rfl, h, fun k => ?_, Or.inr ⟨rfl, rfl, rfl⟩⟩
          simp
      | some node =>
          obtain ⟨hSound, hLookup⟩ := h.insert (hFresh node rfl) hSearch value
          refine ⟨.success, _, _, rfl, hSound, fun k => ?_, Or.inl rfl⟩
          rw [hLookup k]
          simp only [and_true, eq_comm]

end Sound

section Runs

variable [DecidableEq ν] {links : Links ν} {nodes : ν → UserTlsNode} {trace : List SetKey}

theorem lastSet_append (trace : List SetKey) (call : SetKey) (k : UInt64) :
    lastSet (trace ++ [call]) k =
      if call.key = k ∧ call.status = .success then call.value else lastSet trace k := by
  rw [lastSet, List.foldl_append]
  rfl

/-- What one call of a run does. -/
theorem Sound.step (h : Sound s map) {call : SetKey} (hStep : (system links nodes).step s call s') :
    ∃ map', Sound s' map' ∧
      (∀ k, s'.lookup map' k =
        if call.key = k ∧ call.status = .success then call.value else s.lookup map k) ∧
      (call.status = .success ∨ call.status = .outOfMemory ∧ s' = s) := by
  obtain ⟨fuel, answer, hFresh, hSet⟩ := hStep
  have hMore := Sound.setKey_mono hSet (Nat.le_max_left fuel s.allocated.length)
  obtain ⟨status, after, map', hResult, hSound, hLookup, hStatus⟩ :=
    h.setKey hFresh (Nat.le_max_right fuel s.allocated.length) call.key call.value
  rw [hMore] at hResult
  cases hResult
  refine ⟨map', hSound, hLookup, hStatus.imp_right fun hFailed => ?_⟩
  exact ⟨hFailed.1, hFailed.2.1⟩

theorem sound_run (run : (system links nodes).Execution trace s) :
    ∃ map, Sound s map ∧ ∀ k, s.lookup map k = lastSet trace k := by
  induction run with
  | start h =>
      cases h
      refine ⟨Lib.intmapInit userTlsBuckets, ⟨.init links _, rfl, fun _ _ => rfl, ?_, ?_, ?_, rfl⟩, ?_⟩
      · intro i _ n hMem
        cases hMem
      · rw [all_init]
        exact List.nodup_nil
      · rw [all_init]
      · intro k
        rfl
  | step prior last ih =>
      obtain ⟨map, hSound, hLookup⟩ := ih
      obtain ⟨map', hSound', hLookup', -⟩ := hSound.step last
      refine ⟨map', hSound', fun k => ?_⟩
      rw [hLookup', lastSet_append, hLookup]

end Runs

section Destroy

variable [DecidableEq ν]

theorem removeHead_spec (h : Buckets.Holds s.keys s.links map) {i : Nat} {nodes : List ν}
    (hNodes : map.nodes i = nodes) :
    ∃ s', s.removeHead i = (nodes.head?, s') ∧ s'.freed = s.freed ∧
      Buckets.Holds s'.keys s'.links (map.removeHead i) := by
  obtain ⟨hResult, hHolds⟩ := h.removeHead i
  rw [hNodes] at hResult
  exact ⟨(s.removeHead i).2, Prod.ext hResult rfl, rfl, hHolds⟩

/-- The loop over one bucket gives back its nodes, from the head on. -/
theorem destroyBucket_spec (h : Buckets.Holds s.keys s.links map) {i : Nat} {nodes : List ν}
    (hNodes : map.nodes i = nodes) (hFuel : nodes.length < fuel) :
    ∃ s', destroyBucket i fuel s = some s' ∧
      Buckets.Holds s'.keys s'.links { map with nodes := Function.update map.nodes i [] } ∧
      s'.freed = s.freed ++ nodes.map .node := by
  induction nodes generalizing s map fuel with
  | nil =>
      cases fuel with
      | zero => cases hFuel
      | succ fuel =>
          obtain ⟨s', hRemove, hFreed, hHolds⟩ := removeHead_spec h hNodes
          rw [Intmap.removeHead, hNodes] at hHolds
          refine ⟨s', by rw [destroyBucket, hRemove]; rfl, hHolds, ?_⟩
          rw [hFreed, List.map_nil, List.append_nil]
  | cons node nodes ih =>
      cases fuel with
      | zero => cases hFuel
      | succ fuel =>
          obtain ⟨s₁, hRemove, hFreed₁, hHolds₁⟩ := removeHead_spec h hNodes
          have hRest : (map.removeHead i).nodes i = nodes := by
            simp [Intmap.removeHead, hNodes]
          obtain ⟨s₂, hDestroy, hHolds₂, hFreed₂⟩ := ih
            (s := { s₁ with freed := s₁.freed ++ [.node node] }) hHolds₁ hRest
            (Nat.lt_of_succ_lt_succ hFuel)
          refine ⟨s₂, ?_, ?_, ?_⟩
          · rw [destroyBucket, hRemove]
            exact hDestroy
          · simpa [Intmap.removeHead] using hHolds₂
          · rw [hFreed₂, List.append_assoc, hFreed₁]
            rfl

/-- And the loop over the buckets gives back all nodes. -/
theorem destroyBuckets_spec (h : Buckets.Holds s.keys s.links map) {buckets : List Nat}
    (hNodup : buckets.Nodup) (hFuel : ∀ i ∈ buckets, (map.nodes i).length < fuel) :
    ∃ s', buckets.foldlM (fun s i => destroyBucket i fuel s) s = some s' ∧
      s'.freed = s.freed ++ (buckets.flatMap map.nodes).map .node := by
  induction buckets generalizing s map with
  | nil => exact ⟨s, rfl, (List.append_nil _).symm⟩
  | cons i buckets ih =>
      obtain ⟨hNotIn, hNodup⟩ := List.nodup_cons.mp hNodup
      have hSame : ∀ j ∈ buckets, Function.update map.nodes i [] j = map.nodes j := by
        intro j hMem
        apply Function.update_of_ne
        rintro rfl
        exact hNotIn hMem
      obtain ⟨s₁, hFirst, hHolds, hFreed₁⟩ :=
        destroyBucket_spec h rfl (hFuel i (List.mem_cons_self ..))
      have hFuel' : ∀ j ∈ buckets, (Function.update map.nodes i [] j).length < fuel := by
        intro j hMem
        rw [hSame j hMem]
        exact hFuel j (List.mem_cons_of_mem _ hMem)
      obtain ⟨s₂, hRest, hFreed₂⟩ := ih hHolds hNodup hFuel'
      refine ⟨s₂, ?_, ?_⟩
      · rw [List.foldlM_cons, hFirst]
        exact hRest
      · rw [hFreed₂, hFreed₁, List.flatMap_cons, List.map_append, List.append_assoc,
          List.flatMap_congr hSame]

theorem Sound.destroy (h : Sound s map) (hFuel : s.allocated.length < fuel) :
    ∃ s', userTlsTableDestroy fuel s = some s' ∧
      s'.freed = map.all.map .node ++ [.buckets, .table] := by
  obtain ⟨s', hDestroy, hFreed⟩ := destroyBuckets_spec h.holds (List.nodup_range (n := userTlsBuckets))
    fun i _ => Nat.lt_of_le_of_lt (h.bucket_length_le i) hFuel
  refine ⟨{ s' with freed := s'.freed ++ [.buckets, .table] }, ?_, ?_⟩
  · rw [userTlsTableDestroy, hDestroy]
    rfl
  · rw [hFreed, h.freed, List.nil_append, Intmap.all, h.count]

end Destroy

/-- After any sequence of calls, the table gives back the value of the last successful call
for each key, or 0; a call fails only for want of memory and then leaves the table as it
was; the nodes that the buckets lead to have different keys and are those that the heap has
handed out; and destroying the table gives each of them back once. -/
theorem tls_table_refines_map [DecidableEq ν] {links : Links ν} {nodes : ν → UserTlsNode}
    {trace : List SetKey} (run : (system links nodes).Execution trace s) :
    (∀ fuel, s.allocated.length ≤ fuel →
      (∀ k, userTlsTableGetKey fuel s k = some (lastSet trace k)) ∧
      ∀ key value answer, (∀ node, answer = some node → node ∉ s.allocated) →
        ∃ status s', userTlsTableSetKey fuel s key value answer = some (status, s')) ∧
    (∀ call s', (system links nodes).step s call s' →
      call.status = .success ∨ call.status = .outOfMemory ∧ s' = s) ∧
    ∃ buckets : Nat → List ν,
      (∀ i < userTlsBuckets, Linked s.links.next (s.keys.nodes i).head (buckets i)) ∧
      let stored := (List.range userTlsBuckets).flatMap buckets
      (stored.map s.key).Nodup ∧ stored.Nodup ∧ stored.Perm s.allocated ∧
      ∀ fuel, s.allocated.length < fuel → ∃ s', userTlsTableDestroy fuel s = some s' ∧
        s'.freed = stored.map .node ++ [.buckets, .table] := by
  obtain ⟨map, hSound, hLookup⟩ := sound_run run
  have hAll : (List.range userTlsBuckets).flatMap map.nodes = map.all := by
    rw [Intmap.all, hSound.count]
  refine ⟨fun fuel hFuel => ⟨fun k => ?_, fun key value answer hFresh => ?_⟩, ?_, map.nodes, ?_, ?_⟩
  · rw [hSound.getKey hFuel, hLookup]
  · obtain ⟨status, s', -, hSet, -⟩ := hSound.setKey hFresh hFuel key value
    exact ⟨status, s', hSet⟩
  · intro call s' hStep
    obtain ⟨-, -, -, hStatus⟩ := hSound.step hStep
    exact hStatus
  · intro i _
    exact (hSound.holds.lists i).follow.1
  · rw [hAll]
    exact ⟨hSound.unique, hSound.unique.of_map, hSound.allocated, fun fuel hFuel => hSound.destroy hFuel⟩

/-- Two keys of one bucket. -/
theorem tls_table_refines_map_collision :
    ∃ s : State Nat, ∃ fuel, userTlsTableGetKey fuel s 1 = some 5 ∧
      userTlsTableGetKey fuel s 17 = some 6 ∧ userTlsTableGetKey fuel s 33 = some 0 := by
  let links : Links Nat := ⟨some, some⟩
  let nodes : Nat → UserTlsNode := fun _ => ⟨1, 2⟩
  let s₀ : State Nat := ⟨Buckets.intmapInit userTlsBuckets, links, nodes, [], []⟩
  let filled : State Nat := { s₀ with nodes := Function.update nodes 0 ⟨1, 5⟩, allocated := [0] }
  let inserted := Buckets.intmapInsert filled.keys filled.links filled.key 0
  let s₁ : State Nat := { filled with keys := inserted.1, links := inserted.2 }
  have first : (system links nodes).step s₀ ⟨1, 5, .success⟩ s₁ := by
    refine ⟨0, some 0, fun node _ hMem => ?_, rfl⟩
    cases hMem
  have run := (System.Execution.start rfl).step first
  obtain ⟨map, hSound, -⟩ := sound_run run
  have hFresh : ∀ node, some 1 = some node → node ∉ s₁.allocated := by
    intro node hAnswer
    cases hAnswer
    decide
  obtain ⟨status, s₂, -, hSet, -, -, hStatus⟩ := hSound.setKey hFresh (Nat.le_refl _) 17 6
  obtain rfl : status = .success := hStatus.resolve_right fun hFailed => by cases hFailed.2.2
  have second : (system links nodes).step s₁ ⟨17, 6, .success⟩ s₂ := ⟨_, some 1, hFresh, hSet⟩
  obtain ⟨hGet, -⟩ := tls_table_refines_map (run.step second)
  obtain ⟨hValue, -⟩ := hGet _ (Nat.le_refl _)
  exact ⟨s₂, _, hValue 1, hValue 17, hValue 33⟩

end Ricerca.Tls
