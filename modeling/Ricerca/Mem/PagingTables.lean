import Mathlib.Data.Nat.Bitwise
import Ricerca.Mem.Paging

/-! The tables of the lower halves form trees: every table is reached along one path, and
pages in the mappers along none. -/
namespace Ricerca.Paging

open Ricerca.Foundation

section Words

variable {page flags : Word}

/-- Flags of an entry do not change the page in it. -/
theorem PageFrame.or_flags (h : PageFrame page) (hFlags : flags &&& ~~~flagsMask = 0) :
    (page ||| flags) &&& ~~~flagsMask = page := by
  have hAll : flagsMask ||| ~~~flagsMask = BitVec.allOnes 64 := rfl
  have hPage : page &&& ~~~flagsMask = page := by
    calc page &&& ~~~flagsMask = (page &&& flagsMask) ||| (page &&& ~~~flagsMask) := by
          rw [h.noFlags]
          simp
      _ = page := by rw [← BitVec.and_or_distrib_left, hAll, BitVec.and_allOnes]
  rw [BitVec.and_or_distrib_right, hPage, hFlags]
  simp

/-- An entry has the flags that were put into it. -/
theorem PageFrame.or_and (h : PageFrame page) {mask : Word} (hMask : flagsMask &&& mask = mask) :
    (page ||| flags) &&& mask = flags &&& mask := by
  have hPage : page &&& mask = 0 := by
    rw [← hMask, ← BitVec.and_assoc, h.noFlags]
    simp
  rw [BitVec.and_or_distrib_right, hPage]
  simp

theorem memPagingGetLvlIndex_eq (addr : Word) (lvl : Nat) :
    memPagingGetLvlIndex addr lvl = addr.toNat / 2 ^ (9 * lvl + 3) % 512 := by
  rw [memPagingGetLvlIndex, BitVec.toNat_and, BitVec.toNat_ushiftRight, Nat.shiftRight_eq_div_pow]
  exact Nat.and_two_pow_sub_one_eq_mod _ 9

theorem memPagingGetLvlIndex_lt (addr : Word) (lvl : Nat) : memPagingGetLvlIndex addr lvl < 512 := by
  rw [memPagingGetLvlIndex_eq]
  exact Nat.mod_lt _ (by omega)

theorem entryAt_toNat (hPage : page.toNat % 4096 = 0) {index : Nat} (hIndex : index < 512) :
    (entryAt page index).toNat = page.toNat + 8 * index := by
  have hLt := page.isLt
  rw [entryAt, BitVec.toNat_add, BitVec.toNat_ofNat]
  omega

/-- Entries of different tables are different words. -/
theorem entryAt_inj {other : Word} {i j : Nat} (hPage : page.toNat % 4096 = 0)
    (hOther : other.toNat % 4096 = 0) (hi : i < 512) (hj : j < 512)
    (hSame : entryAt page i = entryAt other j) : page = other ∧ i = j := by
  have hNat := congrArg BitVec.toNat hSame
  rw [entryAt_toNat hPage hi, entryAt_toNat hOther hj] at hNat
  exact ⟨BitVec.eq_of_toNat_eq (by omega), by omega⟩

/-- Zeroing a page does not touch another one. -/
theorem memsetPage_of_ne {memory : Memory} {other : Word} {i : Nat} (hPage : page.toNat % 4096 = 0)
    (hOther : other.toNat % 4096 = 0) (hNe : other ≠ page) (hi : i < 512) :
    memsetPage memory page (entryAt other i) = memory (entryAt other i) := by
  have hNat : other.toNat ≠ page.toNat := fun hEq => hNe (BitVec.eq_of_toNat_eq hEq)
  rw [memsetPage, if_neg]
  rw [entryAt_toNat hOther hi]
  omega

theorem memsetPage_self {memory : Memory} {i : Nat} (hPage : page.toNat % 4096 = 0) (hi : i < 512) :
    memsetPage memory page (entryAt page i) = 0 := by
  rw [memsetPage, if_pos]
  rw [entryAt_toNat hPage hi]
  omega

end Words

/-- The flags of an entry that leads to a table. -/
def intermPerms : Word := flagPresent ||| flagWritable ||| flagsUser

/-- The tables of all roots, and the pages of all mappers. -/
structure Valid {κ : Type} (lvls : Nat) (memory : Memory) (roots : List Word) (cache : κ → Word) :
    Prop where
  rootFrame : ∀ cr3 ∈ roots, PageFrame cr3
  unshared : Unshared (next memory) (Path lvls roots)
  entries : ∀ cr3 path index table, Path lvls roots cr3 (path ++ [index]) →
    descend (next memory) cr3 path = some table → memory (entryAt table index) = 0 ∨
      ∃ page, PageFrame page ∧ page ≠ physNull ∧ memory (entryAt table index) = page ||| intermPerms
  cached : ∀ k, cache k ≠ physNull → PageFrame (cache k) ∧
    (∀ index < 512, memory (entryAt (cache k) index) = 0) ∧
    ∀ cr3 path, Path lvls roots cr3 path → descend (next memory) cr3 path ≠ some (cache k)
  once : ∀ k k', cache k ≠ physNull → cache k = cache k' → k = k'

section Tables

variable {κ : Type} {lvls : Nat} {memory memory' : Memory} {roots : List Word} {cache : κ → Word}
  {cr3 table page : Word} {path : List Nat} {index : Nat}

theorem Path.nil (hRoot : cr3 ∈ roots) (hLvls : 0 < lvls) : Path lvls roots cr3 [] :=
  ⟨hRoot, hLvls, by simp, by simp⟩

theorem Path.before {rest : List Nat} (h : Path lvls roots cr3 (path ++ rest)) :
    Path lvls roots cr3 path := by
  constructor
  case root => exact h.root
  case short =>
    have hShort := h.short
    rw [List.length_append] at hShort
    omega
  case bound =>
    intro i hi
    exact h.bound i (List.mem_append_left _ hi)
  case lower =>
    intro i hi
    apply h.lower
    cases path with
    | nil => simp at hi
    | cons j path => simpa using hi

theorem next_of_entry (hPage : PageFrame page)
    (hEntry : memory (entryAt table index) = page ||| intermPerms) :
    next memory table index = some page := by
  have hFlag : (page ||| intermPerms) &&& flagPresent = flagPresent := by
    rw [hPage.or_and rfl]
    rfl
  have hNe : page ||| intermPerms ≠ 0 := by
    intro hZero
    rw [hZero] at hFlag
    revert hFlag
    decide
  rw [next, hEntry, if_neg hNe, hPage.or_flags rfl]

/-- Every table is a page. -/
theorem Valid.frame (h : Valid lvls memory roots cache) (hPath : Path lvls roots cr3 path)
    (hTable : descend (next memory) cr3 path = some table) : PageFrame table := by
  induction path using List.reverseRecOn generalizing table with
  | nil =>
      obtain rfl := Option.some.inj hTable
      exact h.rootFrame cr3 hPath.root
  | append_singleton path index ih =>
      rw [descend_snoc] at hTable
      obtain ⟨parent, hParent, hNext⟩ := Option.bind_eq_some_iff.mp hTable
      rcases h.entries cr3 path index parent hPath hParent with hZero | ⟨page, hPage, -, hEntry⟩
      · simp [next, hZero] at hNext
      · rw [next_of_entry hPage hEntry] at hNext
        obtain rfl := Option.some.inj hNext
        exact hPage

/-- What happens outside the tables does not matter for the paths. -/
theorem Valid.congr (h : Valid lvls memory roots cache)
    (hSame : ∀ cr3 path table, Path lvls roots cr3 path →
      descend (next memory) cr3 path = some table → ∀ index < 512, path.length + 1 < lvls →
      memory' (entryAt table index) = memory (entryAt table index)) (hPath : Path lvls roots cr3 path) :
    descend (next memory') cr3 path = descend (next memory) cr3 path := by
  refine h.unshared.congr ?_ hPath
  intro cr3 path index table hStep hTable
  have hShort := hStep.short
  rw [List.length_append, List.length_singleton] at hShort
  have hWord := hSame cr3 path table hStep.before hTable index
    (hStep.bound index (by simp)) hShort
  simp only [next, hWord]

/-- A word outside the tables, or in a page of level 1, changes. -/
theorem Valid.touch {κ' : Type} {cache' : κ' → Word} (h : Valid lvls memory roots cache)
    (hSame : ∀ cr3 path table, Path lvls roots cr3 path →
      descend (next memory) cr3 path = some table → ∀ index < 512, path.length + 1 < lvls →
      memory' (entryAt table index) = memory (entryAt table index))
    (hCached : ∀ k, cache' k ≠ physNull → PageFrame (cache' k) ∧
      (∀ index < 512, memory' (entryAt (cache' k) index) = 0) ∧
      ∀ cr3 path, Path lvls roots cr3 path → descend (next memory) cr3 path ≠ some (cache' k))
    (hOnce : ∀ k k', cache' k ≠ physNull → cache' k = cache' k' → k = k') :
    Valid lvls memory' roots cache' := by
  have hPaths : ∀ cr3 path, Path lvls roots cr3 path →
      descend (next memory') cr3 path = descend (next memory) cr3 path :=
    fun cr3 path hPath => h.congr hSame hPath
  constructor
  case rootFrame => exact h.rootFrame
  case unshared =>
    refine ⟨h.unshared.before, ?_⟩
    intro cr3 path cr3' path' table hPath hPath' hTable hTable'
    rw [hPaths cr3 path hPath] at hTable
    rw [hPaths cr3' path' hPath'] at hTable'
    exact h.unshared.once cr3 path cr3' path' table hPath hPath' hTable hTable'
  case entries =>
    intro cr3 path index table hPath hTable
    have hShort := hPath.short
    rw [List.length_append, List.length_singleton] at hShort
    rw [hPaths cr3 path hPath.before] at hTable
    rw [hSame cr3 path table hPath.before hTable index (hPath.bound index (by simp)) hShort]
    exact h.entries cr3 path index table hPath hTable
  case cached =>
    intro k hSome
    obtain ⟨hFrame, hZero, hUnused⟩ := hCached k hSome
    refine ⟨hFrame, hZero, ?_⟩
    intro cr3 path hPath
    rw [hPaths cr3 path hPath]
    exact hUnused cr3 path hPath
  case once => exact hOnce

/-- A page that is not in use is zeroed for a mapper. -/
theorem Valid.zeroed [DecidableEq κ] (h : Valid lvls memory roots cache) {k : κ} (hFrame : PageFrame page)
    (hUnused : ∀ cr3 path, Path lvls roots cr3 path → descend (next memory) cr3 path ≠ some page)
    (hNew : ∀ k', cache k' ≠ page) :
    Valid lvls (memsetPage memory page) roots (Function.update cache k page) := by
  refine h.touch ?_ ?_ ?_
  · intro cr3 path table hPath hTable index hIndex _
    apply memsetPage_of_ne hFrame.aligned (h.frame hPath hTable).aligned _ hIndex
    rintro rfl
    exact hUnused cr3 path hPath hTable
  · intro k' hSome
    by_cases hk : k' = k
    · subst hk
      rw [Function.update_self]
      exact ⟨hFrame, fun index hIndex => memsetPage_self hFrame.aligned hIndex, hUnused⟩
    · rw [Function.update_of_ne hk] at hSome ⊢
      obtain ⟨hOther, hZero, hFree⟩ := h.cached k' hSome
      refine ⟨hOther, ?_, hFree⟩
      intro index hIndex
      rw [memsetPage_of_ne hFrame.aligned hOther.aligned (hNew k') hIndex]
      exact hZero index hIndex
  · intro k₁ k₂ hSome hSame
    by_cases hk₁ : k₁ = k <;> by_cases hk₂ : k₂ = k
    · rw [hk₁, hk₂]
    · rw [hk₁, Function.update_self, Function.update_of_ne hk₂] at hSame
      exact (hNew k₂ hSame.symm).elim
    · rw [hk₂, Function.update_self, Function.update_of_ne hk₁] at hSame
      exact (hNew k₁ hSame).elim
    · rw [Function.update_of_ne hk₁] at hSome hSame
      rw [Function.update_of_ne hk₂] at hSame
      exact h.once k₁ k₂ hSome hSame

/-- A write to an entry changes no other entry of a table. -/
theorem Valid.write_of_ne (h : Valid lvls memory roots cache) {value : Word}
    (hPath : Path lvls roots cr3 path) (hTable : descend (next memory) cr3 path = some table)
    (hIndex : index < 512) {other : Word} {i : Nat} (hOther : PageFrame other) (hi : i < 512)
    (hNe : ¬ (other = table ∧ i = index)) :
    Function.update memory (entryAt table index) value (entryAt other i) =
      memory (entryAt other i) := by
  apply Function.update_of_ne
  intro hSame
  exact hNe (entryAt_inj hOther.aligned (h.frame hPath hTable).aligned hi hIndex hSame)

/-- The word in an empty entry that gets the table of a mapper. -/
def attached (memory : Memory) (table : Word) (index : Nat) (page : Word) : Memory :=
  Function.update memory (entryAt table index) (page ||| intermPerms)

section Attach

variable {k : κ} (h : Valid lvls memory roots cache)
  (hStep : Path lvls roots cr3 (path ++ [index]))
  (hTable : descend (next memory) cr3 path = some table)
  (hEmpty : memory (entryAt table index) = 0) (hSome : cache k ≠ physNull)

include h hStep hTable

theorem Valid.attach_other {other : Word} {i : Nat} (hOther : PageFrame other) (hi : i < 512)
    (hNe : ¬ (other = table ∧ i = index)) :
    attached memory table index (cache k) (entryAt other i) = memory (entryAt other i) :=
  h.write_of_ne hStep.before hTable (hStep.bound index (by simp)) hOther hi hNe

/-- A page of a mapper is empty, also after one of them has become a table. -/
theorem Valid.attach_zero {k' : κ} (hSome' : cache k' ≠ physNull) {i : Nat} (hi : i < 512) :
    attached memory table index (cache k) (entryAt (cache k') i) = 0 := by
  obtain ⟨hFrame, hZero, hUnused⟩ := h.cached k' hSome'
  rw [h.attach_other hStep hTable hFrame hi]
  · exact hZero i hi
  · rintro ⟨hSame, -⟩
    exact hUnused cr3 path hStep.before (hSame ▸ hTable)

include hEmpty hSome

theorem Valid.attach_descend {cr3' : Word} {path' : List Nat} (hPath : Path lvls roots cr3' path') :
    descend (next (attached memory table index (cache k))) cr3' path' =
      if cr3' = cr3 ∧ path' = path ++ [index] then some (cache k)
      else descend (next memory) cr3' path' := by
  refine h.unshared.attach_descend hStep.before hTable ?_ ?_ ?_ ?_ hPath
  · simp [next, hEmpty]
  · exact next_of_entry (h.cached k hSome).1 (Function.update_self ..)
  · intro r p j c hWay hReached hNe
    have hWord : attached memory table index (cache k) (entryAt c j) = memory (entryAt c j) :=
      h.attach_other hStep hTable (h.frame hWay.before hReached) (hWay.bound j (by simp)) hNe
    simp only [next, hWord]
  · intro j hBelow
    have hWord : attached memory table index (cache k) (entryAt (cache k) j) = 0 :=
      h.attach_zero hStep hTable hSome (hBelow.bound j (by simp))
    simp [next, hWord]

/-- A page of a mapper becomes the table behind an empty entry. -/
theorem Valid.attach [DecidableEq κ] : Valid lvls (attached memory table index (cache k)) roots
    (Function.update cache k physNull) := by
  have hDescend : ∀ cr3' path', Path lvls roots cr3' path' →
      descend (next (attached memory table index (cache k))) cr3' path' =
        if cr3' = cr3 ∧ path' = path ++ [index] then some (cache k)
        else descend (next memory) cr3' path' :=
    fun cr3' path' hPath => h.attach_descend hStep hTable hEmpty hSome hPath
  obtain ⟨hFrame, hZero, hUnused⟩ := h.cached k hSome
  constructor
  case rootFrame => exact h.rootFrame
  case unshared =>
    apply h.unshared.attach (p := fun cr3' path' => cr3' = cr3 ∧ path' = path ++ [index])
    · intro cr3' path' c hPath hReached
      rw [hDescend cr3' path' hPath] at hReached
      split_ifs at hReached with hNew
      · exact .inl ⟨hNew, (Option.some.inj hReached).symm⟩
      · exact .inr hReached
    · rintro r p r' p' ⟨rfl, rfl⟩ ⟨rfl, rfl⟩
      exact ⟨rfl, rfl⟩
    · exact hUnused
  case entries =>
    intro cr3' path' i c hWay hReached
    have hBound := hWay.bound i (by simp)
    rw [hDescend cr3' path' hWay.before] at hReached
    split_ifs at hReached with hNew
    · obtain rfl := Option.some.inj hReached
      exact .inl (h.attach_zero hStep hTable hSome hBound)
    · by_cases hEntry : c = table ∧ i = index
      · obtain ⟨rfl, rfl⟩ := hEntry
        exact .inr ⟨cache k, hFrame, hSome, Function.update_self ..⟩
      · rw [h.attach_other hStep hTable (h.frame hWay.before hReached) hBound hEntry]
        exact h.entries cr3' path' i c hWay hReached
  case cached =>
    intro k' hSome'
    have hk : k' ≠ k := by
      rintro rfl
      simp at hSome'
    rw [Function.update_of_ne hk] at hSome' ⊢
    obtain ⟨hFrame', -, hUnused'⟩ := h.cached k' hSome'
    refine ⟨hFrame', fun i hi => h.attach_zero hStep hTable hSome' hi, ?_⟩
    intro cr3' path' hPath
    rw [hDescend cr3' path' hPath]
    split_ifs
    · intro hSame
      exact hk (h.once k' k hSome' (Option.some.inj hSame).symm)
    · exact hUnused' cr3' path' hPath
  case once =>
    intro k₁ k₂ hSome₁ hSame
    have hk₁ : k₁ ≠ k := by
      rintro rfl
      simp at hSome₁
    rw [Function.update_of_ne hk₁] at hSome₁ hSame
    by_cases hk₂ : k₂ = k
    · rw [hk₂, Function.update_self] at hSame
      exact (hSome₁ hSame).elim
    · rw [Function.update_of_ne hk₂] at hSame
      exact h.once k₁ k₂ hSome₁ hSame

end Attach

end Tables

end Ricerca.Paging
