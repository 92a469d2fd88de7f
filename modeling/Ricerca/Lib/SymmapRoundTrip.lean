import Ricerca.Lib.Symmap

/-! Symbols are found in the map that the script writes. -/
namespace Ricerca.Symmap

open Ricerca.Foundation

variable {functions : List Function} {memory : Memory} {kernel : Kernel}
  {data moduleAddr addr : Nat}

section Order

theorem Function.le_trans (f g h : Function) (hfg : f.le g) (hgh : g.le h) : f.le h := by
  simp only [Function.le, Bool.or_eq_true, Bool.and_eq_true, decide_eq_true_eq] at *
  rcases hfg with hfg | ⟨hfg, hName⟩
  · exact .inl (by omega)
  · rcases hgh with hgh | ⟨hgh, hName'⟩
    · exact .inl (by omega)
    · exact .inr ⟨hfg.trans hgh, String.le_trans hName hName'⟩

theorem Function.le_total (f g : Function) : f.le g || g.le f := by
  simp only [Function.le, Bool.or_eq_true, Bool.and_eq_true, decide_eq_true_eq]
  rcases Nat.lt_trichotomy f.1 g.1 with hLt | hEq | hGt
  · exact .inl (.inl hLt)
  · rcases String.le_total f.2 g.2 with hName | hName
    · exact .inl (.inr ⟨hEq, hName⟩)
    · exact .inr (.inr ⟨hEq.symm, hName⟩)
  · exact .inr (.inl hGt)

theorem Function.le_addr {f g : Function} (h : f.le g) : f.1 ≤ g.1 := by
  simp only [Function.le, Bool.or_eq_true, Bool.and_eq_true, decide_eq_true_eq] at h
  omega

/-- The functions as they stand in the file. -/
def sorted (functions : List Function) : List Function := functions.mergeSort Function.le

@[simp] theorem sorted_length (functions : List Function) : (sorted functions).length =
    functions.length :=
  List.length_mergeSort functions

@[simp] theorem mem_sorted {f : Function} : f ∈ sorted functions ↔ f ∈ functions :=
  List.mem_mergeSort

theorem sorted_addr {i j : Nat} {f g : Function} (hi : (sorted functions)[i]? = some f)
    (hj : (sorted functions)[j]? = some g) (hij : i ≤ j) : f.1 ≤ g.1 := by
  obtain ⟨hiLt, rfl⟩ := List.getElem?_eq_some_iff.mp hi
  obtain ⟨hjLt, rfl⟩ := List.getElem?_eq_some_iff.mp hj
  have hPairwise := List.pairwise_mergeSort Function.le_trans Function.le_total functions
  rcases Nat.eq_or_lt_of_le hij with rfl | hij
  · exact Nat.le_refl _
  · exact Function.le_addr (List.pairwise_iff_getElem.mp hPairwise i j hiLt hjLt hij)

end Order

section Writer

/-- The length of the file for names with one byte a character. -/
def encodedSize (functions : List Function) : Nat :=
  16 + 12 * functions.length + (functions.map fun function => function.2.length + 1).sum

/-- Functions whose map is smaller than 4 GiB. Names are NUL-free ASCII. -/
structure WellFormed (functions : List Function) : Prop where
  addr : ∀ f ∈ functions, f.1 < 2 ^ 64
  name : ∀ f ∈ functions, ∀ c ∈ f.2.toList, 0 < c.toNat ∧ c.toNat < 128
  size : encodedSize functions < 2 ^ 32

theorem packAll_eq {width : Nat} {values : List Nat} (h : ∀ value ∈ values, value < 256 ^ width) :
    packAll width values = some (values.flatMap (leBytes width)) := by
  induction values with
  | nil => rfl
  | cons value values ih =>
      rw [packAll, pack, if_pos (h value List.mem_cons_self),
        ih fun v hv => h v (List.mem_cons_of_mem _ hv)]
      rfl

theorem stringOffsets_length (start : Nat) :
    (stringOffsets start functions).length = functions.length := by
  induction functions generalizing start with
  | nil => rfl
  | cons f functions ih => rw [stringOffsets, List.length_cons, ih, List.length_cons]

/-- A name starts after those before it. -/
theorem stringOffsets_getElem (functions : List Function) {i : Nat} (start : Nat) (hi : i < functions.length) :
    (stringOffsets start functions)[i]? =
      some (start + ((functions.take i).map fun f => f.2.length + 1).sum) := by
  induction functions generalizing start i with
  | nil => cases hi
  | cons f functions ih =>
      cases i with
      | zero => rfl
      | succ i =>
          rw [stringOffsets, List.getElem?_cons_succ, ih _ (Nat.lt_of_succ_lt_succ hi),
            List.take_succ_cons, List.map_cons, List.sum_cons, Nat.add_assoc]

theorem stringOffsets_le {start offset : Nat} (h : offset ∈ stringOffsets start functions) :
    offset ≤ start + (functions.map fun f => f.2.length + 1).sum := by
  induction functions generalizing start with
  | nil => cases h
  | cons f functions ih =>
      rw [List.map_cons, List.sum_cons]
      rcases List.mem_cons.mp h with rfl | hRest
      · exact Nat.le_add_right _ _
      · exact Nat.le_trans (ih hRest) (Nat.le_of_eq (Nat.add_assoc _ _ _))

theorem sorted_sum : ((sorted functions).map fun f => f.2.length + 1).sum =
    (functions.map fun f => f.2.length + 1).sum :=
  ((List.mergeSort_perm functions Function.le).map _).sum_nat

/-- The contents of the file. -/
def layout (functions : List Function) : List UInt8 :=
  [symmapSign, functions.length].flatMap (leBytes 8) ++
    (functions.map (·.1)).flatMap (leBytes 8) ++
    (stringOffsets (16 + 12 * functions.length) functions).flatMap (leBytes 4) ++
    functions.flatMap fun function => encode function.2 ++ [0]

/-- Every number fits where it is stored. -/
theorem WellFormed.file (h : WellFormed functions) :
    sanitizeMapFile functions = some (layout (sorted functions)) := by
  have hSize := h.size
  rw [encodedSize] at hSize
  have hHeader : packAll 8 [symmapSign, (sorted functions).length] =
      some ([symmapSign, (sorted functions).length].flatMap (leBytes 8)) := by
    apply packAll_eq
    simp only [List.mem_cons, List.not_mem_nil, or_false, sorted_length]
    rintro value (rfl | rfl)
    · decide
    · omega
  have hAddrs : packAll 8 ((sorted functions).map (·.1)) =
      some (((sorted functions).map (·.1)).flatMap (leBytes 8)) := by
    apply packAll_eq
    intro value hValue
    obtain ⟨f, hf, rfl⟩ := List.mem_map.mp hValue
    exact h.addr f (mem_sorted.mp hf)
  have hOffsets :
      packAll 4 (stringOffsets (16 + 12 * (sorted functions).length) (sorted functions)) = some
        ((stringOffsets (16 + 12 * (sorted functions).length) (sorted functions)).flatMap
          (leBytes 4)) := by
    apply packAll_eq
    intro value hValue
    have hLe := stringOffsets_le hValue
    rw [sorted_sum, sorted_length] at hLe
    omega
  have hSorted : functions.mergeSort Function.le = sorted functions := rfl
  simp only [sanitizeMapFile, hSorted, hHeader, hAddrs, hOffsets]
  rfl

theorem encode_ascii {name : String} (h : ∀ c ∈ name.toList, 0 < c.toNat ∧ c.toNat < 128) :
    encode name = name.toList.map fun c => c.val.toUInt8 := by
  rw [encode]
  generalize name.toList = cs at h
  induction cs with
  | nil => rfl
  | cons c cs ih =>
      have hSize : c.utf8Size = 1 := Char.utf8Size_eq_one_iff.mpr (by
        have := (h c List.mem_cons_self).2
        rw [UInt32.le_iff_toNat_le]
        exact Nat.le_of_lt_succ this)
      rw [List.flatMap_cons, String.utf8EncodeChar_eq_singleton hSize,
        ih fun c hc => h c (List.mem_cons_of_mem _ hc)]
      rfl

theorem encode_length {name : String} (h : ∀ c ∈ name.toList, 0 < c.toNat ∧ c.toNat < 128) :
    (encode name).length = name.length := by
  rw [encode_ascii h, List.length_map, String.length_toList]

theorem encode_nonzero {name : String} (h : ∀ c ∈ name.toList, 0 < c.toNat ∧ c.toNat < 128) :
    0 ∉ encode name := by
  rw [encode_ascii h]
  intro hMem
  obtain ⟨c, hc, hZero⟩ := List.mem_map.mp hMem
  have hNat : c.toNat % 256 = 0 := congrArg UInt8.toNat hZero
  have := h c hc
  omega

theorem strings_length (h : ∀ f ∈ functions, ∀ c ∈ f.2.toList, 0 < c.toNat ∧ c.toNat < 128) :
    (functions.flatMap fun function => encode function.2 ++ [0]).length =
      (functions.map fun f => f.2.length + 1).sum := by
  rw [List.length_flatMap]
  refine congrArg List.sum (List.map_congr_left fun f hf => ?_)
  rw [List.length_append, encode_length (h f hf), List.length_singleton]

theorem numbers_length (width : Nat) (values : List Nat) :
    (values.flatMap (leBytes width)).length = width * values.length := by
  induction values with
  | nil => rfl
  | cons value values ih =>
      rw [List.flatMap_cons, List.length_append, leBytes_length, ih, List.length_cons,
        Nat.mul_succ, Nat.add_comm]

theorem WellFormed.layout_length (h : WellFormed functions) :
    (layout (sorted functions)).length = encodedSize functions := by
  have hStrings := strings_length fun f hf => h.name f (mem_sorted.mp hf)
  rw [sorted_sum] at hStrings
  rw [layout, List.length_append, List.length_append, List.length_append, numbers_length,
    numbers_length, numbers_length, hStrings, stringOffsets_length, List.length_map,
    sorted_length, encodedSize]
  simp only [List.length_cons, List.length_nil]
  omega

end Writer

section Reader

/-- A C string. -/
def CString (memory : Memory) (addr : Nat) (name : String) : Prop :=
  Holds memory addr (encode name ++ [0]) ∧ 0 ∉ encode name

/-- What the file in memory is made of. -/
structure Laid (memory : Memory) (data : Nat) (functions : List Function) : Prop where
  sign : load memory 8 data = symmapSign
  count : load memory 8 (data + 8) = functions.length
  addr : ∀ i f, functions[i]? = some f → load memory 8 (data + 16 + 8 * i) = f.1
  name : ∀ i f, functions[i]? = some f → CString memory
    ((data + load memory 4 (data + 16 + 8 * functions.length + 4 * i)) % 2 ^ 64) f.2

theorem load_eq {width value : Nat} (h : Holds memory addr (leBytes width value))
    (hAddr : addr < 2 ^ 64) (hValue : value < 256 ^ width) : load memory width addr = value := by
  rw [load, Nat.mod_eq_of_lt hAddr, h.leValue_eq hValue]

theorem WellFormed.laid (h : WellFormed functions)
    (hHolds : Holds memory data (layout (sorted functions)))
    (hFits : data + encodedSize functions < 2 ^ 64) : Laid memory data (sorted functions) := by
  have hSize := h.size
  rw [encodedSize] at hFits hSize
  simp only [layout, holds_append, List.length_append, numbers_length, stringOffsets_length,
    List.length_map, sorted_length, List.length_cons, List.length_nil] at hHolds
  obtain ⟨⟨⟨hHeader, hAddrs⟩, hOffsets⟩, hStrings⟩ := hHolds
  have hNumber := leBytes_length
  have hIndex : ∀ i f, (sorted functions)[i]? = some f → i < functions.length := by
    intro i f hi
    rw [← sorted_length functions]
    exact (List.getElem?_eq_some_iff.mp hi).1
  refine ⟨?_, ?_, ?_, ?_⟩
  · have hSign := hHeader.fixedRecord (i := 0) (hNumber 8) rfl
    exact load_eq hSign (by omega) (by decide)
  · have hCount := hHeader.fixedRecord (i := 1) (hNumber 8) rfl
    rw [sorted_length]
    exact load_eq hCount (by omega) (by omega)
  · intro i f hi
    have hLt := hIndex i f hi
    have hAddr := hAddrs.fixedRecord (i := i) (r := f.1) (hNumber 8) (by simp [hi])
    exact load_eq hAddr (by omega) (h.addr f (mem_sorted.mp (List.mem_of_getElem? hi)))
  · intro i f hi
    have hLt := hIndex i f hi
    have hOffset := stringOffsets_getElem (sorted functions)
      (16 + 12 * functions.length) ((sorted_length functions).symm ▸ hLt)
    have hLe := stringOffsets_le (List.mem_of_getElem? hOffset)
    rw [sorted_sum] at hLe
    have hRecord := hOffsets.fixedRecord (hNumber 4) hOffset
    have hString := hStrings.record hi
    rw [strings_length fun g hg => h.name g (mem_sorted.mp (List.mem_of_mem_take hg))] at hString
    rw [sorted_length, load_eq (by convert hRecord using 1; omega) (by omega) (by omega),
      Nat.mod_eq_of_lt (by omega)]
    refine ⟨?_, encode_nonzero (h.name f (mem_sorted.mp (List.mem_of_getElem? hi)))⟩
    convert hString using 1
    omega

/-- The place that is found: nothing before it lies above the address, and nothing after it
lies at or below. -/
theorem symmapNarrow_spec (addr : Nat) (addrs : Nat → Nat) {cnt l r : Nat} (hlr : l < r) (hr : r ≤ cnt)
    (hLow : l = 0 ∨ addrs l ≤ addr) (hHigh : r = cnt ∨ addr < addrs r) :
    symmapNarrow addr addrs l r < cnt ∧
    (symmapNarrow addr addrs l r = 0 ∨ addrs (symmapNarrow addr addrs l r) ≤ addr) ∧
    (symmapNarrow addr addrs l r + 1 = cnt ∨ addr < addrs (symmapNarrow addr addrs l r + 1)) := by
  fun_induction symmapNarrow addr addrs l r with
  | case1 l r hMore m hAbove ih => exact ih (by omega) (by omega) hLow (.inr hAbove)
  | case2 l r hMore m hNot ih => exact ih (by omega) hr (.inr (Nat.le_of_not_lt hNot)) hHigh
  | case3 l r hDone =>
      have hNext : l + 1 = r := by omega
      exact ⟨by omega, hLow, hNext ▸ hHigh⟩

/-- A search in a sorted table finds a last entry at or below the address. -/
theorem symmapFindByAddr_spec (addr : Nat) {addrs : Nat → Nat} {cnt : Nat}
    (hSorted : ∀ i j, i ≤ j → j < cnt → addrs i ≤ addrs j) :
    (symmapFindByAddr addr addrs cnt = 0 ∧ ∀ i < cnt, addr < addrs i) ∨
    ∃ k < cnt, symmapFindByAddr addr addrs cnt = k + 1 ∧ addrs k ≤ addr ∧
      ∀ i < cnt, addrs i ≤ addr → addrs i ≤ addrs k := by
  rw [symmapFindByAddr]
  split_ifs with hNone
  · exact .inl ⟨rfl, fun i hi => by omega⟩
  · obtain ⟨hLt, hLow, hHigh⟩ := symmapNarrow_spec addr addrs
      (Nat.pos_of_ne_zero hNone) (Nat.le_refl cnt) (.inl rfl) (.inl rfl)
    generalize symmapNarrow addr addrs 0 cnt = k at *
    simp only
    split_ifs with hAbove
    · refine .inl ⟨rfl, fun i hi => ?_⟩
      have hFirst : k = 0 := hLow.resolve_right (Nat.not_le.mpr hAbove)
      exact Nat.lt_of_lt_of_le hAbove (hSorted k i (by omega) hi)
    · refine .inr ⟨k, hLt, Nat.add_comm 1 k, Nat.le_of_not_lt hAbove, fun i hi hBelow => ?_⟩
      rcases Nat.lt_or_ge k i with hAfter | hBefore
      · have hNext := hHigh.resolve_left (by omega)
        have := hSorted (k + 1) i hAfter hi
        omega
      · exact hSorted i k hBefore hLt

/-- The file is the module that the kernel finds, and lies in its address space. -/
structure Loaded (kernel : Kernel) (data : Nat) (file : List UInt8) : Prop where
  lookup : kernel.initModuleLookup = some data
  holds : Holds kernel.memory data file
  nonnull : 0 < data
  fits : data + file.length < 2 ^ 64

theorem symmapModuleAddr_eq {file : List UInt8} (hLoaded : Loaded kernel data file)
    (hSign : load kernel.memory 8 data = symmapSign)
    (hModule : moduleAddr = notLoaded ∨ moduleAddr = data) :
    symmapModuleAddr kernel moduleAddr = data := by
  rw [symmapModuleAddr]
  split_ifs with hFirst
  · rw [hLoaded.lookup]
    exact if_pos hSign
  · exact hModule.resolve_left hFirst

/-- A query in a file that is laid out as it should be. -/
theorem Laid.query {file : List UInt8} (hLaid : Laid kernel.memory data (sorted functions))
    (hLoaded : Loaded kernel data file) (hModule : moduleAddr = notLoaded ∨ moduleAddr = data)
    (hText : kernel.inSectionText addr) (hAddr : addr < 2 ^ 64) :
    (symmapQueryAddrInfo kernel moduleAddr addr = (none, data) ∧ ∀ f ∈ functions, addr < f.1) ∨
    ∃ f ∈ functions, f.1 ≤ addr ∧ (∀ g ∈ functions, g.1 ≤ addr → g.1 ≤ f.1) ∧ ∃ name,
      symmapQueryAddrInfo kernel moduleAddr addr = (some ⟨name, addr - f.1⟩, data) ∧
      CString kernel.memory name f.2 := by
  have hNonnull := hLoaded.nonnull
  have hGet : ∀ i < (sorted functions).length, ∃ f, (sorted functions)[i]? = some f :=
    fun i hi => ⟨_, List.getElem?_eq_getElem hi⟩
  have hSorted : ∀ i j, i ≤ j → j < (sorted functions).length →
      load kernel.memory 8 (data + 16 + 8 * i) ≤ load kernel.memory 8 (data + 16 + 8 * j) := by
    intro i j hij hj
    obtain ⟨f, hf⟩ := hGet i (by omega)
    obtain ⟨g, hg⟩ := hGet j hj
    rw [hLaid.addr i f hf, hLaid.addr j g hg]
    exact sorted_addr hf hg hij
  rw [symmapQueryAddrInfo, symmapModuleAddr_eq hLoaded hLaid.sign hModule]
  simp only
  rw [if_neg (by simp [hText, Nat.ne_of_gt hNonnull]), hLaid.count]
  rcases symmapFindByAddr_spec addr hSorted with
    ⟨hZero, hAll⟩ | ⟨k, hk, hFound, hLe, hMax⟩
  · refine .inl ⟨if_pos hZero, fun f hf => ?_⟩
    obtain ⟨i, hi⟩ := List.mem_iff_getElem?.mp (mem_sorted.mpr hf)
    rw [← hLaid.addr i f hi]
    exact hAll i (List.getElem?_eq_some_iff.mp hi).1
  · obtain ⟨f, hf⟩ := hGet k hk
    rw [hLaid.addr k f hf] at hLe hMax
    refine .inr ⟨f, mem_sorted.mp (List.mem_of_getElem? hf), hLe, fun g hg hBelow => ?_, _, ?_,
      hLaid.name k f hf⟩
    · obtain ⟨i, hi⟩ := List.mem_iff_getElem?.mp (mem_sorted.mpr hg)
      have hGreatest := hMax i (List.getElem?_eq_some_iff.mp hi).1
      rw [hLaid.addr i g hi] at hGreatest
      exact hGreatest hBelow
    · have hOffset : (addr + 2 ^ 64 - f.1) % 2 ^ 64 = addr - f.1 := by
        rw [Nat.sub_add_comm hLe, Nat.add_mod_right, Nat.mod_eq_of_lt (by omega)]
      rw [hFound, if_neg (Nat.succ_ne_zero k), Nat.add_sub_cancel, hLaid.addr k f hf, hOffset]

end Reader

/-- Reading back the file that the script writes. A query for an address in `.text` fails when
the address is below all functions; otherwise it gives the name of a function with the greatest
address not above, and the offset from there. Later queries find the same file. -/
theorem symbol_map_round_trip (h : WellFormed functions) :
    ∃ file, sanitizeMapFile functions = some file ∧ file.length = encodedSize functions ∧
      ∀ kernel data moduleAddr addr, Loaded kernel data file →
        (moduleAddr = notLoaded ∨ moduleAddr = data) → kernel.inSectionText addr →
        addr < 2 ^ 64 →
        (symmapQueryAddrInfo kernel moduleAddr addr).2 = data ∧
        ((∀ f ∈ functions, addr < f.1) →
          (symmapQueryAddrInfo kernel moduleAddr addr).1 = none) ∧
        ((∃ f ∈ functions, f.1 ≤ addr) →
          ∃ f ∈ functions, f.1 ≤ addr ∧ (∀ g ∈ functions, g.1 ≤ addr → g.1 ≤ f.1) ∧ ∃ name,
            (symmapQueryAddrInfo kernel moduleAddr addr).1 = some ⟨name, addr - f.1⟩ ∧
            CString kernel.memory name f.2) := by
  refine ⟨_, h.file, h.layout_length, ?_⟩
  intro kernel data moduleAddr addr hLoaded hModule hText hAddr
  have hFits := hLoaded.fits
  rw [h.layout_length] at hFits
  have hLaid := h.laid hLoaded.holds hFits
  rcases hLaid.query hLoaded hModule hText hAddr with
    ⟨hQuery, hAll⟩ | ⟨f, hf, hLe, hMax, name, hQuery, hName⟩
  · rw [hQuery]
    refine ⟨rfl, fun _ => rfl, ?_⟩
    rintro ⟨f, hf, hLe⟩
    exact absurd (hAll f hf) (Nat.not_lt.mpr hLe)
  · rw [hQuery]
    refine ⟨rfl, fun hAll => absurd hLe (Nat.not_le.mpr (hAll f hf)), ?_⟩
    exact fun _ => ⟨f, hf, hLe, hMax, name, rfl, hName⟩

/-- Two functions at one address, one below and one above. -/
def exampleFunctions : List Function :=
  [(0x300, "mutex_lock"), (0x200, "log_init"), (0x100, "main"), (0x200, "log_alias")]

theorem symbol_map_round_trip_example :
    ∃ file, sanitizeMapFile exampleFunctions = some file ∧ ∃ name symbol,
      (symmapQueryAddrInfo ⟨placed 0x1000 file, some 0x1000, 0, 0x1000⟩ notLoaded 0x250).1 =
        some ⟨name, 0x50⟩ ∧
      CString (placed 0x1000 file) name symbol ∧ (symbol = "log_alias" ∨ symbol = "log_init") := by
  have hAscii : ∀ f ∈ exampleFunctions, ∀ c ∈ f.2.toList, 0 < c.toNat ∧ c.toNat < 128 := by
    simp [exampleFunctions]
  have hFormed : WellFormed exampleFunctions := ⟨by decide, hAscii, by decide⟩
  obtain ⟨file, hFile, hLength, hRead⟩ := symbol_map_round_trip hFormed
  refine ⟨file, hFile, ?_⟩
  have hLoaded : Loaded ⟨placed 0x1000 file, some 0x1000, 0, 0x1000⟩ 0x1000 file :=
    ⟨rfl, placed_holds 0x1000 file, by omega, by rw [hLength]; decide⟩
  obtain ⟨-, -, hFound⟩ := hRead _ _ _ 0x250 hLoaded (.inl rfl)
    ⟨Nat.zero_le _, by show 0x250 < 0x1000; omega⟩ (by omega)
  obtain ⟨f, hf, hLe, hMax, name, hQuery, hName⟩ := hFound (by decide)
  have hGreatest := hMax (0x200, "log_init") (by decide) (by omega)
  have hAddr : f.1 = 0x200 ∧ (f.2 = "log_alias" ∨ f.2 = "log_init") := by
    simp only [exampleFunctions, List.mem_cons, List.not_mem_nil, or_false] at hf
    rcases hf with rfl | rfl | rfl | rfl
    · omega
    · exact ⟨rfl, .inr rfl⟩
    · omega
    · exact ⟨rfl, .inl rfl⟩
  rw [hAddr.1] at hQuery
  exact ⟨name, f.2, hQuery, hName, hAddr.2⟩

end Ricerca.Symmap
