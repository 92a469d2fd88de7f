import Ricerca.Foundation.Bytes

/-! The map of kernel symbols: the script that writes it (`sanitize-map-file.py`) and the
functions that find the symbol of an address in it (`lib/symmap.c`). -/
namespace Ricerca.Symmap

open Ricerca.Foundation

section Writer

/-- A line of the map: the address of a function, and its name. -/
abbrev Function := Nat × String

/-- The order of tuples in `sorted`. -/
def Function.le (f g : Function) : Bool := f.1 < g.1 || (f.1 = g.1 && f.2 ≤ g.2)

/-- `struct.pack` of one number. It raises an error when the number does not fit. -/
def pack (width value : Nat) : Option (List UInt8) :=
  if value < 256 ^ width then some (leBytes width value) else none

/-- What a loop writes that packs one number after the other. -/
def packAll (width : Nat) : List Nat → Option (List UInt8)
  | [] => some []
  | value :: values => do
      let first ← pack width value
      let rest ← packAll width values
      pure (first ++ rest)

/-- `str.encode`. -/
def encode (name : String) : List UInt8 := name.toList.flatMap String.utf8EncodeChar

/-- `SYMMAP_SIGN`. -/
def symmapSign : Nat := 0x1020304050607080

/-- The offsets of the names, from the offset of the first one. -/
def stringOffsets (currentStringOffset : Nat) : List Function → List Nat
  | [] => []
  | function :: functions =>
      currentStringOffset :: stringOffsets (currentStringOffset + (function.2.length + 1)) functions

/-- The bytes of the map file. -/
def sanitizeMapFile (textlines : List Function) : Option (List UInt8) := do
  let functions := textlines.mergeSort Function.le
  let header ← packAll 8 [symmapSign, functions.length]
  let addrs ← packAll 8 (functions.map (·.1))
  let nameTableOffset := 16 + 12 * functions.length
  let offsets ← packAll 4 (stringOffsets nameTableOffset functions)
  let strings := functions.flatMap fun function => encode function.2 ++ [0]
  pure (header ++ addrs ++ offsets ++ strings)

end Writer

section Reader

abbrev Memory := Nat → UInt8

/-- A number of `width` bytes. Pointers have 64 bits. -/
def load (memory : Memory) (width addr : Nat) : Nat :=
  leValue (cells memory (addr % 2 ^ 64) width)

/-- The loop of `symmap_find_by_addr`. The sum of two places in a table that lies in memory does
not wrap. -/
def symmapNarrow (addr : Nat) (addrs : Nat → Nat) (l r : Nat) : Nat :=
  if r - l > 1 then
    let m := (l + r) / 2
    if addrs m > addr then symmapNarrow addr addrs l m
    else symmapNarrow addr addrs m r
  else l
termination_by r - l

/-- 0 on failure, 1 + the index of the function on success. -/
def symmapFindByAddr (addr : Nat) (addrs : Nat → Nat) (cnt : Nat) : Nat :=
  if cnt = 0 then 0
  else
    let l := symmapNarrow addr addrs 0 cnt
    if addrs l > addr then 0 else 1 + l

/-- `struct symmap_addr_info`. -/
structure SymmapAddrInfo where
  name : Nat
  offset : Nat
  deriving DecidableEq, Repr

/-- `symmap_module_addr` before the first query. -/
def notLoaded : Nat := 0xffffffffffffffff

/-- What a query knows of the kernel besides the file: where `init_module_lookup` finds the map,
and the bounds of `.text`. -/
structure Kernel where
  memory : Memory
  initModuleLookup : Option Nat
  textStart : Nat
  textEnd : Nat

def Kernel.inSectionText (kernel : Kernel) (addr : Nat) : Prop :=
  kernel.textStart ≤ addr ∧ addr < kernel.textEnd

instance (kernel : Kernel) (addr : Nat) : Decidable (kernel.inSectionText addr) :=
  inferInstanceAs (Decidable (_ ∧ _))

/-- The value of `symmap_module_addr` from the first query on. -/
def symmapModuleAddr (kernel : Kernel) (moduleAddr : Nat) : Nat :=
  if moduleAddr = notLoaded then
    match kernel.initModuleLookup with
    | some data => if load kernel.memory 8 data = symmapSign then data else 0
    | none => 0
  else moduleAddr

/-- The answer to a query, and the new value of `symmap_module_addr`. -/
def symmapQueryAddrInfo (kernel : Kernel) (moduleAddr addr : Nat) :
    Option SymmapAddrInfo × Nat :=
  let moduleAddr := symmapModuleAddr kernel moduleAddr
  if moduleAddr = 0 ∨ ¬ kernel.inSectionText addr then (none, moduleAddr)
  else
    let functionsCount := load kernel.memory 8 (moduleAddr + 8)
    let addrs := fun i => load kernel.memory 8 (moduleAddr + 16 + 8 * i)
    let fnIndex := symmapFindByAddr addr addrs functionsCount
    if fnIndex = 0 then (none, moduleAddr)
    else
      let fnIndex := fnIndex - 1
      let fnAddr := addrs fnIndex
      let cstringOffset :=
        load kernel.memory 4 (moduleAddr + 16 + 8 * functionsCount + 4 * fnIndex)
      (some ⟨(moduleAddr + cstringOffset) % 2 ^ 64, (addr + 2 ^ 64 - fnAddr) % 2 ^ 64⟩, moduleAddr)

end Reader

end Ricerca.Symmap
