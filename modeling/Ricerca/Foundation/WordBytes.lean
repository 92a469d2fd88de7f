import Mathlib.Algebra.Group.Nat.Defs
import Mathlib.Logic.Function.Basic
import Mathlib.Tactic.Common

/-! Bytes in a memory of words. The words are those of 64 bits at the multiples of 8, in
little-endian order; a byte is a part of the word that its address falls into. -/
namespace Ricerca.Foundation

/-- The address of the word that a byte lies in. -/
def wordAddr (a : Nat) : Nat := a / 8 * 8

def byteAt (mem : Nat → Nat) (a : Nat) : UInt8 := .ofNat (mem (wordAddr a) / 256 ^ (a % 8))

/-- A word in which the byte of index `k` has been replaced. -/
def setWordByte (word k : Nat) (v : UInt8) : Nat :=
  word % 256 ^ k + 256 ^ k * (v.toNat + 256 * (word / 256 ^ (k + 1)))

def setByte (mem : Nat → Nat) (a : Nat) (v : UInt8) : Nat → Nat :=
  Function.update mem (wordAddr a) (setWordByte (mem (wordAddr a)) (a % 8) v)

/-- `n` bytes from an address on. -/
def bytesAt (mem : Nat → Nat) (a n : Nat) : List UInt8 := (List.range n).map fun i => byteAt mem (a + i)

/-- Store bytes from an address on, one after the other. -/
def storeBytes (mem : Nat → Nat) (a : Nat) : List UInt8 → Nat → Nat
  | [] => mem
  | v :: bytes => storeBytes (setByte mem a v) (a + 1) bytes

/-- `memcpy` between ranges that do not overlap. -/
def copyBytes (mem : Nat → Nat) (dst src n : Nat) : Nat → Nat := storeBytes mem dst (bytesAt mem src n)

section Words

variable {word k j : Nat} {v : UInt8}

theorem setWordByte_self : UInt8.ofNat (setWordByte word k v / 256 ^ k) = v := by
  have hPos : 0 < 256 ^ k := Nat.pow_pos (by decide)
  have hQuotient : setWordByte word k v / 256 ^ k = v.toNat + 256 * (word / 256 ^ (k + 1)) := by
    rw [setWordByte, Nat.add_mul_div_left _ _ hPos, Nat.div_eq_of_lt (Nat.mod_lt _ hPos),
      Nat.zero_add]
  apply UInt8.toNat_inj.mp
  rw [hQuotient, UInt8.toNat_ofNat', Nat.add_mul_mod_self_left]
  exact Nat.mod_eq_of_lt v.toNat_lt

theorem setWordByte_of_ne (hNe : j ≠ k) :
    setWordByte word k v / 256 ^ j % 256 = word / 256 ^ j % 256 := by
  have hPos : 0 < 256 ^ k := Nat.pow_pos (by decide)
  rcases Nat.lt_or_gt_of_ne hNe with hLow | hHigh
  · -- The part below the byte is the old one.
    have hDvd : 256 ^ (j + 1) ∣ 256 ^ k := Nat.pow_dvd_pow 256 hLow
    have hBelow : setWordByte word k v % 256 ^ k = word % 256 ^ k := by
      rw [setWordByte, Nat.add_mul_mod_self_left, Nat.mod_mod]
    rw [← Nat.mod_mul_right_div_self, ← Nat.mod_mul_right_div_self, ← Nat.pow_succ,
      ← Nat.mod_mod_of_dvd (setWordByte word k v) hDvd, hBelow, Nat.mod_mod_of_dvd _ hDvd]
  · -- And so is the part above it.
    have hSplit : 256 ^ j = 256 ^ (k + 1) * 256 ^ (j - (k + 1)) := by
      rw [← Nat.pow_add]
      congr 1
      omega
    have hAbove : setWordByte word k v / 256 ^ (k + 1) = word / 256 ^ (k + 1) := by
      have hByte : v.toNat / 256 = 0 := Nat.div_eq_of_lt v.toNat_lt
      rw [Nat.pow_succ, ← Nat.div_div_eq_div_mul, setWordByte, Nat.add_mul_div_left _ _ hPos,
        Nat.div_eq_of_lt (Nat.mod_lt _ hPos), Nat.zero_add,
        Nat.add_mul_div_left _ _ (by decide), hByte, Nat.zero_add, Nat.pow_succ]
    rw [hSplit, ← Nat.div_div_eq_div_mul, hAbove, Nat.div_div_eq_div_mul]

/-- The bytes determine the word. -/
theorem word_eq_of_bytes {other : Nat}
    (hSame : ∀ k < 8, UInt8.ofNat (word / 256 ^ k) = UInt8.ofNat (other / 256 ^ k)) :
    word % 2 ^ 64 = other % 2 ^ 64 := by
  have hBelow : ∀ n ≤ 8, word % 256 ^ n = other % 256 ^ n := by
    intro n
    induction n with
    | zero =>
        intro _
        rw [Nat.pow_zero, Nat.mod_one, Nat.mod_one]
    | succ n ih =>
        intro hLe
        have hByte := congrArg UInt8.toNat (hSame n hLe)
        rw [UInt8.toNat_ofNat', UInt8.toNat_ofNat'] at hByte
        rw [Nat.mod_pow_succ, Nat.mod_pow_succ, ih (by omega), hByte]
  exact hBelow 8 (Nat.le_refl _)

end Words

section Bytes

variable {mem mem' : Nat → Nat} {a x w n : Nat} {v : UInt8} {bytes : List UInt8}

theorem byteAt_congr (hSame : mem' (wordAddr a) = mem (wordAddr a)) :
    byteAt mem' a = byteAt mem a := by
  rw [byteAt, byteAt, hSame]

@[simp] theorem byteAt_setByte_self : byteAt (setByte mem a v) a = v := by
  rw [byteAt, setByte, Function.update_self]
  exact setWordByte_self

theorem byteAt_setByte_of_ne (hNe : x ≠ a) : byteAt (setByte mem a v) x = byteAt mem x := by
  by_cases hWord : wordAddr x = wordAddr a
  · have hIndex : x % 8 ≠ a % 8 := by
      simp only [wordAddr] at hWord
      omega
    apply UInt8.toNat_inj.mp
    rw [byteAt, byteAt, setByte, hWord, Function.update_self, UInt8.toNat_ofNat',
      UInt8.toNat_ofNat']
    exact setWordByte_of_ne hIndex
  · apply byteAt_congr
    rw [setByte, Function.update_of_ne hWord]

/-- Bytes that are stored are found, and the others stay. -/
theorem byteAt_storeBytes (mem : Nat → Nat) (a : Nat) (bytes : List UInt8) (x : Nat) :
    byteAt (storeBytes mem a bytes) x =
      if a ≤ x then bytes.getD (x - a) (byteAt mem x) else byteAt mem x := by
  induction bytes generalizing mem a with
  | nil => simp [storeBytes]
  | cons v bytes ih =>
      rw [storeBytes, ih]
      rcases Nat.lt_trichotomy x a with hLt | rfl | hGt
      · rw [if_neg (by omega), if_neg (by omega), byteAt_setByte_of_ne (by omega)]
      · rw [if_neg (by omega), if_pos (Nat.le_refl _), Nat.sub_self]
        simp
      · have hIndex : x - a = x - (a + 1) + 1 := by omega
        rw [if_pos (by omega), if_pos (by omega), hIndex, List.getD_cons_succ,
          byteAt_setByte_of_ne (by omega)]

theorem byteAt_storeBytes_get {i : Nat} (hIndex : i < bytes.length) :
    byteAt (storeBytes mem a bytes) (a + i) = bytes[i] := by
  rw [byteAt_storeBytes, if_pos (Nat.le_add_right ..), Nat.add_sub_cancel_left]
  simp [hIndex]

theorem byteAt_storeBytes_outside (hOutside : x < a ∨ a + bytes.length ≤ x) :
    byteAt (storeBytes mem a bytes) x = byteAt mem x := by
  rw [byteAt_storeBytes]
  split
  · have hNone : bytes[x - a]? = none := List.getElem?_eq_none (by omega)
    rw [List.getD_eq_getElem?_getD, hNone, Option.getD_none]
  · rfl

/-- A word that none of the bytes falls into stays. -/
theorem storeBytes_word (hOutside : ∀ i < bytes.length, wordAddr (a + i) ≠ w) :
    storeBytes mem a bytes w = mem w := by
  induction bytes generalizing mem a with
  | nil => rfl
  | cons v bytes ih =>
      have hFirst : wordAddr a ≠ w := hOutside 0 (by simp)
      rw [storeBytes, ih, setByte, Function.update_of_ne (Ne.symm hFirst)]
      intro i hIndex
      rw [Nat.add_right_comm]
      exact hOutside (i + 1) (by simpa using hIndex)

@[simp] theorem bytesAt_length : (bytesAt mem a n).length = n := by simp [bytesAt]

theorem bytesAt_congr (hSame : ∀ i < n, byteAt mem' (x + i) = byteAt mem (a + i)) :
    bytesAt mem' x n = bytesAt mem a n := by
  apply List.map_congr_left
  intro i hMem
  exact hSame i (List.mem_range.mp hMem)

theorem bytesAt_storeBytes : bytesAt (storeBytes mem a bytes) a bytes.length = bytes := by
  apply List.ext_getElem
  · simp
  · intro i hIndex hLength
    simp only [bytesAt, List.getElem_map, List.getElem_range]
    exact byteAt_storeBytes_get hLength

/-- What a copy leaves at the destination. -/
theorem byteAt_copyBytes {dst src i : Nat} (hIndex : i < n) :
    byteAt (copyBytes mem dst src n) (dst + i) = byteAt mem (src + i) := by
  rw [copyBytes, byteAt_storeBytes_get (by simpa using hIndex)]
  simp [bytesAt]

/-- Equal bytes, equal words. -/
theorem word_eq_of_byteAt (ha : a % 8 = 0) (hx : x % 8 = 0)
    (hSame : ∀ i < 8, byteAt mem' (x + i) = byteAt mem (a + i)) :
    mem' x % 2 ^ 64 = mem a % 2 ^ 64 := by
  apply word_eq_of_bytes
  intro k hk
  have hByte := hSame k hk
  have hWordA : wordAddr (a + k) = a := by
    rw [wordAddr]
    omega
  have hWordX : wordAddr (x + k) = x := by
    rw [wordAddr]
    omega
  have hIndexA : (a + k) % 8 = k := by omega
  have hIndexX : (x + k) % 8 = k := by omega
  rwa [byteAt, byteAt, hWordA, hWordX, hIndexA, hIndexX] at hByte

end Bytes

end Ricerca.Foundation
