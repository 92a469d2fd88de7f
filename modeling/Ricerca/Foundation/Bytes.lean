import Mathlib.Algebra.GroupWithZero.Nat
import Mathlib.Tactic.Common

/-! Cells of a memory, and numbers that are stored in them with the lowest byte first. -/
namespace Ricerca.Foundation

section Cells

variable {V α : Type} {m : Nat → V}

/-- The values from an address on. -/
def Holds (m : Nat → V) (addr : Nat) : List V → Prop
  | [] => True
  | v :: vs => m addr = v ∧ Holds m (addr + 1) vs

/-- The contents of the cells from an address on. -/
def cells (m : Nat → V) (addr : Nat) : Nat → List V
  | 0 => []
  | n + 1 => m addr :: cells m (addr + 1) n

@[simp] theorem holds_nil {addr : Nat} : Holds m addr [] := trivial

@[simp] theorem holds_cons {addr : Nat} {v : V} {vs : List V} :
    Holds m addr (v :: vs) ↔ m addr = v ∧ Holds m (addr + 1) vs := Iff.rfl

theorem holds_append {addr : Nat} {vs ws : List V} :
    Holds m addr (vs ++ ws) ↔ Holds m addr vs ∧ Holds m (addr + vs.length) ws := by
  induction vs generalizing addr with
  | nil => simp
  | cons v vs ih =>
      rw [List.cons_append, holds_cons, holds_cons, ih, List.length_cons, and_assoc,
        Nat.add_right_comm, Nat.add_assoc]

/-- What is read back is what is there. -/
theorem Holds.cells_eq {addr n : Nat} {vs : List V} (h : Holds m addr vs) (hLength : vs.length = n) :
    cells m addr n = vs := by
  subst hLength
  induction vs generalizing addr with
  | nil => rfl
  | cons v vs ih => rw [List.length_cons, cells, h.1, ih h.2]

/-- A record of a sequence lies after those before it. -/
theorem Holds.record {addr i : Nat} {records : List α} {encode : α → List V} {r : α}
    (h : Holds m addr (records.flatMap encode)) (hi : records[i]? = some r) :
    Holds m (addr + ((records.take i).flatMap encode).length) (encode r) := by
  induction records generalizing addr i with
  | nil => cases hi
  | cons first rest ih =>
      rw [List.flatMap_cons, holds_append] at h
      cases i with
      | zero =>
          cases hi
          exact h.1
      | succ i =>
          rw [List.take_succ_cons, List.flatMap_cons, List.length_append, ← Nat.add_assoc]
          exact ih h.2 hi

/-- Where records of one width lie. -/
theorem Holds.fixedRecord {addr i width : Nat} {records : List α} {encode : α → List V} {r : α}
    (h : Holds m addr (records.flatMap encode)) (hWidth : ∀ r, (encode r).length = width)
    (hi : records[i]? = some r) : Holds m (addr + width * i) (encode r) := by
  have hLt : i < records.length := (List.getElem?_eq_some_iff.mp hi).1
  have hLength : ((records.take i).flatMap encode).length = width * i := by
    rw [List.length_flatMap, List.map_congr_left fun r _ => hWidth r, List.map_const',
      List.sum_replicate_nat, List.length_take_of_le (Nat.le_of_lt hLt), Nat.mul_comm]
  rw [← hLength]
  exact h.record hi

/-- A memory with the values at an address, and with zeros elsewhere. -/
def placed [OfNat V 0] (addr : Nat) (values : List V) : Nat → V :=
  fun a => if a < addr then 0 else values.getD (a - addr) 0

theorem placed_holds [OfNat V 0] (addr : Nat) (values : List V) :
    Holds (placed addr values) addr values := by
  have hFrom : ∀ rest before : List V, values = before ++ rest →
      Holds (placed addr values) (addr + before.length) rest := by
    intro rest
    induction rest with
    | nil => exact fun _ _ => trivial
    | cons v rest ih =>
        intro before hValues
        refine ⟨?_, ?_⟩
        · rw [placed, if_neg (by omega), Nat.add_sub_cancel_left, hValues]
          simp
        · have hRest := ih (before ++ [v]) (by simp [hValues])
          rw [List.length_append] at hRest
          exact hRest
  exact hFrom values [] rfl

end Cells

section LittleEndian

/-- The lowest `n` bytes of a number. -/
def leBytes : Nat → Nat → List UInt8
  | 0, _ => []
  | n + 1, value => UInt8.ofNat value :: leBytes n (value / 256)

def leValue : List UInt8 → Nat
  | [] => 0
  | byte :: bytes => byte.toNat + 256 * leValue bytes

@[simp] theorem leBytes_length (n value : Nat) : (leBytes n value).length = n := by
  induction n generalizing value with
  | zero => rfl
  | succ n ih => rw [leBytes, List.length_cons, ih]

theorem leValue_leBytes {n value : Nat} (h : value < 256 ^ n) : leValue (leBytes n value) = value := by
  induction n generalizing value with
  | zero => rw [Nat.pow_zero] at h; rw [leBytes, leValue]; omega
  | succ n ih =>
      rw [Nat.pow_succ] at h
      have hByte : (UInt8.ofNat value).toNat = value % 256 := UInt8.toNat_ofNat'
      rw [leBytes, leValue, ih (Nat.div_lt_of_lt_mul (by omega)), hByte]
      exact Nat.mod_add_div value 256

/-- A number that is stored at an address is read back. -/
theorem Holds.leValue_eq {m : Nat → UInt8} {addr n value : Nat} (h : Holds m addr (leBytes n value))
    (hValue : value < 256 ^ n) : leValue (cells m addr n) = value := by
  rw [h.cells_eq (leBytes_length n value), leValue_leBytes hValue]

end LittleEndian

end Ricerca.Foundation
