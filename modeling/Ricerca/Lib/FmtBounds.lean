import Ricerca.Lib.Fmt

/-! Where formatted output is stored. Characters and numbers stay within the buffer; strings do
when they fit. -/
namespace Ricerca.Fmt

open Ricerca.Foundation

variable {buf size width written lo hi : Int} {base : Base} {b : Buffer}

theorem toInt_eq {x : Int} (hLe : 0 ≤ x) (hLt : x < 2 ^ 31) : toInt x = x :=
  Int.bmod_eq_of_le_mul_two (by omega) (by omega)

section Numbers

/-- How many digits a number has. -/
def digitCount (base : Base) (val : Nat) : Nat :=
  if val / base.val = 0 then 1 else digitCount base (val / base.val) + 1
termination_by val
decreasing_by
  rename_i hNonzero
  exact Nat.div_lt_self (Nat.pos_of_ne_zero fun hZero => hNonzero (by rw [hZero, Nat.zero_div]))
    base.two_le

/-- How many characters a signed number has. -/
def signedCount (base : Base) (val : Int64) : Nat :=
  (if (absolute val).2 then 1 else 0) + digitCount base (absolute val).1.toNat

theorem digitCount_pos (base : Base) (val : Nat) : 0 < digitCount base val := by
  rw [digitCount]
  split_ifs <;> omega

theorem putDigits_count (buf : Int) (base : Base) (val : Nat) (b : Buffer) (hTo : written ≤ size) :
    (putDigits buf size base val written b).1 = min size (written + digitCount base val) := by
  fun_induction putDigits buf size base val written b with
  | case1 val written b hSpace hLast =>
      rw [digitCount, if_pos hLast]
      omega
  | case2 val written b hSpace hMore ih =>
      rw [digitCount, if_neg hMore, ih (by omega)]
      omega
  | case3 val written b hFull => omega

theorem putDigits_within (base : Base) (val : Nat) (hFrom : 0 ≤ written) (hLow : lo ≤ buf)
    (hHigh : buf + size ≤ hi) (hWithin : b.Within lo hi) :
    (putDigits buf size base val written b).2.Within lo hi := by
  fun_induction putDigits buf size base val written b with
  | case1 val written b hSpace hLast =>
      rw [Stored.within_store]
      exact ⟨by omega, hWithin⟩
  | case2 val written b hSpace hMore ih =>
      exact ih (by omega) (Stored.within_store.mpr ⟨by omega, hWithin⟩)
  | case3 val written b hFull => exact hWithin

theorem padZeroes_count (buf width : Int) (b : Buffer) (hTo : written ≤ size) :
    (padZeroes buf size width written b).1 = max written (min size width) := by
  fun_induction padZeroes buf size width written b with
  | case1 written b hSpace ih =>
      rw [ih (by omega)]
      omega
  | case2 written b hDone => omega

theorem padZeroes_within (width : Int) (hFrom : 0 ≤ written) (hLow : lo ≤ buf)
    (hHigh : buf + size ≤ hi) (hWithin : b.Within lo hi) :
    (padZeroes buf size width written b).2.Within lo hi := by
  fun_induction padZeroes buf size width written b with
  | case1 written b hSpace ih =>
      exact ih (by omega) (Stored.within_store.mpr ⟨by omega, hWithin⟩)
  | case2 written b hDone => exact hWithin

theorem reverseBytes_spec (hLow : lo ≤ buf) (hHigh : buf + written ≤ hi) (hWithin : b.Within lo hi) :
    (reverseBytes buf written b).Within lo hi := by
  have hRounds : ∀ rounds : List Nat, (∀ i ∈ rounds, (i : Int) < written / 2) → ∀ b : Buffer,
      b.Within lo hi → (rounds.foldl (swapBytes buf written) b).Within lo hi := by
    intro rounds
    induction rounds with
    | nil => exact fun _ _ hWithin => hWithin
    | cons i rounds ih =>
        intro hRounds b hWithin
        have hi := hRounds i List.mem_cons_self
        refine ih (fun i hi => hRounds i (List.mem_cons_of_mem _ hi)) _ ?_
        rw [swapBytes, Stored.within_store, Stored.within_store]
        exact ⟨by omega, by omega, hWithin⟩
  refine hRounds _ (fun i hi => ?_) b hWithin
  rw [List.mem_range] at hi
  omega

theorem fmtPutui_count (val : UInt64) (buf : Int) (base : Base) (width : Int) (b : Buffer)
    (hSize : 0 ≤ size) :
    (fmtPutui val buf size base width b).1 = min size (max width (digitCount base val.toNat)) := by
  have hPositive := digitCount_pos base val.toNat
  have hDigits := putDigits_count buf base val.toNat b hSize
  rw [fmtPutui]
  generalize putDigits buf size base val.toNat 0 b = digits at *
  obtain ⟨written, b'⟩ := digits
  simp only at hDigits ⊢
  rw [padZeroes_count buf width b' (by omega)]
  omega

theorem fmtPutui_spec (val : UInt64) (base : Base) (width : Int) (hSize : 0 ≤ size) (hLow : lo ≤ buf)
    (hHigh : buf + size ≤ hi) (hWithin : b.Within lo hi) :
    (fmtPutui val buf size base width b).1 = min size (max width (digitCount base val.toNat)) ∧
    (fmtPutui val buf size base width b).2.Within lo hi := by
  refine ⟨fmtPutui_count val buf base width b hSize, ?_⟩
  have hPositive := digitCount_pos base val.toNat
  have hDigits := putDigits_count buf base val.toNat b hSize
  have hWithin := putDigits_within base val.toNat (Int.le_refl 0) hLow hHigh hWithin
  rw [fmtPutui]
  generalize putDigits buf size base val.toNat 0 b = digits at *
  obtain ⟨written, b'⟩ := digits
  simp only at hDigits hWithin ⊢
  have hPadding := padZeroes_count buf width b' (show written ≤ size by omega)
  exact reverseBytes_spec hLow (by omega) (padZeroes_within width (by omega) hLow hHigh hWithin)

/-- No number is printed where there is less than no space. -/
theorem fmtPutui_of_neg {val : UInt64} (hSize : size < 0) :
    fmtPutui val buf size base width b = (0, b) := by
  have hDigits : putDigits buf size base val.toNat 0 b = (0, b) := by
    rw [putDigits, if_neg (by omega)]
  have hPadding : padZeroes buf size width 0 b = (0, b) := by
    rw [padZeroes, if_neg (by omega)]
  rw [fmtPutui, hDigits]
  simp only
  rw [hPadding]
  rfl

theorem fmtPuti_spec (val : Int64) (base : Base) (hSize : 0 < size) (hMax : size < 2 ^ 31)
    (hLow : lo ≤ buf) (hHigh : buf + size ≤ hi) (hWithin : b.Within lo hi) :
    (fmtPuti val buf size base b).1 = min size (signedCount base val) ∧
    (fmtPuti val buf size base b).2.Within lo hi := by
  rw [fmtPuti, signedCount]
  rcases absolute val with ⟨abs, negative⟩
  simp only
  have hPositive := digitCount_pos base abs.toNat
  cases negative with
  | true =>
      have hSign : (b.store buf (char '-')).Within lo hi :=
        Stored.within_store.mpr ⟨by omega, hWithin⟩
      have hLess : toInt (size - 1) = size - 1 := toInt_eq (by omega) (by omega)
      have hRest : 0 ≤ size - 1 := by omega
      obtain ⟨hCount, hStored⟩ := fmtPutui_spec abs base 0 hRest (Int.le_add_one hLow) (by omega)
        hSign
      rw [if_pos rfl, if_pos rfl, if_neg (by omega), hLess]
      refine ⟨?_, hStored⟩
      simp only
      rw [hCount, toInt_eq (by omega) (by omega)]
      omega
  | false =>
      obtain ⟨hCount, hStored⟩ := fmtPutui_spec abs base 0 (Int.le_of_lt hSize) hLow hHigh hWithin
      rw [if_neg Bool.false_ne_true, if_neg Bool.false_ne_true]
      exact ⟨by omega, hStored⟩

end Numbers

section Grows

theorem putDigits_grows {val : Nat} : b.Grows (putDigits buf size base val written b).2 := by
  fun_induction putDigits buf size base val written b with
  | case1 val written b hSpace hLast => exact Stored.grows_store
  | case2 val written b hSpace hMore ih => exact Stored.grows_store.trans ih
  | case3 val written b hFull => exact .refl b

theorem padZeroes_grows : b.Grows (padZeroes buf size width written b).2 := by
  fun_induction padZeroes buf size width written b with
  | case1 written b hSpace ih => exact Stored.grows_store.trans ih
  | case2 written b hDone => exact .refl b

theorem reverseBytes_grows : b.Grows (reverseBytes buf written b) := by
  rw [reverseBytes]
  induction List.range (written / 2).toNat generalizing b with
  | nil => exact .refl b
  | cons i rounds ih => exact (Stored.grows_store.trans Stored.grows_store).trans ih

theorem fmtPutui_grows {val : UInt64} : b.Grows (fmtPutui val buf size base width b).2 :=
  (putDigits_grows.trans padZeroes_grows).trans reverseBytes_grows

theorem fmtPuti_grows {val : Int64} : b.Grows (fmtPuti val buf size base b).2 := by
  rw [fmtPuti]
  rcases absolute val with ⟨abs, negative⟩
  simp only
  split_ifs
  · exact .refl b
  · exact Stored.grows_store.trans fmtPutui_grows
  · exact fmtPutui_grows

/-- A sign is printed even where there is less than no space. -/
theorem fmtPuti_of_neg {val : Int64} (hSize : size < 0) :
    fmtPuti val buf size base b = (0, b) ∨
    (b.store buf (char '-')).Grows (fmtPuti val buf size base b).2 := by
  rw [fmtPuti]
  rcases absolute val with ⟨abs, negative⟩
  simp only
  cases negative with
  | true =>
      rw [if_pos rfl, if_neg (by omega)]
      exact .inr fmtPutui_grows
  | false =>
      rw [if_neg Bool.false_ne_true]
      exact .inl (fmtPutui_of_neg hSize)

end Grows

end Ricerca.Fmt
