import Ricerca.Lib.FmtRender

/-! Numbers that are printed can be read back. -/
namespace Ricerca.Fmt

open Ricerca.Foundation

variable {buf size width written : Int} {base : Base} {b : Buffer}

section Reading

/-- The value of a digit in a base. -/
def digitValue (base : Base) (c : UInt8) : Option Nat := (List.range base.val).find? (digit · = c)

/-- Read digits in a base, the leading one first, behind those that have been read. -/
def readDigits (base : Base) : (val : Nat) → List UInt8 → Option Nat
  | val, [] => some val
  | val, c :: text => do
      let digit ← digitValue base c
      readDigits base (val * base.val + digit) text

def readNumeral (base : Base) (text : List UInt8) : Option Nat := readDigits base 0 text

/-- Read digits, or a minus sign and digits. -/
def readSigned (base : Base) : List UInt8 → Option Int
  | [] => none
  | c :: text =>
      if c = char '-' then (readNumeral base text).map fun val : Nat => -(val : Int)
      else (readNumeral base (c :: text)).map fun val : Nat => (val : Int)

theorem digit_injective : ∀ n < 16, ∀ m < 16, digit n = digit m → n = m := by
  decide

theorem digitValue_digit {mod : Nat} (hLess : mod < base.val) : digitValue base (digit mod) = some mod := by
  have hSixteen := base.le_sixteen
  rw [digitValue, List.find?_range_eq_some]
  refine ⟨by simp, List.mem_range.mpr hLess, ?_⟩
  intro n hBelow
  have hNe : digit n ≠ digit mod := by
    intro hEq
    have := digit_injective n (by omega) mod (by omega) hEq
    omega
  simpa using hNe

theorem readDigits_append (base : Base) (val : Nat) (text rest : List UInt8) :
    readDigits base val (text ++ rest) =
      (readDigits base val text).bind fun val => readDigits base val rest := by
  induction text generalizing val with
  | nil => rfl
  | cons c text ih =>
      rw [List.cons_append, readDigits, readDigits]
      cases digitValue base c with
      | none => rfl
      | some digit => exact ih _

/-- Digits read back to the number that they were made from. -/
theorem readNumeral_numeral (base : Base) (val : Nat) :
    readNumeral base (numeral base val) = some val := by
  have hMod : val % base.val < base.val := Nat.mod_lt _ (by have := base.two_le; omega)
  have hDivMod := Nat.div_add_mod val base.val
  fun_induction digitCount base val with
  | case1 val hLast =>
      rw [readNumeral, numeral_eq, if_pos hLast, List.nil_append, readDigits, digitValue_digit hMod]
      rw [hLast, Nat.mul_zero, Nat.zero_add] at hDivMod
      simp [readDigits, hDivMod]
  | case2 val hMore ih =>
      have hMod' : val / base.val % base.val < base.val := Nat.mod_lt _ (by have := base.two_le; omega)
      have hFirst := ih hMod' (Nat.div_add_mod _ _)
      rw [readNumeral] at hFirst ⊢
      rw [numeral_eq, if_neg hMore, readDigits_append, hFirst, Option.bind_some, readDigits,
        digitValue_digit hMod, Nat.mul_comm]
      simp [readDigits, hDivMod]

/-- Zeroes in front do not count. -/
theorem readNumeral_leftpad (base : Base) (text : List UInt8) (width : Nat) :
    readNumeral base (text.leftpad width (char '0')) = readNumeral base text := by
  have hZero : digitValue base (char '0') = some 0 := by
    have hDigit : char '0' = digit 0 := rfl
    rw [hDigit]
    exact digitValue_digit (by have := base.two_le; omega)
  have hZeroes : ∀ n, readDigits base 0 (List.replicate n (char '0')) = some 0 := by
    intro n
    induction n with
    | zero => rfl
    | succ n ih =>
        rw [List.replicate_succ, readDigits, hZero]
        simpa using ih
  rw [readNumeral, List.leftpad, readDigits_append, hZeroes, Option.bind_some, readNumeral]

theorem numeral_length (base : Base) (val : Nat) : (numeral base val).length = digitCount base val := by
  fun_induction digitCount base val with
  | case1 val hLast =>
      rw [numeral_eq, if_pos hLast]
      rfl
  | case2 val hMore ih =>
      rw [numeral_eq, if_neg hMore, List.length_append, ih]
      rfl

/-- A number other than zero starts with another digit than zero. -/
theorem numeral_head {val : Nat} (hNonzero : val ≠ 0) : (numeral base val).head? ≠ some (char '0') := by
  fun_induction digitCount base val with
  | case1 val hLast =>
      have hSixteen := base.le_sixteen
      have hMod : val % base.val < base.val := Nat.mod_lt _ (by have := base.two_le; omega)
      have hDivMod := Nat.div_add_mod val base.val
      rw [hLast, Nat.mul_zero, Nat.zero_add] at hDivMod
      rw [numeral_eq, if_pos hLast]
      intro hHead
      have hZero := digit_injective (val % base.val) (by omega) 0 (by omega) (Option.some.inj hHead)
      omega
  | case2 val hMore ih =>
      have hPositive := numeral_length_pos base (val / base.val)
      have hNe : numeral base (val / base.val) ≠ [] := List.ne_nil_of_length_pos hPositive
      obtain ⟨first, rest, hCons⟩ := List.exists_cons_of_ne_nil hNe
      have hHead := ih hMore
      rw [hCons] at hHead
      rw [numeral_eq, if_neg hMore, hCons]
      exact hHead

end Reading

section Stores

/-- Something has been stored at the address. -/
def Touched (b : Buffer) (a : Int) : Prop := ∃ range ∈ b.stores, range.1 ≤ a ∧ a < range.1 + range.2

theorem touched_store {addr a : Int} {c : UInt8} : Touched (b.store addr c) a ↔ a = addr ∨ Touched b a := by
  simp only [Touched, Stored.store, List.mem_cons, exists_eq_or_imp]
  apply or_congr_left
  omega

theorem touched_putDigits (buf size : Int) (base : Base) (val : Nat) (written : Int) (b : Buffer) (a : Int) :
    written ≤ (putDigits buf size base val written b).1 ∧
    (Touched (putDigits buf size base val written b).2 a ↔
      (buf + written ≤ a ∧ a < buf + (putDigits buf size base val written b).1) ∨ Touched b a) := by
  fun_induction putDigits buf size base val written b with
  | case1 val written b hSpace hLast =>
      rw [touched_store]
      refine ⟨by omega, or_congr_left ?_⟩
      omega
  | case2 val written b hSpace hMore ih =>
      obtain ⟨hLe, hTouched⟩ := ih
      rw [hTouched, touched_store, ← or_assoc]
      refine ⟨by omega, or_congr_left ?_⟩
      omega
  | case3 val written b hFull =>
      refine ⟨Int.le_refl _, ?_⟩
      simp only
      rw [iff_or_self]
      omega

theorem touched_padZeroes (buf size width written : Int) (b : Buffer) (a : Int) :
    written ≤ (padZeroes buf size width written b).1 ∧
    (Touched (padZeroes buf size width written b).2 a ↔
      (buf + written ≤ a ∧ a < buf + (padZeroes buf size width written b).1) ∨ Touched b a) := by
  fun_induction padZeroes buf size width written b with
  | case1 written b hMore ih =>
      obtain ⟨hLe, hTouched⟩ := ih
      rw [hTouched, touched_store, ← or_assoc]
      refine ⟨by omega, or_congr_left ?_⟩
      omega
  | case2 written b hDone =>
      refine ⟨Int.le_refl _, ?_⟩
      simp only
      rw [iff_or_self]
      omega

/-- Reversing touches only what is reversed. -/
theorem touched_reverseBytes {a : Int} (h : ∀ x, buf ≤ x → x < buf + written → Touched b x) :
    Touched (reverseBytes buf written b) a ↔ Touched b a := by
  have hRounds : ∀ rounds : List Nat, (∀ i ∈ rounds, (i : Int) < written / 2) → ∀ b : Buffer,
      (∀ x, buf ≤ x → x < buf + written → Touched b x) →
      ∀ a, Touched (rounds.foldl (swapBytes buf written) b) a ↔ Touched b a := by
    intro rounds
    induction rounds with
    | nil => exact fun _ _ _ _ => Iff.rfl
    | cons i rounds ih =>
        intro hLess b hOld a
        have hi := hLess i List.mem_cons_self
        have hSame : ∀ x, Touched (swapBytes buf written b i) x ↔ Touched b x := by
          intro x
          rw [swapBytes, touched_store, touched_store]
          constructor
          · rintro (rfl | rfl | hTouched)
            · exact hOld _ (by omega) (by omega)
            · exact hOld _ (by omega) (by omega)
            · exact hTouched
          · intro hTouched
            exact .inr (.inr hTouched)
        rw [List.foldl_cons, ih (fun j hj => hLess j (List.mem_cons_of_mem _ hj)) _ ?_, hSame]
        intro x hFrom hTo
        exact (hSame x).mpr (hOld x hFrom hTo)
  refine hRounds _ (fun i hi => ?_) b h a
  rw [List.mem_range] at hi
  omega

/-- The characters from `buf` up to the number that is returned have been written, and
nothing else has. -/
def Writes (buf : Int) (b : Buffer) (result : Int × Buffer) : Prop :=
  (∀ a, Touched result.2 a ↔ (buf ≤ a ∧ a < buf + result.1) ∨ Touched b a)

theorem fmtPutui_writes (val : UInt64) (buf size : Int) (base : Base) (width : Int) (b : Buffer) :
    Writes buf b (fmtPutui val buf size base width b) := by
  have hDigits := touched_putDigits buf size base val.toNat 0 b
  rw [fmtPutui]
  generalize putDigits buf size base val.toNat 0 b = digits at hDigits ⊢
  obtain ⟨count, b₁⟩ := digits
  simp only at hDigits ⊢
  have hPadding := touched_padZeroes buf size width count b₁
  generalize padZeroes buf size width count b₁ = padding at hPadding ⊢
  obtain ⟨total, b₂⟩ := padding
  simp only at hPadding ⊢
  have hCount := (hDigits 0).1
  have hTotal := (hPadding 0).1
  have hTouched : ∀ a, Touched b₂ a ↔ (buf ≤ a ∧ a < buf + total) ∨ Touched b a := by
    intro a
    rw [(hPadding a).2, (hDigits a).2, ← or_assoc]
    apply or_congr_left
    omega
  intro a
  rw [touched_reverseBytes, hTouched]
  intro x hFrom hTo
  exact (hTouched x).mpr (.inl ⟨hFrom, hTo⟩)

theorem fmtPuti_writes (val : Int64) (buf : Int) (base : Base) (b : Buffer) (hSize : 0 ≤ size)
    (hMax : size < 2 ^ 31) : Writes buf b (fmtPuti val buf size base b) := by
  rw [fmtPuti]
  obtain ⟨abs, negative⟩ := absolute val
  simp only
  cases negative with
  | true =>
      rw [if_pos rfl]
      split_ifs with hNone
      · intro a
        simp only [iff_or_self]
        omega
      · have hLess : toInt (size - 1) = size - 1 := toInt_eq (by omega) (by omega)
        have hInner := fmtPutui_writes abs (buf + 1) (size - 1) base 0 (b.store buf (char '-'))
        have hCount := fmtPutui_count abs (buf + 1) base 0 (b.store buf (char '-'))
          (show 0 ≤ size - 1 by omega)
        rw [hLess]
        generalize fmtPutui abs (buf + 1) (size - 1) base 0 (b.store buf (char '-')) = inner
          at hInner hCount ⊢
        obtain ⟨written, b'⟩ := inner
        simp only [Writes] at hInner hCount ⊢
        intro a
        rw [toInt_eq (by omega) (by omega), hInner a, touched_store, ← or_assoc]
        apply or_congr_left
        omega
  | false =>
      rw [if_neg Bool.false_ne_true]
      exact fmtPutui_writes abs buf size base 0 b

end Stores

section RoundTrip

/-- A number of characters from a place in the buffer on. -/
def textAt (b : Buffer) (buf n : Int) : List UInt8 := (List.range n.toNat).map fun i : Nat => b.contents (buf + i)

theorem textAt_overlay {contents : Int → UInt8} {text : List UInt8}
    (hContents : b.contents = overlay contents buf text) : textAt b buf text.length = text := by
  have hLength : (text.length : Int).toNat = text.length := Int.toNat_natCast _
  apply List.ext_getElem
  · simp [textAt]
  · intro i _ hIndex
    simp only [textAt, List.getElem_map, List.getElem_range, hContents]
    exact overlay_get hIndex

/-- A negative width is none. -/
theorem fmtPutui_toNat (val : UInt64) (buf size : Int) (base : Base) (width : Int) (b : Buffer) :
    fmtPutui val buf size base width b = fmtPutui val buf size base width.toNat b := by
  have hDigits := (touched_putDigits buf size base val.toNat 0 b 0).1
  rw [fmtPutui, fmtPutui]
  generalize putDigits buf size base val.toNat 0 b = digits at hDigits ⊢
  obtain ⟨written, b'⟩ := digits
  simp only at hDigits ⊢
  rcases Int.le_total 0 width with hNatural | hNegative
  · rw [Int.toNat_of_nonneg hNatural]
  · have hPadding : ∀ w : Int, w ≤ 0 → padZeroes buf size w written b' = (written, b') := by
      intro w hw
      rw [padZeroes, if_neg (by omega)]
    rw [hPadding width hNegative, hPadding width.toNat (by omega)]

/-- What is printed, when there is space for it, reads back to the number. -/
theorem fmtPutui_reads (val : UInt64) (buf : Int) (base : Base) (width : Int) (b : Buffer)
    (hSpace : max width (digitCount base val.toNat) ≤ size) :
    let result := fmtPutui val buf size base width b
    result.1 = max width (digitCount base val.toNat) ∧
    readNumeral base (textAt result.2 buf result.1) = some val.toNat ∧
    ∃ zeroes digits, textAt result.2 buf result.1 = List.replicate zeroes (char '0') ++ digits ∧
      digits.length = digitCount base val.toNat ∧ (digits.head? = some (char '0') → val = 0) := by
  have hPositive := digitCount_pos base val.toNat
  have hLength : ((numeral base val.toNat).leftpad width.toNat (char '0')).length =
      max width.toNat (digitCount base val.toNat) := by
    rw [List.length_leftpad, numeral_length]
  intro result
  have hResult : result = fmtPutui val buf size base width.toNat b := fmtPutui_toNat ..
  obtain ⟨hCount, hContents⟩ := fmtPutui_text val buf size base width.toNat b (by omega)
  rw [← hResult] at hCount hContents
  have hText : textAt result.2 buf result.1 = (numeral base val.toNat).leftpad width.toNat (char '0') := by
    rw [hCount]
    exact textAt_overlay hContents
  rw [hText]
  refine ⟨by omega, ?_, width.toNat - (numeral base val.toNat).length, numeral base val.toNat, rfl,
    numeral_length base _, ?_⟩
  · rw [readNumeral_leftpad, readNumeral_numeral]
  · intro hHead
    by_contra hNonzero
    refine numeral_head (fun hZero => hNonzero ?_) hHead
    exact UInt64.toNat_inj.mp hZero

theorem signedText_length (base : Base) (val : Int64) :
    (signedText base val.toInt).length = signedCount base val := by
  obtain ⟨hAbs, hNegative⟩ := absolute_eq val
  rw [signedText, signedCount, hAbs, hNegative]
  by_cases hSign : val.toInt < 0
  · rw [if_pos hSign, List.length_cons, numeral_length, if_pos (decide_eq_true hSign), Nat.add_comm]
  · rw [if_neg hSign, numeral_length, if_neg (by simpa using hSign), Nat.zero_add]

/-- No digit is a minus sign. -/
theorem numeral_ne_minus (base : Base) (val : Nat) : (numeral base val).head? ≠ some (char '-') := by
  have hDigit : ∀ mod < 16, digit mod ≠ char '-' := by decide
  have hSixteen := base.le_sixteen
  fun_induction digitCount base val with
  | case1 val hLast =>
      have hMod : val % base.val < base.val := Nat.mod_lt _ (by have := base.two_le; omega)
      rw [numeral_eq, if_pos hLast]
      intro hHead
      exact hDigit _ (by omega) (Option.some.inj hHead)
  | case2 val hMore ih =>
      have hNe : numeral base (val / base.val) ≠ [] := List.ne_nil_of_length_pos (numeral_length_pos base _)
      obtain ⟨first, rest, hCons⟩ := List.exists_cons_of_ne_nil hNe
      rw [hCons] at ih
      rw [numeral_eq, if_neg hMore, hCons]
      exact ih

theorem readSigned_signedText (base : Base) (val : Int) :
    readSigned base (signedText base val) = some val ∧
    ((signedText base val).head? = some (char '-') ↔ val < 0) := by
  rw [signedText]
  by_cases hSign : val < 0
  · rw [if_pos hSign, readSigned, if_pos rfl, readNumeral_numeral]
    refine ⟨?_, by simp [hSign]⟩
    rw [Option.map_some]
    congr 1
    omega
  · rw [if_neg hSign]
    have hNe := numeral_ne_minus base val.natAbs
    have hRead := readNumeral_numeral base val.natAbs
    obtain ⟨first, rest, hCons⟩ :=
      List.exists_cons_of_ne_nil (List.ne_nil_of_length_pos (numeral_length_pos base val.natAbs))
    rw [hCons] at hNe hRead ⊢
    have hFirst : first ≠ char '-' := fun hEq => hNe (by rw [hEq, List.head?_cons])
    rw [readSigned, if_neg hFirst, hRead]
    refine ⟨?_, by simp [hFirst, hSign]⟩
    rw [Option.map_some]
    congr 1
    omega

theorem fmtPuti_bounds (val : Int64) (buf : Int) (base : Base) (contents : Int → UInt8)
    (hSize : 0 ≤ size) (hMax : size < 2 ^ 31) :
    0 ≤ (fmtPuti val buf size base (.fresh contents)).1 ∧
    (fmtPuti val buf size base (.fresh contents)).1 ≤ size := by
  rcases Int.lt_or_eq_of_le hSize with hSome | hNone
  · have hWithin : (Stored.fresh contents).Within buf (buf + size) := Stored.within_fresh
    have hCount := (fmtPuti_spec val base hSome hMax (Int.le_refl buf) (Int.le_refl _) hWithin).1
    omega
  · rw [fmtPuti]
    obtain ⟨abs, negative⟩ := absolute val
    have hCount := fmtPutui_count abs buf base 0 (.fresh contents) hSize
    cases negative with
    | true =>
        simp only [hNone.symm, if_true]
        omega
    | false =>
        simp only [Bool.false_eq_true, if_false]
        omega

/-- Numbers that are printed with enough space read back, without zeroes in front other than
the padding; and with any space, what is returned is how many characters have been written
from the place in the buffer on, at most as many as there is space for. -/
theorem integers_round_trip (base : Base) (contents : Int → UInt8) (buf : Int) (size : Nat)
    (hSize : size < 2 ^ 31) :
    (∀ (val : UInt64) (width : Int),
      let result := fmtPutui val buf size base width (.fresh contents)
      let text := textAt result.2 buf result.1
      (0 ≤ result.1 ∧ result.1 ≤ size ∧
        ∀ a, Touched result.2 a ↔ buf ≤ a ∧ a < buf + result.1) ∧
      (max width (digitCount base val.toNat) ≤ size →
        result.1 = max width (digitCount base val.toNat) ∧ readNumeral base text = some val.toNat ∧
        ∃ zeroes digits, text = List.replicate zeroes (char '0') ++ digits ∧
          digits.length = digitCount base val.toNat ∧
          (digits.head? = some (char '0') → val = 0))) ∧
    ∀ val : Int64,
      let result := fmtPuti val buf size base (.fresh contents)
      let text := textAt result.2 buf result.1
      (0 ≤ result.1 ∧ result.1 ≤ size ∧
        ∀ a, Touched result.2 a ↔ buf ≤ a ∧ a < buf + result.1) ∧
      (signedCount base val ≤ size →
        result.1 = signedCount base val ∧ readSigned base text = some val.toInt ∧
        (text.head? = some (char '-') ↔ val.toInt < 0)) := by
  have hFresh : ∀ a, ¬Touched (.fresh contents) a := by
    intro a
    simp [Touched, Stored.fresh]
  have hNatural : (0 : Int) ≤ size := Int.natCast_nonneg size
  refine ⟨fun val width => ⟨?_, fun hSpace => fmtPutui_reads val buf base width _ hSpace⟩,
    fun val => ⟨?_, fun hSpace => ?_⟩⟩
  · have hPositive := digitCount_pos base val.toNat
    have hCount := fmtPutui_count val buf base width (.fresh contents) hNatural
    refine ⟨by omega, by omega, fun a => ?_⟩
    rw [fmtPutui_writes val buf size base width (.fresh contents) a, or_iff_left (hFresh a)]
  · obtain ⟨hFrom, hTo⟩ := fmtPuti_bounds val buf base contents hNatural (by omega)
    refine ⟨hFrom, hTo, fun a => ?_⟩
    rw [fmtPuti_writes val buf base (.fresh contents) hNatural (by omega) a, or_iff_left (hFresh a)]
  · have hLength := signedText_length base val
    obtain ⟨hCount, hContents⟩ := fmtPuti_text val buf base (.fresh contents) (by omega : (size : Int) < 2 ^ 31) (by omega)
    have hText := textAt_overlay hContents
    obtain ⟨hRead, hHead⟩ := readSigned_signedText base val.toInt
    rw [hCount, hText]
    exact ⟨by rw [hLength], hRead, hHead⟩

/-- The least number in base 16, and a small number that is padded. -/
theorem integers_round_trip_least :
    let contents : Int → UInt8 := fun _ => 0
    let least := fmtPuti Int64.minValue 3 17 hexadecimal (.fresh contents)
    let padded := fmtPutui 10 3 17 hexadecimal 4 (.fresh contents)
    readSigned hexadecimal (textAt least.2 3 least.1) = some (-2 ^ 63) ∧
    readNumeral hexadecimal (textAt padded.2 3 padded.1) = some 10 ∧ padded.1 = 4 := by
  intro contents least padded
  obtain ⟨hUnsigned, hSigned⟩ := integers_round_trip hexadecimal contents 3 17 (by omega)
  have hLeast : signedCount hexadecimal Int64.minValue ≤ 17 := by
    rw [← signedText_length]
    decide
  have hPadded : digitCount hexadecimal (10 : UInt64).toNat = 1 := by
    rw [← numeral_length]
    rfl
  obtain ⟨-, hRead, -⟩ := (hSigned Int64.minValue).2 (by omega)
  obtain ⟨hCount, hNumber, -⟩ := (hUnsigned 10 4).2 (by omega)
  refine ⟨hRead, hNumber, ?_⟩
  rw [hPadded] at hCount
  exact hCount

end RoundTrip

end Ricerca.Fmt
