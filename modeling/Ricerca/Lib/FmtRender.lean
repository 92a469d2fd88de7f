import Ricerca.Lib.FmtOverrun

/-! What formatted output reads like: the text of a format and its arguments, and that it is what
the buffer holds when there is space for all of it. -/
namespace Ricerca.Fmt

open Ricerca.Foundation

variable {buf size width written : Int} {base : Base} {b : Buffer} {contents : Int → UInt8}

section Text

/-- The digits of a number in a base, the leading one first. -/
def numeral (base : Base) (val : Nat) : List UInt8 := (Nat.toDigits base.val val).map char

def signedNumeral (val : Int) : List UInt8 :=
  if val < 0 then char '-' :: numeral decimal val.natAbs else numeral decimal val.natAbs

/-- The bytes of a string before its NUL. -/
def CString.bytes (str : CString) : List UInt8 := (List.range str.length).map str.contents

/-- The text of an argument, when it is of the type that the specifier takes. -/
def convert : Specifier → Arg → Option (List UInt8)
  | .c, .int32 val => some [val.toInt8.toUInt8]
  | .s, .string str => some str.bytes
  | .d, .int32 val => some (signedNumeral val.toInt)
  | .D, .int64 val => some (signedNumeral val.toInt)
  | .u, .uint32 val => some (numeral decimal val.toNat)
  | .U, .uint64 val => some (numeral decimal val.toNat)
  | .x, .uint32 val => some (numeral hexadecimal val.toNat)
  | .X, .uint64 val => some (numeral hexadecimal val.toNat)
  | .p, .uint64 val => some ((numeral hexadecimal val.toNat).leftpad 16 (char '0'))
  | _, _ => none

/-- What a format consists of: characters that stand for themselves, and specifiers that convert
an argument. -/
inductive Piece where
  | literal (c : UInt8)
  | conversion (spec : Specifier)
  deriving DecidableEq, Repr

/-- The pieces of a format. An unknown specifier is none, and a `%` at the very end closes the
format. -/
def pieces : List UInt8 → List Piece
  | [] => []
  | c :: format =>
      if c ≠ char '%' then .literal c :: pieces format
      else
        match format with
        | [] => []
        | type :: format =>
            match specifier type with
            | none => pieces format
            | some .percent => .literal (char '%') :: pieces format
            | some spec => .conversion spec :: pieces format

/-- The text of some pieces, the first conversion among them being that of argument `n`. There is
none when the arguments do not match. -/
def renderPieces (args : List Arg) : Nat → List Piece → Option (List UInt8)
  | _, [] => some []
  | n, .literal c :: rest => (renderPieces args n rest).map (c :: ·)
  | n, .conversion spec :: rest => do
      let arg ← args[n]?
      let text ← convert spec arg
      (renderPieces args (n + 1) rest).map (text ++ ·)

/-- The text of a format and its arguments. -/
def render (format : List UInt8) (args : List Arg) : Option (List UInt8) :=
  renderPieces args 0 (pieces format)

end Text

section Numbers

theorem digit_eq : ∀ mod < 16, digit mod = char (Nat.digitChar mod) := by
  decide

/-- The last digit comes off the end. -/
theorem numeral_eq (base : Base) (val : Nat) :
    numeral base val =
      (if val / base.val = 0 then [] else numeral base (val / base.val)) ++
        [digit (val % base.val)] := by
  have hBase := base.two_le
  have hSixteen := base.le_sixteen
  have hMod : val % base.val < base.val := Nat.mod_lt _ (by omega)
  rw [digit_eq _ (by omega), numeral, Nat.toDigits_eq_if (by omega)]
  by_cases hSmall : val < base.val
  · rw [if_pos hSmall, if_pos (Nat.div_eq_of_lt hSmall), Nat.mod_eq_of_lt hSmall]
    rfl
  · have hMore : val / base.val ≠ 0 := by
      rw [Ne, Nat.div_eq_zero_iff]
      omega
    rw [if_neg hSmall, if_neg hMore, List.map_append]
    rfl

theorem numeral_length_pos (base : Base) (val : Nat) : 0 < (numeral base val).length := by
  rw [numeral_eq]
  simp

/-- The digits go to the buffer from the last one on. -/
theorem putDigits_text (buf size : Int) (base : Base) (val : Nat) (written : Int) (b : Buffer)
    (hSpace : written + (numeral base val).length ≤ size) :
    (putDigits buf size base val written b).1 = written + (numeral base val).length ∧
    (putDigits buf size base val written b).2.contents =
      overlay b.contents (buf + written) (numeral base val).reverse := by
  fun_induction putDigits buf size base val written b with
  | case1 val written b hLess hLast =>
      rw [numeral_eq, if_pos hLast]
      exact ⟨by simp, Stored.contents_store⟩
  | case2 val written b hLess hMore ih =>
      rw [numeral_eq, if_neg hMore] at hSpace ⊢
      rw [List.length_append, List.length_singleton] at hSpace ⊢
      obtain ⟨hCount, hContents⟩ := ih (by omega)
      refine ⟨by omega, ?_⟩
      rw [hContents, Stored.contents_store, ← Int.add_assoc, List.reverse_append,
        List.reverse_singleton]
      exact overlay_append
  | case3 val written b hFull =>
      have := numeral_length_pos base val
      omega

theorem padZeroes_text (buf written : Int) (b : Buffer) (hSpace : width ≤ size) :
    (padZeroes buf size width written b).1 = max written width ∧
    (padZeroes buf size width written b).2.contents =
      overlay b.contents (buf + written) (List.replicate (width - written).toNat (char '0')) := by
  fun_induction padZeroes buf size width written b with
  | case1 written b hMore ih =>
      obtain ⟨hCount, hContents⟩ := ih
      have hZeroes : (width - written).toNat = (width - (written + 1)).toNat + 1 := by omega
      refine ⟨by omega, ?_⟩
      rw [hContents, Stored.contents_store, ← Int.add_assoc, hZeroes, List.replicate_succ]
      exact overlay_append
  | case2 written b hDone =>
      have hNone : (width - written).toNat = 0 := by omega
      refine ⟨by omega, ?_⟩
      rw [hNone, List.replicate_zero, overlay_nil]

/-- The mirror image of a byte. -/
theorem overlay_reverse {text : List UInt8} {i : Nat} (hIndex : i < text.length) :
    overlay contents buf text.reverse (buf + i) =
      overlay contents buf text (buf + (text.length - 1 - i : Int)) := by
  have hMirror : (text.length - 1 - i : Int) = (text.length - 1 - i : Nat) := by omega
  rw [hMirror, overlay_get (by simpa using hIndex), overlay_get (by omega), List.getElem_reverse]

/-- The bytes after `k` rounds of the reversal: the outer ones are in their new places. -/
def turned (contents : Int → UInt8) (buf : Int) (text : List UInt8) (k : Nat) : Int → UInt8 :=
  fun a =>
    if a < buf + k ∨ buf + text.length - k ≤ a then overlay contents buf text.reverse a
    else overlay contents buf text a

theorem swapBytes_text {text : List UInt8} {k : Nat} (hRound : 2 * k + 1 < text.length)
    (hBefore : b.contents = turned contents buf text k) :
    (swapBytes buf text.length b k).contents = turned contents buf text (k + 1) := by
  have hLeft : b.contents (buf + k) = overlay contents buf text (buf + k) := by
    rw [hBefore, turned, if_neg (by omega)]
  have hRight : b.contents (buf + (text.length - 1 - k)) =
      overlay contents buf text (buf + (text.length - 1 - k : Int)) := by
    rw [hBefore, turned, if_neg (by omega)]
  have hMirror : overlay contents buf text.reverse (buf + (text.length - 1 - k : Int)) =
      overlay contents buf text (buf + k) := by
    have hIndex : (text.length - 1 - k : Int) = (text.length - 1 - k : Nat) := by omega
    rw [hIndex, overlay_reverse (by omega)]
    congr 2
    omega
  funext a
  rw [swapBytes, turned]
  simp only [Stored.store, hLeft, hRight]
  by_cases hLast : a = buf + (text.length - 1 - k)
  · rw [if_pos hLast, if_pos (by omega), hLast, hMirror]
  · rw [if_neg hLast]
    by_cases hFirst : a = buf + k
    · rw [if_pos hFirst, if_pos (by omega), hFirst, overlay_reverse (by omega)]
    · rw [if_neg hFirst, hBefore, turned]
      congr 1
      apply propext
      omega

theorem reverseBytes_text {text : List UInt8} (hBefore : b.contents = overlay contents buf text) :
    (reverseBytes buf text.length b).contents = overlay contents buf text.reverse := by
  have hRounds : ∀ k, 2 * k ≤ text.length →
      ((List.range k).foldl (swapBytes buf text.length) b).contents =
        turned contents buf text k := by
    intro k
    induction k with
    | zero =>
        intro _
        funext a
        rw [turned]
        split
        · rw [List.range_zero, List.foldl_nil, hBefore, overlay_outside (by omega),
            overlay_outside (by simp; omega)]
        · rw [List.range_zero, List.foldl_nil, hBefore]
    | succ k ih =>
        intro hRound
        rw [List.range_succ, List.foldl_append]
        exact swapBytes_text (by omega) (ih (by omega))
  have hHalf : (text.length / 2 : Int).toNat = text.length / 2 := by omega
  rw [reverseBytes, hHalf, hRounds _ (by omega)]
  funext a
  rw [turned]
  split
  · rfl
  · -- Only the byte in the middle is left, which is its own mirror image.
    have hMiddle : a = buf + (text.length / 2 : Nat) := by omega
    rw [hMiddle, overlay_reverse (by omega)]
    congr 1
    omega

/-- With space for it, a number is printed in full, with zeroes in front up to the width. -/
theorem fmtPutui_text (val : UInt64) (buf size : Int) (base : Base) (width : Nat) (b : Buffer)
    (hSpace : ((numeral base val.toNat).leftpad width (char '0')).length ≤ size) :
    (fmtPutui val buf size base width b).1 =
      ((numeral base val.toNat).leftpad width (char '0')).length ∧
    (fmtPutui val buf size base width b).2.contents =
      overlay b.contents buf ((numeral base val.toNat).leftpad width (char '0')) := by
  have hLength : ((numeral base val.toNat).leftpad width (char '0')).length =
      max width (numeral base val.toNat).length := List.length_leftpad ..
  rw [hLength] at hSpace
  obtain ⟨hDigits, hContents⟩ :=
    putDigits_text buf size base val.toNat 0 b (by omega)
  rw [fmtPutui]
  generalize putDigits buf size base val.toNat 0 b = digits at hDigits hContents ⊢
  obtain ⟨count, b₁⟩ := digits
  simp only at hDigits hContents ⊢
  have hWidth : (width : Int) ≤ size := by omega
  obtain ⟨hPadding, hPadded⟩ := padZeroes_text buf count b₁ hWidth
  generalize padZeroes buf size width count b₁ = padding at hPadding hPadded ⊢
  obtain ⟨total, b₂⟩ := padding
  simp only at hPadding hPadded ⊢
  have hTotal : total = ((numeral base val.toNat).leftpad width (char '0')).length := by
    rw [hLength]
    omega
  refine ⟨hTotal, ?_⟩
  have hBackwards : b₂.contents =
      overlay b.contents buf ((numeral base val.toNat).leftpad width (char '0')).reverse := by
    have hZeroes : (width - count : Int).toNat = width - (numeral base val.toNat).length := by
      omega
    rw [hPadded, hContents, hZeroes, hDigits, Int.zero_add, Int.add_zero, List.leftpad,
      List.reverse_append, List.reverse_replicate, ← List.length_reverse]
    exact overlay_append
  have hReversed := reverseBytes_text hBackwards
  rw [List.length_reverse, List.reverse_reverse] at hReversed
  rw [hTotal]
  exact hReversed

/-- The two parts of a signed number. -/
theorem absolute_eq (val : Int64) :
    (absolute val).1.toNat = val.toInt.natAbs ∧ (absolute val).2 = decide (val.toInt < 0) := by
  rw [absolute]
  split_ifs with hMin hNegative
  · subst hMin
    decide
  · have hInt : val.toInt < 0 := Int64.lt_iff_toInt_lt.mp hNegative
    have hLow : val.toInt ≠ -2 ^ 63 := fun hEq => hMin (Int64.toInt_inj.mp hEq)
    have hFrom := val.le_toInt
    have hNeg : (-val).toInt = -val.toInt := by
      rw [Int64.toInt_neg]
      exact Int.bmod_eq_of_le_mul_two (by omega) (by omega)
    have hLe : 0 ≤ -val := by
      rw [Int64.le_iff_toInt_le, hNeg, Int64.toInt_zero]
      omega
    refine ⟨?_, by simpa using hInt⟩
    rw [Int64.toNat_toUInt64_of_le hLe, ← Int64.toNat_toInt, hNeg]
    omega
  · have hInt : 0 ≤ val.toInt := by
      rw [Int64.lt_iff_toInt_lt, Int64.toInt_zero] at hNegative
      omega
    have hLe : 0 ≤ val := by
      rw [Int64.le_iff_toInt_le, Int64.toInt_zero]
      exact hInt
    refine ⟨?_, by simpa using hInt⟩
    rw [Int64.toNat_toUInt64_of_le hLe, ← Int64.toNat_toInt]
    omega

theorem leftpad_zero (text : List UInt8) (c : UInt8) : text.leftpad 0 c = text := by
  rw [List.leftpad, Nat.zero_sub, List.replicate_zero, List.nil_append]

/-- A signed number in any base. -/
def signedText (base : Base) (val : Int) : List UInt8 :=
  if val < 0 then char '-' :: numeral base val.natAbs else numeral base val.natAbs

theorem fmtPuti_text (val : Int64) (buf : Int) (base : Base) (b : Buffer) (hMax : size < 2 ^ 31)
    (hSpace : (signedText base val.toInt).length ≤ size) :
    (fmtPuti val buf size base b).1 = (signedText base val.toInt).length ∧
    (fmtPuti val buf size base b).2.contents =
      overlay b.contents buf (signedText base val.toInt) := by
  obtain ⟨hAbs, hNegative⟩ := absolute_eq val
  rw [fmtPuti]
  generalize absolute val = parts at hAbs hNegative ⊢
  obtain ⟨abs, negative⟩ := parts
  simp only at hAbs hNegative ⊢
  rw [signedText] at hSpace ⊢
  by_cases hSign : val.toInt < 0
  · rw [if_pos hSign, List.length_cons] at hSpace
    have hLess : toInt (size - 1) = size - 1 := toInt_eq (by omega) (by omega)
    obtain ⟨hCount, hContents⟩ := fmtPutui_text abs (buf + 1) (size - 1) base 0
      (b.store buf (char '-')) (by rw [leftpad_zero, hAbs]; omega)
    rw [leftpad_zero, hAbs] at hCount hContents
    rw [hNegative, if_pos (decide_eq_true hSign), if_pos hSign, if_neg (by omega), hLess]
    refine ⟨?_, ?_⟩
    · have hInt := congrArg (fun count => toInt (1 + count)) hCount
      rw [List.length_cons]
      apply hInt.trans
      rw [toInt_eq (by omega) (by omega)]
      omega
    · apply hContents.trans
      rw [Stored.contents_store]
      exact overlay_append
  · rw [if_neg hSign] at hSpace
    rw [hNegative, if_neg (by simpa using hSign), if_neg hSign]
    obtain ⟨hCount, hContents⟩ := fmtPutui_text abs buf size base 0 b
      (by rw [leftpad_zero, hAbs]; omega)
    rw [leftpad_zero, hAbs] at hCount hContents
    exact ⟨hCount, hContents⟩

end Numbers

section Steps

variable {limit : Nat}

/-- The function puts a text where the output has got to, if it fits there. -/
def Puts (limit : Nat) (text : List UInt8) (f : State → State) : Prop :=
  ∀ (n : Nat) (s : State), s.1 = n → n + text.length ≤ limit →
    (f s).1 = (n + text.length : Nat) ∧ (f s).2.contents = overlay s.2.contents n text

theorem puts_putChar (hLimit : limit + 1 < 2 ^ 31) (c : UInt8) : Puts limit [c] (putChar c) := by
  rintro n ⟨written, b⟩ hAt hFits
  simp only at hAt
  subst hAt
  rw [List.length_singleton] at hFits ⊢
  have hNext : toInt (n + 1) = (n + 1 : Nat) := toInt_eq (by omega) (by omega)
  simp only [putChar, hNext, true_and]
  exact Stored.contents_store

theorem puts_putString (hLimit : limit + 1 < 2 ^ 31) (str : CString) :
    Puts limit str.bytes (putString limit str) := by
  rintro n ⟨written, b⟩ hAt hFits
  simp only at hAt
  subst hAt
  have hBytes : str.bytes.length = str.length := by simp [CString.bytes]
  have hLength : toInt str.length = str.length := toInt_eq (by omega) (by omega)
  have hTrimmed : ((if (limit : Int) < str.length then (limit : Int) else str.length) %
      2 ^ 64).toNat = str.length := by
    rw [if_neg (by omega)]
    omega
  rw [hBytes] at hFits ⊢
  simp only [putString, hLength, hTrimmed]
  exact ⟨toInt_eq (by omega) (by omega), Stored.contents_copy⟩

theorem puts_uintFormatCase (hLimit : limit + 1 < 2 ^ 31) (val : UInt64) (base : Base)
    (padding : Nat) : Puts limit ((numeral base val.toNat).leftpad padding (char '0'))
      (uintFormatCase limit val base padding) := by
  rintro n ⟨written, b⟩ hAt hFits
  simp only at hAt
  subst hAt
  have hSpace : toInt (limit - n) = limit - n := toInt_eq (by omega) (by omega)
  obtain ⟨hCount, hContents⟩ := fmtPutui_text val n (limit - n) base padding b (by omega)
  simp only [uintFormatCase, hSpace, hCount]
  exact ⟨toInt_eq (by omega) (by omega), hContents⟩

theorem puts_intFormatCase (hLimit : limit + 1 < 2 ^ 31) (val : Int64) :
    Puts limit (signedNumeral val.toInt) (intFormatCase limit val) := by
  rintro n ⟨written, b⟩ hAt hFits
  simp only at hAt
  subst hAt
  have hSpace : toInt (limit - n) = limit - n := toInt_eq (by omega) (by omega)
  have hMax : (limit : Int) - n < 2 ^ 31 := by omega
  have hText : signedNumeral val.toInt = signedText decimal val.toInt := rfl
  rw [hText] at hFits ⊢
  obtain ⟨hCount, hContents⟩ := fmtPuti_text val n decimal b hMax (by omega)
  simp only [intFormatCase, hSpace, hCount]
  exact ⟨toInt_eq (by omega) (by omega), hContents⟩

/-- Each case of the `switch` puts the text of the argument that it takes. -/
theorem putSpecifier_text {spec : Specifier} {arg : Arg} {text : List UInt8}
    (hLimit : limit + 1 < 2 ^ 31) (hText : convert spec arg = some text) :
    ∃ f, (∀ s rest, putSpecifier limit s spec (arg :: rest) = some (f s, rest)) ∧
      Puts limit text f := by
  have hUnpadded := fun base (val : UInt64) => puts_uintFormatCase hLimit val base 0
  simp only [leftpad_zero] at hUnpadded
  cases spec with
  | percent => cases hText
  | c =>
      cases arg <;> cases hText
      exact ⟨_, fun _ _ => rfl, puts_putChar hLimit _⟩
  | s =>
      cases arg <;> cases hText
      exact ⟨_, fun _ _ => rfl, puts_putString hLimit _⟩
  | d =>
      cases arg <;> cases hText
      rw [← Int32.toInt_toInt64]
      exact ⟨_, fun _ _ => rfl, puts_intFormatCase hLimit _⟩
  | D =>
      cases arg <;> cases hText
      exact ⟨_, fun _ _ => rfl, puts_intFormatCase hLimit _⟩
  | u | x =>
      cases arg <;> cases hText
      rw [← UInt32.toNat_toUInt64]
      exact ⟨_, fun _ _ => rfl, hUnpadded _ _⟩
  | U | X =>
      cases arg <;> cases hText
      exact ⟨_, fun _ _ => rfl, hUnpadded _ _⟩
  | p =>
      cases arg <;> cases hText
      exact ⟨_, fun _ _ => rfl, puts_uintFormatCase hLimit _ _ 16⟩

/-- The loop has put a text where the output had got to, and has ended. -/
def Ended (text : List UInt8) (n : Nat) (s : State) (result : Option State) : Prop :=
  ∃ s', result = some s' ∧ s'.1 = (n + text.length : Nat) ∧
    s'.2.contents = overlay s.2.contents n text

theorem ended_nil {n : Nat} {s : State} (hAt : s.1 = n) : Ended [] n s (some s) :=
  ⟨s, rfl, hAt, overlay_nil.symm⟩

/-- One text after another. -/
theorem Ended.cons {n : Nat} {s : State} {first rest : List UInt8} {f : State → State}
    {result : Option State} (hPuts : Puts limit first f) (hAt : s.1 = n)
    (hFits : n + first.length ≤ limit) (hRest : (f s).1 = (n + first.length : Nat) →
      Ended rest (n + first.length) (f s) result) :
    Ended (first ++ rest) n s result := by
  obtain ⟨hNext, hContents⟩ := hPuts n s hAt hFits
  obtain ⟨s', hResult, hEnd, hAll⟩ := hRest hNext
  refine ⟨s', hResult, ?_, ?_⟩
  · rw [hEnd, List.length_append, Nat.add_assoc]
  · rw [hAll, hContents]
    exact overlay_append

end Steps

section Runs

variable {limit n : Nat} {format text : List UInt8} {args : List Arg} {s : State}

/-- The loop goes through the format and through the arguments, one piece at a time. -/
theorem loop_text {taken : Nat} (hLimit : limit + 1 < 2 ^ 31)
    (hText : renderPieces args taken (pieces format) = some text) (hAt : s.1 = n)
    (hFits : n + text.length ≤ limit) :
    Ended text n s (vsnprintfLoop limit format (args.drop taken) s) := by
  fun_induction pieces format generalizing taken text s n with
  | case1 =>
      cases hText
      exact ended_nil hAt
  | case2 c format hPlain ih =>
      obtain ⟨rest, hRest, rfl⟩ := Option.map_eq_some_iff.mp hText
      rw [List.length_cons] at hFits
      rw [loop_plain (by omega) hPlain]
      apply Ended.cons (puts_putChar hLimit c) hAt (by simp; omega)
      intro hNext
      exact ih hRest hNext (by simp; omega)
  | case3 c hPercent =>
      cases hText
      rw [loop_percent_end hPercent]
      exact ended_nil hAt
  | case4 c hPercent type format hType ih =>
      by_cases hFull : (limit : Int) = s.1
      · have hNil : text = [] := List.eq_nil_of_length_eq_zero (by omega)
        rw [loop_full hFull, hNil]
        exact ended_nil hAt
      · rw [loop_specifier hFull hPercent, hType]
        exact ih hText hAt hFits
  | case5 c hPercent type format hType ih =>
      obtain ⟨rest, hRest, rfl⟩ := Option.map_eq_some_iff.mp hText
      rw [List.length_cons] at hFits
      rw [loop_specifier (by omega) hPercent, hType]
      apply Ended.cons (puts_putChar hLimit _) hAt (by simp; omega)
      intro hNext
      exact ih hRest hNext (by simp; omega)
  | case6 c hPercent type format spec hConverts hType ih =>
      by_cases hFull : (limit : Int) = s.1
      · have hNil : text = [] := List.eq_nil_of_length_eq_zero (by omega)
        rw [loop_full hFull, hNil]
        exact ended_nil hAt
      · simp only [renderPieces, Option.bind_eq_bind, Option.bind_eq_some_iff] at hText
        obtain ⟨arg, hArg, first, hFirst, hText⟩ := hText
        obtain ⟨rest, hRest, rfl⟩ := Option.map_eq_some_iff.mp hText
        obtain ⟨hTaken, hGet⟩ := List.getElem?_eq_some_iff.mp hArg
        obtain ⟨f, hPut, hPuts⟩ := putSpecifier_text hLimit hFirst
        rw [List.length_append] at hFits
        rw [loop_specifier hFull hPercent, hType, List.drop_eq_getElem_cons hTaken, hGet]
        simp only [hPut, Option.bind_some]
        apply Ended.cons hPuts hAt (by omega)
        intro hNext
        exact ih hRest hNext (by omega)

/-- `%c%d %%%!%`, in which `%!` is no specifier and the last `%` is alone. -/
def renderedFormat : List UInt8 := ['%', 'c', '%', 'd', ' ', '%', '%', '%', '!', '%'].map char

end Runs

end Ricerca.Fmt
