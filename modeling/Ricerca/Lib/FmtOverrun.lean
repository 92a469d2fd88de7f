import Ricerca.Lib.FmtBounds

/-! Formatted output overruns its buffer exactly when a string does not fit in what is left
of it. -/
namespace Ricerca.Fmt

open Ricerca.Foundation

section Items

/-- What a part of a format stands for, once it has its argument. -/
inductive Item where
  | char
  | string (str : CString)
  | number (length : Nat)

/-- How many characters it has in full. The length of a string is taken as an `int`. -/
def Item.length : Item → Nat
  | .char => 1
  | .string str => (toInt str.length).toNat
  | .number length => length

def textLength (list : List Item) : Nat := (list.map Item.length).sum

/-- The item of a specifier, when the arguments match it. -/
def specifierItem : Specifier → List Arg → Option (Item × List Arg)
  | .percent, args => some (.char, args)
  | .c, .int32 _ :: args => some (.char, args)
  | .s, .string str :: args => some (.string str, args)
  | .d, .int32 val :: args => some (.number (signedCount decimal val.toInt64), args)
  | .D, .int64 val :: args => some (.number (signedCount decimal val), args)
  | .u, .uint32 val :: args => some (.number (digitCount decimal val.toUInt64.toNat), args)
  | .U, .uint64 val :: args => some (.number (digitCount decimal val.toNat), args)
  | .x, .uint32 val :: args => some (.number (digitCount hexadecimal val.toUInt64.toNat), args)
  | .X, .uint64 val :: args => some (.number (digitCount hexadecimal val.toNat), args)
  | .p, .uint64 val :: args => some (.number (max 16 (digitCount hexadecimal val.toNat)), args)
  | _, _ => none

/-- The items of a format, when the arguments match it. -/
def items : List UInt8 → List Arg → Option (List Item)
  | [], _ => some []
  | c :: format, args =>
      if c ≠ char '%' then (items format args).map (.char :: ·)
      else
        match format with
        | [] => some []
        | type :: format =>
            match specifier type with
            | none => items format args
            | some spec =>
                match specifierItem spec args with
                | none => none
                | some (item, args) => (items format args).map (item :: ·)

/-- A string fits after `n` characters: as a whole, or up to the end of the buffer when it comes
first. -/
def CString.Fits (limit n : Nat) (str : CString) : Prop :=
  0 ≤ toInt str.length ∧ (n = 0 ∨ n + toInt str.length ≤ limit)

def Item.Fits (limit n : Nat) : Item → Prop
  | .string str => str.Fits limit n
  | _ => True

/-- Each string fits after what comes before it, unless the buffer is full by then. -/
def StringsFit (limit n : Nat) (list : List Item) : Prop :=
  ∀ before str after, list = before ++ .string str :: after → n + textLength before < limit →
    str.Fits limit (n + textLength before)

variable {limit n : Nat} {item : Item} {list : List Item}

theorem stringsFit_nil : StringsFit limit n [] := by
  intro before str after hList
  cases before <;> cases hList

theorem stringsFit_cons : StringsFit limit n (item :: list) ↔
    (n < limit → item.Fits limit n) ∧ StringsFit limit (n + item.length) list := by
  constructor
  · intro h
    constructor
    · intro hLt
      cases item with
      | char => trivial
      | string str => exact h [] str list rfl hLt
      | number length => trivial
    · intro before str after hList hLt
      rw [Nat.add_assoc] at hLt ⊢
      exact h (item :: before) str after (congrArg (item :: ·) hList) hLt
  · rintro ⟨hFirst, hRest⟩ before str after hList hLt
    cases before with
    | nil =>
        cases hList
        exact hFirst hLt
    | cons first before =>
        cases hList
        have hLength : textLength (item :: before) = item.length + textLength before := rfl
        rw [hLength, ← Nat.add_assoc] at hLt ⊢
        exact hRest before str after rfl hLt

theorem stringsFit_of_full (hFull : limit ≤ n) : StringsFit limit n list := by
  intro before str after hList hLt
  omega

end Items

section Steps

variable {limit n : Nat} {s : State}

/-- The buffer holds as many of `n` characters as there is space for. -/
structure Reached (limit n : Nat) (s : State) : Prop where
  written : s.1 = (min limit n : Nat)
  within : s.2.Within 0 (limit + 1)

/-- Something has been stored outside, or the place for the NUL is outside. -/
def Overrun (limit : Nat) (s : State) : Prop :=
  ¬ s.2.Within 0 (limit + 1) ∨ s.1 = limit + 1

/-- What printing an item does. -/
structure Prints (limit : Nat) (item : Item) (f : State → State) : Prop where
  reached : ∀ n s, n < limit → Reached limit n s → item.Fits limit n →
    Reached limit (n + item.length) (f s)
  overruns : ∀ n s, n < limit → Reached limit n s → ¬ item.Fits limit n → Overrun limit (f s)
  overrun : ∀ s, Overrun limit s → Overrun limit (f s)

/-- What has been stored outside stays stored. -/
theorem Overrun.of_grows {s' : State} (h : ¬ s.2.Within 0 (limit + 1)) (hGrows : s.2.Grows s'.2) :
    Overrun limit s' :=
  .inl fun hWithin => h (hGrows.within hWithin)

theorem prints_putChar (hLimit : limit + 1 < 2 ^ 31) (c : UInt8) :
    Prints limit .char (putChar c) where
  reached := by
    rintro n ⟨written, b⟩ hLt ⟨hWritten, hWithin⟩ -
    simp only at hWritten hWithin
    refine ⟨?_, Stored.within_store.mpr ⟨by simp only; omega, hWithin⟩⟩
    rw [putChar, toInt_eq (by simp only; omega) (by simp only; omega), Item.length]
    simp only
    omega
  overruns := fun _ _ _ _ hNot => (hNot trivial).elim
  overrun := by
    rintro ⟨written, b⟩ (hStored | hPlace)
    · exact .of_grows hStored Stored.grows_store
    · refine .inl fun hWithin => ?_
      simp only at hPlace
      have := (Stored.within_store.mp hWithin).1
      simp only at this
      omega

theorem prints_uintFormatCase (hLimit : limit + 1 < 2 ^ 31) (val : UInt64) (base : Base)
    (padding : Nat) : Prints limit (.number (max padding (digitCount base val.toNat)))
      (uintFormatCase limit val base padding) where
  reached := by
    rintro n ⟨written, b⟩ hLt ⟨hWritten, hWithin⟩ -
    simp only at hWritten hWithin
    have hLeft : 0 ≤ (limit : Int) - written := by omega
    have hSpace : toInt (limit - written) = limit - written := toInt_eq hLeft (by omega)
    have hFrom : 0 ≤ written := by omega
    obtain ⟨hCount, hStored⟩ := fmtPutui_spec val base padding hLeft hFrom (by omega) hWithin
    rw [uintFormatCase]
    simp only [hSpace]
    refine ⟨?_, hStored⟩
    simp only
    rw [hCount, toInt_eq (by omega) (by omega), Item.length]
    omega
  overruns := fun _ _ _ _ hNot => (hNot trivial).elim
  overrun := by
    rintro ⟨written, b⟩ (hStored | hPlace)
    · exact .of_grows hStored fmtPutui_grows
    · simp only at hPlace
      have hSpace : toInt (limit - written) = -1 := by
        rw [show (limit : Int) - written = -1 by omega]
        rfl
      refine .inr ?_
      rw [uintFormatCase]
      simp only [hSpace]
      rw [fmtPutui_of_neg (by omega)]
      simp only [Int.add_zero]
      rw [hPlace, toInt_eq (by omega) (by omega)]

theorem prints_intFormatCase (hLimit : limit + 1 < 2 ^ 31) (val : Int64) :
    Prints limit (.number (signedCount decimal val)) (intFormatCase limit val) where
  reached := by
    rintro n ⟨written, b⟩ hLt ⟨hWritten, hWithin⟩ -
    simp only at hWritten hWithin
    have hLeft : 0 < (limit : Int) - written := by omega
    have hSpace : toInt (limit - written) = limit - written := toInt_eq (by omega) (by omega)
    have hFrom : 0 ≤ written := by omega
    obtain ⟨hCount, hStored⟩ := fmtPuti_spec val decimal hLeft (by omega) hFrom (by omega) hWithin
    rw [intFormatCase]
    simp only [hSpace]
    refine ⟨?_, hStored⟩
    simp only
    rw [hCount, toInt_eq (by omega) (by omega), Item.length]
    omega
  overruns := fun _ _ _ _ hNot => (hNot trivial).elim
  overrun := by
    rintro ⟨written, b⟩ (hStored | hPlace)
    · exact .of_grows hStored fmtPuti_grows
    · simp only at hPlace
      have hSpace : toInt (limit - written) = -1 := by
        rw [show (limit : Int) - written = -1 by omega]
        rfl
      rw [intFormatCase]
      simp only [hSpace]
      have hNeg : (-1 : Int) < 0 := by omega
      rcases fmtPuti_of_neg hNeg with hNone | hSign
      · refine .inr ?_
        rw [hNone]
        simp only [Int.add_zero]
        rw [hPlace, toInt_eq (by omega) (by omega)]
      · refine .inl fun hWithin => ?_
        have := (Stored.within_store.mp (hSign.within hWithin)).1
        omega

/-- The number of bytes that are copied, when the length is not negative as an `int`. -/
theorem putString_of_nonneg {str : CString} (hLimit : limit + 1 < 2 ^ 31)
    (hLength : 0 ≤ toInt str.length) :
    putString limit str s = (toInt (s.1 + (min limit (toInt str.length).toNat : Nat)),
      s.2.copy s.1 str.contents (min limit (toInt str.length).toNat)) := by
  have hTrimmed : ((if (limit : Int) < toInt str.length then (limit : Int)
      else toInt str.length) % 2 ^ 64).toNat = min limit (toInt str.length).toNat := by
    split_ifs <;> omega
  rw [putString]
  simp only [hTrimmed]

theorem prints_putString (hLimit : limit + 1 < 2 ^ 31) (str : CString) :
    Prints limit (.string str) (putString limit str) where
  reached := by
    rintro n ⟨written, b⟩ hLt ⟨hWritten, hWithin⟩ ⟨hLength, hFits⟩
    simp only at hWritten hWithin
    rw [putString_of_nonneg hLimit hLength]
    refine ⟨?_, Stored.within_copy.mpr ⟨.inr ⟨by simp only; omega, by simp only; omega⟩, hWithin⟩⟩
    simp only
    rw [toInt_eq (by omega) (by omega), Item.length]
    omega
  overruns := by
    rintro n ⟨written, b⟩ hLt ⟨hWritten, hWithin⟩ hNot
    simp only at hWritten hWithin
    by_cases hLength : 0 ≤ toInt str.length
    · have hLong : n ≠ 0 ∧ (limit : Int) < n + toInt str.length := by
        rw [Item.Fits, CString.Fits] at hNot
        omega
      rw [putString_of_nonneg hLimit hLength]
      by_cases hNext : n + min limit (toInt str.length).toNat = limit + 1
      · refine .inr ?_
        simp only
        rw [toInt_eq (by omega) (by omega)]
        omega
      · refine .inl fun hStored => ?_
        have := (Stored.within_copy.mp hStored).1
        simp only at this
        omega
    · refine .inl fun hStored => ?_
      rw [putString] at hStored
      have hRange := (Stored.within_copy.mp hStored).1
      have hLow : -(2 ^ 31) ≤ toInt str.length := Int.le_bmod (by omega)
      rw [if_neg (by omega)] at hRange
      simp only at hRange
      omega
  overrun := by
    rintro ⟨written, b⟩ (hStored | hPlace)
    · exact .of_grows hStored Stored.grows_copy
    · simp only at hPlace
      rw [putString]
      generalize ((if (limit : Int) < toInt str.length then (limit : Int)
        else toInt str.length) % 2 ^ 64).toNat = trimmedLength
      by_cases hEmpty : trimmedLength = 0
      · refine .inr ?_
        subst hEmpty
        simp only [Int.natCast_zero, Int.add_zero]
        rw [hPlace, toInt_eq (by omega) (by omega)]
      · refine .inl fun hStored => ?_
        have := (Stored.within_copy.mp hStored).1
        simp only at this
        omega

/-- A specifier with a matching argument prints its item. -/
theorem putSpecifier_prints {spec : Specifier} {args rest : List Arg} {item : Item}
    (hLimit : limit + 1 < 2 ^ 31) (hItem : specifierItem spec args = some (item, rest)) :
    ∃ f, (∀ s, putSpecifier limit s spec args = some (f s, rest)) ∧ Prints limit item f := by
  have hUnpadded : ∀ base val, max 0 (digitCount base val) = digitCount base val :=
    fun _ _ => Nat.zero_max _
  cases spec with
  | percent =>
      cases hItem
      exact ⟨_, fun _ => rfl, prints_putChar hLimit _⟩
  | c =>
      rcases args with _ | ⟨_ | _ | _ | _ | _, args⟩ <;> cases hItem
      exact ⟨_, fun _ => rfl, prints_putChar hLimit _⟩
  | s =>
      rcases args with _ | ⟨_ | _ | _ | _ | _, args⟩ <;> cases hItem
      exact ⟨_, fun _ => rfl, prints_putString hLimit _⟩
  | d | D =>
      rcases args with _ | ⟨_ | _ | _ | _ | _, args⟩ <;> cases hItem
      exact ⟨_, fun _ => rfl, prints_intFormatCase hLimit _⟩
  | u | U | x | X =>
      rcases args with _ | ⟨_ | _ | _ | _ | _, args⟩ <;> cases hItem
      exact ⟨_, fun _ => rfl, hUnpadded _ _ ▸ prints_uintFormatCase hLimit _ _ 0⟩
  | p =>
      rcases args with _ | ⟨_ | _ | _ | _ | _, args⟩ <;> cases hItem
      exact ⟨_, fun _ => rfl, prints_uintFormatCase hLimit _ _ 16⟩

end Steps

section Runs

variable {limit n : Nat} {s : State} {format : List UInt8} {args : List Arg} {list : List Item}

theorem loop_full {bytesMax : Int} {c : UInt8} (hFull : bytesMax = s.1) :
    vsnprintfLoop bytesMax (c :: format) args s = some s := by
  rw [vsnprintfLoop.eq_def]
  exact if_pos hFull

theorem loop_plain {bytesMax : Int} {c : UInt8} (hSpace : bytesMax ≠ s.1) (hPlain : c ≠ char '%') :
    vsnprintfLoop bytesMax (c :: format) args s =
      vsnprintfLoop bytesMax format args (putChar c s) := by
  rw [vsnprintfLoop.eq_def]
  simp only
  rw [if_neg hSpace, if_pos hPlain]

theorem loop_percent_end {bytesMax : Int} {c : UInt8} (hPercent : ¬ c ≠ char '%') :
    vsnprintfLoop bytesMax [c] args s = some s := by
  rw [vsnprintfLoop, if_neg hPercent, ite_self]

theorem loop_specifier {bytesMax : Int} {c type : UInt8} (hSpace : bytesMax ≠ s.1)
    (hPercent : ¬ c ≠ char '%') :
    vsnprintfLoop bytesMax (c :: type :: format) args s =
      match specifier type with
      | none => vsnprintfLoop bytesMax format args s
      | some spec => (putSpecifier bytesMax s spec args).bind fun next =>
          vsnprintfLoop bytesMax format next.2 next.1 := by
  rw [vsnprintfLoop, if_neg hSpace, if_neg hPercent]
  rfl

/-- After an overrun, the loop does not get back into the buffer. -/
theorem loop_overrun (hLimit : limit + 1 < 2 ^ 31) (hItems : items format args = some list)
    (h : Overrun limit s) :
    ∃ s', vsnprintfLoop limit format args s = some s' ∧ Overrun limit s' := by
  fun_induction items format args generalizing list s with
  | case1 args => exact ⟨s, rfl, h⟩
  | case2 c format args hPlain ih =>
      by_cases hFull : (limit : Int) = s.1
      · exact ⟨s, loop_full hFull, h⟩
      · obtain ⟨rest, hRest, rfl⟩ := Option.map_eq_some_iff.mp hItems
        rw [loop_plain hFull hPlain]
        exact ih hRest ((prints_putChar hLimit c).overrun s h)
  | case3 c args hPercent => exact ⟨s, loop_percent_end hPercent, h⟩
  | case4 c args hPercent type format hType ih =>
      by_cases hFull : (limit : Int) = s.1
      · exact ⟨s, loop_full hFull, h⟩
      · rw [loop_specifier hFull hPercent, hType]
        exact ih hItems h
  | case5 c args hPercent type format spec hType hItem => cases hItems
  | case6 c args hPercent type format spec hType item rest hItem ih =>
      obtain ⟨list, hRest, rfl⟩ := Option.map_eq_some_iff.mp hItems
      obtain ⟨f, hPut, hPrints⟩ := putSpecifier_prints hLimit hItem
      by_cases hFull : (limit : Int) = s.1
      · exact ⟨s, loop_full hFull, h⟩
      · rw [loop_specifier hFull hPercent, hType]
        simp only [hPut, Option.bind_some]
        exact ih hRest (hPrints.overrun s h)

theorem loop_reached_full (hFull : limit ≤ n) (h : Reached limit n s) :
    vsnprintfLoop limit format args s = some s := by
  cases format with
  | nil => rfl
  | cons c format => exact loop_full (by rw [h.written, Nat.min_eq_left hFull])

/-- What becomes of the loop from a state in the buffer: it stays there while the strings fit,
and leaves it with the first one that does not. -/
def Ends (limit n : Nat) (list : List Item) (result : Option State) : Prop :=
  ∃ s', result = some s' ∧ (StringsFit limit n list → ∃ n', Reached limit n' s') ∧
    (¬ StringsFit limit n list → Overrun limit s')

theorem ends_of_fit (hFit : StringsFit limit n list) (h : Reached limit n s) :
    Ends limit n list (some s) :=
  ⟨s, rfl, fun _ => ⟨n, h⟩, fun hNot => (hNot hFit).elim⟩

/-- The loop prints an item and goes on. -/
theorem ends_item {item : Item} {f : State → State} (hLimit : limit + 1 < 2 ^ 31)
    (hPrints : Prints limit item f) (hItems : items format args = some list) (hLt : n < limit)
    (h : Reached limit n s)
    (hRest : Reached limit (n + item.length) (f s) →
      Ends limit (n + item.length) list (vsnprintfLoop limit format args (f s))) :
    Ends limit n (item :: list) (vsnprintfLoop limit format args (f s)) := by
  rw [Ends, stringsFit_cons]
  by_cases hFits : item.Fits limit n
  · obtain ⟨s', hLoop, hStays, hLeaves⟩ := hRest (hPrints.reached n s hLt h hFits)
    refine ⟨s', hLoop, fun hFit => hStays hFit.2, fun hNot => hLeaves fun hFit => ?_⟩
    exact hNot ⟨fun _ => hFits, hFit⟩
  · obtain ⟨s', hLoop, hOverrun⟩ :=
      loop_overrun hLimit hItems (hPrints.overruns n s hLt h hFits)
    exact ⟨s', hLoop, fun hFit => (hFits (hFit.1 hLt)).elim, fun _ => hOverrun⟩

theorem loop_ends (hLimit : limit + 1 < 2 ^ 31) (hItems : items format args = some list)
    (h : Reached limit n s) : Ends limit n list (vsnprintfLoop limit format args s) := by
  fun_induction items format args generalizing list s n with
  | case1 args =>
      cases hItems
      exact ends_of_fit stringsFit_nil h
  | case2 c format args hPlain ih =>
      rcases Nat.lt_or_ge n limit with hLt | hFull
      · have hSpace : (limit : Int) ≠ s.1 := by rw [h.written]; omega
        obtain ⟨rest, hRest, rfl⟩ := Option.map_eq_some_iff.mp hItems
        rw [loop_plain hSpace hPlain]
        exact ends_item hLimit (prints_putChar hLimit c) hRest hLt h fun hNext => ih hRest hNext
      · rw [loop_reached_full hFull h]
        exact ends_of_fit (stringsFit_of_full hFull) h
  | case3 c args hPercent =>
      cases hItems
      rw [loop_percent_end hPercent]
      exact ends_of_fit stringsFit_nil h
  | case4 c args hPercent type format hType ih =>
      rcases Nat.lt_or_ge n limit with hLt | hFull
      · have hSpace : (limit : Int) ≠ s.1 := by rw [h.written]; omega
        rw [loop_specifier hSpace hPercent, hType]
        exact ih hItems h
      · rw [loop_reached_full hFull h]
        exact ends_of_fit (stringsFit_of_full hFull) h
  | case5 c args hPercent type format spec hType hItem => cases hItems
  | case6 c args hPercent type format spec hType item args' hItem ih =>
      rcases Nat.lt_or_ge n limit with hLt | hFull
      · have hSpace : (limit : Int) ≠ s.1 := by rw [h.written]; omega
        obtain ⟨rest, hRest, rfl⟩ := Option.map_eq_some_iff.mp hItems
        obtain ⟨f, hPut, hPrints⟩ := putSpecifier_prints hLimit hItem
        rw [loop_specifier hSpace hPercent, hType]
        simp only [hPut, Option.bind_some]
        exact ends_item hLimit hPrints hRest hLt h fun hNext => ih hRest hNext
      · rw [loop_reached_full hFull h]
        exact ends_of_fit (stringsFit_of_full hFull) h

/-- Everything is stored in the buffer, and the value that is returned is the place of a NUL. -/
def NoOverrun (size : Nat) (result : State) : Prop :=
  result.2.Within 0 size ∧ (0 ≤ result.1 ∧ result.1 < size) ∧ result.2.contents result.1 = 0

/-- The format `ab%s`. -/
def exampleFormat : List UInt8 := [char 'a', char 'b', char '%', char 's']

def shortString : CString := .ofBytes [char 'x'] (by decide)

def longString : CString := .ofBytes [char 'x', char 'y', char 'z'] (by decide)

end Runs

end Ricerca.Fmt
