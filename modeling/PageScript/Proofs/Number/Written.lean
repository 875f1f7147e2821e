import PageScript.Proofs.Number.Shortest
import PageScript.Proofs.Token.Laid

/-! Written doubles. A text with a point or an exponent is read as a number
again. Main statement: different doubles are written differently. -/
namespace PageScript

namespace Digit

/-- Digits behind a number multiply it by ten each. -/
theorem foldl_eq (digits : List Char) (n : Nat) :
    digits.foldl (fun n c => 10 * n + (value? c).getD 0) n =
      n * 10 ^ digits.length + number digits := by
  induction digits generalizing n with
  | nil => simp [number]
  | cons c rest ih =>
      rw [number, List.foldl_cons, List.foldl_cons, ih, ih (10 * 0 + _), List.length_cons, pow_succ]
      ring

/-- The number that digits stand for, when others follow them. -/
theorem number_append (front back : List Char) :
    number (front ++ back) = number front * 10 ^ back.length + number back := by
  rw [number, List.foldl_append, foldl_eq]
  rfl

theorem number_zeros (count : Nat) : number (List.replicate count '0') = 0 := by
  induction count with
  | zero => rfl
  | succ count ih =>
      have hZero : number ['0'] = 0 := by decide
      rw [List.replicate_succ, ← List.singleton_append, number_append, ih, hZero]
      simp

end Digit

namespace Numeral

open Digit (number)

/-! ### Reading -/

/-- The number behind the sign of an exponent. -/
def readExponent : List Char → ℤ
  | '-' :: digits => -number digits
  | _ :: digits => number digits
  | [] => 0

/-- The number that is written with a point, with an exponent or with both. -/
def read (text : List Char) : ℚ :=
  let mantissa := text.takeWhile (· != 'e')
  let whole := mantissa.takeWhile (· != '.')
  let places := (mantissa.dropWhile (· != '.')).drop 1
  number (whole ++ places) * (10 : ℚ) ^ (-(places.length : ℤ)) *
    (10 : ℚ) ^ readExponent ((text.dropWhile (· != 'e')).drop 1)

/-- The characters of words and numbers other than the point. -/
def isRunPart (c : Char) : Bool := Lexer.isWordPart c || c == '+' || c == '-'

/-- A run of such characters, in which a point stands before a digit only. -/
inductive IsRun : List Char → Prop where
  | nil : IsRun []
  | part {c : Char} {rest : List Char} (runs : isRunPart c = true) (more : IsRun rest) :
      IsRun (c :: rest)
  | point {c : Char} {rest : List Char} (digit : c.isDigit = true) (more : IsRun (c :: rest)) :
      IsRun ('.' :: c :: rest)

def StartsDigit (text : List Char) : Prop := ∃ c rest, text = c :: rest ∧ c.isDigit = true

/-- A text is read as this number. It is one run that begins with a digit, and
no whole number. -/
structure Denotes (text : List Char) (v : ℚ) : Prop where
  reads : read text = v
  run : IsRun text
  starts : StartsDigit text
  marked : ¬∀ c ∈ text, c.isDigit = true

/-- Two runs, one after the other, are one run. -/
theorem IsRun.append {front back : List Char} (h : IsRun front) (hBack : IsRun back) :
    IsRun (front ++ back) := by
  induction h with
  | nil => exact hBack
  | part runs _ ih => exact .part runs ih
  | point digit _ ih => exact .point digit ih

theorem isRun_of_isWordPart {text : List Char} (h : ∀ c ∈ text, Lexer.isWordPart c = true) :
    IsRun text := by
  induction text with
  | nil => exact .nil
  | cons c rest ih =>
      obtain ⟨hFirst, hRest⟩ := List.forall_mem_cons.mp h
      exact .part (by simp [isRunPart, hFirst]) (ih hRest)

theorem isWordPart_of_isDigit {c : Char} (h : c.isDigit = true) : Lexer.isWordPart c = true := by
  have hPart : Lexer.isWordPart c = (c.isAlpha || c.isDigit || c == '_') := rfl
  simp [hPart, h]

theorem isRun_of_isDigit {text : List Char} (h : ∀ c ∈ text, c.isDigit = true) : IsRun text :=
  isRun_of_isWordPart fun c hc => isWordPart_of_isDigit (h c hc)

/-- A point with digits behind it is a run. -/
theorem isRun_point {places : List Char} (hSome : places ≠ [])
    (h : ∀ c ∈ places, c.isDigit = true) :
    IsRun ('.' :: places) := by
  obtain ⟨c, rest, rfl⟩ := List.exists_cons_of_ne_nil hSome
  exact .point (h c (.head _)) (isRun_of_isDigit h)

/-- A digit is not a character that is no digit. -/
theorem ne_of_isDigit {c d : Char} (h : c.isDigit = true) (hd : d.isDigit = false) :
    (c != d) = true := by
  rw [bne_iff_ne]
  rintro rfl
  rw [h] at hd
  cases hd

section digits

variable {whole places point tail : List Char} (hWhole : ∀ c ∈ whole, c.isDigit = true)
  (hPlaces : ∀ c ∈ places, c.isDigit = true)

include hWhole hPlaces

/-- The parts of a text are found again by the marks between them. Digits are
no marks, so the first point and the first letter stand where they were put. -/
theorem read_parts (hPoint : point = '.' :: places ∨ point = [] ∧ places = [])
    (hTail : Stops (· != 'e') tail) :
    read (whole ++ point ++ tail) =
      number (whole ++ places) * (10 : ℚ) ^ (-(places.length : ℤ)) *
      (10 : ℚ) ^ readExponent (tail.drop 1) := by
  have hMantissa : ∀ c ∈ whole ++ point, (c != 'e') = true := by
    intro c hc
    rcases List.mem_append.mp hc with hc | hc
    · exact ne_of_isDigit (hWhole c hc) (by decide)
    · rcases hPoint with rfl | ⟨rfl, -⟩
      · rcases List.mem_cons.mp hc with rfl | hc
        · decide
        · exact ne_of_isDigit (hPlaces c hc) (by decide)
      · cases hc
  have hFirst : ∀ c ∈ whole, (c != '.') = true :=
    fun c hc => ne_of_isDigit (hWhole c hc) (by decide)
  have hStops : Stops (· != '.') point := by
    rcases hPoint with rfl | ⟨rfl, -⟩
    · exact stops_cons (by decide) _
    · exact stops_nil
  have hDrop : point.drop 1 = places := by
    rcases hPoint with rfl | ⟨rfl, rfl⟩ <;> rfl
  simp only [read, takeWhile_run hMantissa hTail, dropWhile_run hMantissa hTail,
    takeWhile_run hFirst hStops, dropWhile_run hFirst hStops, hDrop]

/-- Digits, with a point and more digits or without, are a run. -/
theorem isRun_mantissa (hPoint : point = '.' :: places ∧ places ≠ [] ∨ point = [] ∧
      places = []) :
    IsRun (whole ++ point) := by
  refine (isRun_of_isDigit hWhole).append ?_
  rcases hPoint with ⟨rfl, hSome⟩ | ⟨rfl, -⟩
  · exact isRun_point hSome hPlaces
  · exact .nil

/-- Digits around a point. -/
theorem denotes_point (hFirst : whole ≠ []) (hSome : places ≠ []) :
    Denotes (whole ++ '.' :: places)
      (number (whole ++ places) * (10 : ℚ) ^ (-(places.length : ℤ))) where
  reads := by
    have hRead := read_parts hWhole hPlaces (.inl rfl) (stops_nil : Stops (· != 'e') [])
    simpa [readExponent] using hRead
  run := isRun_mantissa hWhole hPlaces (.inl ⟨rfl, hSome⟩)
  starts := by
    obtain ⟨c, rest, rfl⟩ := List.exists_cons_of_ne_nil hFirst
    exact ⟨c, rest ++ '.' :: places, rfl, hWhole c (.head _)⟩
  marked hAll := absurd (hAll '.' (by simp)) (by decide)

/-- Digits with an exponent behind them. -/
theorem denotes_exponent (hFirst : whole ≠ [])
    (hPoint : point = '.' :: places ∧ places ≠ [] ∨ point = [] ∧ places = []) {sign : Char}
    (hSign : sign = '+' ∨ sign = '-') {size : List Char}
    (hSize : ∀ c ∈ size, c.isDigit = true) :
    Denotes (whole ++ point ++ 'e' :: sign :: size)
      (number (whole ++ places) * (10 : ℚ) ^ (-(places.length : ℤ)) *
      (10 : ℚ) ^ readExponent (sign :: size)) where
  reads := read_parts hWhole hPlaces (hPoint.imp And.left id) (stops_cons (by decide) _)
  run := by
    have hPart : isRunPart sign = true := by rcases hSign with rfl | rfl <;> decide
    exact (isRun_mantissa hWhole hPlaces hPoint).append
      (.part (by decide) (.part hPart (isRun_of_isDigit hSize)))
  starts := by
    obtain ⟨c, rest, rfl⟩ := List.exists_cons_of_ne_nil hFirst
    exact ⟨c, rest ++ point ++ 'e' :: sign :: size, rfl, hWhole c (.head _)⟩
  marked hAll := absurd (hAll 'e' (by simp)) (by decide)

end digits

/-! ### The two notations -/

theorem toList_zeros (count : ℕ) : (zeros count).toList = List.replicate count '0' :=
  String.toList_ofList

theorem isDigit_of_mem_zeros {count : ℕ} :
    ∀ c ∈ List.replicate count '0', c.isDigit = true := by
  intro c hc
  rw [List.eq_of_mem_replicate hc]
  decide

theorem forall_isDigit_append {front back : List Char} (hFront : ∀ c ∈ front, c.isDigit = true)
    (hBack : ∀ c ∈ back, c.isDigit = true) : ∀ c ∈ front ++ back, c.isDigit = true :=
  List.forall_mem_append.mpr ⟨hFront, hBack⟩

theorem Denotes.of_eq {text : List Char} {v w : ℚ} (h : Denotes text v) (hValue : v = w) :
    Denotes text w :=
  hValue ▸ h

/-- The size of an exponent, filled up with zeros. -/
theorem exists_padded (n : ℕ) : ∃ padded : List Char,
    zeros (doubleFormat.exponentWidth - (toString n).length) ++ toString n =
      String.ofList padded ∧
      (∀ c ∈ padded, c.isDigit = true) ∧ number padded = n := by
  refine ⟨_, String.ofList_toList.symm, ?_, ?_⟩
  · rw [String.toList_append, toList_zeros]
    exact forall_isDigit_append isDigit_of_mem_zeros Digit.isDigit_of_mem_toString
  · rw [String.toList_append, toList_zeros, Digit.number_append, Digit.number_zeros, Nat.zero_mul,
      Nat.zero_add, Digit.number_toString]

/-- An exponent has one of two signs, and behind it the digits of its size are
read as the exponent. -/
theorem exists_sign (exponent : ℤ) : ∃ sign : Char, (sign = '+' ∨ sign = '-') ∧
    (if exponent < 0 then "-" else "+") = String.ofList [sign] ∧
      ∀ padded, number padded = exponent.natAbs → readExponent (sign :: padded) = exponent := by
  by_cases hNegative : exponent < 0
  · refine ⟨'-', .inr rfl, if_pos hNegative, fun padded hNumber => ?_⟩
    rw [readExponent, hNumber]
    omega
  · refine ⟨'+', .inl rfl, if_neg hNegative, fun padded hNumber => ?_⟩
    have hRead : readExponent ('+' :: padded) = number padded := rfl
    rw [hRead, hNumber]
    omega

section forms

variable {digits : String} (hDigits : ∀ c ∈ digits.toList, c.isDigit = true)
    (hSome : digits.toList ≠ [])

include hDigits hSome

/-- Digits that are written with a point in some place denote a number with
that order of magnitude. The point may stand before them, among them or behind
them, with zeros in between. -/
theorem denotes_positional (point : ℤ) :
    Denotes (positional digits point).toList
      (number digits.toList * (10 : ℚ) ^ (point - digits.length)) := by
  have hLength : digits.length = digits.toList.length := String.length_toList.symm
  unfold positional
  split
  · next hBefore =>
      have hText : ("0." ++ zeros (-point).toNat ++ digits).toList =
          ['0'] ++ '.' :: (List.replicate (-point).toNat '0' ++ digits.toList) := by
        simp [toList_zeros]
      have hZero : number ['0'] = 0 := by decide
      rw [hText]
      refine (denotes_point (List.forall_mem_singleton.mpr rfl)
        (forall_isDigit_append isDigit_of_mem_zeros hDigits)
        (by simp) (by simp [hSome])).of_eq ?_
      rw [Digit.number_append, Digit.number_append, hZero, Digit.number_zeros, Nat.zero_mul,
        Nat.zero_mul, Nat.zero_add, Nat.zero_add, List.length_append,
        List.length_replicate, ← hLength]
      congr 2
      omega
  · next hAfter =>
      dsimp only
      split
      · next hShort =>
          have hText : (digits ++ zeros (point.toNat - digits.length) ++ ".0").toList =
              digits.toList ++ List.replicate (point.toNat - digits.length) '0' ++ '.' ::
                ['0'] := by simp [toList_zeros]
          have hZero : number ['0'] = 0 := by decide
          rw [hText]
          refine (denotes_point (forall_isDigit_append hDigits isDigit_of_mem_zeros)
            (List.forall_mem_singleton.mpr rfl)
            (by simp [hSome]) (by simp)).of_eq ?_
          rw [Digit.number_append, Digit.number_append, hZero, Digit.number_zeros,
            List.length_replicate]
          have hPoint : point - digits.length = ((point.toNat - digits.length : ℕ) : ℤ) := by
            omega
          rw [hPoint, zpow_natCast]
          push_cast
          simp
      · next hLong =>
          have hText : (String.ofList (digits.toList.take point.toNat) ++ "." ++
              String.ofList (digits.toList.drop point.toNat)).toList =
                digits.toList.take point.toNat ++ '.' :: digits.toList.drop point.toNat := by simp
          rw [hText]
          refine (denotes_point (fun c hc => hDigits c (List.mem_of_mem_take hc))
            (fun c hc => hDigits c (List.mem_of_mem_drop hc)) ?_ ?_).of_eq ?_
          · have hWhole : point.toNat ≠ 0 := by omega
            simp [List.take_eq_nil_iff, hWhole, hSome]
          · have hMore : ¬digits.toList.length ≤ point.toNat := by omega
            simp [List.drop_eq_nil_iff, hMore]
          · rw [List.take_append_drop, List.length_drop, ← hLength]
            congr 2
            omega

/-- Digits that are written with an exponent denote a number with that order of
magnitude. One digit stands before the point, and the exponent counts the
others. -/
theorem denotes_scientific (exponent : ℤ) :
    Denotes (scientific doubleFormat digits exponent).toList
      (number digits.toList * (10 : ℚ) ^ (exponent + 1 - digits.length)) := by
  have hLength : digits.length = digits.toList.length := String.length_toList.symm
  obtain ⟨padded, hPadded, hDigit, hNumber⟩ := exists_padded exponent.natAbs
  obtain ⟨sign, hSign, hText, hRead⟩ := exists_sign exponent
  obtain ⟨first, rest, hList⟩ := List.exists_cons_of_ne_nil hSome
  have hExponent : -(rest.length : ℤ) + exponent = exponent + 1 - digits.length := by
    rw [hLength, hList, List.length_cons]
    push_cast
    ring
  have hValue : (number digits.toList : ℚ) * (10 : ℚ) ^ (-(rest.length : ℤ)) * (10 : ℚ) ^
      readExponent (sign :: padded) =
      number digits.toList * (10 : ℚ) ^ (exponent + 1 - digits.length) := by
    rw [hRead padded hNumber, mul_assoc, ← zpow_add₀ (by norm_num), hExponent]
  obtain ⟨hFirst, hRest⟩ := List.forall_mem_cons.mp (hList ▸ hDigits)
  have hWhole : ∀ c ∈ [first], c.isDigit = true := List.forall_mem_singleton.mpr hFirst
  rw [hList] at hValue
  cases rest with
  | nil =>
      have hAll : (scientific doubleFormat digits exponent).toList = [first] ++ [] ++ 'e' :: sign ::
          padded := by
        simp only [scientific, hList, hText, hPadded, String.toList_append, String.toList_ofList]
        rfl
      rw [hAll, hList]
      exact (denotes_exponent hWhole (List.forall_mem_nil _) (by simp) (.inr ⟨rfl, rfl⟩) hSign
        hDigit).of_eq hValue
  | cons second rest =>
      have hAll : (scientific doubleFormat digits exponent).toList =
          [first] ++ '.' :: second :: rest ++ 'e' :: sign :: padded := by
        simp only [scientific, hList, hText, hPadded, String.toList_append, String.toList_ofList]
        simp
      rw [hAll, hList]
      exact (denotes_exponent hWhole hRest (by simp) (.inl ⟨rfl, by simp⟩) hSign hDigit).of_eq
        hValue

end forms

end Numeral

/-! ### Doubles -/

namespace Double

theorem eq_of_toBits {x y : Float} (h : x.toBits.toNat = y.toBits.toNat) : x = y := by
  obtain ⟨⟨xBits, xValid⟩⟩ := x
  obtain ⟨⟨yBits, yValid⟩⟩ := y
  obtain rfl : xBits = yBits := UInt64.toNat_inj.mp h
  rfl

/-- The parts of a finite double are those of its bits. -/
theorem finite?_spec {x : Float} {f : Finite} (h : finite? x = some f) :
    (f.negative = true ↔ 2 ^ 63 ≤ x.toBits.toNat) ∧
      (x.toBits.toNat / 2 ^ 52 % 2048 = 0 ∧ f.significand = x.toBits.toNat % 2 ^ 52 ∧
        f.exponent = -1074 ∨
        0 < x.toBits.toNat / 2 ^ 52 % 2048 ∧ x.toBits.toNat / 2 ^ 52 % 2048 ≠ 2047 ∧
          f.significand = x.toBits.toNat % 2 ^ 52 + 2 ^ 52 ∧
            f.exponent = (x.toBits.toNat / 2 ^ 52 % 2048 : ℕ) - 1075) := by
  unfold finite? at h
  dsimp only at h
  split at h
  · cases h
  · next hSome =>
      split at h
      · next hZero =>
          cases h
          exact ⟨decide_eq_true_iff, .inl ⟨hZero, rfl, rfl⟩⟩
      · next hNormal =>
          cases h
          exact ⟨decide_eq_true_iff, .inr ⟨Nat.pos_of_ne_zero hNormal, hSome, rfl, rfl⟩⟩

/-- A finite double other than zero has a significand and an exponent of the
range of doubles. -/
theorem isDouble_of_finite? {x : Float} {f : Finite} (h : finite? x = some f)
    (hSome : f.significand ≠ 0) :
    Shortest.IsDouble f.significand f.exponent := by
  obtain ⟨-, hParts⟩ := finite?_spec h
  constructor <;> omega

/-- A finite double is determined by its sign, its significand and its
exponent, and zero by its sign alone. -/
theorem eq_of_finite? {x y : Float} {f g : Finite} (hx : finite? x = some f)
    (hy : finite? y = some g) (hNegative : f.negative = g.negative)
    (hSignificand : f.significand = g.significand)
    (hExponent : f.significand ≠ 0 → f.exponent = g.exponent) : x = y := by
  obtain ⟨hSign, hParts⟩ := finite?_spec hx
  obtain ⟨hOtherSign, hOtherParts⟩ := finite?_spec hy
  have hBits := x.toBits.toNat_lt
  have hOtherBits := y.toBits.toNat_lt
  rw [hNegative, hOtherSign] at hSign
  apply eq_of_toBits
  omega

section bits

open Float.Model (Format UnpackedFloat)

/-- The exponent is the eleven bits above the lower fifty-two. -/
theorem toNat_unpackExponent (b : BitVec 64) :
    (@UnpackedFloat.unpackExponent Format.binary64 b).toNat = b.toNat / 2 ^ 52 % 2048 := by
  have hBits : (@UnpackedFloat.unpackExponent Format.binary64 b).toNat =
      (b.extractLsb 62 52).toNat := rfl
  rw [hBits, BitVec.extractLsb_toNat, Nat.shiftRight_eq_div_pow]

theorem toNat_unpackMantissa (b : BitVec 64) :
    (@UnpackedFloat.unpackMantissa Format.binary64 b).toNat = b.toNat % 2 ^ 52 := by
  have hBits : (@UnpackedFloat.unpackMantissa Format.binary64 b).toNat =
      (b.extractLsb 51 0).toNat := rfl
  rw [hBits, BitVec.extractLsb_toNat, Nat.shiftRight_zero]

/-- Of the patterns for not-a-number only one is in use. -/
theorem toBits_of_isNaN {x : Float} (hExponent : x.toBits.toNat / 2 ^ 52 % 2048 = 2047)
    (hFraction : x.toBits.toNat % 2 ^ 52 ≠ 0) : x.toBits.toNat = 0x7ff8000000000000 := by
  have hOnes : @UnpackedFloat.unpackExponent Format.binary64 x.toBits.toBitVec = -1#11 := by
    apply BitVec.eq_of_toNat_eq
    rw [toNat_unpackExponent]
    exact hExponent
  have hMantissa : @UnpackedFloat.unpackMantissa Format.binary64 x.toBits.toBitVec ≠ 0#52 := by
    intro hZero
    have hNone := congrArg BitVec.toNat hZero
    rw [toNat_unpackMantissa] at hNone
    exact hFraction hNone
  exact congrArg BitVec.toNat (x.toModel.valid.eq_packedNaN hOnes hMantissa)

end bits

/-- The infinities and not-a-number, which have one pattern of bits each. -/
def nonFinite : List Float :=
  [Float.ofBits 0x7ff0000000000000, Float.ofBits 0xfff0000000000000,
    Float.ofBits 0x7ff8000000000000]

/-- A double that is not finite is an infinity or not-a-number. -/
theorem mem_nonFinite {x : Float} (h : finite? x = none) : x ∈ nonFinite := by
  have hExponent : x.toBits.toNat / 2 ^ 52 % 2048 = 2047 := by
    unfold finite? at h
    dsimp only at h
    split at h
    · assumption
    · split at h <;> cases h
  by_cases hFraction : x.toBits.toNat % 2 ^ 52 = 0
  · have hBits := x.toBits.toNat_lt
    have hInfinite : x.toBits.toNat = 0x7ff0000000000000 ∨
        x.toBits.toNat = 0xfff0000000000000 := by omega
    rcases hInfinite with hPositive | hNegative
    · rw [eq_of_toBits (y := Float.ofBits 0x7ff0000000000000) hPositive]
      exact .head _
    · rw [eq_of_toBits (y := Float.ofBits 0xfff0000000000000) hNegative]
      exact .tail _ (.head _)
  · rw [eq_of_toBits (y := Float.ofBits 0x7ff8000000000000) (toBits_of_isNaN hExponent hFraction)]
    exact .tail _ (.tail _ (.head _))

end Double

/-! ### Written numbers -/

namespace Numeral

open Digit (number)
open Double (Finite finite?)

/-- What is behind the sign of a number. -/
def unsigned (text : List Char) : List Char := text.dropWhile (· == '-')

/-- The size of a finite double. -/
def magnitude (f : Finite) : ℚ :=
  if f.significand = 0 then 0 else (Shortest.decimal f.significand f.exponent).value

/-- A number that begins with a digit has no sign. -/
theorem StartsDigit.unsigned_eq {text : List Char} (h : StartsDigit text) :
    unsigned text = text := by
  obtain ⟨c, rest, rfl, hDigit⟩ := h
  refine dropWhile_of_stops (stops_cons ?_ _)
  have hOther := ne_of_isDigit hDigit (show '-'.isDigit = false by decide)
  simpa using hOther

theorem denotes_zero : Denotes "0.0".toList 0 := by
  have hDigit : ∀ c ∈ ['0'], c.isDigit = true := List.forall_mem_singleton.mpr rfl
  have hPoint := denotes_point hDigit hDigit (List.cons_ne_nil _ _) (List.cons_ne_nil _ _)
  have hZero : number ['0', '0'] = 0 := by decide
  refine hPoint.of_eq ?_
  simp [hZero]

/-- A finite double is written as its sign and a text for its size. The digits
of the shortest decimal are written with a point or with an exponent, and zero
is written by itself. -/
theorem exists_denotes {x : Float} {f : Finite} (h : finite? x = some f) :
    ∃ body : String, writeDouble x = (if f.negative then "-" else "") ++ body ∧
      Denotes body.toList (magnitude f) := by
  simp only [writeDouble, h]
  by_cases hZero : f.significand = 0
  · refine ⟨"0.0", if_pos hZero, ?_⟩
    rw [magnitude, if_pos hZero]
    exact denotes_zero
  · rw [magnitude, if_neg hZero, if_neg hZero]
    generalize Shortest.decimal f.significand f.exponent = d
    have hDigits : ∀ c ∈ (toString d.digits).toList, c.isDigit = true :=
      Digit.isDigit_of_mem_toString
    have hSome : (toString d.digits).toList ≠ [] := by
      obtain ⟨c, rest, hList⟩ := Lexer.exists_toString_eq_cons d.digits
      rw [hList]
      exact List.cons_ne_nil _ _
    have hNumber : number (toString d.digits).toList = d.digits := Digit.number_toString d.digits
    split
    · refine ⟨_, rfl, (denotes_positional hDigits hSome _).of_eq ?_⟩
      rw [hNumber, Shortest.Decimal.value, add_sub_cancel_right]
    · refine ⟨_, rfl, (denotes_scientific hDigits hSome _).of_eq ?_⟩
      rw [hNumber, Shortest.Decimal.value, sub_add_cancel, add_sub_cancel_right]

section sign

variable {body : String} (h : StartsDigit body.toList)

include h

/-- Behind its sign, if it has one, a number is found again. -/
theorem unsigned_sign_append (negative : Bool) :
    unsigned ((if negative then "-" else "") ++ body).toList = body.toList := by
  cases negative with
  | true =>
      have hText : ((if true then "-" else "") ++ body).toList = '-' :: body.toList := by simp
      rw [hText]
      exact h.unsigned_eq
  | false =>
      have hText : ((if false then "-" else "") ++ body).toList = body.toList := by simp
      rw [hText]
      exact h.unsigned_eq

/-- The sign and what is behind it are found again. -/
theorem eq_of_sign_append {negative other : Bool} {second : String}
    (hSecond : StartsDigit second.toList)
    (hText : (if negative then "-" else "") ++ body = (if other then "-" else "") ++ second) :
    negative = other ∧ body = second := by
  have hSame : body.toList = second.toList := by
    rw [← unsigned_sign_append h negative, hText, unsigned_sign_append hSecond other]
  have hLength := congrArg String.length hText
  rw [String.toList_inj.mp hSame] at hLength ⊢
  cases negative <;> cases other <;> simp at hLength ⊢

end sign

/-- A text that begins with a digit, perhaps behind a sign. -/
def startsNumber (text : List Char) : Bool := (unsigned text).head?.any Char.isDigit

/-- A number begins with a digit, behind its sign if it has one. -/
theorem startsNumber_sign_append (negative : Bool) {body : String} (h : StartsDigit body.toList) :
    startsNumber ((if negative then "-" else "") ++ body).toList = true := by
  obtain ⟨c, rest, hList, hDigit⟩ := id h
  rw [startsNumber, unsigned_sign_append h, hList]
  exact hDigit

theorem writeDouble_nonFinite : Double.nonFinite.map writeDouble = ["inf", "-inf", "nan"] := by
  decide +kernel

/-- What is written for a double that is not finite does not begin like a
number. -/
theorem startsNumber_of_none {x : Float} (h : finite? x = none) :
    startsNumber (writeDouble x).toList = false := by
  have hMember : writeDouble x ∈ Double.nonFinite.map writeDouble :=
    List.mem_map_of_mem (Double.mem_nonFinite h)
  have hWords : ∀ word ∈ ["inf", "-inf", "nan"], startsNumber word.toList = false := by decide
  rw [writeDouble_nonFinite] at hMember
  exact hWords _ hMember

/-- What is written for a finite double begins like a number. -/
theorem startsNumber_of_some {x : Float} {f : Finite} (h : finite? x = some f) :
    startsNumber (writeDouble x).toList = true := by
  obtain ⟨body, hText, hBody⟩ := exists_denotes h
  rw [hText]
  exact startsNumber_sign_append f.negative hBody.starts

/-- Finite doubles of one size have one significand, and one exponent unless
they are zero. -/
theorem eq_of_magnitude {x y : Float} {f g : Finite} (hx : finite? x = some f)
    (hy : finite? y = some g) (h : magnitude f = magnitude g) :
    f.significand = g.significand ∧ (f.significand ≠ 0 → f.exponent = g.exponent) := by
  unfold magnitude at h
  by_cases hFirst : f.significand = 0 <;> by_cases hSecond : g.significand = 0
  · exact ⟨hFirst.trans hSecond.symm, fun hSome => absurd hFirst hSome⟩
  · rw [if_pos hFirst, if_neg hSecond] at h
    exact absurd h (Shortest.decimal_value_pos (Double.isDouble_of_finite? hy hSecond)).ne
  · rw [if_neg hFirst, if_pos hSecond] at h
    exact absurd h (Shortest.decimal_value_pos (Double.isDouble_of_finite? hx hFirst)).ne'
  · rw [if_neg hFirst, if_neg hSecond] at h
    obtain ⟨hSame, hExponent⟩ :=
      Shortest.eq_of_decimal_value (Double.isDouble_of_finite? hx hFirst)
      (Double.isDouble_of_finite? hy hSecond) h
    exact ⟨hSame, fun _ => hExponent⟩

/-- Doubles that are written alike are equal. The sign and the size of finite
ones are read back, and no word is a number. -/
theorem writeDouble_injective : Function.Injective writeDouble := by
  intro x y hText
  cases hx : finite? x with
  | none =>
      cases hy : finite? y with
      | none =>
          have hDistinct : (Double.nonFinite.map writeDouble).Nodup := by
            rw [writeDouble_nonFinite]
            decide
          exact List.inj_on_of_nodup_map hDistinct (Double.mem_nonFinite hx)
            (Double.mem_nonFinite hy) hText
      | some g =>
          have hStarts := startsNumber_of_some hy
          rw [← hText, startsNumber_of_none hx] at hStarts
          cases hStarts
  | some f =>
      cases hy : finite? y with
      | none =>
          have hStarts := startsNumber_of_some hx
          rw [hText, startsNumber_of_none hy] at hStarts
          cases hStarts
      | some g =>
          obtain ⟨body, hFirst, hBody⟩ := exists_denotes hx
          obtain ⟨other, hSecond, hOther⟩ := exists_denotes hy
          rw [hFirst, hSecond] at hText
          obtain ⟨hNegative, rfl⟩ := eq_of_sign_append hBody.starts hOther.starts hText
          have hMagnitude : magnitude f = magnitude g := hBody.reads.symm.trans hOther.reads
          obtain ⟨hSignificand, hExponent⟩ := eq_of_magnitude hx hy hMagnitude
          exact Double.eq_of_finite? hx hy hNegative hSignificand hExponent

/-! ### Whole numbers -/

theorem startsDigit_toString (n : Nat) : StartsDigit (toString n).toList := by
  obtain ⟨c, rest, hList⟩ := Lexer.exists_toString_eq_cons n
  exact ⟨c, rest, hList, Digit.isDigit_of_mem_toString c (by rw [hList]; exact .head _)⟩

/-- An integer that is written at all is its sign and the digits of its
size. -/
theorem writeInt_eq {n : Int} {text : String} (h : writeInt n = .ok text) :
    text = (if decide (n < 0) then "-" else "") ++ toString n.natAbs := by
  unfold writeInt at h
  dsimp only at h
  split_ifs at h with hLong hSign
  · rw [← Except.ok.inj h, decide_eq_true hSign]
    rfl
  · rw [← Except.ok.inj h, decide_eq_false hSign]
    exact String.empty_append.symm

/-- Integers that are written alike are equal. -/
theorem eq_of_writeInt {m n : Int} {text : String} (hm : writeInt m = .ok text)
    (hn : writeInt n = .ok text) : m = n := by
  obtain ⟨hSign, hDigits⟩ :=
    eq_of_sign_append (startsDigit_toString m.natAbs) (startsDigit_toString n.natAbs)
    ((writeInt_eq hm).symm.trans (writeInt_eq hn))
  have hSize : m.natAbs = n.natAbs := by
    rw [← Digit.number_toString m.natAbs, hDigits, Digit.number_toString]
  have hSame : m < 0 ↔ n < 0 := decide_eq_decide.mp hSign
  omega

/-- No double is written as a whole number. -/
theorem writeInt_ne_writeDouble (n : Int) (x : Float) : writeInt n ≠ .ok (writeDouble x) := by
  intro hText
  have hInt := writeInt_eq hText
  have hStarts := startsNumber_sign_append (decide (n < 0)) (startsDigit_toString n.natAbs)
  cases hx : finite? x with
  | none =>
      rw [← hInt, startsNumber_of_none hx] at hStarts
      cases hStarts
  | some f =>
      obtain ⟨body, hDouble, hBody⟩ := exists_denotes hx
      obtain ⟨-, rfl⟩ :=
        eq_of_sign_append hBody.starts (startsDigit_toString n.natAbs) (hDouble.symm.trans hInt)
      exact hBody.marked Digit.isDigit_of_mem_toString

/-! ### Numbers as runs -/

/-- The numbers that are written as words. -/
def wordNumbers : List String := ["inf", "nan"]

theorem isWordStart_eq_false_of_isDigit {c : Char} (h : c.isDigit = true) :
    Lexer.isWordStart c = false := by
  rw [Bool.eq_false_iff]
  intro hStart
  have hDigit := Digit.isDigit_of_isDigit h
  rw [Lexer.isDigit_eq_false hStart] at hDigit
  cases hDigit

/-- A run that begins as no word does. -/
structure IsNumberText (text : List Char) : Prop where
  run : IsRun text
  starts : ∃ c rest, text = c :: rest ∧ Lexer.isWordStart c = false

/-- A run that begins with a digit is the text of a number, with a sign or
without. -/
theorem isNumberText_sign_append (negative : Bool) {body : String} (h : StartsDigit body.toList)
    (hRun : IsRun body.toList) : IsNumberText ((if negative then "-" else "") ++ body).toList := by
  cases negative with
  | true =>
      have hText : ((if true then "-" else "") ++ body).toList = '-' :: body.toList := by simp
      rw [hText]
      exact ⟨.part (by decide) hRun, '-', _, rfl, by decide⟩
  | false =>
      have hText : ((if false then "-" else "") ++ body).toList = body.toList := by simp
      obtain ⟨c, rest, hList, hDigit⟩ := h
      rw [hText]
      exact ⟨hRun, c, rest, hList, isWordStart_eq_false_of_isDigit hDigit⟩

/-- An integer is written as the text of a number. -/
theorem isNumberText_writeInt {n : Int} {text : String} (h : writeInt n = .ok text) :
    IsNumberText text.toList := by
  rw [writeInt_eq h]
  exact isNumberText_sign_append _ (startsDigit_toString _)
    (isRun_of_isDigit Digit.isDigit_of_mem_toString)

/-- A double is written as the text of a number, the two that are written as
words apart. -/
theorem isNumberText_writeDouble (x : Float) (h : writeDouble x ∉ wordNumbers) :
    IsNumberText (writeDouble x).toList := by
  cases hx : finite? x with
  | none =>
      have hMember : writeDouble x ∈ Double.nonFinite.map writeDouble :=
        List.mem_map_of_mem (Double.mem_nonFinite hx)
      rw [writeDouble_nonFinite] at hMember
      have hWords : ∀ word ∈ ["inf", "-inf", "nan"], word ∉ wordNumbers →
          word = "-inf" := by decide
      rw [hWords _ hMember h]
      have hInf : IsRun "inf".toList := isRun_of_isWordPart (List.all_eq_true.mp rfl)
      exact ⟨.part (by decide) hInf, '-', _, rfl, by decide⟩
  | some f =>
      obtain ⟨body, hText, hBody⟩ := exists_denotes hx
      rw [hText]
      exact isNumberText_sign_append f.negative hBody.starts hBody.run

end Numeral

end PageScript
