import Swatch.Css.Token
import Swatch.Proofs.Text
import Mathlib.Data.List.TakeWhile

/-!
# Character classes as ranges

The classes of characters overlap and exclude each other in many ways. Each
class is a union of ranges of character codes, so every such fact is a fact of
linear arithmetic once the classes are written as ranges.
-/

namespace Swatch.Css

variable {c : Char}

theorem eq_iff_toNat (c d : Char) : c = d ↔ c.toNat = d.toNat :=
  ⟨congrArg Char.toNat, fun same => Char.ext (UInt32.toNat_inj.mp same)⟩

theorem isDigit_iff (c : Char) : c.isDigit = true ↔ 48 ≤ c.toNat ∧ c.toNat ≤ 57 := by
  simp only [Char.isDigit, Bool.and_eq_true, decide_eq_true_eq, ge_iff_le, UInt32.le_iff_toNat_le]
  rfl

theorem isUpper_iff (c : Char) : c.isUpper = true ↔ 65 ≤ c.toNat ∧ c.toNat ≤ 90 := by
  change decide (c.val ≥ 65 ∧ c.val ≤ 90) = true ↔ _
  rw [decide_eq_true_eq, ge_iff_le, UInt32.le_iff_toNat_le, UInt32.le_iff_toNat_le]
  rfl

theorem isLower_iff (c : Char) : c.isLower = true ↔ 97 ≤ c.toNat ∧ c.toNat ≤ 122 := by
  change (decide (c.val ≥ 97) && decide (c.val ≤ 122)) = true ↔ _
  rw [Bool.and_eq_true, decide_eq_true_eq, decide_eq_true_eq, ge_iff_le, UInt32.le_iff_toNat_le,
    UInt32.le_iff_toNat_le]
  rfl

theorem isAlpha_iff (c : Char) :
    c.isAlpha = true ↔ 65 ≤ c.toNat ∧ c.toNat ≤ 90 ∨ 97 ≤ c.toNat ∧ c.toNat ≤ 122 := by
  change (c.isUpper || c.isLower) = true ↔ _
  rw [Bool.or_eq_true, isUpper_iff, isLower_iff]

theorem isAlphanum_iff (c : Char) :
    c.isAlphanum = true ↔ 65 ≤ c.toNat ∧ c.toNat ≤ 90 ∨ 97 ≤ c.toNat ∧ c.toNat ≤ 122 ∨
      48 ≤ c.toNat ∧ c.toNat ≤ 57 := by
  rw [Char.isAlphanum, Bool.or_eq_true, isAlpha_iff, isDigit_iff, or_assoc]

theorem isNameStart_iff (c : Char) :
    isNameStart c = true ↔ 65 ≤ c.toNat ∧ c.toNat ≤ 90 ∨ 97 ≤ c.toNat ∧ c.toNat ≤ 122 ∨
      c.toNat = 95 ∨ c.toNat = 0 ∨ 128 ≤ c.toNat := by
  simp only [isNameStart, Bool.or_eq_true, isAlpha_iff, beq_iff_eq, decide_eq_true_eq, eq_iff_toNat]
  simp only [Char.reduceToNat]
  omega

theorem isNameChar_iff (c : Char) :
    isNameChar c = true ↔ 65 ≤ c.toNat ∧ c.toNat ≤ 90 ∨ 97 ≤ c.toNat ∧ c.toNat ≤ 122 ∨
      c.toNat = 95 ∨ c.toNat = 0 ∨ 128 ≤ c.toNat ∨ 48 ≤ c.toNat ∧ c.toNat ≤ 57 ∨
      c.toNat = 45 := by
  simp only [isNameChar, Bool.or_eq_true, isNameStart_iff, isDigit_iff, beq_iff_eq, eq_iff_toNat]
  simp only [Char.reduceToNat]
  omega

theorem isLineEnd_iff (c : Char) :
    isLineEnd c = true ↔ c.toNat = 10 ∨ c.toNat = 13 ∨ c.toNat = 12 := by
  simp only [isLineEnd, Bool.or_eq_true, beq_iff_eq, eq_iff_toNat]
  simp only [Char.reduceToNat]
  omega

theorem isBlank_iff (c : Char) :
    isBlank c = true ↔ c.toNat = 32 ∨ c.toNat = 9 ∨ c.toNat = 10 ∨ c.toNat = 13 ∨
      c.toNat = 12 := by
  simp only [isBlank, Bool.or_eq_true, isLineEnd_iff, beq_iff_eq, eq_iff_toNat]
  simp only [Char.reduceToNat]
  omega

theorem isQuote_iff (c : Char) : isQuote c = true ↔ c.toNat = 34 ∨ c.toNat = 39 := by
  simp only [isQuote, Bool.or_eq_true, beq_iff_eq, eq_iff_toNat]
  simp only [Char.reduceToNat]

theorem isHexDigit_iff (c : Char) :
    isHexDigit c = true ↔ 48 ≤ c.toNat ∧ c.toNat ≤ 57 ∨ 97 ≤ c.toNat ∧ c.toNat ≤ 102 ∨
      65 ≤ c.toNat ∧ c.toNat ≤ 70 := by
  simp only [isHexDigit, Bool.or_eq_true, isDigit_iff, Bool.and_eq_true, decide_eq_true_eq,
    Char.le_def, UInt32.le_iff_toNat_le]
  exact or_assoc

theorem isWhite_iff (c : Char) :
    isWhite c = true ↔ 9 ≤ c.toNat ∧ c.toNat ≤ 13 ∨ c.toNat = 0x20 ∨ c.toNat = 0x85 ∨
      c.toNat = 0xA0 ∨ c.toNat = 0x1680 ∨ 0x2000 ≤ c.toNat ∧ c.toNat ≤ 0x200A ∨
      c.toNat = 0x2028 ∨ c.toNat = 0x2029 ∨ c.toNat = 0x202F ∨ c.toNat = 0x205F ∨
      c.toNat = 0x3000 := by
  simp only [isWhite, Bool.or_eq_true, Bool.and_eq_true, decide_eq_true_eq, beq_iff_eq]
  omega

/-- A class that differs on two characters tells them apart. -/
theorem ne_of_class {test : Char → Bool} (inside : test c = true) {other : Char}
    (outside : test other = false) : c ≠ other := by
  rintro rfl
  rw [inside] at outside
  contradiction

/-! ## Characters that begin a name or stand in it -/

theorem isNameChar_of_nameStart (begins : isNameStart c = true) : isNameChar c = true := by
  simp [isNameChar, begins]

theorem isDigit_of_nameStart (begins : isNameStart c = true) : c.isDigit = false := by
  rw [isNameStart_iff] at begins
  rw [Bool.eq_false_iff, ne_eq, isDigit_iff]
  omega

theorem isBlank_of_nameChar (inName : isNameChar c = true) : isBlank c = false := by
  rw [isNameChar_iff] at inName
  rw [Bool.eq_false_iff, ne_eq, isBlank_iff]
  omega

theorem isQuote_of_nameChar (inName : isNameChar c = true) : isQuote c = false := by
  rw [isNameChar_iff] at inName
  rw [Bool.eq_false_iff, ne_eq, isQuote_iff]
  omega

theorem isNameChar_of_hexDigit (digit : isHexDigit c = true) : isNameChar c = true := by
  rw [isHexDigit_iff] at digit
  rw [isNameChar_iff]
  omega

theorem isWhite_of_blank (blank : isBlank c = true) : isWhite c = true := by
  rw [isBlank_iff] at blank
  rw [isWhite_iff]
  omega

theorem punctuation_of_nameChar (inName : isNameChar c = true) : punctuation c = none := by
  unfold punctuation
  split <;> first | rfl | exact absurd inName (by decide)

/-! ## Letter case -/

/-- The code of the lower case form. -/
theorem toNat_toLower (c : Char) :
    c.toLower.toNat = if 65 ≤ c.toNat ∧ c.toNat ≤ 90 then c.toNat + 32 else c.toNat := by
  unfold Char.toLower
  split
  · rename_i capital
    have low : 65 ≤ c.toNat := capital.1
    have high : c.toNat ≤ 90 := capital.2
    rw [if_pos ⟨low, high⟩]
    change (c.val + 32).toNat = c.val.toNat + 32
    change c.val.toNat ≤ 90 at high
    rw [UInt32.toNat_add, show (32 : UInt32).toNat = 32 from rfl]
    omega
  · rename_i other
    rw [if_neg]
    rintro ⟨low, high⟩
    exact other ⟨low, high⟩

theorem toNat_toUpper (c : Char) :
    c.toUpper.toNat = if 97 ≤ c.toNat ∧ c.toNat ≤ 122 then c.toNat - 32 else c.toNat := by
  unfold Char.toUpper
  split
  · rename_i small
    have low : 97 ≤ c.toNat := small.1
    have high : c.toNat ≤ 122 := small.2
    rw [if_pos ⟨low, high⟩]
    change (c.val + 4294967264).toNat = c.val.toNat - 32
    change 97 ≤ c.val.toNat at low
    change c.val.toNat ≤ 122 at high
    rw [UInt32.toNat_add, show (4294967264 : UInt32).toNat = 4294967264 from rfl]
    omega
  · rename_i other
    rw [if_neg]
    rintro ⟨low, high⟩
    exact other ⟨low, high⟩

theorem toLower_of_small (small : 90 < c.toNat ∨ c.toNat < 65) : c.toLower = c := by
  rw [eq_iff_toNat, toNat_toLower, if_neg (by omega)]

theorem isUpper_toLower (c : Char) : c.toLower.isUpper = false := by
  rw [Bool.eq_false_iff]
  intro upper
  rw [isUpper_iff, toNat_toLower] at upper
  split at upper <;> omega

theorem toLower_toLower (c : Char) : c.toLower.toLower = c.toLower := by
  apply toLower_of_small
  rw [toNat_toLower]
  split <;> omega

theorem toUpper_toLower (c : Char) : c.toLower.toUpper = c.toUpper := by
  rw [eq_iff_toNat, toNat_toUpper, toNat_toUpper, toNat_toLower]
  by_cases capital : 65 ≤ c.toNat ∧ c.toNat ≤ 90
  · rw [if_pos capital]
    split <;> split <;> omega
  · rw [if_neg capital]

theorem toLower_toUpper (c : Char) : c.toUpper.toLower = c.toLower := by
  rw [eq_iff_toNat, toNat_toLower, toNat_toLower, toNat_toUpper]
  by_cases small : 97 ≤ c.toNat ∧ c.toNat ≤ 122
  · rw [if_pos small]
    split <;> split <;> omega
  · rw [if_neg small]

end Swatch.Css
