import Mathlib
import BraceTree.Value.Literal

/-!
# Literals are numbers

Doubles are compared as numbers, and of all doubles only the one that is no number differs from
itself. No literal leads to it: the double nearest to a decimal is a number, however large the
decimal, and so is the double for an integer. Dividing by a power of ten would only leave the
numbers if the power were zero or infinite, and no power that is divided by is.
-/

namespace BraceTree.Decimal

open Float.Model (Format UnpackedFloat)
open Float.Model.UnpackedFloat

variable {f g : UnpackedFloat} {x : Float}

theorem ne_nan_iff : x ≠ Float.nan ↔ x.toModel.unpack ≠ .notANumber := by
  have hnan : x.toModel.unpack.isNaN = decide (x = Float.nan) := Float.isNaN_eq_decide_eq_nan
  rw [Ne, Ne, ← isNaN_iff, hnan, decide_eq_true_eq]

/-! ## Rounding -/

/-- **Packing a number gives a number**: the one exponent that is kept for what is no number is
left to the infinities. -/
theorem unpack_pack_ne (h : f ≠ .notANumber) :
    unpack Format.binary64 (pack Format.binary64 f) ≠ .notANumber := by
  have hexponent : ∀ b : BitVec Format.binary64.numBits, unpackExponent b ≠ -1#11 →
      unpack Format.binary64 b ≠ .notANumber := by
    intro b hb
    simp only [unpack, if_neg hb]
    split
    · split <;> simp
    · simp
  cases f with
  | notANumber => exact absurd rfl h
  | infinity s => simp [pack, packedInfinity, unpack]
  | zero s => simp [pack]
  | finite s m e hm =>
    rw [pack]
    dsimp only
    split
    · simp [packedInfinity, unpack]
    · next hsmall =>
      split
      · refine hexponent _ fun heq => ?_
        rw [unpackExponent_packComponents] at heq
        have hmod := congrArg BitVec.toNat heq
        simp at hmod
        omega
      · exact hexponent _ (by simp)

theorem pack_ne_nan (h : f ≠ .notANumber) : Float.ofModel (.pack f) ≠ Float.nan :=
  ne_nan_iff.mpr (unpack_pack_ne h)

theorem round_ne (s : Sign) (m : Nat) (e : Int) (a : Accuracy) :
    roundWithAccuracy Format.binary64 s m e a ≠ .notANumber := by
  simp only [roundWithAccuracy]
  split <;> simp

/-! ## Arithmetic -/

/-- A finite number other than zero. -/
def isDivisor : UnpackedFloat → Bool
  | .finite .. => true
  | _ => false

theorem div_ne (hf : f ≠ .notANumber) (hg : isDivisor g = true) :
    UnpackedFloat.div Format.binary64 f g ≠ .notANumber := by
  cases g with
  | finite =>
    cases f with
    | notANumber => exact absurd rfl hf
    | infinity | zero => simp [UnpackedFloat.div]
    | finite => exact round_ne _ _ _ _
  | _ => exact absurd hg Bool.false_ne_true

theorem mul_ne (hf : f ≠ .notANumber) (hg : isDivisor g = true) :
    UnpackedFloat.mul Format.binary64 f g ≠ .notANumber := by
  cases g with
  | finite =>
    cases f with
    | notANumber => exact absurd rfl hf
    | infinity | zero => simp [UnpackedFloat.mul]
    | finite => exact round_ne _ _ _ _
  | _ => exact absurd hg Bool.false_ne_true

theorem neg_ne_nan (h : x ≠ Float.nan) : -x ≠ Float.nan := by
  refine pack_ne_nan ?_
  have hunpack := ne_nan_iff.mp h
  cases hx : x.toModel.unpack with
  | notANumber => exact absurd hx hunpack
  | _ => simp [UnpackedFloat.neg]

theorem toFloat_ne_nan (n : UInt64) : n.toFloat ≠ Float.nan := by
  refine pack_ne_nan ?_
  simp only [UnpackedFloat.ofUInt64, UnpackedFloat.ofNat, UnpackedFloat.ofInt,
    UnpackedFloat.normalize]
  split
  · exact round_ne _ _ _ _
  · simp
  · exact round_ne _ _ _ _

/-! ## Literals -/

/-- The powers of ten that doubles hold exactly can be divided by. -/
theorem isDivisor_power {e : Nat} (he : e < Float.exactlyRepresentablePowersOfTen.size) :
    isDivisor Float.exactlyRepresentablePowersOfTen[e].toModel.unpack = true := by
  have hall : Float.exactlyRepresentablePowersOfTen.all
      (fun p => isDivisor p.toModel.unpack) = true := by
    decide +kernel
  exact Array.all_eq_true.mp hall e he

theorem ofScientific_ne (m : Nat) (e : Int) :
    UnpackedFloat.ofScientific Format.binary64 m e ≠ .notANumber := by
  rw [UnpackedFloat.ofScientific]
  split_ifs
  · simp
  · simp
  · simp
  · exact round_ne _ _ _ _
  · exact round_ne _ _ _ _

/-- **The double nearest to a decimal is a number.** -/
theorem ofScientific_ne_nan (m : Nat) (negative : Bool) (e : Nat) :
    Float.ofScientific m negative e ≠ Float.nan := by
  have hm : m.toUInt64.toFloat.toModel.unpack ≠ .notANumber :=
    ne_nan_iff.mp (toFloat_ne_nan _)
  rw [Float.ofScientific]
  split
  · dsimp only
    split
    · exact pack_ne_nan (div_ne hm (isDivisor_power _))
    · exact pack_ne_nan (mul_ne hm (isDivisor_power _))
  · exact pack_ne_nan (ofScientific_ne m _)

theorem ofInt_ne_nan (n : Int) : Float.ofInt n ≠ Float.nan := by
  cases n with
  | ofNat n => exact ofScientific_ne_nan n false 0
  | negSucc n => exact neg_ne_nan (ofScientific_ne_nan (n + 1) false 0)

/-- **The double for a literal is a number.** -/
theorem doubleValue?_ne_nan {negative : Bool} {whole fraction : Text}
    (h : Literal.doubleValue? negative whole fraction = some x) : x ≠ Float.nan := by
  rw [Literal.doubleValue?] at h
  split at h
  · cases h
  · obtain rfl := Option.some.inj h
    split
    · exact neg_ne_nan (ofScientific_ne_nan _ _ _)
    · exact ofScientific_ne_nan _ _ _

end BraceTree.Decimal
