import Mathlib.Algebra.Order.Ring.Rat
import Mathlib.Data.Rat.Floor

/-!
# Decimal Numbers with Infinities and NaNs

The values of a decimal floating-point type: the finite numbers, by the rational they
denote, the two infinities, and the quiet and signalling NaNs. Comparison follows the
general decimal arithmetic: a quiet NaN equals nothing, itself included, a signalling
NaN makes `==` fail, and every NaN makes an ordering comparison fail. A failed
comparison is `none`.

## Main results

* `equal_self_iff`: a number equals itself exactly when it is not a NaN.
* `eq_of_equal`: numbers that compare equal are the same value.
* `Rounding.round_eq_self_iff`: rounding to a number of decimal places changes exactly the
  numbers that have more.
-/

/-- A decimal number. -/
inductive Decimal where
  | finite (value : ℚ)
  | infinity (negative : Bool)
  | nan (signaling : Bool)
deriving DecidableEq

namespace Decimal

def isNaN : Decimal → Bool
  | nan _ => true
  | _ => false

def isSignaling : Decimal → Bool
  | nan s => s
  | _ => false

def isFinite : Decimal → Bool
  | finite _ => true
  | _ => false

theorem isSignaling_of_isFinite {a : Decimal} (h : a.isFinite = true) : a.isSignaling = false := by
  cases a with
  | finite q => rfl
  | infinity negative => exact absurd h (by simp [isFinite])
  | nan signaling => exact absurd h (by simp [isFinite])

/-- `a == b`, or `none` when the comparison signals. -/
def equal (a b : Decimal) : Option Bool :=
  if a.isSignaling || b.isSignaling then none
  else if a.isNaN || b.isNaN then some false
  else some (decide (a = b))

/-- `a <= 0`, or `none` when the comparison signals. -/
def nonpos : Decimal → Option Bool
  | finite q => some (decide (q ≤ 0))
  | infinity negative => some negative
  | nan _ => none

/-- `==` on optional numbers: an absent number equals only an absent number. -/
def equalOption : Option Decimal → Option Decimal → Option Bool
  | some a, some b => equal a b
  | none, none => some true
  | _, _ => some false

theorem eq_of_equal {a b : Decimal} (h : equal a b = some true) : a = b := by
  unfold equal at h
  split_ifs at h
  · simp at h
  · exact of_decide_eq_true (Option.some.inj h)

theorem equal_self_iff {a : Decimal} : equal a a = some true ↔ a.isNaN = false := by
  cases a <;> simp [equal, isNaN, isSignaling]

theorem eq_of_equalOption {a b : Option Decimal} (h : equalOption a b = some true) : a = b := by
  cases a <;> cases b <;> simp only [equalOption, Option.some.injEq, Bool.false_eq_true] at h
  · rfl
  · rw [eq_of_equal h]

theorem equalOption_self_iff {a : Option Decimal} :
    equalOption a a = some true ↔ a.any isNaN = false := by
  cases a with
  | none => simp [equalOption]
  | some d => simpa [equalOption] using equal_self_iff

/-- Only a signaling NaN makes a comparison signal. -/
theorem equal_ne_none {a b : Decimal} (ha : a.isSignaling = false) (hb : b.isSignaling = false) :
    equal a b ≠ none := by
  rw [equal, ha, hb]
  simp only [Bool.or_self, Bool.false_eq_true, if_false]
  split <;> simp

theorem equalOption_ne_none {a b : Option Decimal} (ha : ∀ d ∈ a, d.isSignaling = false)
    (hb : ∀ d ∈ b, d.isSignaling = false) : equalOption a b ≠ none := by
  cases a with
  | none => cases b <;> simp [equalOption]
  | some d =>
      cases b with
      | none => simp [equalOption]
      | some d' => exact equal_ne_none (ha d rfl) (hb d' rfl)

end Decimal

/-! ### Decimal places -/

/-- The number has at most `scale` decimal places. -/
def FitsScale (scale : ℕ) (q : ℚ) : Prop := (q * 10 ^ scale).den = 1

instance (scale : ℕ) (q : ℚ) : Decidable (FitsScale scale q) := inferInstanceAs (Decidable (_ = _))

theorem fitsScale_iff {scale : ℕ} {q : ℚ} : FitsScale scale q ↔ ∃ n : ℤ, q * 10 ^ scale = n := by
  constructor
  · exact fun h => ⟨_, (Rat.den_eq_one_iff _).mp h |>.symm⟩
  · rintro ⟨n, hn⟩
    rw [FitsScale, hn, Rat.den_intCast]

theorem fitsScale_div (scale : ℕ) (n : ℤ) : FitsScale scale (n / 10 ^ scale) :=
  fitsScale_iff.mpr ⟨n, div_mul_cancel₀ _ (by positivity)⟩

theorem FitsScale.mono {scale scale' : ℕ} {q : ℚ} (h : FitsScale scale q) (hle : scale ≤ scale') :
    FitsScale scale' q := by
  obtain ⟨n, hn⟩ := fitsScale_iff.mp h
  refine fitsScale_iff.mpr ⟨n * 10 ^ (scale' - scale), ?_⟩
  rw [← Nat.add_sub_cancel' hle, pow_add, ← mul_assoc, hn, Nat.add_sub_cancel_left]
  push_cast
  rfl

/-- A way to round to `scale` decimal places. -/
structure Rounding (scale : ℕ) where
  round : ℚ → ℚ
  fits : ∀ q, FitsScale scale (round q)
  /-- Numbers without further places stay as they are. -/
  round_of_fits : ∀ q, FitsScale scale q → round q = q

namespace Rounding

variable {scale : ℕ}

/-- **Rounding changes exactly the numbers that have more places.** -/
theorem round_eq_self_iff (ρ : Rounding scale) {q : ℚ} : ρ.round q = q ↔ FitsScale scale q :=
  ⟨fun h => h ▸ ρ.fits q, ρ.round_of_fits q⟩

/-- To the nearest number, ties away from zero. -/
def halfAway (scale : ℕ) : Rounding scale where
  round q :=
    if 0 ≤ q then (⌊q * 10 ^ scale + 1 / 2⌋ : ℤ) / 10 ^ scale
    else (-⌊-q * 10 ^ scale + 1 / 2⌋ : ℤ) / 10 ^ scale
  fits q := by
    split <;> exact fitsScale_div scale _
  round_of_fits q h := by
    obtain ⟨n, hn⟩ := fitsScale_iff.mp h
    have hq : q = n / 10 ^ scale := (eq_div_iff (by positivity)).mpr hn
    have hfloor : ∀ m : ℤ, ⌊(m : ℚ) + 1 / 2⌋ = m := fun m => by
      rw [Int.floor_intCast_add, show ⌊(1 / 2 : ℚ)⌋ = 0 from by norm_num, add_zero]
    split
    · rw [hn, hfloor, ← hq]
    · have hneg : -q * 10 ^ scale = ((-n : ℤ) : ℚ) := by rw [neg_mul, hn, Int.cast_neg]
      rw [hneg, hfloor, neg_neg, ← hq]

/-- Rounding to the nearest number does not pass an integer. -/
theorem le_halfAway {n : ℕ} {q : ℚ} (h : (n : ℚ) ≤ q) : (n : ℚ) ≤ (halfAway scale).round q := by
  have hnonneg : (0 : ℚ) ≤ q := n.cast_nonneg.trans h
  have hfloor : ((n * 10 ^ scale : ℕ) : ℤ) ≤ ⌊q * 10 ^ scale + 1 / 2⌋ := by
    rw [Int.le_floor]
    push_cast
    have hmul : (n : ℚ) * 10 ^ scale ≤ q * 10 ^ scale :=
      mul_le_mul_of_nonneg_right h (by positivity)
    linarith
  change (n : ℚ) ≤ if 0 ≤ q then _ else _
  rw [if_pos hnonneg, le_div_iff₀ (by positivity)]
  exact_mod_cast hfloor

end Rounding

namespace Decimal

variable {scale : ℕ}

/-- A finite number is rounded. -/
def rounded (ρ : Rounding scale) : Decimal → Decimal
  | finite q => finite (ρ.round q)
  | d => d

/-- A finite number has at most `scale` decimal places. -/
def HasScale (scale : ℕ) : Decimal → Prop
  | finite q => FitsScale scale q
  | _ => True

theorem rounded_eq_self_iff (ρ : Rounding scale) {d : Decimal} :
    d.rounded ρ = d ↔ d.HasScale scale := by
  cases d with
  | finite q => exact Decimal.finite.injEq _ _ ▸ ρ.round_eq_self_iff
  | infinity => exact iff_of_true rfl trivial
  | nan => exact iff_of_true rfl trivial

end Decimal
