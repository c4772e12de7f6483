import Mathlib.Algebra.Order.Field.Power
import Mathlib.Data.Rat.Cast.Order
import Mathlib.Tactic.Linarith
import Mathlib.Tactic.Positivity
import Mathlib.Tactic.Ring
import ToolDialogue.Decimal.Shortest

/-! The shortest decimal of a magnitude rounds to that magnitude and to no other. -/
namespace ToolDialogue.Decimal

def Scaled.value (x : Scaled) : ℚ :=
  x.digits * 10 ^ x.exponent

namespace Magnitude

/-- The lower end of the numbers that round to `x`. -/
def low (x : Magnitude) : ℚ :=
  (4 * x.mantissa - if x.lowEdge then 1 else 2) * 2 ^ (x.exponent - 2)

/-- The upper end of the numbers that round to `x`. -/
def high (x : Magnitude) : ℚ :=
  (4 * x.mantissa + 2) * 2 ^ (x.exponent - 2)

/-- The number `v` rounds to `x`; a number halfway between two magnitudes rounds to the one with
the even mantissa. -/
structure Covers (x : Magnitude) (v : ℚ) : Prop where
  above : x.low ≤ v
  below : v ≤ x.high
  inner : x.mantissa % 2 = 1 → x.low < v ∧ v < x.high

/-- Magnitudes as floats have them: with a mantissa of 53 binary places, or fewer at the least
exponent. -/
structure Canonical (x : Magnitude) : Prop where
  bound : x.mantissa < 2 * normalUnit
  least : -1074 ≤ x.exponent
  normal : -1074 < x.exponent → normalUnit ≤ x.mantissa
  edge : x.lowEdge = true ↔ x.mantissa = normalUnit ∧ -1074 < x.exponent

theorem canonical_ofFloat (x : Float) : (ofFloat x).Canonical := by
  have hfraction : x.toBits.toNat % normalUnit < normalUnit := Nat.mod_lt _ (by decide)
  unfold ofFloat
  dsimp only
  split
  · exact ⟨by dsimp only; omega, by simp, by simp, by simp⟩
  · refine ⟨by dsimp only; omega, by dsimp only [Int.ofNat_eq_natCast]; omega, by simp, ?_⟩
    simp only [Bool.and_eq_true, decide_eq_true_eq, Int.ofNat_eq_natCast]
    omega

section covers

variable {x y : Magnitude} {v : ℚ}

theorem two_mul_zpow_le {a b : ℤ} (h : a < b) : 2 * (2 : ℚ) ^ (a - 2) ≤ 2 ^ (b - 2) := by
  calc 2 * (2 : ℚ) ^ (a - 2) = 2 ^ (a - 2 + 1) := by rw [zpow_add_one₀ two_ne_zero]; ring
    _ ≤ 2 ^ (b - 2) := zpow_le_zpow_right₀ one_le_two (by omega)

theorem le_low_of_normal (hy : y.Canonical) {a : ℤ} (ha : -1074 ≤ a) (hlt : a < y.exponent) :
    (8 * normalUnit - 2) * (2 : ℚ) ^ (a - 2) ≤ y.low := by
  have hstep := two_mul_zpow_le hlt
  have hunit : (1 : ℚ) ≤ normalUnit := by norm_num [normalUnit]
  have hcount : (4 * normalUnit - 1 : ℚ) ≤ 4 * y.mantissa - if y.lowEdge then 1 else 2 := by
    have hnormal := hy.normal (by omega)
    split
    · have : (normalUnit : ℚ) ≤ y.mantissa := by exact_mod_cast hnormal
      linarith
    · rename_i hedge
      rw [hy.edge] at hedge
      have : (normalUnit + 1 : ℚ) ≤ y.mantissa := by
        exact_mod_cast (show normalUnit + 1 ≤ y.mantissa by omega)
      linarith
  calc (8 * normalUnit - 2) * (2 : ℚ) ^ (a - 2)
      = (4 * normalUnit - 1) * (2 * 2 ^ (a - 2)) := by ring
    _ ≤ (4 * normalUnit - 1) * 2 ^ (y.exponent - 2) :=
        mul_le_mul_of_nonneg_left hstep (by linarith)
    _ ≤ y.low := mul_le_mul_of_nonneg_right hcount (by positivity)

theorem exponent_le_of_covers (hx : x.Canonical) (hy : y.Canonical) (hxv : x.Covers v)
    (hyv : y.Covers v) : y.exponent ≤ x.exponent := by
  by_contra! hlt
  have hu : (0 : ℚ) < 2 ^ (x.exponent - 2) := by positivity
  have hv := (le_low_of_normal hy hx.least hlt).trans hyv.above
  have hbound := hx.bound
  by_cases hlast : x.mantissa = 2 * normalUnit - 1
  · -- the last mantissa below a power of two is odd, so the bound itself does not round to it
    have hodd : x.mantissa % 2 = 1 := by rw [hlast]; decide
    have hm : (x.mantissa : ℚ) = 2 * normalUnit - 1 := by
      have : x.mantissa + 1 = 2 * normalUnit := by omega
      exact eq_sub_of_add_eq (by exact_mod_cast this)
    have hin := (hxv.inner hodd).2
    rw [high, hm] at hin
    linarith
  · have hm : (x.mantissa : ℚ) + 2 ≤ 2 * normalUnit := by
      exact_mod_cast (show x.mantissa + 2 ≤ 2 * normalUnit by omega)
    have hin := hxv.below
    rw [high] at hin
    have : (4 * x.mantissa + 2 : ℚ) * 2 ^ (x.exponent - 2)
        < (8 * normalUnit - 2) * 2 ^ (x.exponent - 2) := mul_lt_mul_of_pos_right (by linarith) hu
    linarith

theorem mantissa_le_of_covers (he : x.exponent = y.exponent) (hxv : x.Covers v)
    (hyv : y.Covers v) : y.mantissa ≤ x.mantissa := by
  by_contra! hlt
  have hu : (0 : ℚ) < 2 ^ (y.exponent - 2) := by positivity
  have hlow : (4 * y.mantissa - 2) * (2 : ℚ) ^ (y.exponent - 2) ≤ y.low := by
    refine mul_le_mul_of_nonneg_right ?_ hu.le
    split <;> linarith
  have habove := hyv.above
  have hbelow := hxv.below
  rw [high, he] at hbelow
  by_cases hnext : y.mantissa = x.mantissa + 1
  · have hm : (y.mantissa : ℚ) = x.mantissa + 1 := by exact_mod_cast hnext
    rw [hm] at hlow
    -- of two neighbours one is odd, and what lies halfway does not round to it
    rcases Nat.mod_two_eq_zero_or_one x.mantissa with hx | hx
    · have hin := (hyv.inner (by omega)).1
      linarith
    · have hin := (hxv.inner hx).2
      rw [high, he] at hin
      linarith
  · have hm : (x.mantissa : ℚ) + 2 ≤ y.mantissa := by
      exact_mod_cast (show x.mantissa + 2 ≤ y.mantissa by omega)
    have : (4 * x.mantissa + 2 : ℚ) * 2 ^ (y.exponent - 2)
        < (4 * y.mantissa - 2) * 2 ^ (y.exponent - 2) := mul_lt_mul_of_pos_right (by linarith) hu
    linarith

theorem eq_of_covers (hx : x.Canonical) (hy : y.Canonical) (hxv : x.Covers v) (hyv : y.Covers v) :
    x = y := by
  have he : x.exponent = y.exponent :=
    (exponent_le_of_covers hy hx hyv hxv).antisymm (exponent_le_of_covers hx hy hxv hyv)
  have hm : x.mantissa = y.mantissa :=
    (mantissa_le_of_covers he.symm hyv hxv).antisymm (mantissa_le_of_covers he hxv hyv)
  have hedge : x.lowEdge = y.lowEdge := by
    rw [Bool.eq_iff_iff, hx.edge, hy.edge, he, hm]
  cases x
  cases y
  simp_all

end covers

theorem powNum_eq (base : ℕ) (hbase : (base : ℚ) ≠ 0) (exponent : ℤ) :
    (powNum base exponent : ℚ) = base ^ exponent * powDen base exponent := by
  unfold powNum powDen
  rw [Nat.pow_eq, Nat.pow_eq, Nat.cast_pow, Nat.cast_pow, ← zpow_natCast, ← zpow_natCast,
    ← zpow_add₀ hbase]
  congr 1
  omega

theorem powDen_pos {base : ℕ} (hbase : 0 < base) (exponent : ℤ) : 0 < powDen base exponent :=
  Nat.pow_pos hbase

section interval

variable {x : Magnitude}

theorem exists_unit (a b : ℤ) : ∃ unit : ℚ, 0 < unit ∧
    ((powNum 2 a * powDen 10 b : ℕ) : ℚ) = 2 ^ a * unit ∧
    ((powDen 2 a * powNum 10 b : ℕ) : ℚ) = 10 ^ b * unit := by
  have h2 : (0 : ℚ) < powDen 2 a := by exact_mod_cast powDen_pos (by decide) a
  have h10 : (0 : ℚ) < powDen 10 b := by exact_mod_cast powDen_pos (by decide) b
  refine ⟨powDen 2 a * powDen 10 b, by positivity, ?_, ?_⟩
  · rw [Nat.cast_mul, powNum_eq 2 (by norm_num)]
    push_cast
    ring
  · rw [Nat.cast_mul, powNum_eq 10 (by norm_num)]
    push_cast
    ring

theorem covers_of_holds (hm : 0 < x.mantissa) {grid : ℤ} {point : ℕ}
    (h : (x.interval grid).holds point = true) : x.Covers (Scaled.value ⟨point, grid⟩) := by
  obtain ⟨unit, hunit, hscale, hden⟩ := exists_unit (x.exponent - 2) grid
  have hlow : ((x.interval grid).low : ℚ) = x.low * unit := by
    have hle : (if x.lowEdge then 1 else 2) ≤ 4 * x.mantissa := by split <;> omega
    rw [interval, Nat.cast_mul, hscale, low, Nat.cast_sub hle]
    push_cast
    ring
  have hhigh : ((x.interval grid).high : ℚ) = x.high * unit := by
    rw [interval, Nat.cast_mul, hscale, high]
    push_cast
    ring
  have hpoint : ((point * (x.interval grid).denominator : ℕ) : ℚ) =
      Scaled.value ⟨point, grid⟩ * unit := by
    rw [interval, Nat.cast_mul, hden, Scaled.value]
    ring
  have hle : ∀ {a b : ℕ} {v w : ℚ}, (a : ℚ) = v * unit → (b : ℚ) = w * unit → a ≤ b → v ≤ w := by
    intro a b v w ha hb hab
    refine le_of_mul_le_mul_right ?_ hunit
    rw [← ha, ← hb]
    exact_mod_cast hab
  have hlt : ∀ {a b : ℕ} {v w : ℚ}, (a : ℚ) = v * unit → (b : ℚ) = w * unit → a < b → v < w := by
    intro a b v w ha hb hab
    refine lt_of_mul_lt_mul_right ?_ hunit.le
    rw [← ha, ← hb]
    exact_mod_cast hab
  have hclosed : (x.interval grid).closed = decide (x.mantissa % 2 = 0) := rfl
  unfold Interval.holds at h
  dsimp only at h
  split at h
  · rename_i heven
    rw [hclosed, decide_eq_true_eq] at heven
    rw [Bool.and_eq_true, decide_eq_true_eq, decide_eq_true_eq] at h
    exact ⟨hle hlow hpoint h.1, hle hpoint hhigh h.2, fun hodd => by omega⟩
  · rw [Bool.and_eq_true, decide_eq_true_eq, decide_eq_true_eq] at h
    have habove := hlt hlow hpoint h.1
    have hbelow := hlt hpoint hhigh h.2
    exact ⟨habove.le, hbelow.le, fun _ => ⟨habove, hbelow⟩⟩

theorem holds_of_point? {tie : Tie} {i : Interval} {point : ℕ} (h : i.point? tie = some point) :
    i.holds point = true := by
  unfold Interval.point? at h
  dsimp only at h
  split at h
  case h_1 hbelow _ => cases h; exact hbelow
  case h_2 _ habove => cases h; exact habove
  case h_3 => contradiction
  case h_4 hbelow habove =>
    split_ifs at h <;> cases h <;> assumption

theorem denominator_dvd_value (x : Magnitude) :
    (x.interval (min x.exponent 0)).denominator ∣ (x.interval (min x.exponent 0)).value := by
  have hten : powNum 10 (min x.exponent 0) = 1 := by
    have : (min x.exponent 0).toNat = 0 := by omega
    rw [powNum, this, Nat.pow_eq, pow_zero]
  have htwo : powDen 2 (x.exponent - 2) ∣ 4 * powDen 10 (min x.exponent 0) := by
    have hplaces : (-(x.exponent - 2)).toNat ≤ 2 + (-min x.exponent 0).toNat := by omega
    calc powDen 2 (x.exponent - 2)
      _ ∣ 2 ^ (2 + (-min x.exponent 0).toNat) := pow_dvd_pow 2 hplaces
      _ = 4 * 2 ^ (-min x.exponent 0).toNat := by rw [pow_add]; norm_num
      _ ∣ 4 * powDen 10 (min x.exponent 0) :=
        Nat.mul_dvd_mul_left 4 (pow_dvd_pow_of_dvd (by decide) _)
  calc (x.interval (min x.exponent 0)).denominator
    _ = powDen 2 (x.exponent - 2) := by rw [interval, hten, mul_one]
    _ ∣ 4 * powDen 10 (min x.exponent 0) := htwo
    _ ∣ 4 * powDen 10 (min x.exponent 0) * (x.mantissa * powNum 2 (x.exponent - 2)) :=
      dvd_mul_right _ _
    _ = (x.interval (min x.exponent 0)).value := by rw [interval]; ring

theorem holds_value (hm : 0 < x.mantissa) :
    (x.interval (min x.exponent 0)).holds
      ((x.interval (min x.exponent 0)).value / (x.interval (min x.exponent 0)).denominator) =
        true := by
  have hscale : 0 < powNum 2 (x.exponent - 2) * powDen 10 (min x.exponent 0) :=
    Nat.mul_pos (Nat.pow_pos (by decide)) (powDen_pos (by decide) _)
  have hlow : (x.interval (min x.exponent 0)).low < (x.interval (min x.exponent 0)).value :=
    Nat.mul_lt_mul_of_pos_right (by split <;> omega) hscale
  have hhigh : (x.interval (min x.exponent 0)).value < (x.interval (min x.exponent 0)).high :=
    Nat.mul_lt_mul_of_pos_right (by omega) hscale
  unfold Interval.holds
  rw [Nat.div_mul_cancel x.denominator_dvd_value]
  split
  · simp [hlow.le, hhigh.le]
  · simp [hlow, hhigh]

theorem covers_search {tie : Tie} (hm : 0 < x.mantissa) (steps : ℕ) (grid : ℤ)
    (hend : grid - steps = min x.exponent 0) : x.Covers (x.search tie steps grid).value := by
  induction steps generalizing grid with
  | zero =>
    have hgrid : grid = min x.exponent 0 := by simpa using hend
    subst hgrid
    exact covers_of_holds hm (holds_value hm)
  | succ steps ih =>
    rw [search]
    split
    · rename_i point hpoint
      exact covers_of_holds hm (holds_of_point? hpoint)
    · exact ih (grid - 1) (by omega)

/-- The shortest decimal of a magnitude rounds to it. -/
theorem covers_shortest (hm : 0 < x.mantissa) (tie : Tie) : x.Covers (x.shortest tie).value := by
  refine covers_search hm _ _ ?_
  omega

theorem covers_zero (hm : x.mantissa = 0) (hx : x.Canonical) : x.Covers 0 := by
  have hedge : x.lowEdge = false := by
    rw [Bool.eq_false_iff, ne_eq, hx.edge, hm]
    exact fun h => absurd h.1 (by decide)
  have hu : (0 : ℚ) < 2 ^ (x.exponent - 2) := by positivity
  refine ⟨?_, ?_, fun hodd => by omega⟩
  · simp only [low, hm, hedge]
    norm_num
    exact hu.le
  · simp only [high, hm]
    positivity

end interval

end Magnitude

end ToolDialogue.Decimal
