import VectorMachine.Proofs.ShortestDecimals

/-!
# Decimals near the middle between two numbers

A decimal of few digits may lie very close to the middle between two neighbouring
single-precision numbers without being that middle.  The ratio of the two scales
says how close: it is compared with its own continued fraction, one exponent after
another.  Only one decimal comes close enough for double precision not to tell it
from the middle.
-/

namespace VectorMachine
namespace Number
namespace Decimal

/-!
## Multiples of one number near multiples of another
-/

/-- The multiple `c` of the first number is within a `2 ^ 29`th of the second number
of its multiple `m`. -/
def Near (a b c m : Nat) : Prop :=
  |(c * a - m * b : Int)| * 2 ^ 29 ≤ b

/-- The fraction `p / q` is so close to `a / b` that it settles the multiples up to
`2 ^ 25`. -/
def Settles (a b q p : Nat) : Prop :=
  2 ^ 54 * (q * a - p * b : Int).natAbs + a * q < 2 ^ 29 * a

instance (a b q p : Nat) : Decidable (Settles a b q p) :=
  inferInstanceAs (Decidable (2 ^ 54 * (q * a - p * b : Int).natAbs + a * q < 2 ^ 29 * a))

section Near

variable {a b c m q p : Nat}

theorem mul_eq_mul_of_near (hb : 0 < b) (hm : m < 2 ^ 25) (hnear : Near a b c m)
    (hsettles : Settles a b q p) : q * m = c * p := by
  unfold Near at hnear
  have hsettles : 2 ^ 54 * |(q * a - p * b : Int)| + a * q < 2 ^ 29 * a := by
    have hcast := Int.ofNat_lt.mpr hsettles
    push_cast at hcast
    exact hcast
  have hb : (0 : Int) < b := by exact_mod_cast hb
  have hm : (m : Int) + 1 ≤ 2 ^ 25 := by exact_mod_cast hm
  by_contra hne
  have hone : 1 ≤ |(q * m - c * p : Int)| :=
    Int.one_le_abs (sub_ne_zero.mpr (by exact_mod_cast hne))
  have hidentity : (b : Int) * (q * m - c * p) = c * (q * a - p * b) - q * (c * a - m * b) := by
    ring
  generalize hv : (c * a - m * b : Int) = v at hnear hidentity
  generalize (q * a - p * b : Int) = d at hsettles hidentity
  have hcount : (c * a : Int) ≤ 2 ^ 25 * b := by
    have hmost : v ≤ |v| := le_abs_self v
    have hproduct := mul_le_mul_of_nonneg_right hm hb.le
    linarith [abs_nonneg v]
  have hleast : (b : Int) ≤ c * |d| + q * |v| :=
    calc (b : Int) ≤ b * |(q * m - c * p : Int)| := le_mul_of_one_le_right hb.le hone
      _ = |c * d - q * v| := by rw [← hidentity, abs_mul, abs_of_pos hb]
      _ ≤ |c * d| + |q * v| := abs_sub _ _
      _ = c * |d| + q * |v| := by rw [abs_mul, abs_mul, Nat.abs_cast, Nat.abs_cast]
  have hcontra : (2 ^ 29 * a : Int) * b < 2 ^ 29 * a * b :=
    calc (2 ^ 29 * a : Int) * b ≤ 2 ^ 29 * a * (c * |d| + q * |v|) := by gcongr
      _ = 2 ^ 29 * (c * a * |d|) + a * q * (|v| * 2 ^ 29) := by ring
      _ ≤ 2 ^ 29 * (2 ^ 25 * b * |d|) + a * q * b := by gcongr
      _ = (2 ^ 54 * |d| + a * q) * b := by ring
      _ < 2 ^ 29 * a * b := mul_lt_mul_of_pos_right hsettles hb
  exact lt_irrefl _ hcontra

/-- An odd multiple is not near if the fraction has an even numerator only. -/
theorem not_near (hb : 0 < b) (hm : m < 2 ^ 25) (hodd : m % 2 = 1) (hsettles : Settles a b q p)
    (hq : q % 2 = 1) (hp : p % 2 = 0) : ¬Near a b c m := by
  intro hnear
  have hmul := mul_eq_mul_of_near hb hm hnear hsettles
  have hleft : q * m % 2 = 1 := by rw [Nat.mul_mod, hq, hodd]
  have hright : c * p % 2 = 0 := by rw [Nat.mul_mod, hp, Nat.mul_zero]
  omega

theorem eq_of_near_of_lt (hb : b < 2 ^ 29) (hnear : Near a b c m) : c * a = m * b := by
  unfold Near at hnear
  have hb : (b : Int) < 2 ^ 29 := by exact_mod_cast hb
  have hzero : |(c * a - m * b : Int)| = 0 := by
    have := abs_nonneg (c * a - m * b : Int)
    omega
  rw [abs_eq_zero, sub_eq_zero] at hzero
  exact_mod_cast hzero

end Near

/-!
## The scales of decimals and of single-precision numbers
-/

/-- The smallest decimal exponent whose power of ten reaches over `2 ^ e`, or nearly
so. -/
def gridExponent (e : Int) : Int :=
  -(-e * 1233 / 4096)

/-- The numerator of `10 ^ gridExponent e / 2 ^ (e - 1)` in lowest terms. -/
def gridTop (e : Int) : Nat :=
  5 ^ (gridExponent e).toNat * 2 ^ (gridExponent e - (e - 1)).toNat

def gridBottom (e : Int) : Nat :=
  5 ^ (-gridExponent e).toNat * 2 ^ (e - 1 - gridExponent e).toNat

theorem gridBottom_pos (e : Int) : 0 < gridBottom e := by
  unfold gridBottom
  positivity

theorem ten_zpow_gridExponent (e : Int) :
    (10 : ℚ) ^ gridExponent e * gridBottom e = gridTop e * 2 ^ (e - 1) := by
  unfold gridTop gridBottom
  generalize gridExponent e = k
  have hfive := zpow_mul_pow_neg_toNat (by norm_num : (5 : ℚ) ≠ 0) k
  have htwo := zpow_mul_pow_neg_toNat (two_ne_zero : (2 : ℚ) ≠ 0) (k - (e - 1))
  rw [neg_sub] at htwo
  have hsplit : (10 : ℚ) ^ k = 5 ^ k * 2 ^ (k - (e - 1)) * 2 ^ (e - 1) := by
    rw [mul_assoc, ← zpow_add₀ two_ne_zero, sub_add_cancel, ← mul_zpow]
    norm_num
  push_cast
  rw [hsplit, ← hfive, ← htwo]
  ring

/-- The convergents of a continued fraction and the sums of two consecutive ones.
The last two convergents are at hand, with the denominator first. -/
def convergents : Nat -> Nat -> Nat -> Nat × Nat -> Nat × Nat -> List (Nat × Nat)
  | 0, _, _, _, _ => []
  | fuel + 1, a, b, (q, p), (q', p') =>
      if b = 0 then []
      else
        let next := (a / b * q' + q, a / b * p' + p)
        next :: (q' + next.1, p' + next.2) :: convergents fuel b (a % b) (q', p') next

/-- The fractions that may settle the multiples on the grid of an exponent. -/
def candidates (e : Int) : List (Nat × Nat) :=
  convergents 40 (gridTop e) (gridBottom e) (1, 0) (0, 1)

theorem grid_settled : forall i : Nat, i < 254 -> (i : Int) - 149 ≠ -107 ->
    2 ^ 29 ≤ gridBottom (i - 149) ->
      ∃ c ∈ candidates (i - 149),
        Settles (gridTop (i - 149)) (gridBottom (i - 149)) c.1 c.2 ∧
          c.1 % 2 = 1 ∧ c.2 % 2 = 0 := by
  decide +kernel

theorem grid_lt : forall i : Nat, i < 254 ->
    gridTop (i - 149) * 2 ^ 28 + 20 * gridBottom (i - 149) <
      20 * gridBottom (i - 149) * 2 ^ 28 := by
  decide +kernel

section Grid

variable {e : Int}

theorem near_of_abs_sub_le {c m : Nat}
    (h : |(c : ℚ) * 10 ^ gridExponent e - m * 2 ^ (e - 1)| ≤ 2 ^ (e - 30)) :
    Near (gridTop e) (gridBottom e) c m := by
  have hbottom : (0 : ℚ) < gridBottom e := by exact_mod_cast gridBottom_pos e
  have hpos := zpow_pos (two_pos : (0 : ℚ) < 2) (e - 30)
  have hunit : (2 : ℚ) ^ (e - 1) = 2 ^ 29 * 2 ^ (e - 30) := by
    rw [← zpow_natCast, ← zpow_add₀ two_ne_zero]
    congr 1
    push_cast
    ring
  have hscaled : ((c : ℚ) * 10 ^ gridExponent e - m * 2 ^ (e - 1)) * gridBottom e =
      (c * gridTop e - m * gridBottom e) * 2 ^ 29 * 2 ^ (e - 30) := by
    rw [sub_mul, mul_assoc, ten_zpow_gridExponent, hunit]
    ring
  have hproduct := mul_le_mul_of_nonneg_right h hbottom.le
  rw [← abs_of_pos hbottom, ← abs_mul, hscaled, abs_mul, abs_of_pos hpos,
    mul_comm (2 ^ (e - 30)), mul_le_mul_iff_left₀ hpos, abs_mul, abs_of_pos hbottom,
    abs_of_pos (by positivity : (0 : ℚ) < 2 ^ 29)] at hproduct
  unfold Near
  exact_mod_cast hproduct

theorem settles_exception : Settles (gridTop (-107)) (gridBottom (-107)) 7038531 22841339 := by
  decide +kernel

theorem eq_of_dvd_of_odd {d m : Nat} (hdvd : d ∣ m) (hodd : m % 2 = 1) (hm : m < d * 2) :
    m = d := by
  rcases hdvd with ⟨j, rfl⟩
  have hj : j < 2 := Nat.lt_of_mul_lt_mul_left hm
  interval_cases j
  · simp at hodd
  · exact Nat.mul_one d

theorem eq_of_mul_eq_mul {c m : Nat} (hodd : m % 2 = 1) (hm : m < 2 ^ 25)
    (hmul : 7038531 * m = c * 22841339) : m = 22841339 := by
  have hcoprime : Nat.Coprime 22841339 7038531 := by norm_num
  have hdvd : 22841339 ∣ m := by
    apply hcoprime.dvd_of_dvd_mul_left
    rw [hmul]
    exact Nat.dvd_mul_left _ _
  exact eq_of_dvd_of_odd hdvd hodd (Nat.lt_trans hm (by norm_num))

variable (hmin : -149 ≤ e) (hmax : e ≤ 104)
include hmin hmax

/-- A decimal near the middle between two single-precision numbers is that middle,
with one exception. -/
theorem eq_or_of_near_middle {c m : Nat} (hodd : m % 2 = 1) (hm : m < 2 ^ 25)
    (h : |(c : ℚ) * 10 ^ gridExponent e - m * 2 ^ (e - 1)| ≤ 2 ^ (e - 30)) :
    (c : ℚ) * 10 ^ gridExponent e = m * 2 ^ (e - 1) ∨ e = -107 ∧ m = 22841339 := by
  have hnear := near_of_abs_sub_le h
  have hbottom := gridBottom_pos e
  by_cases hexception : e = -107
  · subst hexception
    right
    have hmul := mul_eq_mul_of_near hbottom hm hnear settles_exception
    exact ⟨rfl, eq_of_mul_eq_mul hodd hm hmul⟩
  · left
    obtain ⟨i, hi⟩ : exists i : Nat, e = i - 149 := ⟨(e + 149).toNat, by omega⟩
    subst hi
    by_cases hlarge : 2 ^ 29 ≤ gridBottom (i - 149)
    · obtain ⟨⟨q, p⟩, _, hsettles, hq, hp⟩ := grid_settled i (by omega) hexception hlarge
      exact absurd hnear (not_near hbottom hm hodd hsettles hq hp)
    · have heq := eq_of_near_of_lt (Nat.lt_of_not_le hlarge) hnear
      have hpos : (gridBottom (i - 149) : ℚ) ≠ 0 := by exact_mod_cast Nat.ne_of_gt hbottom
      apply mul_right_cancel₀ hpos
      have heq : (c : ℚ) * gridTop (i - 149) = m * gridBottom (i - 149) := by exact_mod_cast heq
      rw [mul_assoc, ten_zpow_gridExponent, ← mul_assoc, heq]
      ring

/-- Below the grid a power of ten is less than the distance of two numbers. -/
theorem ten_zpow_lt {k : Int} (hk : k < gridExponent e) :
    (10 : ℚ) ^ k < (1 - 1 / 2 ^ 28) * 2 ^ e := by
  obtain ⟨i, hi⟩ : exists i : Nat, e = i - 149 := ⟨(e + 149).toNat, by omega⟩
  have hlt := grid_lt i (by omega)
  rw [← hi] at hlt
  have hbottom : (0 : ℚ) < gridBottom e := by exact_mod_cast gridBottom_pos e
  have hlt : (gridTop e : ℚ) * 2 ^ 28 + 20 * gridBottom e < 20 * gridBottom e * 2 ^ 28 := by
    exact_mod_cast hlt
  have hpos := zpow_pos (two_pos : (0 : ℚ) < 2) (e - 1)
  have hunit := two_zpow_eq_mul_two e
  have hten : (10 : ℚ) ^ k * 10 ≤ 10 ^ gridExponent e := by
    rw [← zpow_add_one₀ (by norm_num)]
    exact zpow_le_zpow_right₀ (by norm_num) hk
  have hgrid : (10 : ℚ) ^ gridExponent e < 20 * (1 - 1 / 2 ^ 28) * 2 ^ (e - 1) := by
    rw [← mul_lt_mul_iff_left₀ hbottom, ten_zpow_gridExponent, mul_right_comm,
      mul_lt_mul_iff_left₀ hpos]
    linarith
  rw [hunit]
  linarith

end Grid

end Decimal
end Number
end VectorMachine
