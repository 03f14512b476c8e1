import VectorMachine.Proofs.Rounding

/-!
# The shortest decimal lies in the rounding interval

The numbers that round to one number of a format form an interval, whose ends belong
to it if the mantissa is even.  The shortest decimal of a single-precision number
lies in that interval, and of the decimals with its exponent that do, none is nearer
to the number.
-/

namespace VectorMachine
namespace Number

open Float.Model (Format UnpackedFloat totalExponent)
open Float.Model.UnpackedFloat

namespace Decimal

def value (d : Decimal) : ℚ :=
  d.coefficient * 10 ^ d.exponent

namespace Interval

/-!
## Numbers in an interval
-/

def center (i : Interval) : ℚ :=
  i.value * 2 ^ i.unit

/-- The number lies in the interval, and on an end only if the ends belong to it. -/
structure Contains (i : Interval) (a : ℚ) : Prop where
  low : i.low * 2 ^ i.unit ≤ a
  high : a ≤ i.high * 2 ^ i.unit
  tie : a = i.low * 2 ^ i.unit ∨ a = i.high * 2 ^ i.unit -> i.closed = true

/-- The number of the interval is not one of its ends. -/
structure Proper (i : Interval) : Prop where
  low_lt : i.low < i.value
  lt_high : i.value < i.high

section Contains

variable {i : Interval} {a b : ℚ} {k : Int} {c : Nat}

theorem Proper.low_lt_center (h : i.Proper) : i.low * 2 ^ i.unit < i.center := by
  have hlt : (i.low : ℚ) < i.value := by exact_mod_cast h.low_lt
  exact mul_lt_mul_of_pos_right hlt (zpow_pos two_pos _)

theorem Proper.center_lt_high (h : i.Proper) : i.center < i.high * 2 ^ i.unit := by
  have hlt : (i.value : ℚ) < i.high := by exact_mod_cast h.lt_high
  exact mul_lt_mul_of_pos_right hlt (zpow_pos two_pos _)

theorem contains_of_lt (hlow : i.low * 2 ^ i.unit < a) (hhigh : a < i.high * 2 ^ i.unit) :
    i.Contains a := by
  refine ⟨hlow.le, hhigh.le, ?_⟩
  rintro (htie | htie)
  · exact absurd htie hlow.ne'
  · exact absurd htie hhigh.ne

theorem Contains.raised (hproper : i.Proper) (h : i.Contains a) (hab : a ≤ b)
    (hb : b ≤ i.center) : i.Contains b := by
  have hhigh := hproper.center_lt_high
  refine ⟨h.low.trans hab, hb.trans hhigh.le, fun htie => h.tie (Or.inl ?_)⟩
  rcases htie with htie | htie
  · exact le_antisymm (hab.trans htie.le) h.low
  · linarith

theorem Contains.lowered (hproper : i.Proper) (h : i.Contains a) (hba : b ≤ a)
    (hb : i.center ≤ b) : i.Contains b := by
  have hlow := hproper.low_lt_center
  refine ⟨hlow.le.trans hb, hba.trans h.high, fun htie => h.tie (Or.inr ?_)⟩
  rcases htie with htie | htie
  · linarith
  · exact le_antisymm h.high (htie.ge.trans hba)

/-- What the units of a number are multiplied by to compare them with decimals of
exponent `k`. -/
def scale (i : Interval) (k : Int) : ℚ :=
  2 ^ (-i.unit).toNat * 10 ^ (-k).toNat

theorem scale_pos (i : Interval) (k : Int) : 0 < i.scale k := by
  unfold scale
  positivity

theorem cast_scaled (i : Interval) (k : Int) (count : Nat) :
    ((i.scaled k count : Nat) : ℚ) = count * 2 ^ i.unit * i.scale k := by
  unfold scaled scale
  rw [Nat.pow_eq, Nat.pow_eq]
  push_cast
  rw [← zpow_mul_pow_neg_toNat two_ne_zero]
  ring

theorem cast_step (i : Interval) (k : Int) : ((i.step k : Nat) : ℚ) = 10 ^ k * i.scale k := by
  unfold step scale
  rw [Nat.pow_eq, Nat.pow_eq]
  push_cast
  rw [← zpow_mul_pow_neg_toNat (by norm_num : (10 : ℚ) ≠ 0)]
  ring

theorem scaled_le_iff {count : Nat} :
    i.scaled k count ≤ c * i.step k ↔ count * 2 ^ i.unit ≤ (c * 10 ^ k : ℚ) := by
  rw [← Rat.natCast_le_natCast, cast_scaled, Nat.cast_mul, cast_step, ← mul_assoc,
    mul_le_mul_iff_left₀ (i.scale_pos k)]

theorem le_scaled_iff {count : Nat} :
    c * i.step k ≤ i.scaled k count ↔ (c * 10 ^ k : ℚ) ≤ count * 2 ^ i.unit := by
  rw [← Rat.natCast_le_natCast, cast_scaled, Nat.cast_mul, cast_step, ← mul_assoc,
    mul_le_mul_iff_left₀ (i.scale_pos k)]

theorem holds_iff : i.holds k c = true ↔ i.Contains (c * 10 ^ k) := by
  unfold holds
  cases hclosed : i.closed with
  | true =>
      simp only [if_true, Bool.and_eq_true, decide_eq_true_eq, scaled_le_iff, le_scaled_iff]
      exact ⟨fun h => ⟨h.1, h.2, fun _ => hclosed⟩, fun h => ⟨h.low, h.high⟩⟩
  | false =>
      simp only [Bool.false_eq_true, if_false, Bool.and_eq_true, decide_eq_true_eq, ← not_le,
        scaled_le_iff, le_scaled_iff]
      rw [not_le, not_le]
      constructor
      · rintro ⟨hlow, hhigh⟩
        exact contains_of_lt hlow hhigh
      · intro h
        have hopen : ¬(i.closed = true) := by simp [hclosed]
        exact ⟨lt_of_le_of_ne h.low fun heq => hopen (h.tie (Or.inl heq.symm)),
          lt_of_le_of_ne h.high fun heq => hopen (h.tie (Or.inr heq))⟩

end Contains

/-!
## The nearest multiple of a power of ten
-/

section Best

variable {i : Interval} {k : Int} {c : Nat}

theorem below_le_center (i : Interval) (k : Int) :
    ((i.scaled k i.value / i.step k : Nat) : ℚ) * 10 ^ k ≤ i.center :=
  le_scaled_iff.mp (Nat.div_mul_le_self _ _)

theorem center_lt_above (i : Interval) (k : Int) :
    i.center < ((i.scaled k i.value / i.step k + 1 : Nat) : ℚ) * 10 ^ k := by
  have hstep : 0 < i.step k := by
    unfold step
    rw [Nat.pow_eq, Nat.pow_eq]
    positivity
  have hlt := Nat.lt_div_mul_add hstep (a := i.scaled k i.value)
  rw [← Nat.succ_mul] at hlt
  exact lt_of_not_ge fun hge => absurd (le_scaled_iff.mpr hge) (Nat.not_le.mpr hlt)

theorem gap_le_gap_iff {b : Nat} (hlow : (b : ℚ) * 10 ^ k ≤ i.center)
    (hhigh : i.center ≤ ((b + 1 : Nat) : ℚ) * 10 ^ k) :
    (i.scaled k i.value - b * i.step k ≤ (b + 1) * i.step k - i.scaled k i.value ↔
        i.center - b * 10 ^ k ≤ (b + 1 : Nat) * 10 ^ k - i.center) ∧
      ((b + 1) * i.step k - i.scaled k i.value ≤ i.scaled k i.value - b * i.step k ↔
        (b + 1 : Nat) * 10 ^ k - i.center ≤ i.center - b * 10 ^ k) := by
  have hbelow := le_scaled_iff.mpr hlow
  have habove := scaled_le_iff.mpr hhigh
  have hpos := i.scale_pos k
  rw [← Rat.natCast_le_natCast, ← Rat.natCast_le_natCast, Nat.cast_sub hbelow,
    Nat.cast_sub habove, cast_scaled, Nat.cast_mul, Nat.cast_mul, cast_step, ← mul_assoc,
    ← mul_assoc, ← sub_mul, ← sub_mul, mul_le_mul_iff_left₀ hpos, mul_le_mul_iff_left₀ hpos]
  exact ⟨Iff.rfl, Iff.rfl⟩

/-- The multiple that is taken lies in the interval, and no other multiple in the
interval is nearer to the number. -/
theorem nearest_of_best? (hproper : i.Proper) (h : i.best? k = some c) :
    i.Contains (c * 10 ^ k) ∧ forall d : Nat, i.Contains (d * 10 ^ k) ->
      |(c : ℚ) * 10 ^ k - i.center| ≤ |(d : ℚ) * 10 ^ k - i.center| := by
  have hbelow := i.below_le_center k
  have habove := i.center_lt_above k
  have hpos : (0 : ℚ) < 10 ^ k := zpow_pos (by norm_num) k
  have hmono : forall {p q : Nat}, p ≤ q -> (p : ℚ) * 10 ^ k ≤ q * 10 ^ k := by
    intro p q hpq
    gcongr
  rcases best?_cases h with ⟨hc, hholds, hother⟩ | ⟨b, hb, hc, hholds, hother⟩
  · rw [← hc] at hbelow habove
    refine ⟨holds_iff.mp hholds, fun d hd => ?_⟩
    rw [abs_of_nonpos (by linarith), neg_sub]
    rcases Nat.lt_or_ge c d with hlt | hge
    · have hnext := hmono (show c + 1 ≤ d from hlt)
      have hgap := (gap_le_gap_iff hbelow habove.le).1.mp
        (hother (holds_iff.mpr (hd.lowered hproper hnext habove.le)))
      rw [abs_of_nonneg (by linarith)]
      linarith
    · have hnext := hmono hge
      rw [abs_of_nonpos (by linarith), neg_sub]
      linarith
  · subst hc
    rw [← hb] at hbelow habove
    refine ⟨holds_iff.mp hholds, fun d hd => ?_⟩
    rw [abs_of_nonneg (by linarith)]
    rcases Nat.lt_or_ge b d with hlt | hge
    · have hnext := hmono (show b + 1 ≤ d from hlt)
      rw [abs_of_nonneg (by linarith)]
      linarith
    · have hnext := hmono hge
      have hgap := (gap_le_gap_iff hbelow habove.le).2.mp
        (hother (holds_iff.mpr (hd.raised hproper hnext hbelow)))
      rw [abs_of_nonpos (by linarith), neg_sub]
      linarith

theorem exists_best? (hproper : i.Proper) (hk : (10 : ℚ) ^ k ≤ 2 ^ i.unit) :
    exists c, i.best? k = some c := by
  have hbelow := i.below_le_center k
  have habove := i.center_lt_above k
  have hhigh := hproper.center_lt_high
  have hholds : i.holds k (i.scaled k i.value / i.step k) = true := by
    have hlow : (i.low : ℚ) * 2 ^ i.unit < (i.scaled k i.value / i.step k : Nat) * 10 ^ k := by
      have hunit : (i.low : ℚ) + 1 ≤ i.value := by exact_mod_cast hproper.low_lt
      have hscaled :=
        mul_le_mul_of_nonneg_right hunit (zpow_pos (two_pos : (0 : ℚ) < 2) i.unit).le
      push_cast at habove
      unfold center at habove
      linarith
    exact holds_iff.mpr (contains_of_lt hlow (lt_of_le_of_lt hbelow hhigh))
  unfold best?
  cases hnext : i.holds k (i.scaled k i.value / i.step k + 1) with
  | false =>
      simp only [hholds, hnext]
      exact ⟨_, rfl⟩
  | true =>
      simp only [hholds, hnext]
      split_ifs <;> exact ⟨_, rfl⟩

end Best

/-!
## The rounding interval of a number
-/

section Of

variable {S : Format} {n : Nat} {f : Int}

theorem two_zpow_sub_two (f : Int) : (2 : ℚ) ^ (f - 2) = 2 ^ f / 4 := by
  rw [zpow_sub₀ two_ne_zero]
  norm_num

theorem proper_of (S : Format) (hn : 0 < n) (f : Int) : (of S n f).Proper := by
  constructor
  · unfold of
    simp only
    split <;> omega
  · show 4 * n < 4 * n + 2
    omega

theorem center_of (S : Format) (n : Nat) (f : Int) : (of S n f).center = n * 2 ^ f := by
  show ((4 * n : Nat) : ℚ) * 2 ^ (f - 2) = n * 2 ^ f
  rw [two_zpow_sub_two]
  push_cast
  ring

theorem high_of (S : Format) (n : Nat) (f : Int) :
    ((of S n f).high : ℚ) * 2 ^ (of S n f).unit = (n + 1 / 2) * 2 ^ f := by
  show ((4 * n + 2 : Nat) : ℚ) * 2 ^ (f - 2) = _
  rw [two_zpow_sub_two]
  push_cast
  ring

theorem low_of (hn : 0 < n)
    (h : ¬(n = 2 ^ S.mantissaBitsWithoutImplicit ∧ S.minExponent < f)) :
    ((of S n f).low : ℚ) * 2 ^ (of S n f).unit = (n - 1 / 2) * 2 ^ f := by
  have hlow : (of S n f).low = 4 * n - 2 := if_neg h
  show ((of S n f).low : ℚ) * 2 ^ (f - 2) = _
  rw [hlow, two_zpow_sub_two, Nat.cast_sub (by omega)]
  push_cast
  ring

theorem low_of_two_pow (hn : 0 < n)
    (h : n = 2 ^ S.mantissaBitsWithoutImplicit ∧ S.minExponent < f) :
    ((of S n f).low : ℚ) * 2 ^ (of S n f).unit = (n - 1 / 4) * 2 ^ f := by
  have hlow : (of S n f).low = 4 * n - 1 := if_pos h
  show ((of S n f).low : ℚ) * 2 ^ (f - 2) = _
  rw [hlow, two_zpow_sub_two, Nat.cast_sub (by omega)]
  push_cast
  ring

theorem low_pos (S : Format) {n : Nat} (hn : 0 < n) (f : Int) :
    (0 : ℚ) < (of S n f).low * 2 ^ (of S n f).unit := by
  have hlow : 0 < (of S n f).low := by
    unfold of
    simp only
    split <;> omega
  have hlow : (0 : ℚ) < (of S n f).low := by exact_mod_cast hlow
  exact mul_pos hlow (zpow_pos two_pos _)

theorem closed_of : (of S n f).closed = true ↔ n % 2 = 0 :=
  decide_eq_true_iff

variable {a : ℚ} {t : Int} {k : Nat} (hn : 0 < n) (hrounds : RoundsAt S a t k)
  (h : (of S n f).Contains a)
include hn hrounds h

/-- Above the number below a power of two, the unit is the one of the number. -/
theorem eq_of_contains (hcanonical : Canonical S n f) (hlow : (n - 1 / 2) * 2 ^ f ≤ a)
    (hnormal : f = S.minExponent ∨ (2 : ℚ) ^ (f + S.mantissaBitsWithoutImplicit) ≤ a) :
    t = f ∧ k = n := by
  rcases canonical_iff.mp hcanonical with ⟨hlog, hmin, _⟩
  have hbits := mantissaBits_eq S
  have hpos := zpow_pos (two_pos : (0 : ℚ) < 2) f
  have hhigh : a ≤ (n + 1 / 2) * 2 ^ f := by
    rw [← high_of S]
    exact h.high
  have hmost : (n : ℚ) + 1 ≤ (2 ^ S.mantissaBits : Nat) := by
    have hlt : n < 2 ^ S.mantissaBits := (Nat.log2_lt (Nat.ne_of_gt hn)).mp (by omega)
    exact_mod_cast hlt
  have hupper : a < 2 ^ (f + S.mantissaBits) := by
    rw [two_zpow_add_natCast]
    have := mul_le_mul_of_nonneg_right hmost hpos.le
    linarith
  have hle : t ≤ f := by
    rcases hrounds.low with ht | ht
    · omega
    · have := (zpow_lt_zpow_iff_right₀ one_lt_two).mp (lt_of_le_of_lt ht hupper)
      omega
  have hge : f ≤ t := by
    rcases hnormal with hf | hf
    · have := hrounds.least
      omega
    · have := (zpow_lt_zpow_iff_right₀ one_lt_two).mp (lt_of_le_of_lt hf hrounds.high)
      omega
  obtain rfl : t = f := le_antisymm hle hge
  refine ⟨rfl, hrounds.nearest.unique ⟨?_, ?_, fun htie => closed_of.mp (h.tie ?_)⟩⟩
  · rwa [le_div_iff₀ hpos]
  · rwa [div_le_iff₀ hpos]
  · rw [high_of]
    rcases htie with htie | htie
    · rw [div_eq_iff hpos.ne'] at htie
      by_cases hpower : n = 2 ^ S.mantissaBitsWithoutImplicit ∧ S.minExponent < t
      · have hcontains := h.low
        rw [low_of_two_pow hn hpower] at hcontains
        exact absurd htie (by linarith)
      · rw [low_of hn hpower]
        exact Or.inl htie
    · rw [div_eq_iff hpos.ne'] at htie
      exact Or.inr htie

/-- Just below a power of two the unit is half as large, and the power has one digit
too many. -/
theorem eq_of_contains_below
    (hpower : n = 2 ^ S.mantissaBitsWithoutImplicit ∧ S.minExponent < f)
    (hbelow : a < (2 : ℚ) ^ (f + S.mantissaBitsWithoutImplicit)) :
    t = f - 1 ∧ k = 2 ^ S.mantissaBits := by
  have hbits := mantissaBits_eq S
  have hpos := zpow_pos (two_pos : (0 : ℚ) < 2) f
  have hunit := two_zpow_eq_mul_two f
  have hlow := h.low
  rw [low_of_two_pow hn hpower] at hlow
  have hone : (1 : ℚ) ≤ n := by exact_mod_cast hn
  have hvalue : (n : ℚ) * 2 ^ f = 2 ^ (f + S.mantissaBitsWithoutImplicit) := by
    rw [two_zpow_add_natCast, hpower.1]
  have hle : t ≤ f - 1 := by
    rcases hrounds.low with ht | ht
    · omega
    · have := (zpow_lt_zpow_iff_right₀ one_lt_two).mp (lt_of_le_of_lt ht hbelow)
      omega
  have hge : f - 1 ≤ t := by
    have hhalf : (2 : ℚ) ^ (f - 1 + S.mantissaBitsWithoutImplicit) ≤ a := by
      have hvalue' : (n : ℚ) * 2 ^ (f - 1) = n * 2 ^ f / 2 := by
        rw [hunit]
        ring
      have := mul_le_mul_of_nonneg_right hone hpos.le
      rw [two_zpow_add_natCast, ← hpower.1, hvalue']
      linarith
    have := (zpow_lt_zpow_iff_right₀ one_lt_two).mp (lt_of_le_of_lt hhalf hrounds.high)
    omega
  obtain rfl : t = f - 1 := le_antisymm hle hge
  have hfull : ((2 ^ S.mantissaBits : Nat) : ℚ) * 2 ^ (f - 1) = n * 2 ^ f := by
    rw [hvalue, ← two_zpow_add_natCast]
    congr 1
    omega
  have hpos := zpow_pos (two_pos : (0 : ℚ) < 2) (f - 1)
  refine ⟨rfl, hrounds.nearest.unique ⟨?_, ?_, fun _ => ?_⟩⟩
  · rw [le_div_iff₀ hpos]
    linarith
  · rw [div_le_iff₀ hpos]
    linarith
  · have hdouble : 2 ^ S.mantissaBits = 2 * 2 ^ S.mantissaBitsWithoutImplicit := by
      rw [← Nat.pow_succ']
      congr 1
      omega
    omega

end Of

/-- What lies in the rounding interval of a number of the format is rounded to that
number. -/
theorem round_of_contains {S : Format} {n m : Nat} {f e : Int} (s : Sign) (hn : 0 < n)
    (hcanonical : Canonical S n f) (hm : m ≠ 0) (h : (of S n f).Contains (m * 2 ^ e)) :
    round S s m e = .finite s n f hn := by
  rcases canonical_iff.mp hcanonical with ⟨hlog, hmin, hform⟩
  have hbits := mantissaBits_eq S
  have hlt : n < 2 ^ S.mantissaBits := (Nat.log2_lt (Nat.ne_of_gt hn)).mp (by omega)
  have hpos := zpow_pos (two_pos : (0 : ℚ) < 2) f
  rcases exists_roundsAt_round S s hm e with ⟨t, k, _, hrounds, hround⟩
  rw [hround]
  have hsame : t = f ∧ k = n -> written S s k t = .finite s n f hn := by
    rintro ⟨rfl, rfl⟩
    unfold written
    rw [dif_neg (Nat.ne_of_gt hn), if_neg (Nat.ne_of_lt hlt)]
  by_cases hpower : n = 2 ^ S.mantissaBitsWithoutImplicit ∧ S.minExponent < f
  · have hvalue : (2 : ℚ) ^ (f + S.mantissaBitsWithoutImplicit) = n * 2 ^ f := by
      rw [two_zpow_add_natCast, ← hpower.1]
    by_cases hbelow : (m : ℚ) * 2 ^ e < 2 ^ (f + S.mantissaBitsWithoutImplicit)
    · rcases eq_of_contains_below hn hrounds h hpower hbelow with ⟨rfl, rfl⟩
      unfold written
      rw [dif_neg (Nat.ne_of_gt (Nat.two_pow_pos _)), if_pos rfl]
      simp only [hpower.1, sub_add_cancel]
    · rw [not_lt] at hbelow
      exact hsame (eq_of_contains hn hrounds h hcanonical (by linarith) (Or.inr hbelow))
  · have hlow := h.low
    rw [low_of hn hpower] at hlow
    refine hsame (eq_of_contains hn hrounds h hcanonical hlow ?_)
    by_cases hf : f = S.minExponent
    · exact Or.inl hf
    · right
      have hleast : 2 ^ S.mantissaBitsWithoutImplicit ≤ n :=
        (Nat.le_log2 (Nat.ne_of_gt hn)).mp (by omega)
      have hnext : 2 ^ S.mantissaBitsWithoutImplicit + 1 ≤ n := by
        rcases Nat.lt_or_eq_of_le hleast with hgt | heq
        · exact hgt
        · exact absurd ⟨heq.symm, by omega⟩ hpower
      have hnext : ((2 ^ S.mantissaBitsWithoutImplicit : Nat) : ℚ) + 1 ≤ n := by
        exact_mod_cast hnext
      have := mul_le_mul_of_nonneg_right hnext hpos.le
      rw [two_zpow_add_natCast]
      linarith

/-!
## The search
-/

/-- The search ends with a multiple that was taken, if there is one within reach. -/
theorem best?_search {i : Interval} {tries : Nat} {j k : Int} {c : Nat}
    (hbest : i.best? j = some c) (hlow : k - tries < j) (hhigh : j ≤ k) :
    i.best? (i.search tries k).exponent = some (i.search tries k).coefficient := by
  induction tries generalizing k with
  | zero => omega
  | succ tries ih =>
      unfold search
      split
      next d hfound => exact hfound
      next hnone =>
        have hne : j ≠ k := by
          rintro rfl
          rw [hbest] at hnone
          cases hnone
        exact ih (by omega) (by omega)

end Interval

/-!
## The shortest decimal of a single-precision number
-/

theorem ten_zpow_le {k z : Int} (hlarge : 4 * k ≤ z) (hsmall : 3 * k ≤ z) :
    (10 : ℚ) ^ k ≤ 2 ^ z := by
  rcases Int.le_total 0 k with hk | hk
  · calc (10 : ℚ) ^ k ≤ 16 ^ k := zpow_le_zpow_left₀ hk (by norm_num) (by norm_num)
      _ = 2 ^ (4 * k) := by
          rw [zpow_mul]
          norm_num
      _ ≤ 2 ^ z := zpow_le_zpow_right₀ one_le_two hlarge
  · have hinv : forall x : ℚ, x ^ k = (x ^ (-k))⁻¹ := fun x => by rw [zpow_neg, inv_inv]
    calc (10 : ℚ) ^ k = (10 ^ (-k))⁻¹ := hinv 10
      _ ≤ (8 ^ (-k))⁻¹ :=
          inv_anti₀ (zpow_pos (by norm_num) _)
            (zpow_le_zpow_left₀ (by omega) (by norm_num) (by norm_num))
      _ = 8 ^ k := (hinv 8).symm
      _ = 2 ^ (3 * k) := by
          rw [zpow_mul]
          norm_num
      _ ≤ 2 ^ z := zpow_le_zpow_right₀ one_le_two hsmall

/-- The decimal lies in the interval, and no decimal of its exponent that lies there
is nearer to the number. -/
structure Fits (d : Decimal) (i : Interval) : Prop where
  contains : i.Contains d.value
  nearest : forall c : Nat, i.Contains (c * 10 ^ d.exponent) ->
    |d.value - i.center| ≤ |c * 10 ^ d.exponent - i.center|

theorem fits_shortest {m : Nat} {e : Int} (hm : 0 < m) (hlog : m.log2 ≤ 23) (hmin : -149 ≤ e)
    (hmax : e ≤ 104) : (shortest .binary32 m e).Fits (Interval.of .binary32 m e) := by
  have hproper := Interval.proper_of .binary32 hm e
  have htop : topExponent m e = ((m.log2 : Int) + 1 + e) * 1233 / 4096 + 2 := rfl
  have hsmall : (10 : ℚ) ^ (topExponent m e - 23) ≤ 2 ^ (Interval.of .binary32 m e).unit := by
    show (10 : ℚ) ^ (topExponent m e - 23) ≤ 2 ^ (e - 2)
    apply ten_zpow_le
    · omega
    · omega
  rcases Interval.exists_best? hproper hsmall with ⟨c, hbest⟩
  have hfound := Interval.best?_search hbest
    (show topExponent m e - (24 : Nat) < _ by omega) (by omega)
  rcases Interval.nearest_of_best? hproper hfound with ⟨hcontains, hnearest⟩
  exact ⟨hcontains, hnearest⟩

end Decimal
end Number
end VectorMachine
