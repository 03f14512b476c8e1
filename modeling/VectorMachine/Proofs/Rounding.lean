import VectorMachine.Proofs.ConstantTexts

/-!
# Rounding to the nearest number

Rounding and division are stated here in terms of rational numbers.  The number of
a format nearest to a positive rational is an integral count of units, and the unit
is the last digit that the format has at that size.  Rounding is therefore monotone
against the numbers of the format and never moves by more than half a unit.
-/

namespace VectorMachine
namespace Number

open Float.Model (Format UnpackedFloat totalExponent)
open Float.Model.UnpackedFloat

/-!
## Nearest integers
-/

/-- The integer nearest to a number, and of two equally near ones the even one. -/
structure Nearest (a : ℚ) (n : Nat) : Prop where
  low : (n : ℚ) - 1 / 2 ≤ a
  high : a ≤ n + 1 / 2
  tie : a = n - 1 / 2 ∨ a = n + 1 / 2 -> n % 2 = 0

namespace Nearest

variable {a : ℚ} {n : Nat}

theorem le (h : Nearest a n) {k : Nat} (hk : a ≤ k) : n ≤ k := by
  have hlt : (n : ℚ) < k + 1 := by linarith [h.low]
  exact Nat.lt_succ_iff.mp (by exact_mod_cast hlt)

theorem ge (h : Nearest a n) {k : Nat} (hk : (k : ℚ) ≤ a) : k ≤ n := by
  have hlt : (k : ℚ) < n + 1 := by linarith [h.high]
  exact Nat.lt_succ_iff.mp (by exact_mod_cast hlt)

theorem unique (h : Nearest a n) {k : Nat} (hk : Nearest a k) : n = k := by
  have hle : (n : ℚ) ≤ k + 1 := by linarith [h.low, hk.high]
  have hge : (k : ℚ) ≤ n + 1 := by linarith [hk.low, h.high]
  have hle : n ≤ k + 1 := by exact_mod_cast hle
  have hge : k ≤ n + 1 := by exact_mod_cast hge
  -- neighbours can only be equally near, and then one of them is odd
  by_contra hne
  obtain rfl | rfl : n = k + 1 ∨ k = n + 1 := by omega
  · have htie : a = k + 1 / 2 := by
      have hlow := h.low
      push_cast at hlow
      linarith [hk.high]
    have hodd := h.tie (Or.inl (by push_cast; linarith))
    have heven := hk.tie (Or.inr htie)
    omega
  · have htie : a = n + 1 / 2 := by
      have hlow := hk.low
      push_cast at hlow
      linarith [h.high]
    have hodd := hk.tie (Or.inl (by push_cast; linarith))
    have heven := h.tie (Or.inr htie)
    omega

end Nearest

def Describes : ExtendedMantissa -> ℚ -> Prop
  | ⟨m, false, false⟩, a => a = m
  | ⟨m, false, true⟩, a => m < a ∧ a < m + 1 / 2
  | ⟨m, true, false⟩, a => a = m + 1 / 2
  | ⟨m, true, true⟩, a => m + 1 / 2 < a ∧ a < m + 1

theorem describes_shiftRightOne {em : ExtendedMantissa} {a : ℚ} (h : Describes em a) :
    Describes em.shiftRightOne (a / 2) := by
  rcases em with ⟨m, round, sticky⟩
  obtain ⟨q, rfl | rfl⟩ := Nat.even_or_odd' m
  · have hshift : ExtendedMantissa.shiftRightOne ⟨2 * q, round, sticky⟩ =
        ⟨q, false, round || sticky⟩ := by
      simp [ExtendedMantissa.shiftRightOne]
    rw [hshift]
    cases round <;> cases sticky <;>
      simp only [Describes, Bool.or_false, Bool.or_true] at h ⊢ <;> push_cast at h
    · linarith
    all_goals constructor <;> linarith
  · have hshift : ExtendedMantissa.shiftRightOne ⟨2 * q + 1, round, sticky⟩ =
        ⟨q, true, round || sticky⟩ := by
      have hhalf : (2 * q + 1) / 2 = q := by omega
      simp [ExtendedMantissa.shiftRightOne, hhalf]
    rw [hshift]
    cases round <;> cases sticky <;>
      simp only [Describes, Bool.or_false, Bool.or_true] at h ⊢ <;> push_cast at h
    · linarith
    all_goals constructor <;> linarith

theorem describes_shiftRight {em : ExtendedMantissa} {a : ℚ} (h : Describes em a) (k : Nat) :
    Describes (em >>> k) (a / 2 ^ k) := by
  show Describes (k.repeat ExtendedMantissa.shiftRightOne em) (a / 2 ^ k)
  induction k with
  | zero =>
      rw [pow_zero, div_one]
      exact h
  | succ k ih =>
      have hhalf := describes_shiftRightOne ih
      rwa [div_div, ← pow_succ] at hhalf

theorem nearest_of_describes {em : ExtendedMantissa} {a : ℚ} (h : Describes em a) :
    Nearest a em.roundedMantissa := by
  rcases em with ⟨m, round, sticky⟩
  cases round <;> cases sticky <;> simp only [Describes] at h
  · show Nearest a m
    refine ⟨by linarith, by linarith, ?_⟩
    rintro (htie | htie) <;> linarith
  · show Nearest a m
    refine ⟨by linarith, by linarith, ?_⟩
    rintro (htie | htie) <;> linarith
  · show Nearest a (m + m % 2)
    rcases Nat.mod_two_eq_zero_or_one m with heven | hodd
    · rw [heven]
      refine ⟨by push_cast; linarith, by push_cast; linarith, fun _ => by omega⟩
    · rw [hodd]
      refine ⟨by push_cast; linarith, by push_cast; linarith, fun _ => by omega⟩
  · show Nearest a (m + 1)
    refine ⟨by push_cast; linarith, by push_cast; linarith, ?_⟩
    push_cast
    rintro (htie | htie) <;> linarith

/-!
## Rounding to a format
-/

section Round

variable {S : Format} {s : Sign}

/-- The number `n · 2 ^ t` as the format writes it, where `n` may have come out one
bit too long. -/
def written (S : Format) (s : Sign) (n : Nat) (t : Int) : UnpackedFloat :=
  if hzero : n = 0 then .zero s
  else if n = 2 ^ S.mantissaBits then
    .finite s (2 ^ S.mantissaBitsWithoutImplicit) (t + 1) (Nat.two_pow_pos _)
  else .finite s n t (Nat.pos_of_ne_zero hzero)

/-- The last digit that the format has for `a` counts units of `2 ^ t`, and `n` of
them are nearest to `a`. -/
structure RoundsAt (S : Format) (a : ℚ) (t : Int) (n : Nat) : Prop where
  least : S.minExponent ≤ t
  low : t = S.minExponent ∨ (2 : ℚ) ^ (t + S.mantissaBitsWithoutImplicit) ≤ a
  high : a < (2 : ℚ) ^ (t + S.mantissaBits)
  nearest : Nearest (a / 2 ^ t) n

theorem mantissaBits_eq (S : Format) :
    (S.mantissaBits : Int) = S.mantissaBitsWithoutImplicit + 1 := by
  unfold Format.mantissaBits
  omega

theorem two_zpow_add_natCast (t : Int) (k : Nat) :
    (2 : ℚ) ^ (t + k) = ((2 ^ k : Nat) : ℚ) * 2 ^ t := by
  rw [zpow_add₀ two_ne_zero, zpow_natCast, mul_comm]
  push_cast
  rfl

theorem two_zpow_eq_mul_two (t : Int) : (2 : ℚ) ^ t = 2 ^ (t - 1) * 2 := by
  rw [← zpow_add_one₀ two_ne_zero, sub_add_cancel]

theorem zpow_mul_pow_neg_toNat {x : ℚ} (hx : x ≠ 0) (z : Int) :
    x ^ z * x ^ (-z).toNat = x ^ z.toNat := by
  rw [← zpow_natCast, ← zpow_natCast, ← zpow_add₀ hx]
  congr 1
  omega

theorem RoundsAt.le_two_pow {a : ℚ} {t : Int} {n : Nat} (h : RoundsAt S a t n) :
    n ≤ 2 ^ S.mantissaBits := by
  apply h.nearest.le
  rw [div_le_iff₀ (zpow_pos two_pos t), ← two_zpow_add_natCast]
  exact h.high.le

theorem roundWithAccuracy_eq_written {m n : Nat} {e t : Int} {em : ExtendedMantissa}
    (hshift : shiftToTargetExponent S m e .exact = (em, t)) (hn : em.roundedMantissa = n)
    (hle : n ≤ 2 ^ S.mantissaBits) (hmin : S.minExponent ≤ t) :
    roundWithAccuracy S s m e .exact = written S s n t := by
  unfold roundWithAccuracy written
  simp only [hshift, hn]
  rcases Nat.lt_or_eq_of_le hle with hlt | rfl
  · simp only [shiftToTargetExponent_of_lt hlt hmin, if_neg (Nat.ne_of_lt hlt)]
  · have hpow := Nat.two_pow_pos S.mantissaBits
    have hpow' := Nat.two_pow_pos S.mantissaBitsWithoutImplicit
    simp only [shiftToTargetExponent_two_pow hmin, if_true]
    rw [dif_neg (by omega), dif_neg (by omega)]

theorem exists_roundsAt_round (S : Format) (s : Sign) {m : Nat} (hm : m ≠ 0) (e : Int) :
    exists t n, S.targetExponent (totalExponent m e) = t ∧ RoundsAt S (m * 2 ^ e) t n ∧
      round S s m e = written S s n t := by
  obtain ⟨t, ht⟩ : exists t, S.targetExponent (totalExponent m e) = t := ⟨_, rfl⟩
  have htarget : t = max (m.log2 + 1 + e - S.mantissaBits) S.minExponent := ht.symm
  have hbits := mantissaBits_eq S
  rcases exists_shift_round s hm ht with ⟨k, j, hreached, hround, hfirst⟩
  have hscaled : ((m <<< k : Nat) : ℚ) / 2 ^ j = m * 2 ^ e / 2 ^ t := by
    have he : e = t + k - j := by omega
    rw [he, zpow_sub₀ two_ne_zero, zpow_add₀ two_ne_zero, zpow_natCast, zpow_natCast,
      Nat.shiftLeft_eq]
    push_cast
    field_simp
  have hdescribes : Describes ⟨m <<< k, false, false⟩ ((m <<< k : Nat) : ℚ) := rfl
  have hnearest := nearest_of_describes (describes_shiftRight hdescribes j)
  rw [hscaled] at hnearest
  have hlow : (2 : ℚ) ^ (m.log2 + e) ≤ m * 2 ^ e := by
    rw [add_comm, two_zpow_add_natCast]
    gcongr
    exact Nat.log2_self_le hm
  have hhigh : (m : ℚ) * 2 ^ e < 2 ^ ((m.log2 + 1 : Nat) + e) := by
    rw [add_comm, two_zpow_add_natCast]
    gcongr
    exact Nat.lt_log2_self
  have hrounds : RoundsAt S (m * 2 ^ e) t
      ((⟨m <<< k, false, false⟩ : ExtendedMantissa) >>> j).roundedMantissa := by
    refine ⟨by omega, ?_, ?_, hnearest⟩
    · by_cases hmin : t = S.minExponent
      · exact Or.inl hmin
      · right
        refine le_trans (zpow_le_zpow_right₀ one_le_two ?_) hlow
        omega
    · refine lt_of_lt_of_le hhigh (zpow_le_zpow_right₀ one_le_two ?_)
      push_cast
      omega
  refine ⟨t, _, ht, hrounds, ?_⟩
  rw [hround]
  exact roundWithAccuracy_eq_written hfirst rfl hrounds.le_two_pow hrounds.least

end Round

/-!
## Rounding a quotient
-/

def Agree (unit a b : ℚ) : Prop :=
  forall z : Int, (a ≤ z * unit ↔ b ≤ z * unit) ∧ (z * unit ≤ a ↔ z * unit ≤ b)

namespace Agree

variable {unit a b : ℚ}

theorem scaled (h : Agree unit a b) {c : ℚ} (hc : 0 < c) :
    Agree (unit * c) (a * c) (b * c) := by
  intro z
  rw [← mul_assoc, mul_le_mul_iff_left₀ hc, mul_le_mul_iff_left₀ hc, mul_le_mul_iff_left₀ hc,
    mul_le_mul_iff_left₀ hc]
  exact h z

theorem coarser (h : Agree unit a b) (k : Nat) : Agree (k * unit) a b := by
  intro z
  have hz := h (z * k)
  push_cast at hz
  rwa [mul_assoc] at hz

section Between

variable {c : ℚ} {q : Nat} (hlow : q < c) (hhigh : c < q + 1)
include hlow hhigh

theorem le_intCast_iff (z : Int) : c ≤ z ↔ (q : Int) < z := by
  constructor
  · intro h
    exact_mod_cast lt_of_lt_of_le hlow h
  · intro h
    have hnext : ((q + 1 : Int) : ℚ) ≤ z := by exact_mod_cast h
    push_cast at hnext
    linarith

theorem intCast_le_iff (z : Int) : z ≤ c ↔ z ≤ (q : Int) := by
  rw [← not_lt, ← not_lt, not_iff_not]
  constructor
  · intro h
    exact_mod_cast lt_trans hlow h
  · intro h
    have hnext : ((q + 1 : Int) : ℚ) ≤ z := by exact_mod_cast h
    push_cast at hnext
    linarith

end Between

/-- A number agrees on the integers with its integral part, to which a half is added
if anything was cut off. -/
theorem quotient (top : Nat) {bottom : Nat} (hbottom : 0 < bottom) :
    Agree 1 (((2 * (top / bottom) + if top % bottom = 0 then 0 else 1 : Nat) : ℚ) / 2)
      (top / bottom) := by
  intro z
  have hpos : (0 : ℚ) < bottom := by exact_mod_cast hbottom
  have hsplit := Nat.div_add_mod top bottom
  generalize top / bottom = q at hsplit ⊢
  by_cases hrest : top % bottom = 0
  · have htop : (top : ℚ) / bottom = q := by
      rw [div_eq_iff hpos.ne', ← hsplit, hrest]
      push_cast
      ring
    rw [if_pos hrest, htop]
    push_cast
    have hhalf : (2 * (q : ℚ) + 0) / 2 = q := by ring
    rw [hhalf]
    exact ⟨Iff.rfl, Iff.rfl⟩
  · -- both numbers lie strictly between the same two integers
    have hmost : top % bottom < bottom := Nat.mod_lt _ hbottom
    have hlow : (q : ℚ) < top / bottom := by
      rw [lt_div_iff₀ hpos]
      exact_mod_cast (by rw [Nat.mul_comm]; omega : q * bottom < top)
    have hhigh : (top : ℚ) / bottom < q + 1 := by
      rw [div_lt_iff₀ hpos]
      exact_mod_cast (by rw [Nat.add_mul, Nat.mul_comm q]; omega : top < (q + 1) * bottom)
    rw [if_neg hrest, mul_one]
    push_cast
    have hhalf : (q : ℚ) < (2 * q + 1) / 2 ∧ (2 * (q : ℚ) + 1) / 2 < q + 1 := by
      constructor <;> linarith
    exact ⟨(le_intCast_iff hhalf.1 hhalf.2 z).trans (le_intCast_iff hlow hhigh z).symm,
      (intCast_le_iff hhalf.1 hhalf.2 z).trans (intCast_le_iff hlow hhigh z).symm⟩

theorem nearest (h : Agree (1 / 2) a b) {n : Nat} (hn : Nearest a n) : Nearest b n := by
  have hbelow := h (2 * n - 1)
  have habove := h (2 * n + 1)
  have hlow : (((2 * n - 1 : Int) : ℚ) * (1 / 2)) = n - 1 / 2 := by
    push_cast
    ring
  have hhigh : (((2 * n + 1 : Int) : ℚ) * (1 / 2)) = n + 1 / 2 := by
    push_cast
    ring
  rw [hlow] at hbelow
  rw [hhigh] at habove
  refine ⟨hbelow.2.mp hn.low, habove.1.mp hn.high, fun htie => hn.tie ?_⟩
  rcases htie with htie | htie
  · exact Or.inl (le_antisymm (hbelow.1.mpr htie.le) (hbelow.2.mpr htie.ge))
  · exact Or.inr (le_antisymm (habove.1.mpr htie.le) (habove.2.mpr htie.ge))

end Agree

section Ratio

variable {S : Format}

theorem RoundsAt.of_agree {a b : ℚ} {t : Int} {n : Nat} (h : RoundsAt S a t n)
    (hagree : Agree (2 ^ (t - 1)) a b) : RoundsAt S b t n := by
  have hunit := two_zpow_eq_mul_two t
  have hmultiple : forall k : Nat, (2 : ℚ) ^ (t + k) =
      ((2 ^ (k + 1) : Int) : ℚ) * 2 ^ (t - 1) := by
    intro k
    rw [two_zpow_add_natCast, hunit]
    push_cast
    ring
  refine ⟨h.least, ?_, ?_, ?_⟩
  · have hlow := h.low
    rw [hmultiple] at hlow ⊢
    exact hlow.imp id (hagree _).2.mp
  · have hhigh := h.high
    rw [hmultiple] at hhigh ⊢
    exact lt_of_not_ge fun hge => absurd ((hagree _).2.mpr hge) (not_le.mpr hhigh)
  · have hscaled := hagree.scaled (inv_pos.mpr (zpow_pos two_pos t) : (0 : ℚ) < (2 ^ t)⁻¹)
    have hhalf : (2 : ℚ) ^ (t - 1) * (2 ^ t)⁻¹ = 1 / 2 := by
      rw [hunit]
      have := (zpow_pos (two_pos : (0 : ℚ) < 2) (t - 1)).ne'
      field_simp
    rw [hhalf] at hscaled
    exact hscaled.nearest h.nearest

theorem exists_roundsAt_ofRatio (S : Format) (s : Sign) {num den : Nat} (hnum : num ≠ 0)
    (hden : 0 < den) :
    exists t n, RoundsAt S (num / den) t n ∧ ofRatio S s num den = written S s n t := by
  have hbits := mantissaBits_eq S
  unfold ofRatio
  rw [if_neg hnum]
  simp only
  generalize hshift : ((S.mantissaBits : Int) + 2 + den.log2 - num.log2) = shift
  have htop : ((num <<< shift.toNat : Nat) : ℚ) / (den <<< (-shift).toNat : Nat) =
      num / den * 2 ^ shift := by
    have hsplit : shift = (shift.toNat : Int) - ((-shift).toNat : Int) := by omega
    nth_rewrite 3 [hsplit]
    rw [zpow_sub₀ two_ne_zero, zpow_natCast, zpow_natCast, Nat.shiftLeft_eq, Nat.shiftLeft_eq]
    push_cast
    field_simp
  have hbottom : 0 < den <<< (-shift).toNat := by
    rw [Nat.shiftLeft_eq]
    exact Nat.mul_pos hden (Nat.two_pow_pos _)
  have hagree := Agree.quotient (num <<< shift.toNat) hbottom
  have hlarge : 2 ^ (S.mantissaBits + 1) ≤ num <<< shift.toNat / den <<< (-shift).toNat := by
    rw [Nat.le_div_iff_mul_le hbottom, Nat.shiftLeft_eq, Nat.shiftLeft_eq]
    calc 2 ^ (S.mantissaBits + 1) * (den * 2 ^ (-shift).toNat)
        ≤ 2 ^ (S.mantissaBits + 1) * (2 ^ (den.log2 + 1) * 2 ^ (-shift).toNat) := by
          gcongr
          exact Nat.lt_log2_self.le
      _ = 2 ^ num.log2 * 2 ^ shift.toNat := by
          rw [← Nat.pow_add, ← Nat.pow_add, ← Nat.pow_add]
          congr 1
          omega
      _ ≤ num * 2 ^ shift.toNat := by
          gcongr
          exact Nat.log2_self_le hnum
  rw [htop] at hagree
  generalize hm : (2 * (num <<< shift.toNat / den <<< (-shift).toNat) +
    if num <<< shift.toNat % den <<< (-shift).toNat = 0 then 0 else 1) = m at hagree ⊢
  have hm : 2 ^ (S.mantissaBits + 2) ≤ m := by
    rw [Nat.pow_succ]
    omega
  have hne : m ≠ 0 := by
    have := Nat.two_pow_pos (S.mantissaBits + 2)
    omega
  have hlog := (Nat.le_log2 hne).mpr hm
  rcases exists_roundsAt_round S s hne (-shift - 1) with ⟨t, n, ht, hrounds, hround⟩
  have htarget : t = max (m.log2 + 1 + (-shift - 1) - S.mantissaBits) S.minExponent := ht.symm
  refine ⟨t, n, hrounds.of_agree ?_, hround⟩
  -- half of a unit of the result is a multiple of the unit in which the quotient was taken
  have hunit := hagree.scaled (zpow_pos two_pos (-shift) : (0 : ℚ) < 2 ^ (-shift))
  obtain ⟨k, hk⟩ : exists k : Nat, t - 1 = -shift + k := ⟨(t - 1 + shift).toNat, by omega⟩
  have hcoarse := hunit.coarser (2 ^ k)
  rw [one_mul, ← two_zpow_add_natCast, ← hk, mul_assoc, ← zpow_add₀ two_ne_zero, add_neg_cancel,
    zpow_zero, mul_one] at hcoarse
  have hsame : (m : ℚ) / 2 * 2 ^ (-shift) = m * 2 ^ (-shift - 1) := by
    rw [zpow_sub_one₀ two_ne_zero]
    ring
  rwa [hsame] at hcoarse

end Ratio

/-!
## Values
-/

/-- The value of a number without its sign; an infinity has none. -/
def magnitude : UnpackedFloat -> ℚ
  | .finite _ m e _ => m * 2 ^ e
  | _ => 0

section Value

variable {S : Format} {s : Sign} {a : ℚ} {t : Int} {n : Nat}

theorem magnitude_written (S : Format) (s : Sign) (n : Nat) (t : Int) :
    magnitude (written S s n t) = n * 2 ^ t := by
  unfold written
  split
  next hzero =>
    subst hzero
    simp [magnitude]
  · split
    next hfull =>
      show ((2 ^ S.mantissaBitsWithoutImplicit : Nat) : ℚ) * 2 ^ (t + 1) = n * 2 ^ t
      have hbits : S.mantissaBits = S.mantissaBitsWithoutImplicit + 1 := Nat.add_comm _ _
      rw [hfull, hbits, zpow_add_one₀ two_ne_zero]
      push_cast
      ring
    · rfl

theorem exists_written_eq (h : 0 < n) :
    exists m e hm, written S s n t = .finite s m e hm ∧ n * 2 ^ t = (m * 2 ^ e : ℚ) := by
  have hvalue := magnitude_written S s n t
  unfold written at *
  rw [dif_neg (Nat.ne_of_gt h)] at *
  split at hvalue
  next hfull =>
    rw [if_pos hfull]
    exact ⟨_, _, _, rfl, hvalue.symm⟩
  next hfull =>
    rw [if_neg hfull]
    exact ⟨_, _, _, rfl, hvalue.symm⟩

namespace RoundsAt

variable (h : RoundsAt S a t n) {k : Nat} {f : Int} (hk : k < 2 ^ S.mantissaBits)
  (hf : S.minExponent ≤ f)
include h

theorem abs_sub_le : |n * 2 ^ t - a| ≤ 2 ^ (t - 1) := by
  have hunit := two_zpow_eq_mul_two t
  have hpos := zpow_pos (two_pos : (0 : ℚ) < 2) t
  have hlow := (le_div_iff₀ hpos).mp h.nearest.low
  have hhigh := (div_le_iff₀ hpos).mp h.nearest.high
  rw [abs_le]
  constructor <;> linarith

include hk hf

theorem le_of_le (ha : a ≤ k * 2 ^ f) : n * 2 ^ t ≤ (k * 2 ^ f : ℚ) := by
  have hpos := zpow_pos (two_pos : (0 : ℚ) < 2) t
  by_cases htf : t ≤ f
  · obtain ⟨j, rfl⟩ : exists j : Nat, f = t + j := ⟨(f - t).toNat, by omega⟩
    rw [two_zpow_add_natCast, ← mul_assoc] at ha ⊢
    have hle : n ≤ k * 2 ^ j := by
      apply h.nearest.le
      rw [div_le_iff₀ hpos]
      exact_mod_cast ha
    have hle : (n : ℚ) ≤ k * (2 ^ j : Nat) := by exact_mod_cast hle
    exact mul_le_mul_of_nonneg_right hle hpos.le
  · -- a number whose last digit is finer than the unit is too small
    exfalso
    have hlow := h.low.resolve_left (by omega)
    have hsmall : (k : ℚ) * 2 ^ f < 2 ^ (f + S.mantissaBits) := by
      rw [two_zpow_add_natCast]
      gcongr
    have hlt := (zpow_lt_zpow_iff_right₀ one_lt_two).mp (lt_of_le_of_lt (hlow.trans ha) hsmall)
    have hbits := mantissaBits_eq S
    omega

theorem ge_of_ge (ha : k * 2 ^ f ≤ a) : k * 2 ^ f ≤ (n * 2 ^ t : ℚ) := by
  have hpos := zpow_pos (two_pos : (0 : ℚ) < 2) t
  by_cases htf : t ≤ f
  · obtain ⟨j, rfl⟩ : exists j : Nat, f = t + j := ⟨(f - t).toNat, by omega⟩
    rw [two_zpow_add_natCast, ← mul_assoc] at ha ⊢
    have hle : k * 2 ^ j ≤ n := by
      apply h.nearest.ge
      rw [le_div_iff₀ hpos]
      exact_mod_cast ha
    have hle : (k : ℚ) * (2 ^ j : Nat) ≤ n := by exact_mod_cast hle
    exact mul_le_mul_of_nonneg_right hle hpos.le
  · have hlow := h.low.resolve_left (by omega)
    rw [two_zpow_add_natCast, ← le_div_iff₀ hpos] at hlow
    have hle : ((2 ^ S.mantissaBitsWithoutImplicit : Nat) : ℚ) ≤ n := by
      exact_mod_cast h.nearest.ge hlow
    have hbits := mantissaBits_eq S
    calc (k : ℚ) * 2 ^ f ≤ ((2 ^ S.mantissaBits : Nat) : ℚ) * 2 ^ f := by
          gcongr
      _ = 2 ^ (f + S.mantissaBits) := (two_zpow_add_natCast _ _).symm
      _ ≤ 2 ^ (t + S.mantissaBitsWithoutImplicit) :=
          zpow_le_zpow_right₀ one_le_two (by omega)
      _ = ((2 ^ S.mantissaBitsWithoutImplicit : Nat) : ℚ) * 2 ^ t := two_zpow_add_natCast _ _
      _ ≤ n * 2 ^ t := by gcongr

end RoundsAt

end Value

end Number
end VectorMachine
