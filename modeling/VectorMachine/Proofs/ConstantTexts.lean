import VectorMachine.Proofs.FloatFormats
import VectorMachine.Proofs.Numerals

/-!
# The text of a number can be read

The shortest decimal of a single-precision number lies close to that number, and so
far inside the range of double precision.  Reading it therefore never fails, whatever
the number is.
-/

namespace VectorMachine
namespace Number

open Float.Model (Format UnpackedFloat totalExponent)
open Float.Model.UnpackedFloat

/-!
## Rounding
-/

section Round

variable {S : Format}

theorem mantissa_shiftRight (em : ExtendedMantissa) (k : Nat) :
    (em >>> k).mantissa = em.mantissa / 2 ^ k := by
  show (k.repeat ExtendedMantissa.shiftRightOne em).mantissa = _
  induction k with
  | zero => exact (Nat.div_one _).symm
  | succ k ih =>
      show (k.repeat ExtendedMantissa.shiftRightOne em).mantissa / 2 = _
      rw [ih, Nat.div_div_eq_div_mul, Nat.pow_succ]

theorem roundedMantissa_cases (em : ExtendedMantissa) :
    em.roundedMantissa = em.mantissa ∨ em.roundedMantissa = em.mantissa + 1 := by
  rcases em with ⟨m, round, sticky⟩
  cases round <;> cases sticky
  · exact Or.inl rfl
  · exact Or.inl rfl
  · show m + m % 2 = m ∨ m + m % 2 = m + 1
    omega
  · exact Or.inr rfl

theorem shiftToTargetExponent_eq {m n : Nat} {e : Int}
    (h : (S.targetExponent (totalExponent m e) - e).toNat = n) :
    shiftToTargetExponent S m e .exact =
      ((⟨m, false, false⟩ : ExtendedMantissa) >>> n, e + n) := by
  subst h
  rfl

theorem isInf_roundWithAccuracy (s : Sign) (m : Nat) (e : Int) (a : Accuracy) :
    (roundWithAccuracy S s m e a).isInf = false := by
  unfold roundWithAccuracy
  simp only
  split <;> rfl

theorem shiftToTargetExponent_of_lt {r : Nat} {t : Int} (hlt : r < 2 ^ S.mantissaBits)
    (hmin : S.minExponent ≤ t) :
    shiftToTargetExponent S r t .exact = (⟨r, false, false⟩, t) := by
  have hbits : S.mantissaBits = 1 + S.mantissaBitsWithoutImplicit := rfl
  have hlog : r.log2 < S.mantissaBits := by
    by_cases hr : r = 0
    · subst hr
      exact Nat.lt_of_lt_of_le Nat.zero_lt_one (by omega)
    · exact (Nat.log2_lt hr).mpr hlt
  have hzero : (S.targetExponent (totalExponent r t) - t).toNat = 0 := by
    unfold Format.targetExponent totalExponent
    omega
  rw [shiftToTargetExponent_eq hzero, Int.natCast_zero, Int.add_zero]
  rfl

theorem shiftToTargetExponent_two_pow {t : Int} (hmin : S.minExponent ≤ t) :
    shiftToTargetExponent S (2 ^ S.mantissaBits) t .exact =
      (⟨2 ^ S.mantissaBitsWithoutImplicit, false, false⟩, t + 1) := by
  have hbits : S.mantissaBits = 1 + S.mantissaBitsWithoutImplicit := rfl
  have hlog : (2 ^ S.mantissaBits).log2 = S.mantissaBits := Nat.log2_two_pow
  have hone : (S.targetExponent (totalExponent (2 ^ S.mantissaBits) t) - t).toNat = 1 := by
    unfold Format.targetExponent totalExponent
    omega
  have hdouble : 2 ^ S.mantissaBits = 2 * 2 ^ S.mantissaBitsWithoutImplicit := by
    rw [hbits, Nat.add_comm, Nat.pow_succ, Nat.mul_comm]
  rw [shiftToTargetExponent_eq hone]
  refine Prod.ext ?_ rfl
  show ExtendedMantissa.shiftRightOne ⟨2 ^ S.mantissaBits, false, false⟩ = _
  simp [ExtendedMantissa.shiftRightOne, hdouble]

/-- A mantissa of at most one bit more than the format holds is brought into form. -/
theorem representable_second_shift (s : Sign) {r : Nat} {t : Int}
    (hhigh : r ≤ 2 ^ S.mantissaBits) (hmin : S.minExponent ≤ t) (hmax : t + 1 ≤ maxExponent S)
    (hform : t ≠ S.minExponent -> 2 ^ S.mantissaBitsWithoutImplicit ≤ r) :
    Representable S
      (if h : (shiftToTargetExponent S r t .exact).1.mantissa = 0 then .zero s
        else .finite s (shiftToTargetExponent S r t .exact).1.mantissa
          (shiftToTargetExponent S r t .exact).2 (Nat.pos_of_ne_zero h)) := by
  have hbits : S.mantissaBits = 1 + S.mantissaBitsWithoutImplicit := rfl
  split
  · trivial
  next hne =>
    rcases Nat.lt_or_eq_of_le hhigh with hlt | rfl
    · have hshift := shiftToTargetExponent_of_lt hlt hmin
      have hr : r ≠ 0 := by
        rw [hshift] at hne
        exact hne
      have hlog : r.log2 < S.mantissaBits := (Nat.log2_lt hr).mpr hlt
      simp only [hshift]
      refine ⟨canonical_iff.mpr ⟨by omega, hmin, ?_⟩, by omega⟩
      by_cases ht : t = S.minExponent
      · exact Or.inr ht
      · left
        have hleast := (Nat.le_log2 hr).mpr (hform ht)
        omega
    · simp only [shiftToTargetExponent_two_pow hmin]
      exact ⟨canonical_iff.mpr
        ⟨Nat.le_of_eq Nat.log2_two_pow, by omega, Or.inl Nat.log2_two_pow⟩, hmax⟩

/-- To be rounded, a number is first shifted to the exponent at which the format
writes it. -/
theorem exists_shift_round (s : Sign) {m : Nat} {e t : Int} (hm : m ≠ 0)
    (ht : S.targetExponent (totalExponent m e) = t) :
    exists k j : Nat, e - k + j = t ∧
      round S s m e = roundWithAccuracy S s (m <<< k) (e - k) .exact ∧
      shiftToTargetExponent S (m <<< k) (e - k) .exact =
        ((⟨m <<< k, false, false⟩ : ExtendedMantissa) >>> j, t) := by
  obtain ⟨k, hk⟩ : exists k, (e - t).toNat = k := ⟨_, rfl⟩
  obtain ⟨j, hj⟩ : exists j, (t - (e - k)).toNat = j := ⟨_, rfl⟩
  have hreached : e - k + j = t := by omega
  refine ⟨k, j, hreached, ?_, ?_⟩
  · subst hk ht
    rfl
  · rw [shiftToTargetExponent_eq (by rw [totalExponent_shiftLeft hm, ht, hj]), hreached]

/-- Rounding gives a number of the format, unless it is too large for it. -/
theorem representable_round (hbias : 1 ≤ S.exponentBias) (s : Sign) {m : Nat} {e : Int}
    (hm : m ≠ 0) (h : totalExponent m e ≤ S.exponentBias) :
    Representable S (round S s m e) := by
  have hbits : S.mantissaBits = 1 + S.mantissaBitsWithoutImplicit := rfl
  have hminimum := minExponent_eq S
  have hmaximum : maxExponent S = S.exponentBias - S.mantissaBitsWithoutImplicit := rfl
  obtain ⟨t, ht⟩ : exists t, S.targetExponent (totalExponent m e) = t := ⟨_, rfl⟩
  have htarget : t = max (totalExponent m e - S.mantissaBits) S.minExponent := ht.symm
  rcases exists_shift_round s hm ht with ⟨k, j, hreached, hround, hfirst⟩
  have hlog : (m <<< k).log2 = m.log2 + k := log2_shiftLeft hm k
  have hne : m <<< k ≠ 0 := by
    rw [Nat.shiftLeft_eq]
    exact Nat.mul_ne_zero hm (Nat.ne_of_gt (Nat.two_pow_pos k))
  have htotal : totalExponent m e = m.log2 + 1 + e := rfl
  have hquotient : ((⟨m <<< k, false, false⟩ : ExtendedMantissa) >>> j).mantissa =
      (m <<< k) / 2 ^ j := mantissa_shiftRight _ j
  have hupper : (m <<< k) / 2 ^ j < 2 ^ S.mantissaBits := by
    rw [Nat.div_lt_iff_lt_mul (Nat.two_pow_pos j), ← Nat.pow_add, ← Nat.log2_lt hne]
    omega
  have hlower : t ≠ S.minExponent -> 2 ^ S.mantissaBitsWithoutImplicit ≤ (m <<< k) / 2 ^ j := by
    intro hnormal
    rw [Nat.le_div_iff_mul_le (Nat.two_pow_pos j), ← Nat.pow_add, ← Nat.le_log2 hne]
    omega
  rw [hround]
  unfold roundWithAccuracy
  simp only [hfirst]
  have hrounded := roundedMantissa_cases ((⟨m <<< k, false, false⟩ : ExtendedMantissa) >>> j)
  rw [hquotient] at hrounded
  apply representable_second_shift
  · omega
  · omega
  · omega
  · intro hnormal
    have := hlower hnormal
    omega

/-!
## Quotients
-/

/-- The bits that are taken of a quotient are no more than the quotient has. -/
theorem totalExponent_quotient_le {num den bits rest : Nat} {shift : Int} (hden : 0 < den)
    (h : num < 2 ^ bits * den) (hrest : rest ≤ 1) (hshift : -shift ≤ bits) :
    totalExponent (2 * ((num <<< shift.toNat) / (den <<< (-shift).toNat)) + rest) (-shift - 1) ≤
      bits := by
  obtain ⟨width, hwidth⟩ : exists width : Nat, (width : Int) = bits + shift :=
    ⟨(bits + shift).toNat, by omega⟩
  have hquotient : (num <<< shift.toNat) / (den <<< (-shift).toNat) < 2 ^ width := by
    rw [Nat.shiftLeft_eq, Nat.shiftLeft_eq,
      Nat.div_lt_iff_lt_mul (Nat.mul_pos hden (Nat.two_pow_pos _))]
    calc num * 2 ^ shift.toNat < 2 ^ bits * den * 2 ^ shift.toNat :=
          Nat.mul_lt_mul_of_pos_right h (Nat.two_pow_pos _)
      _ = 2 ^ (bits + shift.toNat) * den := by
          rw [Nat.pow_add, Nat.mul_right_comm]
      _ = 2 ^ width * (den * 2 ^ (-shift).toNat) := by
          rw [Nat.mul_left_comm, ← Nat.pow_add, Nat.mul_comm]
          congr 2
          omega
  have hmost : 2 * ((num <<< shift.toNat) / (den <<< (-shift).toNat)) + rest <
      2 ^ (width + 1) := by
    rw [Nat.pow_succ]
    omega
  generalize 2 * ((num <<< shift.toNat) / (den <<< (-shift).toNat)) + rest = m at hmost
  have hlog : m.log2 ≤ width := by
    by_cases hm : m = 0
    · subst hm
      exact Nat.zero_le _
    · have := (Nat.log2_lt hm).mpr hmost
      omega
  unfold totalExponent
  omega

theorem representable_ofRatio (hbias : 1 ≤ S.exponentBias) (s : Sign) {num den bits : Nat}
    (hden : 0 < den) (h : num < 2 ^ bits * den) (hbits : bits ≤ S.exponentBias) :
    Representable S (ofRatio S s num den) := by
  unfold ofRatio
  split
  · trivial
  next hnum =>
    simp only
    have hlog : num.log2 < bits + den.log2 + 1 := by
      rw [Nat.log2_lt hnum]
      calc num < 2 ^ bits * den := h
        _ ≤ 2 ^ bits * 2 ^ (den.log2 + 1) :=
            Nat.mul_le_mul_left _ (Nat.le_of_lt Nat.lt_log2_self)
        _ = 2 ^ (bits + den.log2 + 1) := by rw [← Nat.pow_add, Nat.add_assoc]
    generalize hshift : ((S.mantissaBits : Int) + 2 + den.log2 - num.log2) = shift
    have htop : num <<< shift.toNat ≠ 0 := by
      rw [Nat.shiftLeft_eq]
      exact Nat.mul_ne_zero hnum (Nat.ne_of_gt (Nat.two_pow_pos _))
    apply representable_round hbias
    · -- a quotient of zero leaves something over
      intro hzero
      have hsplit := Nat.div_add_mod (num <<< shift.toNat) (den <<< (-shift).toNat)
      have hquotient : num <<< shift.toNat / den <<< (-shift).toNat = 0 := by omega
      rw [hquotient, Nat.mul_zero, Nat.zero_add] at hsplit
      rw [hquotient, hsplit, if_neg htop] at hzero
      omega
    · refine Int.le_trans (totalExponent_quotient_le hden h ?_ ?_) (by omega)
      · split
        · exact Nat.zero_le 1
        · exact Nat.le_refl 1
      · omega

theorem isInf_ofRatio (s : Sign) (num den : Nat) : (ofRatio S s num den).isInf = false := by
  unfold ofRatio
  split
  · rfl
  · exact isInf_roundWithAccuracy s _ _ _

end Round

/-!
## Shortest decimals
-/

namespace Decimal
namespace Interval

/-- One of the two multiples around the number is taken, and the other one only if
it is nearer. -/
theorem best?_cases {i : Interval} {k : Int} {c : Nat} (h : i.best? k = some c) :
    c = i.scaled k i.value / i.step k ∧ i.holds k c = true ∧
        (i.holds k (c + 1) = true ->
          i.scaled k i.value - c * i.step k ≤ (c + 1) * i.step k - i.scaled k i.value) ∨
      exists b, b = i.scaled k i.value / i.step k ∧ c = b + 1 ∧ i.holds k c = true ∧
        (i.holds k b = true ->
          (b + 1) * i.step k - i.scaled k i.value ≤ i.scaled k i.value - b * i.step k) := by
  unfold best? at h
  simp only at h
  generalize hb : i.scaled k i.value / i.step k = b at h ⊢
  cases hbelow : i.holds k b with
  | false =>
      cases habove : i.holds k (b + 1) with
      | false => simp [hbelow, habove] at h
      | true =>
          simp only [hbelow, habove, Option.some.injEq] at h
          exact Or.inr ⟨b, rfl, h.symm, h ▸ habove, fun hb => by simp [hbelow] at hb⟩
  | true =>
      cases habove : i.holds k (b + 1) with
      | false =>
          simp only [hbelow, habove, Option.some.injEq] at h
          subst h
          exact Or.inl ⟨rfl, hbelow, fun hb => by simp [habove] at hb⟩
      | true =>
          simp only [hbelow, habove] at h
          split at h
          next hlt =>
            cases h
            exact Or.inl ⟨rfl, hbelow, fun _ => hlt.le⟩
          next hge =>
            split at h
            next hlt =>
              cases h
              exact Or.inr ⟨b, rfl, rfl, habove, fun _ => hlt.le⟩
            next hle =>
              split at h
              · cases h
                exact Or.inl ⟨rfl, hbelow, fun _ => by omega⟩
              · cases h
                exact Or.inr ⟨b, rfl, rfl, habove, fun _ => by omega⟩

theorem le_high_of_best? {i : Interval} {k : Int} {c : Nat} (h : i.best? k = some c) :
    c * i.step k ≤ i.scaled k i.high := by
  have hholds : i.holds k c = true := by
    rcases best?_cases h with ⟨_, hholds, _⟩ | ⟨_, _, _, hholds, _⟩
    · exact hholds
    · exact hholds
  unfold holds at hholds
  split at hholds
  · simp only [Bool.and_eq_true, decide_eq_true_eq] at hholds
    exact hholds.2
  · simp only [Bool.and_eq_true, decide_eq_true_eq] at hholds
    exact Nat.le_of_lt hholds.2

theorem search_le {i : Interval} (hvalue : i.value ≤ i.high) (tries : Nat) (k : Int) :
    (i.search tries k).coefficient * i.step (i.search tries k).exponent ≤
        i.scaled (i.search tries k).exponent i.high ∧
      k - tries ≤ (i.search tries k).exponent ∧ (i.search tries k).exponent ≤ k := by
  induction tries generalizing k with
  | zero =>
      refine ⟨?_, by simp [search], by simp [search]⟩
      calc i.scaled k i.value / i.step k * i.step k ≤ i.scaled k i.value :=
            Nat.div_mul_le_self _ _
        _ ≤ i.scaled k i.high :=
            Nat.mul_le_mul_right _ (Nat.mul_le_mul_right _ hvalue)
  | succ tries ih =>
      unfold search
      split
      next c hbest => exact ⟨le_high_of_best? hbest, by simp only; omega, Int.le_refl k⟩
      next =>
        rcases ih (k - 1) with ⟨hle, hlow, hhigh⟩
        exact ⟨hle, by omega, by omega⟩

end Interval

/-- The decimal of a single-precision number is far from the ends of the range of
double precision. -/
theorem shortest_single {m : Nat} {e : Int} (hm : 0 < m) (s : Sign)
    (h : Representable .binary32 (.finite s m e hm)) :
    (shortest .binary32 m e).coefficient * 10 ^ (shortest .binary32 m e).exponent.toNat <
        2 ^ 129 * 10 ^ (-(shortest .binary32 m e).exponent).toNat ∧
      (shortest .binary32 m e).leadingExponent.natAbs < 10000 := by
  rcases h with ⟨hcanonical, hmax⟩
  rcases canonical_iff.mp hcanonical with ⟨hlog, hmin, _⟩
  have hmax : e ≤ 104 := hmax
  have hmin : -149 ≤ e := hmin
  have hlog : m.log2 ≤ 23 := hlog
  have hmantissa : m < 2 ^ 24 := (Nat.log2_lt (Nat.ne_of_gt hm)).mp (by omega)
  have hvalue : (Interval.of .binary32 m e).value ≤ (Interval.of .binary32 m e).high := by
    show 4 * m ≤ 4 * m + 2
    omega
  rcases Interval.search_le hvalue 24 (topExponent m e) with ⟨hle, hlow, hhigh⟩
  have htop : topExponent m e = ((m.log2 : Int) + 1 + e) * 1233 / 4096 + 2 := rfl
  have hle : (shortest .binary32 m e).coefficient *
      (10 ^ (shortest .binary32 m e).exponent.toNat * 2 ^ (-(e - 2)).toNat) ≤
        (4 * m + 2) * 2 ^ (e - 2).toNat * 10 ^ (-(shortest .binary32 m e).exponent).toNat := hle
  change _ ≤ (shortest .binary32 m e).exponent at hlow
  change (shortest .binary32 m e).exponent ≤ _ at hhigh
  generalize shortest .binary32 m e = d at hle hlow hhigh
  have hbound : d.coefficient * 10 ^ d.exponent.toNat < 2 ^ 129 * 10 ^ (-d.exponent).toNat := by
    calc d.coefficient * 10 ^ d.exponent.toNat
        ≤ d.coefficient * (10 ^ d.exponent.toNat * 2 ^ (-(e - 2)).toNat) :=
          Nat.mul_le_mul_left _ (Nat.le_mul_of_pos_right _ (Nat.two_pow_pos _))
      _ ≤ (4 * m + 2) * 2 ^ (e - 2).toNat * 10 ^ (-d.exponent).toNat := hle
      _ ≤ (4 * m + 2) * 2 ^ 102 * 10 ^ (-d.exponent).toNat :=
          Nat.mul_le_mul_right _
            (Nat.mul_le_mul_left _ (Nat.pow_le_pow_right (by decide) (by omega)))
      _ < 2 ^ 27 * 2 ^ 102 * 10 ^ (-d.exponent).toNat :=
          Nat.mul_lt_mul_of_pos_right
            (Nat.mul_lt_mul_of_pos_right (by omega) (Nat.two_pow_pos _))
            (Nat.pow_pos (by decide))
      _ = 2 ^ 129 * 10 ^ (-d.exponent).toNat := by rw [← Nat.pow_add]
  refine ⟨hbound, ?_⟩
  have hcoefficient : d.coefficient < 10 ^ 106 := by
    calc d.coefficient ≤ d.coefficient * 10 ^ d.exponent.toNat :=
          Nat.le_mul_of_pos_right _ (Nat.pow_pos (by decide))
      _ < 2 ^ 129 * 10 ^ (-d.exponent).toNat := hbound
      _ ≤ 2 ^ 129 * 10 ^ 67 :=
          Nat.mul_le_mul_left _ (Nat.pow_le_pow_right (by decide) (by omega))
      _ ≤ 10 ^ 106 := by decide
  have hdigits : d.digits.length ≤ 106 := Text.length_ofNat_le (by decide) hcoefficient
  have hne := List.length_pos_iff.mpr d.digits_ne_nil
  have hleading : d.leadingExponent = d.exponent + (d.digits.length : Int) - 1 := rfl
  omega

theorem readFloat_text_of_bound (d : Decimal) (s : Sign)
    (hbound : d.coefficient * 10 ^ d.exponent.toNat < 2 ^ 129 * 10 ^ (-d.exponent).toNat)
    (hsmall : d.leadingExponent.natAbs < 10000) :
    readFloat (Layout.signText s ++ d.text) =
      .ok (Float.ofModel (.pack (ofScaled .binary64 s d.coefficient 10 d.exponent))) := by
  have hrepresentable :
      Representable .binary64 (ofScaled .binary64 s d.coefficient 10 d.exponent) :=
    representable_ofRatio (by decide) s (Nat.pow_pos (by decide)) hbound (by decide)
  have hfinite :
      (Float.ofModel (.pack (ofScaled .binary64 s d.coefficient 10 d.exponent))).isInf =
      false := by
    show (unpack .binary64
        (pack .binary64 (ofScaled .binary64 s d.coefficient 10 d.exponent))).isInf =
      false
    rw [unpack_pack hrepresentable]
    exact isInf_ofRatio s _ _
  rw [readFloat_text d hsmall]
  simp only [hfinite]
  rfl

end Decimal

theorem exists_readFloat_text32 (x : Float32) : exists y, readFloat (text32 x) = .ok y := by
  have hrepresentable := representable_single x
  unfold text32
  cases hunpack : x.toModel.unpack with
  | notANumber => exact ⟨nan, rfl⟩
  | infinity s =>
      cases s with
      | positive => exact ⟨infinity, rfl⟩
      | negative => exact ⟨-infinity, rfl⟩
  | zero s =>
      have hread := Decimal.readFloat_text_of_bound ⟨0, 0⟩ s (by decide) (by decide)
      cases s with
      | positive => exact ⟨_, hread⟩
      | negative => exact ⟨_, hread⟩
  | finite s m e hm =>
      rw [hunpack] at hrepresentable
      rcases Decimal.shortest_single hm s hrepresentable with ⟨hbound, hsmall⟩
      have hread := Decimal.readFloat_text_of_bound _ s hbound hsmall
      cases s with
      | positive => exact ⟨_, hread⟩
      | negative => exact ⟨_, hread⟩

def reread (x : Float32) : Float32 :=
  match readFloat (text32 x) with
  | .ok y => narrow y
  | .error _ => x

theorem reread_of_readFloat {x : Float32} {y : Float} (h : readFloat (text32 x) = .ok y) :
    reread x = narrow y := by
  unfold reread
  rw [h]

/-!
## Integers
-/

theorem ofRatio_one (S : Format) (s : Sign) {n : Nat} (hn : n ≠ 0)
    (hlog : n.log2 ≤ S.mantissaBitsWithoutImplicit)
    (hpos : 0 < n <<< (S.mantissaBitsWithoutImplicit - n.log2))
    (hmin : S.minExponent ≤ (n.log2 : Int) - S.mantissaBitsWithoutImplicit) :
    ofRatio S s n 1 = .finite s (n <<< (S.mantissaBitsWithoutImplicit - n.log2))
      ((n.log2 : Int) - S.mantissaBitsWithoutImplicit) hpos := by
  have hbits : S.mantissaBits = 1 + S.mantissaBitsWithoutImplicit := rfl
  have hcanonical : Canonical S (n <<< (S.mantissaBitsWithoutImplicit - n.log2))
      ((n.log2 : Int) - S.mantissaBitsWithoutImplicit) := by
    rw [canonical_iff, log2_shiftLeft hn]
    omega
  have hround := round_of_shiftLeft s hpos hcanonical 4
  obtain ⟨shift, hshift⟩ : exists shift : Nat, (shift : Int) = S.mantissaBits + 2 - n.log2 :=
    ⟨(S.mantissaBits + 2 - n.log2 : Int).toNat, by omega⟩
  have htop : (n <<< (S.mantissaBitsWithoutImplicit - n.log2)) <<< 4 =
      2 * (n <<< shift / 1) + 0 := by
    have hshift' : shift + 1 = S.mantissaBitsWithoutImplicit - n.log2 + 4 := by omega
    rw [← Nat.shiftLeft_add, ← hshift', Nat.div_one, Nat.shiftLeft_succ, Nat.add_zero]
  have hamount : ((S.mantissaBits : Int) + 2 + Nat.log2 1 - n.log2) = shift := by
    rw [show Nat.log2 1 = 0 from rfl, hshift]
    omega
  unfold ofRatio
  rw [if_neg hn, hamount]
  have hexponent : (n.log2 : Int) - S.mantissaBitsWithoutImplicit - (4 : Nat) =
      -(shift : Int) - 1 := by
    omega
  rw [htop, hexponent] at hround
  simpa [Nat.mod_one] using hround

theorem toInt?_ofScaled {n : Nat} (h : n < 2 ^ 53) :
    toInt? (Float.ofModel (.pack (ofScaled .binary64 .positive n 10 0))) = some (n : Int) := by
  have hratio : ofScaled .binary64 .positive n 10 0 = ofRatio .binary64 .positive n 1 := by
    simp [ofScaled]
  have hrepresentable : Representable .binary64 (ofRatio .binary64 .positive n 1) :=
    representable_ofRatio (by decide) _ Nat.one_pos (by omega : n < 2 ^ 53 * 1) (by decide)
  have hunpack : (Float.ofModel (.pack (ofRatio .binary64 .positive n 1))).toModel.unpack =
      ofRatio .binary64 .positive n 1 := unpack_pack hrepresentable
  unfold toInt?
  rw [hratio, hunpack]
  by_cases hn : n = 0
  · subst hn
    rfl
  · have hlog : n.log2 < 53 := (Nat.log2_lt hn).mpr h
    have hpos : 0 < n <<< (52 - n.log2) := by
      rw [Nat.shiftLeft_eq]
      exact Nat.mul_pos (Nat.pos_of_ne_zero hn) (Nat.two_pow_pos _)
    have hmin : Format.minExponent .binary64 = -1074 := by decide
    rw [ofRatio_one .binary64 .positive hn (show n.log2 ≤ 52 by omega) hpos
      (by rw [hmin]; show -1074 ≤ (n.log2 : Int) - 52; omega)]
    simp only
    split
    next hzero =>
      have hfull : n.log2 = 52 := by
        change 0 ≤ (n.log2 : Int) - 52 at hzero
        omega
      simp [hfull, Sign.apply]
    next =>
      have hamount : (-((n.log2 : Int) - (52 : Nat))).toNat = 52 - n.log2 := by omega
      rw [show
        (-((n.log2 : Int) - (Format.mantissaBitsWithoutImplicit .binary64 : Nat))).toNat =
          52 - n.log2 from hamount]
      have hcast :
          ((n * 2 ^ (52 - n.log2) : Nat) : Int) / ((2 ^ (52 - n.log2) : Nat) : Int) = n := by
        rw [← Int.natCast_ediv, Nat.mul_div_cancel _ (Nat.two_pow_pos _)]
      rw [Nat.shiftLeft_eq, Nat.pow_eq, Nat.mul_mod_left, if_pos rfl, hcast]
      rfl

theorem readFloat_ofNat {n : Nat} (h : n < 1000000) :
    exists x, readFloat (Text.ofNat n) = .ok x ∧ toInt? x = some (n : Int) := by
  have hdigits : (Text.ofNat n).length ≤ 6 := Text.length_ofNat_le (by decide) h
  have hne := List.length_pos_iff.mpr (Text.ofNat_ne_nil n)
  have hleading : (⟨n, 0⟩ : Decimal).leadingExponent = ((Text.ofNat n).length : Int) - 1 := by
    show (0 : Int) + ((Text.ofNat n).length : Int) - 1 = _
    omega
  have htext : (⟨n, 0⟩ : Decimal).text = Text.ofNat n := by
    unfold Decimal.text
    rw [hleading, if_neg (by omega)]
    simp [Decimal.positional, Decimal.digits]
  have hread := Decimal.readFloat_text_of_bound ⟨n, 0⟩ .positive (by simp; omega)
    (by rw [hleading]; omega)
  rw [htext] at hread
  exact ⟨_, hread, toInt?_ofScaled (show n < 2 ^ 53 by omega)⟩

end Number
end VectorMachine
