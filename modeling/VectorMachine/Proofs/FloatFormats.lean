import VectorMachine.Cbor.Item
import VectorMachine.Proofs.Results

/-!
# Exact passages between floating-point formats

A number that a format can represent comes back from its bits as it was, and
rounding to a format that can represent the value changes nothing but the way the
value is written.  So a single-precision number survives being widened and narrowed.
-/

namespace VectorMachine
namespace Number

open Float.Model (Format UnpackedFloat totalExponent)
open Float.Model.UnpackedFloat

/-!
## Representable numbers
-/

def Canonical (S : Format) (m : Nat) (e : Int) : Prop :=
  S.targetExponent (totalExponent m e) = e

def maxExponent (S : Format) : Int :=
  S.exponentBias - S.mantissaBitsWithoutImplicit

/-- A number that the format has a bit pattern for, written as the format does. -/
def Representable (S : Format) : UnpackedFloat -> Prop
  | .finite _ m e _ => Canonical S m e ∧ e ≤ maxExponent S
  | _ => True

section Format

variable {S : Format}

theorem minExponent_eq (S : Format) :
    S.minExponent = 1 - (S.exponentBias : Int) - S.mantissaBitsWithoutImplicit := by
  have hcast : ((2 ^ (S.exponentBits - 1) : Nat) : Int) = 2 ^ (S.exponentBits - 1) :=
    Int.natCast_pow 2 _
  have hpow : 0 < 2 ^ (S.exponentBits - 1) := Nat.two_pow_pos _
  unfold Format.minExponent Format.exponentBias Format.mantissaBits
  omega

theorem two_pow_exponentBits (S : Format) : 2 ^ S.exponentBits = 2 * S.exponentBias + 2 := by
  have hbits : S.exponentBits = S.exponentBits - 1 + 1 := by
    have := S.he
    omega
  have hpow : 0 < 2 ^ (S.exponentBits - 1) := Nat.two_pow_pos _
  rw [hbits, Nat.pow_succ]
  unfold Format.exponentBias
  omega

theorem canonical_iff {m : Nat} {e : Int} :
    Canonical S m e ↔ m.log2 ≤ S.mantissaBitsWithoutImplicit ∧ S.minExponent ≤ e ∧
      (m.log2 = S.mantissaBitsWithoutImplicit ∨ e = S.minExponent) := by
  unfold Canonical Format.targetExponent totalExponent Format.mantissaBits
  omega

end Format

/-!
## Bits of a number
-/

section Pack

variable {S : Format}

theorem unpackSign_packComponents (s : Sign) (x : BitVec S.exponentBits)
    (m : BitVec S.mantissaBitsWithoutImplicit) :
    unpackSign (packComponents S s x m) = s.toBitVec := by
  apply BitVec.eq_of_getLsbD_eq
  intro i hi
  simp only [unpackSign, packComponents, BitVec.getLsbD_cast, BitVec.getLsbD_extractLsb,
    BitVec.getLsbD_append]
  rw [if_neg (by omega), if_neg (by omega), decide_eq_true (by omega), Bool.true_and]
  congr 1
  omega

theorem ofBitVec_toBitVec (s : Sign) : Sign.ofBitVec s.toBitVec = s := by
  cases s <;> rfl

/-- Every bit pattern is a sign, an exponent and a mantissa one after another. -/
theorem exists_packComponents (b : BitVec S.numBits) :
    exists s x m, b = packComponents S s x m := by
  have hsign : forall c : BitVec 1, (Sign.ofBitVec c).toBitVec = c := by decide
  have hmantissa := S.hm
  have hexponent := S.he
  refine ⟨Sign.ofBitVec (unpackSign b), unpackExponent b, unpackMantissa b, ?_⟩
  unfold packComponents
  rw [hsign]
  apply BitVec.eq_of_getLsbD_eq
  intro i hi
  have hi : i < 1 + S.exponentBits + S.mantissaBitsWithoutImplicit := hi
  simp only [unpackSign, unpackExponent, unpackMantissa, BitVec.getLsbD_append,
    BitVec.getLsbD_cast, BitVec.getLsbD_extractLsb]
  split
  · rw [decide_eq_true (by omega), Bool.true_and, Nat.zero_add]
  · split
    · rw [decide_eq_true (by omega), Bool.true_and]
      congr 1
      omega
    · rw [decide_eq_true (by omega), Bool.true_and]
      congr 1
      omega

theorem toNat_one_append {n : Nat} (m : BitVec n) : (1#1 ++ m).toNat = 2 ^ n + m.toNat := by
  rw [BitVec.toNat_append, ← Nat.shiftLeft_add_eq_or_of_lt m.isLt]
  simp [Nat.shiftLeft_eq]

theorem unpack_packComponents (s : Sign) (x : BitVec S.exponentBits)
    (m : BitVec S.mantissaBitsWithoutImplicit) :
    unpack S (packComponents S s x m) =
      if x = -1#_ then if m = 0#_ then .infinity s else .notANumber
      else if x = 0#_ then
        if h : m = 0#_ then .zero s
        else
          .finite s m.toNat S.minExponent
            (by simpa [BitVec.toNat_pos, BitVec.pos_iff_ne_zero])
      else
        .finite s (2 ^ S.mantissaBitsWithoutImplicit + m.toNat)
          (x.toNat - (S.exponentBias + S.mantissaBitsWithoutImplicit))
          (Nat.add_pos_left (Nat.two_pow_pos _) _) := by
  unfold unpack
  simp only [unpackMantissa_packComponents, unpackExponent_packComponents,
    unpackSign_packComponents, ofBitVec_toBitVec, toNat_one_append]
  by_cases hx : x = 0#_
  · subst hx
    have hexponent : ((0#S.exponentBits).toNat : Int) -
        (S.exponentBias + S.mantissaBitsWithoutImplicit) + 1 = S.minExponent := by
      rw [minExponent_eq]
      simp
      omega
    simp only [hexponent]
  · simp only [hx, if_false]

theorem neg_one_ne_zero (S : Format) : -1#S.exponentBits ≠ 0#S.exponentBits := by
  intro h
  have hnat := congrArg BitVec.toNat h
  have hpow := two_pow_exponentBits S
  rw [BitVec.neg_one_eq_allOnes, BitVec.toNat_allOnes] at hnat
  simp only [BitVec.toNat_zero] at hnat
  omega

theorem unpack_packedInfinity (s : Sign) : unpack S (packedInfinity S s) = .infinity s := by
  unfold packedInfinity
  rw [unpack_packComponents, if_pos rfl]
  exact if_pos rfl

theorem unpack_packedZero (s : Sign) : unpack S (packedZero S s) = .zero s := by
  unfold packedZero
  rw [unpack_packComponents, if_neg fun h => neg_one_ne_zero S h.symm]
  simp

theorem unpack_packedNaN : unpack S (packedNaN S) = .notANumber := by
  unfold packedNaN
  rw [unpack_packComponents, if_pos rfl]
  apply if_neg
  intro h
  have hmantissa := S.hm
  have hbit := congrArg (fun m => m.getLsbD (S.mantissaBitsWithoutImplicit - 1)) h
  simp at hbit
  omega

theorem pack_normal (s : Sign) {m : Nat} {e : Int} (hm : 0 < m)
    (hlog : m.log2 = S.mantissaBitsWithoutImplicit) (hlow : S.minExponent ≤ e)
    (hhigh : e ≤ maxExponent S) :
    pack S (.finite s m e hm) =
      packComponents S s
        (BitVec.ofNat _ (e + S.exponentBias + S.mantissaBitsWithoutImplicit).toNat)
        (BitVec.ofNat _ m) := by
  have hpow := two_pow_exponentBits S
  rw [minExponent_eq] at hlow
  unfold maxExponent at hhigh
  unfold pack
  simp only
  rw [if_neg (by omega), if_pos (by rw [hlog]; exact Nat.add_comm _ 1)]

theorem pack_subnormal (s : Sign) {m : Nat} {e : Int} (hm : 0 < m)
    (hlog : m.log2 < S.mantissaBitsWithoutImplicit) (he : e = S.minExponent)
    (hhigh : e ≤ maxExponent S) :
    pack S (.finite s m e hm) = packComponents S s 0#_ (BitVec.ofNat _ m) := by
  have hpow := two_pow_exponentBits S
  rw [minExponent_eq] at he
  unfold maxExponent at hhigh
  unfold pack
  simp only
  rw [if_neg (by omega), if_neg (by unfold Format.mantissaBits; omega)]

theorem log2_two_pow_add {f m : Nat} (h : m < 2 ^ f) : (2 ^ f + m).log2 = f := by
  have hpow := Nat.two_pow_pos f
  rw [Nat.log2_eq_iff (by omega), Nat.pow_succ]
  omega

theorem unpack_pack_normal (s : Sign) {m : Nat} {e : Int} (hm : 0 < m)
    (hlog : m.log2 = S.mantissaBitsWithoutImplicit) (hlow : S.minExponent ≤ e)
    (hhigh : e ≤ maxExponent S) :
    unpack S (pack S (.finite s m e hm)) = .finite s m e hm := by
  rcases (Nat.log2_eq_iff (Nat.ne_of_gt hm)).mp hlog with ⟨hleast, hmost⟩
  rw [Nat.pow_succ] at hmost
  have hpow := two_pow_exponentBits S
  have hmin := minExponent_eq S
  have hmax : maxExponent S = S.exponentBias - S.mantissaBitsWithoutImplicit := rfl
  have hbits : (BitVec.ofNat S.exponentBits
      (e + S.exponentBias + S.mantissaBitsWithoutImplicit).toNat).toNat =
        (e + S.exponentBias + S.mantissaBitsWithoutImplicit).toNat := by
    rw [BitVec.toNat_ofNat, Nat.mod_eq_of_lt (by omega)]
  -- the leading digit is not written and is put back
  have hmantissa : 2 ^ S.mantissaBitsWithoutImplicit +
      (BitVec.ofNat S.mantissaBitsWithoutImplicit m).toNat = m := by
    rw [BitVec.toNat_ofNat, Nat.mod_eq_sub_mod hleast, Nat.mod_eq_of_lt (by omega)]
    omega
  rw [pack_normal s hm hlog hlow hhigh, unpack_packComponents, if_neg, if_neg]
  · simp only [hbits, hmantissa, UnpackedFloat.finite.injEq, true_and]
    omega
  · intro hzero
    have hnat := congrArg BitVec.toNat hzero
    rw [hbits, BitVec.toNat_zero] at hnat
    omega
  · intro hones
    have hnat := congrArg BitVec.toNat hones
    rw [hbits, BitVec.neg_one_eq_allOnes, BitVec.toNat_allOnes] at hnat
    omega

theorem unpack_pack_subnormal (s : Sign) {m : Nat} {e : Int} (hm : 0 < m)
    (hlog : m.log2 < S.mantissaBitsWithoutImplicit) (he : e = S.minExponent)
    (hhigh : e ≤ maxExponent S) :
    unpack S (pack S (.finite s m e hm)) = .finite s m e hm := by
  have hlt : m < 2 ^ S.mantissaBitsWithoutImplicit := (Nat.log2_lt (Nat.ne_of_gt hm)).mp hlog
  have hmantissa : (BitVec.ofNat S.mantissaBitsWithoutImplicit m).toNat = m := by
    rw [BitVec.toNat_ofNat, Nat.mod_eq_of_lt hlt]
  have hnonzero : BitVec.ofNat S.mantissaBitsWithoutImplicit m ≠ 0#_ := by
    intro hzero
    have hnat := congrArg BitVec.toNat hzero
    rw [hmantissa, BitVec.toNat_zero] at hnat
    omega
  rw [pack_subnormal s hm hlog he hhigh, unpack_packComponents,
    if_neg fun h => neg_one_ne_zero S h.symm, if_pos rfl, dif_neg hnonzero]
  simp only [hmantissa, he]

theorem unpack_pack {u : UnpackedFloat} (h : Representable S u) : unpack S (pack S u) = u := by
  cases u with
  | infinity s => exact unpack_packedInfinity s
  | notANumber => exact unpack_packedNaN
  | zero s => exact unpack_packedZero s
  | finite s m e hm =>
      rcases h with ⟨hcanonical, hhigh⟩
      rcases canonical_iff.mp hcanonical with ⟨hlog, hlow, hform⟩
      by_cases hfull : m.log2 = S.mantissaBitsWithoutImplicit
      · exact unpack_pack_normal s hm hfull hlow hhigh
      · have hfew : m.log2 < S.mantissaBitsWithoutImplicit := by omega
        exact unpack_pack_subnormal s hm hfew (hform.resolve_left hfull) hhigh

variable (hbias : 1 ≤ S.exponentBias)
include hbias

/-- What bits stand for is representable, and has no other bits except where it is
not a number. -/
theorem representable_unpack (b : BitVec S.numBits) :
    Representable S (unpack S b) ∧ (S.Valid b -> pack S (unpack S b) = b) := by
  have hpow := two_pow_exponentBits S
  have hmin := minExponent_eq S
  have hmax : maxExponent S = S.exponentBias - S.mantissaBitsWithoutImplicit := rfl
  rcases exists_packComponents b with ⟨s, x, m, rfl⟩
  rw [unpack_packComponents]
  split
  next hx =>
    split
    next hm =>
      subst hx hm
      exact ⟨trivial, fun _ => rfl⟩
    next hm =>
      refine ⟨trivial, fun hvalid => ?_⟩
      have hnan := hvalid.eq_packedNaN
      rw [unpackExponent_packComponents, unpackMantissa_packComponents] at hnan
      exact (hnan hx hm).symm
  next hx =>
    split
    next hzero =>
      split
      next hm =>
        subst hzero hm
        exact ⟨trivial, fun _ => rfl⟩
      next hm =>
        have hpositive : 0 < m.toNat := by simpa [BitVec.toNat_pos, BitVec.pos_iff_ne_zero]
        have hlog : m.toNat.log2 < S.mantissaBitsWithoutImplicit :=
          (Nat.log2_lt (by omega)).mpr m.isLt
        have hhigh : S.minExponent ≤ maxExponent S := by omega
        refine ⟨⟨canonical_iff.mpr ⟨by omega, by omega, Or.inr rfl⟩, hhigh⟩, fun _ => ?_⟩
        rw [pack_subnormal s hpositive hlog rfl hhigh, BitVec.ofNat_toNat, hzero]
        simp
    next hzero =>
      have hlog := log2_two_pow_add m.isLt
      have hnonzero : x.toNat ≠ 0 := by
        intro h
        exact hzero (BitVec.eq_of_toNat_eq (by simpa using h))
      have hones : x.toNat ≠ 2 ^ S.exponentBits - 1 := by
        intro h
        apply hx
        apply BitVec.eq_of_toNat_eq
        rw [h, BitVec.neg_one_eq_allOnes, BitVec.toNat_allOnes]
      have hx := x.isLt
      refine ⟨⟨canonical_iff.mpr ⟨by omega, by omega, Or.inl hlog⟩, by omega⟩, fun _ => ?_⟩
      rw [pack_normal s _ hlog (by omega) (by omega)]
      congr 1
      · apply BitVec.eq_of_toNat_eq
        rw [BitVec.toNat_ofNat, Nat.mod_eq_of_lt (by omega)]
        omega
      · apply BitVec.eq_of_toNat_eq
        rw [BitVec.toNat_ofNat, Nat.add_mod_left, Nat.mod_eq_of_lt m.isLt]

end Pack

/-!
## Rounding what need not be rounded
-/

section Round

variable {S : Format} {m : Nat} {e : Int}

theorem log2_shiftLeft (hm : m ≠ 0) (k : Nat) : (m <<< k).log2 = m.log2 + k := by
  induction k with
  | zero => rfl
  | succ k ih =>
      have hne : m <<< k ≠ 0 := by
        rw [Nat.shiftLeft_eq]
        exact Nat.mul_ne_zero hm (Nat.ne_of_gt (Nat.two_pow_pos k))
      rw [Nat.shiftLeft_succ, Nat.log2_two_mul hne, ih]
      rfl

theorem totalExponent_shiftLeft (hm : m ≠ 0) (k : Nat) :
    totalExponent (m <<< k) (e - k) = totalExponent m e := by
  unfold totalExponent
  rw [log2_shiftLeft hm]
  omega

theorem shiftRight_shiftLeft (m k : Nat) :
    (⟨m <<< k, false, false⟩ : ExtendedMantissa) >>> k = ⟨m, false, false⟩ := by
  show k.repeat ExtendedMantissa.shiftRightOne ⟨m <<< k, false, false⟩ = _
  induction k generalizing m with
  | zero => rfl
  | succ k ih =>
      have hshift : m <<< (k + 1) = (2 * m) <<< k := by
        rw [Nat.shiftLeft_eq, Nat.shiftLeft_eq, Nat.pow_succ]
        ac_rfl
      rw [hshift, Nat.repeat, ih]
      simp [ExtendedMantissa.shiftRightOne]

theorem roundWithAccuracy_shiftLeft (s : Sign) (hm : 0 < m) (h : Canonical S m e) (k : Nat) :
    roundWithAccuracy S s (m <<< k) (e - k) .exact = .finite s m e hm := by
  have hne : m ≠ 0 := Nat.ne_of_gt hm
  have hfirst : shiftToTargetExponent S (m <<< k) (e - k) .exact = (⟨m, false, false⟩, e) := by
    unfold shiftToTargetExponent shiftToExponent
    rw [totalExponent_shiftLeft hne, h]
    have hamount : (e - (e - (k : Int))).toNat = k := by omega
    simp only [ExtendedMantissa.ofMantissaAndAccuracy, hamount, shiftRight_shiftLeft]
    congr 1
    omega
  have hsecond : shiftToTargetExponent S m e .exact = (⟨m, false, false⟩, e) := by
    unfold shiftToTargetExponent shiftToExponent
    rw [h]
    have hamount : (e - e).toNat = 0 := by omega
    simp only [ExtendedMantissa.ofMantissaAndAccuracy, hamount]
    exact congrArg (Prod.mk _) (by omega)
  have hrounded : ExtendedMantissa.roundedMantissa ⟨m, false, false⟩ = m := rfl
  unfold roundWithAccuracy
  simp only [hfirst, hrounded, hsecond, dif_neg hne]

theorem round_of_shiftLeft (s : Sign) (hm : 0 < m) (h : Canonical S m e) (k : Nat) :
    round S s (m <<< k) (e - k) = .finite s m e hm := by
  have hamount : (e - (k : Int) - e).toNat = 0 := by omega
  have hdecrease : decreaseExponent (m <<< k) (e - k) e = (m <<< k, e - k) := by
    unfold decreaseExponent
    simp only [hamount, Nat.shiftLeft_zero, Int.natCast_zero, Int.sub_zero]
  unfold UnpackedFloat.round
  rw [totalExponent_shiftLeft (Nat.ne_of_gt hm), h]
  simp only [hdecrease]
  exact roundWithAccuracy_shiftLeft s hm h k

theorem round_to_shiftLeft (s : Sign) (hm : 0 < m) (k : Nat) (hk : 0 < m <<< k)
    (h : Canonical S (m <<< k) (e - k)) :
    round S s m e = .finite s (m <<< k) (e - k) hk := by
  have hamount : (e - (e - (k : Int))).toNat = k := by omega
  have htarget : S.targetExponent (totalExponent m e) = e - k := by
    rw [← totalExponent_shiftLeft (Nat.ne_of_gt hm) k]
    exact h
  have hdecrease : decreaseExponent m e (e - k) = (m <<< k, e - k) := by
    unfold decreaseExponent
    simp only [hamount]
  unfold UnpackedFloat.round
  rw [htarget]
  simp only [hdecrease]
  simpa using roundWithAccuracy_shiftLeft s hk h 0

end Round

/-!
## From one format to another
-/

theorem refit_of_representable {S : Format} {u : UnpackedFloat} (h : Representable S u) :
    refit S u = u := by
  cases u with
  | finite s m e hm =>
      show round S s m e = .finite s m e hm
      simpa using round_of_shiftLeft s hm h.1 0
  | _ => rfl

/-- Every number of the first format is one of the second. -/
structure Wider (S T : Format) : Prop where
  mantissa : S.mantissaBitsWithoutImplicit ≤ T.mantissaBitsWithoutImplicit
  exponentBias : S.exponentBias ≤ T.exponentBias
  minExponent : T.minExponent ≤ S.minExponent
  one_le_bias : 1 ≤ T.exponentBias

section Wider

variable {S T : Format} (hwider : Wider S T)
include hwider

theorem exists_refit_wider {s : Sign} {m : Nat} {e : Int} {hm : 0 < m}
    (h : Representable S (.finite s m e hm)) :
    exists (k : Nat) (hk : 0 < m <<< k),
      refit T (.finite s m e hm) = .finite s (m <<< k) (e - k) hk ∧
      Representable T (.finite s (m <<< k) (e - k) hk) := by
  rcases h with ⟨hcanonical, hhigh⟩
  rcases canonical_iff.mp hcanonical with ⟨hlog, hlow, _⟩
  have hmantissa := hwider.mantissa
  have hbias := hwider.exponentBias
  have hmin := hwider.minExponent
  have hpositive := hwider.one_le_bias
  have hbottom := minExponent_eq T
  unfold maxExponent at hhigh
  have htarget : T.targetExponent (totalExponent m e) =
      max (m.log2 + e - T.mantissaBitsWithoutImplicit) T.minExponent := by
    unfold Format.targetExponent totalExponent Format.mantissaBits
    omega
  have hk : 0 < m <<< (e - T.targetExponent (totalExponent m e)).toNat := by
    rw [Nat.shiftLeft_eq]
    exact Nat.mul_pos hm (Nat.two_pow_pos _)
  have hexponent : e - ((e - T.targetExponent (totalExponent m e)).toNat : Int) =
      T.targetExponent (totalExponent m e) := by
    omega
  have hwritten : Canonical T (m <<< (e - T.targetExponent (totalExponent m e)).toNat)
      (e - ((e - T.targetExponent (totalExponent m e)).toNat : Int)) := by
    unfold Canonical
    rw [totalExponent_shiftLeft (Nat.ne_of_gt hm), hexponent]
  refine ⟨_, hk, round_to_shiftLeft s hm _ hk hwritten, hwritten, ?_⟩
  rw [hexponent, htarget]
  unfold maxExponent
  omega

theorem representable_refit_wider {u : UnpackedFloat} (h : Representable S u) :
    Representable T (refit T u) := by
  cases u with
  | finite s m e hm =>
      rcases exists_refit_wider hwider h with ⟨k, hk, hrefit, hrepresentable⟩
      rw [hrefit]
      exact hrepresentable
  | _ => trivial

theorem refit_refit_wider {u : UnpackedFloat} (h : Representable S u) :
    refit S (refit T u) = u := by
  cases u with
  | finite s m e hm =>
      rcases exists_refit_wider hwider h with ⟨k, hk, hrefit, _⟩
      rw [hrefit]
      exact round_of_shiftLeft s hm h.1 k
  | _ => rfl

end Wider

theorem wider_single_double : Wider .binary32 .binary64 :=
  ⟨by decide, by decide, by decide, by decide⟩

/-!
## Single and double precision
-/

theorem representable_single (x : Float32) : Representable .binary32 x.toModel.unpack :=
  (representable_unpack (by decide) _).1

theorem representable_double (x : Float) : Representable .binary64 x.toModel.unpack :=
  (representable_unpack (by decide) _).1

theorem pack_unpack_single (x : Float32) :
    Float32.ofModel (.pack x.toModel.unpack) = x := by
  rcases x with ⟨⟨bits, valid⟩⟩
  have hpack := (representable_unpack (S := .binary32) (by decide) bits.toBitVec).2 valid
  show Float32.ofModel ⟨UInt32.ofBitVec _, _⟩ = Float32.ofModel ⟨bits, valid⟩
  congr 2
  exact congrArg UInt32.ofBitVec hpack

theorem pack_unpack_double (x : Float) :
    Float.ofModel (.pack x.toModel.unpack) = x := by
  rcases x with ⟨⟨bits, valid⟩⟩
  have hpack := (representable_unpack (S := .binary64) (by decide) bits.toBitVec).2 valid
  show Float.ofModel ⟨UInt64.ofBitVec _, _⟩ = Float.ofModel ⟨bits, valid⟩
  congr 2
  exact congrArg UInt64.ofBitVec hpack

theorem unpack_widen (x : Float32) :
    (widen x).toModel.unpack = refit .binary64 x.toModel.unpack :=
  unpack_pack (representable_refit_wider wider_single_double (representable_single x))

theorem narrow_widen (x : Float32) : narrow (widen x) = x := by
  unfold narrow
  rw [unpack_widen, refit_refit_wider wider_single_double (representable_single x),
    pack_unpack_single]

theorem unpack_abs (x : Float) : x.abs.toModel.unpack = x.toModel.unpack.abs := by
  have habs : Representable .binary64 x.toModel.unpack.abs := by
    have hx := representable_double x
    cases hcase : x.toModel.unpack with
    | finite s m e hm =>
        rw [hcase] at hx
        exact hx
    | _ => trivial
  exact unpack_pack habs

theorem lt_iff_unpack_lt (x y : Float) :
    x < y ↔ x.toModel.unpack.lt y.toModel.unpack = true := by
  show decide (x.toModel < y.toModel) = true ↔ _
  rw [decide_eq_true_iff]
  rfl

theorem finite_lt_finite_iff {m n : Nat} {e f : Int} (hm : 0 < m) (hn : 0 < n) :
    UnpackedFloat.lt (.finite .positive m e hm) (.finite .positive n f hn) = true ↔
      e < f ∨ e = f ∧ m < n := by
  simp only [UnpackedFloat.lt, UnpackedFloat.compare, beq_iff_eq, Option.some.injEq,
    Ordering.then_eq_lt, Int.compare_eq_lt, Int.compare_eq_eq, Nat.compare_eq_lt]

end Number
end VectorMachine
