import VectorMachine.Proofs.NearMiddles

/-!
# Reading the shortest decimal back

The text of a single-precision number is read to double precision and then rounded
again.  The first rounding does not leave the rounding interval of the number, but it
may reach an end, and where the mantissa is odd the second rounding then goes to the
neighbour.  This happens to one magnitude only.
-/

namespace VectorMachine
namespace Number

open Float.Model (Format UnpackedFloat totalExponent)
open Float.Model.UnpackedFloat

namespace Decimal

/-!
## The first rounding
-/

theorem exists_roundsAt_ofScaled {d : Decimal} (s : Sign) (h : 0 < d.value) :
    exists t n, RoundsAt .binary64 d.value t n ∧
      ofScaled .binary64 s d.coefficient 10 d.exponent = written .binary64 s n t := by
  have hcoefficient : d.coefficient ≠ 0 := by
    intro hzero
    simp [value, hzero] at h
  have hpow : (0 : ℚ) < 10 ^ (-d.exponent).toNat := by positivity
  have hratio : ((d.coefficient * 10 ^ d.exponent.toNat : Nat) : ℚ) /
      (10 ^ (-d.exponent).toNat : Nat) = d.value := by
    push_cast
    rw [← zpow_mul_pow_neg_toNat (by norm_num), ← mul_assoc,
      mul_div_cancel_right₀ _ hpow.ne']
    rfl
  have hnum : d.coefficient * 10 ^ d.exponent.toNat ≠ 0 :=
    Nat.mul_ne_zero hcoefficient (Nat.ne_of_gt (Nat.pow_pos (by norm_num)))
  have hden : 0 < 10 ^ (-d.exponent).toNat := Nat.pow_pos (by norm_num)
  have hrounds := exists_roundsAt_ofRatio .binary64 s hnum hden
  rw [hratio] at hrounds
  exact hrounds

section Single

variable {d : Decimal} {m n : Nat} {e t : Int}

theorem low_of_odd (hm : 0 < m) (hodd : m % 2 = 1) (e : Int) :
    ((Interval.of .binary32 m e).low : ℚ) * 2 ^ (Interval.of .binary32 m e).unit =
      (m - 1 / 2) * 2 ^ e := by
  apply Interval.low_of hm
  rintro ⟨hpower, _⟩
  have hpower : m = 2 ^ 23 := hpower
  omega

theorem two_zpow_sub_thirty (e : Int) : (2 : ℚ) ^ (e - 30) = 2 ^ e / 2 ^ 30 := by
  rw [zpow_sub₀ two_ne_zero]
  norm_num

variable (hm : 0 < m) (hfits : d.Fits (Interval.of .binary32 m e))
include hm hfits

theorem value_pos : 0 < d.value :=
  lt_of_lt_of_le (Interval.low_pos .binary32 hm e) hfits.contains.low

variable (hmin : -149 ≤ e) (hmax : e ≤ 104)
include hmin hmax

/-- Near the lower end of the interval of an odd mantissa the next decimal would be
nearer, were the step below the grid. -/
theorem gridExponent_le_of_near_low (hodd : m % 2 = 1)
    (hnear : |d.value - (m - 1 / 2) * 2 ^ e| ≤ 2 ^ (e - 30)) : gridExponent e ≤ d.exponent := by
  by_contra hlt
  have hstep := ten_zpow_lt hmin hmax (not_le.mp hlt)
  have hpos := zpow_pos (two_pos : (0 : ℚ) < 2) e
  have hten : (0 : ℚ) < 10 ^ d.exponent := zpow_pos (by norm_num) _
  have hlow := hfits.contains.low
  rw [low_of_odd hm hodd] at hlow
  rw [two_zpow_sub_thirty, abs_le] at hnear
  have hnext : ((d.coefficient + 1 : Nat) : ℚ) * 10 ^ d.exponent =
      d.value + 10 ^ d.exponent := by
    unfold value
    push_cast
    ring
  have hcontains : (Interval.of .binary32 m e).Contains (d.value + 10 ^ d.exponent) := by
    apply Interval.contains_of_lt
    · rw [low_of_odd hm hodd]
      linarith
    · rw [Interval.high_of]
      linarith
  rw [← hnext] at hcontains
  have hnearest := hfits.nearest _ hcontains
  rw [hnext, Interval.center_of, abs_of_nonpos (by linarith)] at hnearest
  rcases le_abs.mp hnearest with hcase | hcase <;> linarith

theorem gridExponent_le_of_near_high (hodd : m % 2 = 1)
    (hnear : |d.value - (m + 1 / 2) * 2 ^ e| ≤ 2 ^ (e - 30)) : gridExponent e ≤ d.exponent := by
  by_contra hlt
  have hstep := ten_zpow_lt hmin hmax (not_le.mp hlt)
  have hpos := zpow_pos (two_pos : (0 : ℚ) < 2) e
  have hten : (0 : ℚ) < 10 ^ d.exponent := zpow_pos (by norm_num) _
  have hhigh := hfits.contains.high
  rw [Interval.high_of] at hhigh
  rw [two_zpow_sub_thirty, abs_le] at hnear
  have hcoefficient : d.coefficient ≠ 0 := by
    intro hzero
    have hpositive := value_pos hm hfits
    simp [value, hzero] at hpositive
  obtain ⟨c, hc⟩ := Nat.exists_eq_succ_of_ne_zero hcoefficient
  have hnext : (c : ℚ) * 10 ^ d.exponent = d.value - 10 ^ d.exponent := by
    unfold value
    rw [hc]
    push_cast
    ring
  have hcontains : (Interval.of .binary32 m e).Contains (d.value - 10 ^ d.exponent) := by
    apply Interval.contains_of_lt
    · rw [low_of_odd hm hodd]
      linarith
    · rw [Interval.high_of]
      linarith
  rw [← hnext] at hcontains
  have hnearest := hfits.nearest _ hcontains
  rw [hnext, Interval.center_of, abs_of_nonneg (by linarith)] at hnearest
  rcases le_abs.mp hnearest with hcase | hcase <;> linarith

omit hm hfits in
theorem value_eq_or_of_near (hgrid : gridExponent e ≤ d.exponent) {k : Nat} (hodd : k % 2 = 1)
    (hk : k < 2 ^ 25) (hnear : |d.value - k * 2 ^ (e - 1)| ≤ 2 ^ (e - 30)) :
    d.value = k * 2 ^ (e - 1) ∨ e = -107 ∧ k = 22841339 := by
  obtain ⟨j, hj⟩ : exists j : Nat, d.exponent = gridExponent e + j :=
    ⟨(d.exponent - gridExponent e).toNat, by omega⟩
  have hvalue : d.value = (d.coefficient * 10 ^ j : Nat) * 10 ^ gridExponent e := by
    unfold value
    rw [hj, zpow_add₀ (by norm_num), zpow_natCast]
    push_cast
    ring
  rw [hvalue] at hnear ⊢
  exact eq_or_of_near_middle hmin hmax hodd hk hnear

variable (hlog : m.log2 ≤ 23)
include hlog

/-- A decimal that double precision cannot tell from an end of the interval is that
end, with one exception. -/
theorem value_eq_end (hexception : ¬(e = -107 ∧ m = 11420669)) (hodd : m % 2 = 1) {a : ℚ}
    (hend : a = (m - 1 / 2) * 2 ^ e ∨ a = (m + 1 / 2) * 2 ^ e)
    (hnear : |d.value - a| ≤ 2 ^ (e - 30)) : d.value = a := by
  have hmantissa : m < 2 ^ 24 := (Nat.log2_lt (Nat.ne_of_gt hm)).mp (by omega)
  have hhalf := two_zpow_eq_mul_two e
  rcases hend with rfl | rfl
  · have hgrid := gridExponent_le_of_near_low hm hfits hmin hmax hodd hnear
    have hmiddle : ((m : ℚ) - 1 / 2) * 2 ^ e = (2 * m - 1 : Nat) * 2 ^ (e - 1) := by
      rw [hhalf, Nat.cast_sub (by omega)]
      push_cast
      ring
    rw [hmiddle] at hnear ⊢
    rcases value_eq_or_of_near hmin hmax hgrid (by omega) (by omega) hnear with hvalue | hcase
    · exact hvalue
    · omega
  · have hgrid := gridExponent_le_of_near_high hm hfits hmin hmax hodd hnear
    have hmiddle : ((m : ℚ) + 1 / 2) * 2 ^ e = (2 * m + 1 : Nat) * 2 ^ (e - 1) := by
      rw [hhalf]
      push_cast
      ring
    rw [hmiddle] at hnear ⊢
    rcases value_eq_or_of_near hmin hmax hgrid (by omega) (by omega) hnear with hvalue | hcase
    · exact hvalue
    · omega

omit hmax in
theorem abs_sub_le_of_roundsAt (hrounds : RoundsAt .binary64 d.value t n) :
    |d.value - n * 2 ^ t| ≤ 2 ^ (e - 30) := by
  have hmantissa : m < 2 ^ 24 := (Nat.log2_lt (Nat.ne_of_gt hm)).mp (by omega)
  have hpos := zpow_pos (two_pos : (0 : ℚ) < 2) e
  have hmost : d.value < 2 ^ (e + 24 : Int) := by
    have hbound : (m : ℚ) + 1 ≤ 2 ^ 24 := by exact_mod_cast hmantissa
    have hproduct := mul_le_mul_of_nonneg_right hbound hpos.le
    have hle := hfits.contains.high
    rw [Interval.high_of] at hle
    rw [zpow_add₀ two_ne_zero]
    norm_num at hproduct ⊢
    linarith
  have ht : t ≤ e - 29 := by
    rcases hrounds.low with ht | ht
    · have hbottom : Format.minExponent .binary64 = -1074 := by decide
      omega
    · have hlt := (zpow_lt_zpow_iff_right₀ one_lt_two).mp (lt_of_le_of_lt ht hmost)
      have hbits : ((Format.mantissaBitsWithoutImplicit .binary64 : Nat) : Int) = 52 := rfl
      omega
  rw [abs_sub_comm]
  exact hrounds.abs_sub_le.trans (zpow_le_zpow_right₀ one_le_two (by omega))

/-- Unless it is the one exception, the decimal is not taken out of the interval by
the rounding to double precision. -/
theorem contains_of_roundsAt (hrounds : RoundsAt .binary64 d.value t n)
    (hexception : ¬(e = -107 ∧ m = 11420669)) :
    (Interval.of .binary32 m e).Contains (n * 2 ^ t) := by
  have hmantissa : m < 2 ^ 24 := (Nat.log2_lt (Nat.ne_of_gt hm)).mp (by omega)
  have hlowest : (Interval.of .binary32 m e).low < 2 ^ 53 := by
    have hlt := (Interval.proper_of .binary32 hm e).low_lt
    have hvalue : (Interval.of .binary32 m e).value = 4 * m := rfl
    omega
  have hhighest : (Interval.of .binary32 m e).high < 2 ^ 53 := by
    show 4 * m + 2 < 2 ^ 53
    omega
  have hleast : Format.minExponent .binary64 ≤ (Interval.of .binary32 m e).unit := by
    have hunit : (Interval.of .binary32 m e).unit = e - 2 := rfl
    have hbottom : Format.minExponent .binary64 = -1074 := by decide
    omega
  refine ⟨hrounds.ge_of_ge hlowest hleast hfits.contains.low,
    hrounds.le_of_le hhighest hleast hfits.contains.high, fun htie => ?_⟩
  -- an end that does not belong to the interval is not reached
  by_contra hopen
  have hodd : m % 2 = 1 := by
    rw [Interval.closed_of] at hopen
    omega
  have hends := htie
  rw [low_of_odd hm hodd, Interval.high_of] at hends
  have hvalue := value_eq_end hm hfits hmin hmax hlog hexception hodd hends
    (abs_sub_le_of_roundsAt hm hfits hmin hlog hrounds)
  rw [← hvalue] at htie
  exact hopen (hfits.contains.tie htie)

end Single

end Decimal
/-!
## Both roundings
-/

theorem narrow_ofScaled_shortest {m : Nat} {e : Int} (hm : 0 < m) (s : Sign)
    (h : Representable .binary32 (.finite s m e hm)) (hexception : ¬(e = -107 ∧ m = 11420669)) :
    narrow (Float.ofModel (.pack (ofScaled .binary64 s
        (Decimal.shortest .binary32 m e).coefficient 10
        (Decimal.shortest .binary32 m e).exponent))) =
      Float32.ofModel (.pack (.finite s m e hm)) := by
  have hbound := (Decimal.shortest_single hm s h).1
  rcases h with ⟨hcanonical, hmax⟩
  rcases canonical_iff.mp hcanonical with ⟨hlog, hmin, _⟩
  have hmax : e ≤ 104 := hmax
  have hmin : -149 ≤ e := hmin
  have hlog : m.log2 ≤ 23 := hlog
  have hfits := Decimal.fits_shortest hm hlog hmin hmax
  generalize Decimal.shortest .binary32 m e = d at hbound hfits ⊢
  have hrepresentable :
      Representable .binary64 (ofScaled .binary64 s d.coefficient 10 d.exponent) :=
    representable_ofRatio (by decide) s (Nat.pow_pos (by decide)) hbound (by decide)
  have hunpack : (Float.ofModel (.pack (ofScaled .binary64 s d.coefficient 10
      d.exponent))).toModel.unpack = ofScaled .binary64 s d.coefficient 10 d.exponent :=
    unpack_pack hrepresentable
  rcases Decimal.exists_roundsAt_ofScaled s (Decimal.value_pos hm hfits) with
    ⟨t, n, hrounds, hwritten⟩
  have hcontains := Decimal.contains_of_roundsAt hm hfits hmin hmax hlog hrounds hexception
  have hn : 0 < n := by
    rcases Nat.eq_zero_or_pos n with rfl | hn
    · have hlow := hcontains.low
      have hpositive := Decimal.Interval.low_pos .binary32 hm e
      rw [Nat.cast_zero, zero_mul] at hlow
      exact absurd hlow (not_le.mpr hpositive)
    · exact hn
  rcases exists_written_eq (S := .binary64) (s := s) (t := t) hn with ⟨m', e', hm', heq, hvalue⟩
  rw [hvalue] at hcontains
  unfold narrow
  rw [hunpack, hwritten, heq]
  show Float32.ofModel (.pack (round .binary32 s m' e')) = _
  rw [Decimal.Interval.round_of_contains s hm hcanonical (Nat.ne_of_gt hm') hcontains]

theorem reread_of_unpack_ne {x : Float32}
    (h : forall s hm, x.toModel.unpack ≠ .finite s 11420669 (-107) hm) : reread x = x := by
  have hrepresentable := representable_single x
  have hpack := pack_unpack_single x
  cases hunpack : x.toModel.unpack with
  | notANumber =>
      rw [hunpack] at hpack
      have hread : readFloat (text32 x) = .ok nan := by
        unfold text32
        rw [hunpack]
        rfl
      rw [reread_of_readFloat hread, ← hpack]
      decide
  | infinity s =>
      rw [hunpack] at hpack
      cases s with
      | positive =>
          have hread : readFloat (text32 x) = .ok infinity := by
            unfold text32
            rw [hunpack]
            rfl
          rw [reread_of_readFloat hread, ← hpack]
          decide
      | negative =>
          have hread : readFloat (text32 x) = .ok (-infinity) := by
            unfold text32
            rw [hunpack]
            rfl
          rw [reread_of_readFloat hread, ← hpack]
          decide
  | zero s =>
      rw [hunpack] at hpack
      have hread := Decimal.readFloat_text_of_bound ⟨0, 0⟩ s (by decide) (by decide)
      have htext : text32 x = Layout.signText s ++ (⟨0, 0⟩ : Decimal).text := by
        unfold text32
        rw [hunpack]
        cases s <;> rfl
      rw [← htext] at hread
      rw [reread_of_readFloat hread, ← hpack]
      cases s <;> decide
  | finite s m e hm =>
      rw [hunpack] at hrepresentable hpack
      rcases Decimal.shortest_single hm s hrepresentable with ⟨hbound, hsmall⟩
      have hread := Decimal.readFloat_text_of_bound _ s hbound hsmall
      have htext : text32 x = Layout.signText s ++ (Decimal.shortest .binary32 m e).text := by
        unfold text32
        rw [hunpack]
        cases s <;> rfl
      have hexception : ¬(e = -107 ∧ m = 11420669) := by
        rintro ⟨rfl, rfl⟩
        exact h s hm hunpack
      rw [← htext] at hread
      rw [reread_of_readFloat hread, narrow_ofScaled_shortest hm s hrepresentable hexception,
        hpack]

theorem reread_exception :
    reread (Float32.ofBits 0x15ae43fd) = Float32.ofBits 0x15ae43fe ∧
      reread (Float32.ofBits 0x95ae43fd) = Float32.ofBits 0x95ae43fe := by
  decide +kernel

theorem toBits_exception (hm : 0 < 11420669) :
    (Float32.ofModel (.pack (.finite .positive 11420669 (-107) hm))).toBits = 0x15ae43fd ∧
      (Float32.ofModel (.pack (.finite .negative 11420669 (-107) hm))).toBits = 0x95ae43fd := by
  revert hm
  decide +kernel

theorem reread_eq_iff (x : Float32) :
    reread x = x ↔ x.toBits ≠ 0x15ae43fd ∧ x.toBits ≠ 0x95ae43fd := by
  constructor
  · intro hsame
    constructor
    · intro hbits
      rw [← Float32.ofBits_toBits x, hbits, reread_exception.1] at hsame
      exact absurd hsame (by decide +kernel)
    · intro hbits
      rw [← Float32.ofBits_toBits x, hbits, reread_exception.2] at hsame
      exact absurd hsame (by decide +kernel)
  · rintro ⟨hpositive, hnegative⟩
    apply reread_of_unpack_ne
    intro s hm hunpack
    have hx := pack_unpack_single x
    rw [hunpack] at hx
    cases s with
    | positive =>
        apply hpositive
        rw [← hx]
        exact (toBits_exception hm).1
    | negative =>
        apply hnegative
        rw [← hx]
        exact (toBits_exception hm).2

end Number
end VectorMachine
