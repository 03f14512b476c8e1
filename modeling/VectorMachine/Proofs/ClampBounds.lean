import VectorMachine.Kernel
import VectorMachine.Proofs.FloatFormats

/-!
# Bounded numbers

Numbers are compared as the extended reals that they stand for; one that stands for
none is neither less nor greater than anything.  Choosing by such comparisons alone, a
number is kept between two bounds whatever it is, the upper bound wins where the bounds
cross, and bounding once more changes no bit.
-/

namespace VectorMachine
namespace Number

open Float.Model (Format UnpackedFloat)
open Float.Model.UnpackedFloat

/-!
## The order of numbers
-/

noncomputable def extended? : UnpackedFloat -> Option EReal
  | .notANumber => none
  | .infinity .positive => some ⊤
  | .infinity .negative => some ⊥
  | .zero _ => some 0
  | .finite .positive m e _ => some ((m * 2 ^ e : ℝ) : EReal)
  | .finite .negative m e _ => some ((-(m * 2 ^ e) : ℝ) : EReal)

section Canonical

variable {S : Format} {m n : Nat} {e f : Int}

theorem scaled_lt_of_exponent_lt (hn : 0 < n) (hcanonical : Canonical S m e)
    (hcanonical' : Canonical S n f) (h : e < f) : (m * 2 ^ e : ℝ) < n * 2 ^ f := by
  rcases canonical_iff.mp hcanonical with ⟨hbits, hlow, _⟩
  rcases canonical_iff.mp hcanonical' with ⟨_, _, hfull⟩
  have hfull : n.log2 = S.mantissaBitsWithoutImplicit := hfull.resolve_right (by omega)
  have hm : (m : ℝ) < 2 ^ (S.mantissaBitsWithoutImplicit + 1) := by
    have hlt : m < 2 ^ (m.log2 + 1) := Nat.lt_log2_self
    have hle : 2 ^ (m.log2 + 1) ≤ 2 ^ (S.mantissaBitsWithoutImplicit + 1) :=
      Nat.pow_le_pow_right (by decide) (by omega)
    exact_mod_cast Nat.lt_of_lt_of_le hlt hle
  have hn : (2 ^ S.mantissaBitsWithoutImplicit : ℝ) ≤ n := by
    have hle := Nat.log2_self_le (Nat.ne_of_gt hn)
    rw [hfull] at hle
    exact_mod_cast hle
  have hexponent : (2 : ℝ) ^ (e + 1) ≤ 2 ^ f := zpow_le_zpow_right₀ (by norm_num) (by omega)
  calc (m * 2 ^ e : ℝ) < 2 ^ (S.mantissaBitsWithoutImplicit + 1) * 2 ^ e := by gcongr
    _ = 2 ^ S.mantissaBitsWithoutImplicit * 2 ^ (e + 1) := by
        rw [zpow_add_one₀ two_ne_zero]
        ring
    _ ≤ n * 2 ^ f := by gcongr

theorem cmp_scaled (hm : 0 < m) (hn : 0 < n) (hcanonical : Canonical S m e)
    (hcanonical' : Canonical S n f) :
    cmp (m * 2 ^ e : ℝ) (n * 2 ^ f) = (compare e f).then (compare m n) := by
  rcases lt_trichotomy e f with hlt | rfl | hgt
  · rw [Int.compare_eq_lt.mpr hlt]
    exact (scaled_lt_of_exponent_lt hn hcanonical hcanonical' hlt).cmp_eq_lt
  · have hscaled : StrictMono fun k : Nat => (k * 2 ^ e : ℝ) := fun j k hjk =>
      mul_lt_mul_of_pos_right (Nat.cast_lt.mpr hjk) (zpow_pos two_pos e)
    rw [Int.compare_eq_eq.mpr rfl]
    exact (hscaled.cmp_map_eq m n).trans (cmp_eq_compare m n)
  · rw [Int.compare_eq_gt.mpr hgt]
    exact (scaled_lt_of_exponent_lt hm hcanonical' hcanonical hgt).cmp_eq_gt

end Canonical

/-- Comparing two representable numbers is comparing what they stand for. -/
theorem compare_eq_cmp {S : Format} {u v : UnpackedFloat} (hu : Representable S u)
    (hv : Representable S v) :
    u.compare v = (extended? u).bind fun a => (extended? v).map fun b => cmp a b := by
  have hlt : forall {a b : EReal}, a < b -> some Ordering.lt = some (cmp a b) :=
    fun h => congrArg some h.cmp_eq_lt.symm
  have hgt : forall {a b : EReal}, b < a -> some Ordering.gt = some (cmp a b) :=
    fun h => congrArg some h.cmp_eq_gt.symm
  have heq : forall a : EReal, some Ordering.eq = some (cmp a a) :=
    fun a => congrArg some (cmp_self_eq_eq a).symm
  have hpositive : forall {m : Nat} (e : Int), 0 < m ->
      (0 : EReal) < ((m * 2 ^ e : ℝ) : EReal) :=
    fun e hm => EReal.coe_pos.mpr (mul_pos (Nat.cast_pos.mpr hm) (zpow_pos two_pos e))
  have hnegative : forall {m : Nat} (e : Int), 0 < m -> ((-(m * 2 ^ e) : ℝ) : EReal) < 0 := by
    intro m e hm
    rw [EReal.coe_neg, EReal.neg_lt_comm, neg_zero]
    exact hpositive e hm
  cases u with
  | notANumber => rfl
  | infinity s =>
      cases v with
      | notANumber => cases s <;> rfl
      | infinity t =>
          cases s <;> cases t
          · exact heq ⊥
          · exact hlt bot_lt_top
          · exact hgt bot_lt_top
          · exact heq ⊤
      | zero t =>
          cases s
          · exact hlt EReal.bot_lt_zero
          · exact hgt EReal.zero_lt_top
      | finite t n f hn =>
          cases s <;> cases t
          · exact hlt (EReal.bot_lt_coe _)
          · exact hlt (EReal.bot_lt_coe _)
          · exact hgt (EReal.coe_lt_top _)
          · exact hgt (EReal.coe_lt_top _)
  | zero s =>
      cases v with
      | notANumber => rfl
      | infinity t =>
          cases t
          · exact hgt EReal.bot_lt_zero
          · exact hlt EReal.zero_lt_top
      | zero t => exact heq 0
      | finite t n f hn =>
          cases t
          · exact hgt (hnegative f hn)
          · exact hlt (hpositive f hn)
  | finite s m e hm =>
      cases v with
      | notANumber => cases s <;> rfl
      | infinity t =>
          cases s <;> cases t
          · exact hgt (EReal.bot_lt_coe _)
          · exact hlt (EReal.coe_lt_top _)
          · exact hgt (EReal.bot_lt_coe _)
          · exact hlt (EReal.coe_lt_top _)
      | zero t =>
          cases s
          · exact hlt (hnegative e hm)
          · exact hgt (hpositive e hm)
      | finite t n f hn =>
          have hscaled := cmp_scaled hm hn hu.1 hv.1
          cases s <;> cases t
          · show some ((compare e f).then (compare m n)).swap = some (cmp _ _)
            have hanti : StrictAnti fun x : ℝ => -x := fun _ _ => neg_lt_neg
            rw [← hscaled, EReal.coe_strictMono.cmp_map_eq, cmp_swap, hanti.cmp_map_eq]
          · exact hlt ((hnegative e hm).trans (hpositive f hn))
          · exact hgt ((hnegative f hn).trans (hpositive e hm))
          · show some ((compare e f).then (compare m n)) = some (cmp _ _)
            rw [← hscaled, EReal.coe_strictMono.cmp_map_eq]

noncomputable def value? (x : Float32) : Option EReal :=
  extended? x.toModel.unpack

/-- Two numbers stand for extended reals, and these are so related. -/
def Related (r : EReal -> EReal -> Prop) (x y : Float32) : Prop :=
  exists a b, value? x = some a ∧ value? y = some b ∧ r a b

section Related

variable {x y z : Float32}

theorem compare_eq_some_iff (o : Ordering) :
    x.toModel.unpack.compare y.toModel.unpack = some o ↔
      Related (fun a b => cmp a b = o) x y := by
  rw [compare_eq_cmp (representable_single x) (representable_single y),
    Option.bind_eq_some_iff]
  constructor
  · rintro ⟨a, ha, hmap⟩
    rcases Option.map_eq_some_iff.mp hmap with ⟨b, hb, hcmp⟩
    exact ⟨a, b, ha, hb, hcmp⟩
  · rintro ⟨a, b, ha, hb, hcmp⟩
    exact ⟨a, ha, Option.map_eq_some_iff.mpr ⟨b, hb, hcmp⟩⟩

theorem related_congr {r t : EReal -> EReal -> Prop} (h : forall a b, r a b ↔ t a b) :
    Related r x y ↔ Related t x y := by
  simp only [Related, h]

theorem lt_iff_related : x < y ↔ Related (· < ·) x y := by
  have hcompare : x < y ↔ x.toModel.unpack.compare y.toModel.unpack = some .lt := by
    show decide (x.toModel.unpack.lt y.toModel.unpack = true) = true ↔ _
    rw [decide_eq_true_iff]
    exact beq_iff_eq
  rw [hcompare, compare_eq_some_iff]
  exact related_congr cmp_eq_lt_iff

theorem beq_iff_related : (x == y) = true ↔ Related (· = ·) x y := by
  have hcompare : (x == y) = true ↔ x.toModel.unpack.compare y.toModel.unpack = some .eq := by
    show x.toModel.unpack.beq y.toModel.unpack = true ↔ _
    exact beq_iff_eq
  rw [hcompare, compare_eq_some_iff]
  exact related_congr cmp_eq_eq_iff

theorem le_iff_related : x ≤ y ↔ Related (· ≤ ·) x y := by
  have hcompare : x ≤ y ↔
      exists o, x.toModel.unpack.compare y.toModel.unpack = some o ∧ o.isLE = true := by
    show decide (x.toModel.unpack.le y.toModel.unpack = true) = true ↔ _
    rw [decide_eq_true_iff]
    exact Option.any_eq_true _ _
  have hle : forall a b : EReal, (cmp a b).isLE = true ↔ a ≤ b := by
    intro a b
    rw [Ordering.isLE_iff_ne_gt, cmp_eq_gt_iff, not_lt]
  rw [hcompare]
  simp only [compare_eq_some_iff]
  constructor
  · rintro ⟨o, ⟨a, b, ha, hb, rfl⟩, ho⟩
    exact ⟨a, b, ha, hb, (hle a b).mp ho⟩
  · rintro ⟨a, b, ha, hb, hab⟩
    exact ⟨cmp a b, ⟨a, b, ha, hb, rfl⟩, (hle a b).mpr hab⟩

theorem single_lt_irrefl (x : Float32) : ¬x < x := by
  rw [lt_iff_related]
  rintro ⟨a, b, ha, hb, hlt⟩
  rw [ha] at hb
  cases hb
  exact lt_irrefl a hlt

theorem single_lt_trans (hxy : x < y) (hyz : y < z) : x < z := by
  rcases lt_iff_related.mp hxy with ⟨a, b, ha, hb, hab⟩
  rcases lt_iff_related.mp hyz with ⟨b', c, hb', hc, hbc⟩
  rw [hb] at hb'
  cases hb'
  exact lt_iff_related.mpr ⟨a, c, ha, hc, hab.trans hbc⟩

theorem single_lt_asymm (h : x < y) : ¬y < x :=
  fun hback => single_lt_irrefl x (single_lt_trans h hback)

theorem single_le_of_lt (h : x < y) : x ≤ y := by
  rcases lt_iff_related.mp h with ⟨a, b, ha, hb, hab⟩
  exact le_iff_related.mpr ⟨a, b, ha, hb, hab.le⟩

/-- Numbers that can be compared with another can be compared with themselves. -/
theorem single_le_self_of_le (h : x ≤ y) : x ≤ x ∧ y ≤ y := by
  rcases le_iff_related.mp h with ⟨a, b, ha, hb, _⟩
  exact ⟨le_iff_related.mpr ⟨a, a, ha, ha, le_rfl⟩, le_iff_related.mpr ⟨b, b, hb, hb, le_rfl⟩⟩

theorem single_le_trans (hxy : x ≤ y) (hyz : y ≤ z) : x ≤ z := by
  rcases le_iff_related.mp hxy with ⟨a, b, ha, hb, hab⟩
  rcases le_iff_related.mp hyz with ⟨b', c, hb', hc, hbc⟩
  rw [hb] at hb'
  cases hb'
  exact le_iff_related.mpr ⟨a, c, ha, hc, hab.trans hbc⟩

/-- Numbers that are in order both ways are equal, be it zeros of two signs. -/
theorem single_beq_of_le (hxy : x ≤ y) (hyx : y ≤ x) : (x == y) = true := by
  rcases le_iff_related.mp hxy with ⟨a, b, ha, hb, hab⟩
  rcases le_iff_related.mp hyx with ⟨b', a', hb', ha', hba⟩
  rw [ha] at ha'
  rw [hb] at hb'
  cases ha'
  cases hb'
  exact beq_iff_related.mpr ⟨a, b, ha, hb, le_antisymm hab hba⟩

theorem single_le_of_not_lt (hlt : ¬x < y) (hle : x ≤ y) : y ≤ x := by
  rcases le_iff_related.mp hle with ⟨a, b, ha, hb, hab⟩
  refine le_iff_related.mpr ⟨b, a, hb, ha, ?_⟩
  by_contra hba
  exact hlt (lt_iff_related.mpr ⟨a, b, ha, hb, not_le.mp hba⟩)

end Related

end Number

/-!
## Choosing
-/

namespace Kernel

open Number

section Choose

variable {α : Type} (number : α -> Float32)

/-- The one that stands for the lesser number; the second when the numbers are equal or
unordered. -/
def lesserBy (a b : α) : α :=
  if number a < number b then a else b

/-- The one that stands for the greater number; the second when the numbers are equal or
unordered. -/
def greaterBy (a b : α) : α :=
  if number b < number a then a else b

def boundedBy (a low high : α) : α :=
  lesserBy number (greaterBy number a low) high

theorem boundedBy_cases (a low high : α) :
    (number low < number a ∧ number a < number high ∧ boundedBy number a low high = a) ∨
      (¬number low < number a ∧ number low < number high ∧ boundedBy number a low high = low) ∨
      (number low < number a ∧ ¬number a < number high ∧ boundedBy number a low high = high) ∨
      (¬number low < number a ∧ ¬number low < number high ∧
        boundedBy number a low high = high) := by
  unfold boundedBy lesserBy greaterBy
  by_cases hlow : number low < number a
  · rw [if_pos hlow]
    by_cases hhigh : number a < number high
    · exact Or.inl ⟨hlow, hhigh, if_pos hhigh⟩
    · exact Or.inr (Or.inr (Or.inl ⟨hlow, hhigh, if_neg hhigh⟩))
  · rw [if_neg hlow]
    by_cases hhigh : number low < number high
    · exact Or.inr (Or.inl ⟨hlow, hhigh, if_pos hhigh⟩)
    · exact Or.inr (Or.inr (Or.inr ⟨hlow, hhigh, if_neg hhigh⟩))

/-- The numbers alone decide, so that it makes no difference when they are taken. -/
theorem number_boundedBy (a low high : α) :
    number (boundedBy number a low high) =
      boundedBy id (number a) (number low) (number high) := by
  unfold boundedBy lesserBy greaterBy
  simp only [id_eq, apply_ite number]

theorem boundedBy_of_crossed {low high : α} (h : number high < number low) (a : α) :
    boundedBy number a low high = high := by
  rcases boundedBy_cases number a low high with
    ⟨hlow, hhigh, _⟩ | ⟨_, hlow, _⟩ | ⟨_, _, hchoice⟩ | ⟨_, _, hchoice⟩
  · exact absurd h (single_lt_asymm (single_lt_trans hlow hhigh))
  · exact absurd h (single_lt_asymm hlow)
  · exact hchoice
  · exact hchoice

theorem boundedBy_high (low high : α) : boundedBy number high low high = high := by
  rcases boundedBy_cases number high low high with
    ⟨_, _, hchoice⟩ | ⟨hnot, hlow, _⟩ | ⟨_, _, hchoice⟩ | ⟨_, _, hchoice⟩
  · exact hchoice
  · exact absurd hlow hnot
  · exact hchoice
  · exact hchoice

/-- What has been bounded stays as it is, also where the bounds are no numbers. -/
theorem boundedBy_boundedBy (a low high : α) :
    boundedBy number (boundedBy number a low high) low high = boundedBy number a low high := by
  rcases boundedBy_cases number a low high with
    ⟨_, _, hchoice⟩ | ⟨_, hhigh, hchoice⟩ | ⟨_, _, hchoice⟩ | ⟨_, _, hchoice⟩
  · rw [hchoice, hchoice]
  · have hself : greaterBy number low low = low := ite_self low
    rw [hchoice, boundedBy, hself]
    exact if_pos hhigh
  · rw [hchoice, boundedBy_high]
  · rw [hchoice, boundedBy_high]

end Choose

/-!
## Bounds
-/

structure Bounded (x low high r : Float32) : Prop where
  low_le : low ≤ high -> low ≤ r
  le_high : low ≤ high -> r ≤ high
  kept : low ≤ x -> x ≤ high -> (r == x) = true
  crossed : high < low -> r = high

theorem bounded_boundedBy (x low high : Float32) :
    Bounded x low high (boundedBy id x low high) where
  low_le := by
    intro hle
    rcases boundedBy_cases id x low high with
      ⟨hlow, _, hchoice⟩ | ⟨_, _, hchoice⟩ | ⟨_, _, hchoice⟩ | ⟨_, _, hchoice⟩
    · rw [hchoice]
      exact single_le_of_lt hlow
    · rw [hchoice]
      exact (single_le_self_of_le hle).1
    · rw [hchoice]
      exact hle
    · rw [hchoice]
      exact hle
  le_high := by
    intro hle
    rcases boundedBy_cases id x low high with
      ⟨_, hhigh, hchoice⟩ | ⟨_, _, hchoice⟩ | ⟨_, _, hchoice⟩ | ⟨_, _, hchoice⟩
    · rw [hchoice]
      exact single_le_of_lt hhigh
    · rw [hchoice]
      exact hle
    · rw [hchoice]
      exact (single_le_self_of_le hle).2
    · rw [hchoice]
      exact (single_le_self_of_le hle).2
  kept := by
    intro hlow hhigh
    rcases boundedBy_cases id x low high with
      ⟨_, _, hchoice⟩ | ⟨hnot, _, hchoice⟩ | ⟨_, hnot, hchoice⟩ | ⟨hnot, hnot', hchoice⟩
    · rw [hchoice]
      exact single_beq_of_le (single_le_self_of_le hhigh).1 (single_le_self_of_le hhigh).1
    · rw [hchoice]
      exact single_beq_of_le hlow (single_le_of_not_lt hnot hlow)
    · rw [hchoice]
      exact single_beq_of_le (single_le_of_not_lt hnot hhigh) hhigh
    · -- all three are equal
      have hback := single_le_of_not_lt hnot' (single_le_trans hlow hhigh)
      rw [hchoice]
      exact single_beq_of_le (single_le_trans hback hlow) hhigh
  crossed := fun h => boundedBy_of_crossed id h x

theorem clamp_component (x low high : Vec4) (k : Fin 4) :
    (clamp x low high).component k =
      boundedBy id (x.component k) (low.component k) (high.component k) := by
  fin_cases k <;> rfl

theorem clamp_clamp (x low high : Vec4) :
    clamp (clamp x low high) low high = clamp x low high := by
  have hzip : forall x low high : Vec4, clamp x low high =
      ⟨boundedBy id x.x low.x high.x, boundedBy id x.y low.y high.y,
        boundedBy id x.z low.z high.z, boundedBy id x.w low.w high.w⟩ := fun _ _ _ => rfl
  rw [hzip, hzip]
  simp only [boundedBy_boundedBy]

/-- Every component of a clamped vector lies between its bounds, is the number that was
there if this did too, and is the upper bound if the bounds cross.  Clamping once more
changes nothing.  The same holds for the bits: the result is one of the three patterns,
chosen by the numbers that these stand for, and it is chosen again, whichever patterns stand
for no number. -/
theorem clamp_bounds (x low high : Vec4) :
    (forall k, Bounded (x.component k) (low.component k) (high.component k)
      ((clamp x low high).component k)) ∧
    clamp (clamp x low high) low high = clamp x low high ∧
    (forall k (a b c : UInt32), Float32.ofBits a = x.component k ->
      Float32.ofBits b = low.component k -> Float32.ofBits c = high.component k ->
        Float32.ofBits (boundedBy Float32.ofBits a b c) = (clamp x low high).component k ∧
          (high.component k < low.component k -> boundedBy Float32.ofBits a b c = c) ∧
          boundedBy Float32.ofBits (boundedBy Float32.ofBits a b c) b c =
            boundedBy Float32.ofBits a b c) := by
  refine ⟨?_, clamp_clamp x low high, ?_⟩
  · intro k
    rw [clamp_component]
    exact bounded_boundedBy _ _ _
  · intro k a b c ha hb hc
    refine ⟨?_, ?_, boundedBy_boundedBy _ a b c⟩
    · rw [number_boundedBy Float32.ofBits, ha, hb, hc, clamp_component]
    · intro hcrossed
      rw [← hb, ← hc] at hcrossed
      exact boundedBy_of_crossed _ hcrossed a

/-- A NaN, an infinity, a negative zero and a number between crossed bounds. -/
def strayVector : Vec4 :=
  ⟨Float32.ofBits 0x7fc00001, Float32.ofBits 0x7f800000, Float32.ofBits 0x80000000, 1⟩

def lowVector : Vec4 :=
  ⟨Float32.ofBits 0xbf800000, -1, 0, 2⟩

def highVector : Vec4 :=
  ⟨Float32.ofBits 0x3f800000, 1, 0, -2⟩

theorem clamp_bounds_stray :
    (lowVector.component 0 ≤ highVector.component 0 ∧
      lowVector.component 0 ≤ (clamp strayVector lowVector highVector).component 0 ∧
      (clamp strayVector lowVector highVector).component 1 ≤ highVector.component 1) ∧
    ((clamp strayVector lowVector highVector).component 2 == strayVector.component 2) = true ∧
    (highVector.component 3 < lowVector.component 3 ∧
      (clamp strayVector lowVector highVector).component 3 = -2) ∧
    Float32.ofBits (boundedBy Float32.ofBits 0x7fc00001 0xbf800000 0x3f800000) =
      (clamp strayVector lowVector highVector).component 0 := by
  rcases clamp_bounds strayVector lowVector highVector with ⟨hbounded, _, hbits⟩
  have horder : forall k : Fin 4, k ≠ 3 -> lowVector.component k ≤ highVector.component k := by
    decide +kernel
  have hcrossed : highVector.component 3 < lowVector.component 3 := by decide +kernel
  refine ⟨⟨horder 0 (by decide), (hbounded 0).low_le (horder 0 (by decide)),
    (hbounded 1).le_high (horder 1 (by decide))⟩, (hbounded 2).kept ?_ ?_, ⟨hcrossed, ?_⟩,
    (hbits 0 _ _ _ rfl rfl rfl).1⟩
  · decide +kernel
  · decide +kernel
  · exact (hbounded 3).crossed hcrossed

end Kernel
end VectorMachine
