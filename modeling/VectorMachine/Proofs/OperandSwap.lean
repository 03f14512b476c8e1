import VectorMachine.Opcode.Catalog
import VectorMachine.Proofs.FloatFormats

/-!
# Operands that may be swapped

The catalog marks operations whose first two operands may be swapped.  Sums and
products keep that promise whatever the numbers are.  A difference changes its sign,
and so does the cross product, which carries the mark all the same.
-/

namespace VectorMachine
namespace Number

open Float.Model (Format UnpackedFloat)
open Float.Model.UnpackedFloat

/-!
## Sums and products
-/

section Unpacked

variable {S : Format}

theorem sign_mul_comm (s t : Sign) : s * t = t * s := by
  cases s <;> cases t <;> rfl

theorem unpacked_add_comm (u v : UnpackedFloat) :
    UnpackedFloat.add S u v = UnpackedFloat.add S v u := by
  cases u with
  | finite s m e hm =>
      cases v with
      | finite t n f hn =>
          unfold UnpackedFloat.add
          simp only [Int.min_comm f e]
          rw [Int.add_comm]
      | _ => rfl
  | infinity s =>
      cases v with
      | infinity t => cases s <;> cases t <;> rfl
      | _ => rfl
  | zero s =>
      cases v with
      | zero t => cases s <;> cases t <;> rfl
      | _ => rfl
  | notANumber => cases v <;> rfl

theorem unpacked_mul_comm (u v : UnpackedFloat) :
    UnpackedFloat.mul S u v = UnpackedFloat.mul S v u := by
  cases u with
  | finite s m e hm =>
      cases v with
      | finite t n f hn =>
          show roundWithAccuracy S (s * t) (m * n) (e + f) .exact =
            roundWithAccuracy S (t * s) (n * m) (f + e) .exact
          rw [sign_mul_comm, Nat.mul_comm, Int.add_comm]
      | notANumber => rfl
      | infinity t => exact congrArg UnpackedFloat.infinity (sign_mul_comm s t)
      | zero t => exact congrArg UnpackedFloat.zero (sign_mul_comm s t)
  | infinity s =>
      cases v with
      | zero t => rfl
      | notANumber => rfl
      | infinity t => exact congrArg UnpackedFloat.infinity (sign_mul_comm s t)
      | finite t => exact congrArg UnpackedFloat.infinity (sign_mul_comm s t)
  | zero s =>
      cases v with
      | infinity t => rfl
      | notANumber => rfl
      | zero t => exact congrArg UnpackedFloat.zero (sign_mul_comm s t)
      | finite t => exact congrArg UnpackedFloat.zero (sign_mul_comm s t)
  | notANumber => cases v <;> rfl

end Unpacked

theorem single_add_comm (a b : Float32) : a + b = b + a :=
  congrArg (fun u => Float32.ofModel (.pack u))
    (unpacked_add_comm a.toModel.unpack b.toModel.unpack)

theorem single_mul_comm (a b : Float32) : a * b = b * a :=
  congrArg (fun u => Float32.ofModel (.pack u))
    (unpacked_mul_comm a.toModel.unpack b.toModel.unpack)

/-!
## Differences
-/

section Unpacked

variable {S : Format}

theorem sign_neg_neg (s : Sign) : - -s = s := by
  cases s <;> rfl

theorem normalize_neg {m : Int} (hm : m ≠ 0) (e : Int) (s : Sign) :
    UnpackedFloat.normalize S (-m) e s = (UnpackedFloat.normalize S m e s).neg := by
  have hround : forall (s : Sign) (n : Nat),
      UnpackedFloat.round S (-s) n e = (UnpackedFloat.round S s n e).neg := by
    intro s n
    unfold UnpackedFloat.round roundWithAccuracy
    simp only
    split <;> rfl
  unfold UnpackedFloat.normalize
  rcases Int.lt_or_gt_of_ne hm with hneg | hpos
  · rw [Int.compare_eq_lt.mpr hneg, Int.compare_eq_gt.mpr (by omega)]
    exact hround .negative (-m).toNat
  · rw [Int.compare_eq_gt.mpr hpos, Int.compare_eq_lt.mpr (by omega)]
    simp only [Int.neg_neg]
    exact hround .positive m.toNat

theorem unpacked_sub_swap (u v : UnpackedFloat) :
    UnpackedFloat.sub S v u = (UnpackedFloat.sub S u v).neg ∨
      exists s t, UnpackedFloat.sub S u v = .zero s ∧ UnpackedFloat.sub S v u = .zero t := by
  cases u with
  | notANumber =>
      left
      cases v <;> rfl
  | infinity s =>
      left
      cases v with
      | infinity t => cases s <;> cases t <;> rfl
      | _ => rfl
  | zero s =>
      cases v with
      | zero t =>
          right
          cases s <;> cases t <;> exact ⟨_, _, rfl, rfl⟩
      | notANumber => exact Or.inl rfl
      | infinity t => exact Or.inl (congrArg UnpackedFloat.infinity (sign_neg_neg t).symm)
      | finite t n f hn =>
          left
          show UnpackedFloat.finite t n f hn = .finite (- -t) n f hn
          rw [sign_neg_neg]
  | finite s m e hm =>
      cases v with
      | finite t n f hn =>
          have hsub : forall (s t : Sign) {m n : Nat} {e f : Int} (hm : 0 < m) (hn : 0 < n),
              UnpackedFloat.sub S (.finite s m e hm) (.finite t n f hn) =
                UnpackedFloat.normalize S (s.apply (m <<< (e - min e f).toNat : Nat) -
                  t.apply (n <<< (f - min e f).toNat : Nat)) (min e f) .positive :=
            fun _ _ _ _ _ _ _ _ => rfl
          rw [hsub, hsub, Int.min_comm f e]
          generalize s.apply (m <<< (e - min e f).toNat : Nat) = p
          generalize t.apply (n <<< (f - min e f).toNat : Nat) = q
          by_cases hpq : p - q = 0
          · right
            have hqp : q - p = 0 := by omega
            rw [hpq, hqp]
            exact ⟨.positive, .positive, rfl, rfl⟩
          · left
            rw [← normalize_neg hpq, Int.neg_sub]
      | infinity t => exact Or.inl (congrArg UnpackedFloat.infinity (sign_neg_neg t).symm)
      | _ => exact Or.inl rfl

theorem exists_pack_finite (S : Format) {m : Nat} (e : Int) (hm : 0 < m) :
    exists x y, forall s, pack S (.finite s m e hm) = packComponents S s x y := by
  unfold pack
  simp only
  split
  · exact ⟨_, _, fun _ => rfl⟩
  · split
    · exact ⟨_, _, fun _ => rfl⟩
    · exact ⟨_, _, fun _ => rfl⟩

theorem unpack_pack_neg (u : UnpackedFloat) :
    unpack S (pack S u.neg) = (unpack S (pack S u)).neg := by
  cases u with
  | notANumber =>
      show unpack S (packedNaN S) = (unpack S (packedNaN S)).neg
      rw [unpack_packedNaN]
      rfl
  | infinity s =>
      show unpack S (packedInfinity S (-s)) = (unpack S (packedInfinity S s)).neg
      rw [unpack_packedInfinity, unpack_packedInfinity]
      rfl
  | zero s =>
      show unpack S (packedZero S (-s)) = (unpack S (packedZero S s)).neg
      rw [unpack_packedZero, unpack_packedZero]
      rfl
  | finite s m e hm =>
      rcases exists_pack_finite S e hm with ⟨x, y, hpack⟩
      show unpack S (pack S (.finite (-s) m e hm)) = _
      rw [hpack, hpack, unpack_packComponents, unpack_packComponents]
      split
      · split <;> rfl
      · split
        · split <;> rfl
        · rfl

end Unpacked

theorem neg_ofModel_pack (u : UnpackedFloat) :
    -Float32.ofModel (.pack u) = Float32.ofModel (.pack u.neg) := by
  have hneg : -Float32.ofModel (.pack u) =
      Float32.ofModel (.pack (unpack .binary32 (pack .binary32 u)).neg) := rfl
  rw [hneg, ← unpack_pack_neg]
  exact pack_unpack_single (Float32.ofModel (.pack u.neg))

/-- The second number is the first with its sign changed, or both are zero. -/
def Opposite (a b : Float32) : Prop :=
  b = -a ∨ (a == 0) = true ∧ (b == 0) = true

instance (a b : Float32) : Decidable (Opposite a b) :=
  inferInstanceAs (Decidable (_ ∨ _))

theorem opposite_sub (a b : Float32) : Opposite (a - b) (b - a) := by
  have hsub : forall x y : Float32,
      x - y = Float32.ofModel
        (.pack (UnpackedFloat.sub .binary32 x.toModel.unpack y.toModel.unpack)) :=
    fun _ _ => rfl
  rw [hsub, hsub]
  rcases unpacked_sub_swap (S := .binary32) a.toModel.unpack b.toModel.unpack with
    hneg | ⟨s, t, hab, hba⟩
  · left
    rw [hneg, neg_ofModel_pack]
  · right
    have hzero : forall s : Sign, (Float32.ofModel (.pack (.zero s)) == 0) = true := by
      intro s
      cases s <;> decide
    rw [hab, hba]
    exact ⟨hzero s, hzero t⟩

end Number

/-!
## Kernels
-/

namespace Kernel

open Number (Opposite opposite_sub single_add_comm single_mul_comm)

theorem add_swap (a b : Vec4) : add a b = add b a := by
  simp only [add, Vec4.zip, single_add_comm]

theorem mul_swap (a b : Vec4) : mul a b = mul b a := by
  simp only [mul, Vec4.zip, single_mul_comm]

theorem mad_swap (a b c : Vec4) : mad a b c = mad b a c := by
  unfold mad
  rw [mul_swap]

theorem cross_swap (a b : Vec4) :
    List.Forall₂ Opposite (cross a b).toList (cross b a).toList := by
  have hdifference : forall p q r s : Float32, Opposite (p * q - r * s) (s * r - q * p) := by
    intro p q r s
    rw [single_mul_comm s r, single_mul_comm q p]
    exact opposite_sub (p * q) (r * s)
  have hzero : Opposite 0 0 := by decide
  exact .cons (hdifference _ _ _ _) (.cons (hdifference _ _ _ _) (.cons (hdifference _ _ _ _)
    (.cons hzero .nil)))

end Kernel

namespace Catalog

open Number (Opposite)

theorem op_of_commutative : forall entry, entry ∈ entries -> entry.flags.commutative = true ->
    entry.op = .add ∨ entry.op = .mul ∨ entry.op = .mad ∨ entry.op = .cross := by
  decide

/-- The first two operands of a kernel may be swapped where the catalog says so, except
for the cross product, whose components all change their sign. -/
theorem swap_of_commutative {entry : Entry} (hentry : entry ∈ entries)
    (hflag : entry.flags.commutative = true) :
    exists kernel, entry.op.kernel? = some kernel ∧
      (entry.op ≠ .cross -> forall drawn a b rest,
        kernel.eval drawn (a :: b :: rest) = kernel.eval drawn (b :: a :: rest)) ∧
      (entry.op = .cross -> forall drawn a b,
        List.Forall₂ Opposite (kernel.eval drawn [a, b]).toList
          (kernel.eval drawn [b, a]).toList) := by
  have hbinary : forall {f : Vec4 -> Vec4 -> Vec4}, (forall a b, f a b = f b a) ->
      forall drawn a b rest, (Kernel.binary f).eval drawn (a :: b :: rest) =
        (Kernel.binary f).eval drawn (b :: a :: rest) := by
    intro f hf drawn a b rest
    cases rest with
    | nil => exact hf a b
    | cons c rest => rfl
  rcases op_of_commutative entry hentry hflag with hop | hop | hop | hop
  · rw [hop]
    exact ⟨_, rfl, fun _ => hbinary Kernel.add_swap, fun h => absurd h (by decide)⟩
  · rw [hop]
    exact ⟨_, rfl, fun _ => hbinary Kernel.mul_swap, fun h => absurd h (by decide)⟩
  · rw [hop]
    refine ⟨_, rfl, ?_, fun h => absurd h (by decide)⟩
    intro _ drawn a b rest
    cases rest with
    | nil => rfl
    | cons c rest =>
        cases rest with
        | nil => exact Kernel.mad_swap a b c
        | cons d rest => rfl
  · rw [hop]
    exact ⟨_, rfl, fun h => absurd rfl h, fun _ _ => Kernel.cross_swap⟩

/-- Infinities, zeros of both signs, and a number that is none. -/
def unruly : Vec4 :=
  ⟨Float32.ofBits 0x7f800000, Float32.ofBits 0x80000000, Float32.ofBits 0x7fc00000, 1⟩

def tame : Vec4 :=
  ⟨0, Float32.ofBits 1, -2, Float32.ofBits 0x7f7fffff⟩

theorem swap_of_commutative_mad :
    entryAt 7 ∈ entries ∧ (entryAt 7).flags.commutative = true ∧ (entryAt 7).op ≠ .cross ∧
      Kernel.mad unruly tame tame = Kernel.mad tame unruly tame := by
  have hentry : entryAt 7 ∈ entries := by decide
  have hflag : (entryAt 7).flags.commutative = true := by decide
  have hop : (entryAt 7).op ≠ .cross := by decide
  rcases swap_of_commutative hentry hflag with ⟨kernel, hkernel, hswap, _⟩
  have hmad : kernel = .trinary Kernel.mad := (Option.some.inj hkernel).symm
  subst hmad
  exact ⟨hentry, hflag, hop, hswap hop Vec4.zero unruly tame [tame]⟩

/-- The cross product carries the mark, but its operands may not be swapped. -/
theorem cross_of_swapped_axes :
    entryAt 55 ∈ entries ∧ (entryAt 55).flags.commutative = true ∧
      (entryAt 55).op.kernel? = some (.binary Kernel.cross) ∧
      Kernel.cross ⟨1, 0, 0, 0⟩ ⟨0, 1, 0, 0⟩ ≠ Kernel.cross ⟨0, 1, 0, 0⟩ ⟨1, 0, 0, 0⟩ := by
  refine ⟨by decide, by decide, rfl, ?_⟩
  decide +kernel

end Catalog
end VectorMachine
