import VectorMachine.Container.Basic
import VectorMachine.Proofs.CborRoundTrip
import VectorMachine.Proofs.Numerals
import VectorMachine.Proofs.Results

/-!
# Programs read back

A program comes back from its container as it went in, whatever follows the
container: missing code apart from empty code, counts below zero, and every
component of every constant.
-/

namespace VectorMachine
namespace Container

open Cbor (Item Leaf Writable)
open Float.Model (Format UnpackedFloat)
open Number

/-!
## Components
-/

theorem unpack_maxSingle :
    maxSingle.toModel.unpack = .finite .positive ((2 ^ 24 - 1) <<< 29) 75 (by decide) :=
  rfl

theorem not_maxSingle_lt_widen (x : Float32) (h : (widen x).isFinite = true) :
    ¬maxSingle < (widen x).abs := by
  have hfinite : (widen x).toModel.unpack.isFinite = true := h
  have hx := representable_single x
  rw [lt_iff_unpack_lt, unpack_maxSingle, unpack_abs]
  rw [unpack_widen] at hfinite ⊢
  cases hcase : x.toModel.unpack with
  | infinity s =>
      rw [hcase] at hfinite
      cases hfinite
  | notANumber =>
      rw [hcase] at hfinite
      cases hfinite
  | zero s => exact Bool.false_ne_true
  | finite s m e hm =>
      rw [hcase] at hx
      rcases exists_refit_wider wider_single_double hx with ⟨k, hk, hrefit, hwide⟩
      have hhigh : e ≤ 104 := hx.2
      have hlog : m.log2 ≤ 23 := (canonical_iff.mp hx.1).1
      have hlt : m < 2 ^ 24 := (Nat.log2_lt (Nat.ne_of_gt hm)).mp (Nat.lt_succ_of_le hlog)
      have hform : (m <<< k).log2 = 52 ∨ e - k = -1074 := (canonical_iff.mp hwide.1).2.2
      rw [log2_shiftLeft (Nat.ne_of_gt hm)] at hform
      rw [hrefit]
      show ¬UnpackedFloat.lt _ (.finite .positive (m <<< k) (e - k) hk) = true
      rw [finite_lt_finite_iff]
      rintro (hexponent | ⟨hexponent, hmantissa⟩)
      · omega
      · -- only the widest numbers share the exponent of the largest one
        have hk : k = 29 := by omega
        subst hk
        rw [Nat.shiftLeft_eq, Nat.shiftLeft_eq] at hmantissa
        omega

theorem narrowInRange_widen (x : Float32) : narrowInRange (widen x) = some x := by
  unfold narrowInRange
  rw [if_neg, narrow_widen]
  rintro ⟨hlt, hfinite⟩
  exact not_maxSingle_lt_widen x hfinite hlt

theorem readComponent_float (x : Float32) : readComponent (.float (widen x)) = some x :=
  narrowInRange_widen x

/-!
## Fields
-/

theorem readVector_vectorItem (v : Vec4) : readVector (vectorItem v) = some v := by
  show ((v.toList.map fun x => Item.float (widen x)).mapM readComponent).map Vec4.ofList =
    some v
  rw [mapM_map_eq_some readComponent_float]
  rfl

theorem readConstants_constantsItem (constants : Option (List Vec4)) :
    readConstants (constantsItem constants) = some constants := by
  cases constants with
  | none => rfl
  | some constants =>
      show ((constants.map vectorItem).mapM readVector).map some = some (some constants)
      rw [mapM_map_eq_some readVector_vectorItem]
      rfl

theorem readCode_codeItem (code : Option Bytes) : readCode (codeItem code) = some code := by
  cases code <;> rfl

theorem readCount_unsigned {k : Nat} (h : fitsInt (k : Int) = true) :
    readCount (.unsigned k) = some (k : Int) := by
  simp [readCount, untag, isAbsent, Item.isAbsent, integer?, h]

theorem readCount_negative {k : Nat} (h : fitsInt (-1 - (k : Int)) = true) :
    readCount (.negative k) = some (-1 - (k : Int)) := by
  have hmagnitude : (k : Int) ≤ maxInt := by
    have hrange := (fitsInt_iff _).mp h
    unfold maxInt
    omega
  simp [readCount, untag, isAbsent, Item.isAbsent, integer?, hmagnitude, h]

theorem readCount_ofInt {n : Int} (h : fitsInt n = true) :
    readCount (Item.ofInt n) = some n := by
  cases n with
  | ofNat k => exact readCount_unsigned h
  | negSucc k =>
      have hvalue : Int.negSucc k = -1 - (k : Int) := by omega
      rw [hvalue] at h
      show readCount (.negative k) = some (Int.negSucc k)
      rw [hvalue]
      exact readCount_negative h

theorem readProgram_programItem {p : Program} (hinputs : fitsInt p.inputs = true)
    (houtputs : fitsInt p.outputs = true) : readProgram (programItem p) = some p := by
  show readFields ⟨some (codeItem p.code), some (constantsItem p.constants),
    some (Item.ofInt p.inputs), some (Item.ofInt p.outputs)⟩ = some p
  simp [readFields, readCode_codeItem, readConstants_constantsItem, readCount_ofInt hinputs,
    readCount_ofInt houtputs]

/-!
## Limits
-/

theorem leaf_ofInt {n : Int} (h : fitsInt n = true) : Leaf (Item.ofInt n) := by
  have hrange := (fitsInt_iff n).mp h
  cases n with
  | ofNat k =>
      have hk : (k : Int) < 2 ^ 63 := hrange.2
      show k < 2 ^ 64
      omega
  | negSucc k =>
      show k < 2 ^ 64
      omega

theorem leaf_codeItem {code : Option Bytes} (h : (code.getD []).length < 2 ^ 64) :
    Leaf (codeItem code) := by
  cases code with
  | none => exact Or.inl (by decide)
  | some code => exact h

theorem writable_of_leaf {levels : Nat} {item : Item} (h : Leaf item) :
    Writable levels item := by
  cases item with
  | array items => cases h
  | map entries => cases h
  | _ => cases levels <;> exact h

theorem writable_constantsItem (levels : Nat) {constants : Option (List Vec4)}
    (h : (constants.getD []).length ≤ Cbor.maxElements) :
    Writable (levels + 2) (constantsItem constants) := by
  cases constants with
  | none => exact Or.inl (by decide)
  | some constants =>
      refine ⟨by simpa using h, ?_⟩
      intro item hitem
      rcases List.mem_map.mp hitem with ⟨v, _, rfl⟩
      refine ⟨show 4 ≤ Cbor.maxElements by decide, ?_⟩
      intro component hcomponent
      rcases List.mem_map.mp hcomponent with ⟨x, _, rfl⟩
      exact writable_of_leaf trivial

theorem writable_programItem {p : Program} (hcode : p.codeBytes.length < 2 ^ 64)
    (hconstants : p.constantTable.length ≤ Cbor.maxElements)
    (hinputs : fitsInt p.inputs = true) (houtputs : fitsInt p.outputs = true) :
    Writable Cbor.maxDepth (programItem p) := by
  have hkey : forall n : Nat, n < 5 -> Writable 31 (.unsigned n) := by
    intro n hn
    show n < 2 ^ 64
    omega
  refine ⟨show 4 ≤ Cbor.maxElements by decide, ?_⟩
  intro entry hentry
  simp only [List.mem_cons, List.not_mem_nil, or_false] at hentry
  rcases hentry with rfl | rfl | rfl | rfl
  · exact ⟨hkey 1 (by decide), writable_of_leaf (leaf_codeItem hcode)⟩
  · exact ⟨hkey 2 (by decide), writable_constantsItem 29 hconstants⟩
  · exact ⟨hkey 3 (by decide), writable_of_leaf (leaf_ofInt hinputs)⟩
  · exact ⟨hkey 4 (by decide), writable_of_leaf (leaf_ofInt houtputs)⟩

theorem length_codeBytes_le (p : Program) :
    p.codeBytes.length ≤ (Cbor.write (programItem p)).length := by
  have hcode : p.codeBytes.length ≤ (Cbor.write (codeItem p.code)).length := by
    unfold Program.codeBytes
    cases p.code with
    | none => exact Nat.zero_le _
    | some code =>
        rw [codeItem, Cbor.write, List.length_append]
        exact Nat.le_add_left _ _
  rw [programItem, Cbor.write, Cbor.writeEntries]
  simp only [List.length_append]
  omega

/-!
## Containers
-/

theorem length_littleEndian (size n : Nat) : (littleEndian size n).length = size := by
  induction size generalizing n with
  | zero => rfl
  | succ size ih => simp [littleEndian, ih]

theorem ofLittleEndian_littleEndian {size n : Nat} (h : n < 256 ^ size) :
    ofLittleEndian (littleEndian size n) = n := by
  induction size generalizing n with
  | zero =>
      have hzero : n = 0 := by simpa using h
      rw [hzero]
      rfl
  | succ size ih =>
      have hdiv : n / 256 < 256 ^ size := by
        rw [Nat.pow_succ] at h
        exact Nat.div_lt_of_lt_mul (by omega)
      have hbyte : n.toUInt8.toNat = n % 256 := rfl
      rw [littleEndian, ofLittleEndian, ih hdiv, hbyte]
      omega

theorem takePart_append (part : Part) {size : Nat} {bytes : Bytes} (h : bytes.length = size)
    (rest : Bytes) : takePart part size (bytes ++ rest) = .ok (bytes, rest) := by
  subst h
  simp [takePart]

/-- A program comes back from its container, whatever follows it. -/
theorem deserialize_serialize {p : Program} (hconstants : p.constantTable.length ≤ 131072)
    (hinputs : -2 ^ 63 ≤ p.inputs ∧ p.inputs < 2 ^ 63)
    (houtputs : -2 ^ 63 ≤ p.outputs ∧ p.outputs < 2 ^ 63)
    (hbody : (Cbor.write (programItem p)).length < 2 ^ 32) (rest : Bytes) :
    deserialize (serialize p ++ rest) = .ok p := by
  have hinputs := (fitsInt_iff p.inputs).mpr hinputs
  have houtputs := (fitsInt_iff p.outputs).mpr houtputs
  have hcode := length_codeBytes_le p
  have hread : Cbor.read (Cbor.write (programItem p)) >>= readProgram = some p := by
    rw [Cbor.read_write (writable_programItem (by omega) hconstants hinputs houtputs)]
    exact readProgram_programItem hinputs houtputs
  have hversion : ofLittleEndian (littleEndian 2 version) = version := by decide
  have hlength : ofLittleEndian (littleEndian 4 (Cbor.write (programItem p)).length) =
      (Cbor.write (programItem p)).length := ofLittleEndian_littleEndian hbody
  unfold deserialize serialize
  simp only [List.append_assoc, takePart_append .magic (show magic.length = 4 from rfl),
    takePart_append .version (length_littleEndian 2 version),
    takePart_append .bodyLength (length_littleEndian 4 _), ok_bind, hversion, hlength]
  rw [if_neg (not_not.mpr rfl), if_neg (not_not.mpr rfl), if_neg (by simp), List.take_left,
    hread]

/-- No code at all, the least and the greatest count, and a constant of what is not a
number, a negative zero, an infinity and the least number above zero. -/
def extremeProgram : Program where
  code := none
  constants := some [⟨Float32.ofBits 0x7fc00000, Float32.ofBits 0x80000000,
    Float32.ofBits 0x7f800000, Float32.ofBits 1⟩]
  inputs := -2 ^ 63
  outputs := 2 ^ 63 - 1

theorem deserialize_serialize_extreme :
    (Cbor.write (programItem extremeProgram)).length < 2 ^ 32 ∧
      deserialize (serialize extremeProgram ++ [0xff, 0x00]) = .ok extremeProgram := by
  have hbody : (Cbor.write (programItem extremeProgram)).length < 2 ^ 32 := by decide +kernel
  exact ⟨hbody, deserialize_serialize (by decide) (by decide) (by decide) hbody _⟩

end Container
end VectorMachine
