import VectorMachine.Proofs.LineOrder
import VectorMachine.Proofs.ListedLines
import VectorMachine.Proofs.ReadBack

/-!
# Listed constants

A constant is listed as one number where all four components compare equal, and the
two zeros do.  What a line of a listing defines is therefore the vector of the numbers
that the texts are read as, and where the components are zeros of both signs, the zero
of the first sign in all of them.
-/

namespace VectorMachine

open Float.Model (Format UnpackedFloat)
open Float.Model.UnpackedFloat

/-!
## Equal numbers
-/

namespace Number

theorem unpacked_beq_iff (u w : UnpackedFloat) :
    u.beq w = true ↔ u.isNaN = false ∧
      (u = w ∨ u.beq (.zero .positive) = true ∧ w.beq (.zero .positive) = true) := by
  cases u with
  | notANumber => simp [UnpackedFloat.beq, UnpackedFloat.compare, UnpackedFloat.isNaN]
  | infinity s =>
      cases w with
      | infinity s' =>
          have hsign : compare s s' = .eq ↔ s = s' := by
            constructor
            · intro h
              cases s <;> cases s' <;> first | rfl | cases h
            · rintro rfl
              cases s <;> rfl
          cases s <;>
            simpa [UnpackedFloat.beq, UnpackedFloat.compare, UnpackedFloat.isNaN] using hsign
      | _ => cases s <;> simp [UnpackedFloat.beq, UnpackedFloat.compare]
  | zero s =>
      cases w with
      | zero s' => simp [UnpackedFloat.beq, UnpackedFloat.compare, UnpackedFloat.isNaN]
      | infinity s' => cases s' <;> simp [UnpackedFloat.beq, UnpackedFloat.compare]
      | notANumber => simp [UnpackedFloat.beq, UnpackedFloat.compare]
      | finite s' m e hm => cases s' <;> simp [UnpackedFloat.beq, UnpackedFloat.compare]
  | finite s m e hm =>
      cases w with
      | notANumber => cases s <;> simp [UnpackedFloat.beq, UnpackedFloat.compare]
      | infinity s' => cases s <;> cases s' <;> simp [UnpackedFloat.beq, UnpackedFloat.compare]
      | zero s' => cases s <;> simp [UnpackedFloat.beq, UnpackedFloat.compare]
      | finite s' m' e' hm' =>
          cases s <;> cases s' <;>
            simp [UnpackedFloat.beq, UnpackedFloat.compare, UnpackedFloat.isNaN,
              Ordering.then_eq_eq, and_comm]

theorem unpack_injective {x y : Float32} (h : x.toModel.unpack = y.toModel.unpack) : x = y := by
  rw [← pack_unpack_single x, h, pack_unpack_single]

theorem beq_iff (x y : Float32) :
    (x == y) = true ↔ x.isNaN = false ∧ (x = y ∨ (x == 0) = true ∧ (y == 0) = true) := by
  have hzero : (0 : Float32).toModel.unpack = .zero .positive := rfl
  have hbeq : forall z : Float32,
      (z == 0) = UnpackedFloat.beq z.toModel.unpack (.zero .positive) := by
    intro z
    rw [← hzero]
    rfl
  have heq : x = y ↔ x.toModel.unpack = y.toModel.unpack :=
    ⟨fun h => by rw [h], unpack_injective⟩
  rw [hbeq, hbeq, heq]
  exact unpacked_beq_iff _ _

end Number

/-!
## Lines
-/

namespace Text

theorem OneLine.join {separator : Text} (hseparator : OneLine separator) {parts : List Text}
    (h : forall t, t ∈ parts -> OneLine t) : OneLine (join separator parts) := by
  induction parts with
  | nil => exact List.not_mem_nil
  | cons t parts ih =>
      have hfirst := h t List.mem_cons_self
      have hrest := ih fun u hu => h u (List.mem_cons_of_mem t hu)
      cases parts with
      | nil => simpa [Text.join, List.intercalate] using hfirst
      | cons u parts =>
          simpa [Text.join, List.intercalate] using hfirst.append (hseparator.append hrest)

theorem oneLine_text32 (x : Float32) : OneLine (Number.text32 x) := by
  have hdecimal : forall (sign : Sign) (d : Number.Decimal),
      OneLine (Number.Layout.signText sign ++ d.text) := by
    intro sign d
    apply OneLine.append
    · cases sign <;> decide
    · rw [← d.text_layout]
      intro hmem
      have hcases := Number.Layout.byte_cases d.proper_layout hmem
      revert hcases
      decide
  unfold Number.text32
  cases x.toModel.unpack with
  | notANumber => decide
  | infinity sign => cases sign <;> decide
  | zero sign => cases sign <;> decide
  | finite sign mantissa exponent hm =>
      cases sign with
      | positive => exact hdecimal .positive _
      | negative => exact hdecimal .negative _

end Text

namespace Assembly

theorem Reads.read {t : Text} {c : Content} (h : Reads t c) (hline : 0x0a ∉ t) :
    Source.read t = .ok (Source.ofContents 1 [c]) := by
  rcases h with ⟨pieces, hinner, hscan, hread⟩
  rcases exists_lineTokens hline with ⟨pieces', hpieces⟩
  -- the tokens are the same with a line behind this one
  have hsame : pieces'.map (Token.on 1) = pieces.map (Token.on 1) := by
    have hlines := congrArg linesOf ((hpieces.more 1 []).symm.trans (hscan 1 []))
    rw [linesOf_append (inner_on hpieces.inner 1), linesOf_append (inner_on hinner 1)] at hlines
    exact (List.cons.inj hlines).1
  rw [Source.read_eq_mapM, Token.scan, hpieces.last, linesOf_last (inner_on hpieces.inner 1),
    hsame]
  show ([pieces.map (Token.on 1)].mapM readLine >>= _) = _
  rw [List.mapM_cons, hread 1]
  cases c <;> rfl

end Assembly

/-!
## The line of a constant
-/

theorem Assembly.tableOf_singleton (d : Definition) :
    tableOf [d] = some (List.replicate d.index Vec4.zero ++ [d.value]) := by
  show some ((List.range (max 0 (d.index + 1))).map _) = _
  rw [Nat.zero_max, List.range_succ, List.map_append]
  congr 2
  · rw [List.eq_replicate_iff]
    refine ⟨by rw [List.length_map, List.length_range], ?_⟩
    intro v hv
    rcases List.mem_map.mp hv with ⟨k, hk, rfl⟩
    have hne : d.index ≠ k := Nat.ne_of_gt (List.mem_range.mp hk)
    simp [entryOf, hne]
  · simp [entryOf]

namespace Listing

open Assembly

theorem oneLine_constantText (v : Vec4) : Text.OneLine (constantText v) := by
  have hcomma : Text.OneLine (utf8 ", ") := by decide
  have hnumber := Text.oneLine_text32
  unfold constantText
  split
  · exact hnumber v.x
  · apply Text.OneLine.join hcomma
    intro t ht
    rcases List.mem_map.mp ht with ⟨x, _, rfl⟩
    exact hnumber x

/-- The line of a constant is a program of its own, in which the constants before it
are zero. -/
theorem assemble_constantSource {index : Nat} (h : index < 256) (v : Vec4) :
    assemble (constantSource index v) = .ok {
      code := some [0x00]
      constants := some (List.replicate index Vec4.zero ++ [relisted v]) } := by
  have hline : Text.OneLine (constantSource index v) := by
    unfold constantSource
    have hhead : Text.OneLine (utf8 ".const ") := by decide
    have hblank : Text.OneLine (utf8 " ") := by decide
    exact ((hhead.append (Text.oneLine_ofNat index)).append hblank).append
      (oneLine_constantText v)
  rcases reads_constantSource (show index < 1000000 by omega) v with ⟨values, hreads, hvector⟩
  have hdefined : defineAll [⟨index, values, 1⟩] = .ok [⟨index, vectorOf values, 1⟩] :=
    defineAll_of_distinct
      (fun c hc => by
        rw [List.mem_singleton.mp hc]
        exact ⟨Int.natCast_nonneg index, Int.ofNat_lt.mpr h⟩)
      (List.nodup_singleton _)
  unfold assemble
  rw [hreads.read hline, ok_bind, assembleSource_eq_ok_iff]
  refine ⟨_, [], hdefined, .nil, ?_⟩
  rw [tableOf_singleton, hvector]
  rfl

end Listing

/-!
## Zeros of both signs
-/

theorem Vec4.forall_mem_toList {P : Float32 -> Prop} {v : Vec4} :
    (forall x, x ∈ v.toList -> P x) ↔ P v.x ∧ P v.y ∧ P v.z ∧ P v.w := by
  simp [Vec4.toList]

/-- The components are zeros, and not all of one sign. -/
def Vec4.MixedZeros (v : Vec4) : Prop :=
  (forall x, x ∈ v.toList -> (x == 0) = true) ∧ v ≠ .splat v.x

instance (v : Vec4) : Decidable v.MixedZeros :=
  inferInstanceAs
    (Decidable ((forall x, x ∈ v.toList -> (x == 0) = true) ∧ v ≠ Vec4.splat v.x))

def Number.ReadsBack (x : Float32) : Prop :=
  exists y, readFloat (text32 x) = .ok y ∧ narrow y = x

theorem Number.readsBack_iff (x : Float32) : ReadsBack x ↔ reread x = x := by
  constructor
  · rintro ⟨y, hread, hnarrow⟩
    rw [reread_of_readFloat hread, hnarrow]
  · intro hsame
    rcases exists_readFloat_text32 x with ⟨y, hread⟩
    exact ⟨y, hread, (reread_of_readFloat hread).symm.trans hsame⟩

namespace Listing

open Assembly

theorem relisted_of_mixedZeros {v : Vec4} (h : v.MixedZeros) :
    relisted v = .splat (Number.reread v.x) := by
  rcases h with ⟨hzeros, _⟩
  rcases Vec4.forall_mem_toList.mp hzeros with ⟨hx, hy, hz, hw⟩
  have hequal : forall {a b : Float32}, (a == 0) = true -> (b == 0) = true -> (a == b) = true :=
    fun {a b} ha hb =>
      (Number.beq_iff a b).mpr ⟨((Number.beq_iff a 0).mp ha).1, Or.inr ⟨ha, hb⟩⟩
  unfold relisted
  rw [hequal hx hy, hequal hy hz, hequal hz hw]
  rfl

theorem eq_splat_or_zeros {v : Vec4} (hxy : (v.x == v.y) = true) (hyz : (v.y == v.z) = true)
    (hzw : (v.z == v.w) = true) :
    v = .splat v.x ∨ forall x, x ∈ v.toList -> (x == 0) = true := by
  rcases v with ⟨x, y, z, w⟩
  -- equal numbers are zero together
  have hzero : forall {a b : Float32},
      (a == b) = true -> (a == 0) = true -> (b == 0) = true := by
    intro a b hab ha
    rcases ((Number.beq_iff a b).mp hab).2 with rfl | ⟨_, hb⟩
    · exact ha
    · exact hb
  have hsame : forall {a b : Float32}, (a == b) = true -> ¬((a == 0) = true) -> a = b := by
    intro a b hab ha
    exact ((Number.beq_iff a b).mp hab).2.resolve_right fun h => ha h.1
  by_cases hx : (x == 0) = true
  · right
    have hy := hzero hxy hx
    have hz := hzero hyz hy
    have hw := hzero hzw hz
    exact Vec4.forall_mem_toList.mpr ⟨hx, hy, hz, hw⟩
  · left
    obtain rfl : x = y := hsame hxy hx
    obtain rfl : x = z := hsame hyz hx
    obtain rfl : x = w := hsame hzw hx
    rfl

theorem relisted_of_not_mixedZeros {v : Vec4} (h : ¬v.MixedZeros)
    (hback : forall x, x ∈ v.toList -> Number.reread x = x) : relisted v = v := by
  rcases Vec4.forall_mem_toList.mp hback with ⟨hx, hy, hz, hw⟩
  unfold relisted
  split
  next hequal =>
    simp only [Bool.and_eq_true] at hequal
    rcases hequal with ⟨⟨hxy, hyz⟩, hzw⟩
    by_cases hsplat : v = .splat v.x
    · rw [hx, ← hsplat]
    · exact absurd ⟨(eq_splat_or_zeros hxy hyz hzw).resolve_left hsplat, hsplat⟩ h
  next =>
    unfold Vec4.map
    rw [hx, hy, hz, hw]

/-!
## Listed vectors and numbers
-/

/-- A vector of numbers that read back comes back from its line at any index, unless
it is made of zeros of both signs. -/
theorem assemble_listed_vector {k : Nat} (hk : k ≤ 255) (v : Vec4)
    (hback : forall x, x ∈ v.toList -> Number.ReadsBack x) :
    exists p, assemble (utf8 ".const " ++ Text.ofNat k ++ utf8 " " ++ constantText v) = .ok p ∧
      p.constantTable.length = k + 1 ∧
      (p.constantTable[k]? = some v ↔ ¬v.MixedZeros) ∧
      (v.MixedZeros -> p.constantTable[k]? = some (.splat v.x)) := by
  have hreread : forall x, x ∈ v.toList -> Number.reread x = x :=
    fun x hx => (Number.readsBack_iff x).mp (hback x hx)
  have hfound : (List.replicate k Vec4.zero ++ [relisted v])[k]? = some (relisted v) := by
    simp
  have hmixed : v.MixedZeros -> relisted v = .splat v.x := by
    intro h
    rw [relisted_of_mixedZeros h, (Vec4.forall_mem_toList.mp hreread).1]
  refine ⟨_, assemble_constantSource (Nat.lt_succ_of_le hk) v, ?_, ?_, ?_⟩
  · show (List.replicate k Vec4.zero ++ [relisted v]).length = k + 1
    simp
  · show (List.replicate k Vec4.zero ++ [relisted v])[k]? = some v ↔ _
    rw [hfound, Option.some.injEq]
    constructor
    · intro hsame h
      rw [hmixed h] at hsame
      exact h.2 hsame.symm
    · intro h
      exact relisted_of_not_mixedZeros h hreread
  · intro h
    show (List.replicate k Vec4.zero ++ [relisted v])[k]? = _
    rw [hfound, hmixed h]

/-- A vector whose components differ in sign, in size and in being finite. -/
def unevenVector : Vec4 :=
  ⟨Float32.ofBits 0x80000000, 0, Float32.ofBits 0x00000001, Float32.ofBits 0xff800000⟩

theorem readsBack_unevenVector : forall x, x ∈ unevenVector.toList -> Number.ReadsBack x := by
  simp only [Number.readsBack_iff]
  decide +kernel

theorem assemble_listed_vector_uneven :
    (forall x, x ∈ unevenVector.toList -> Number.ReadsBack x) ∧
      exists p, assemble (utf8 ".const " ++ Text.ofNat 255 ++ utf8 " " ++
        constantText unevenVector) = .ok p ∧ p.constantTable.length = 256 ∧
        p.constantTable[255]? = some unevenVector := by
  refine ⟨readsBack_unevenVector, ?_⟩
  rcases assemble_listed_vector (show 255 ≤ 255 by decide) unevenVector readsBack_unevenVector
    with ⟨p, hp, hlength, hsame, _⟩
  exact ⟨p, hp, hlength, hsame.mpr (by decide +kernel)⟩

/-- Zeros of both signs, each of which is listed and read with its sign. -/
def signedZeros : Vec4 :=
  ⟨0, Float32.ofBits 0x80000000, 0, 0⟩

/-- Listed together, they are one zero without a sign. -/
theorem assemble_signedZeros :
    (forall x, x ∈ signedZeros.toList -> x.isNaN = false ∧ Number.ReadsBack x) ∧
      utf8 ".const " ++ Text.ofNat 0 ++ utf8 " " ++ constantText signedZeros =
        utf8 ".const 0 0" ∧
      assemble (utf8 ".const 0 0") = .ok { code := some [0x00], constants := some [.splat 0] } ∧
      Vec4.splat 0 ≠ signedZeros := by
  have hsource : constantSource 0 signedZeros = utf8 ".const 0 0" := by decide +kernel
  refine ⟨?_, hsource, ?_, by decide +kernel⟩
  · simp only [Number.readsBack_iff]
    decide +kernel
  have hzero : relisted signedZeros = .splat 0 := by decide +kernel
  rw [← hsource, assemble_constantSource (by decide), hzero]
  rfl

/-- The text of a number is read as the same number, except for one magnitude. -/
theorem assemble_listed_scalar (x : Float32) :
    exists p, assemble (utf8 ".const 0 " ++ constantText (.splat x)) = .ok p ∧
      (p.constants = some [.splat x] ↔ x.toBits ≠ 0x15ae43fd ∧ x.toBits ≠ 0x95ae43fd) ∧
      (x.toBits = 0x15ae43fd ∨ x.toBits = 0x95ae43fd ->
        p.constants = some [.splat (Float32.ofBits (x.toBits + 1))]) := by
  have hrelisted : relisted (.splat x) = .splat (Number.reread x) := by
    unfold relisted
    split
    · rfl
    · rfl
  have hassemble := assemble_constantSource (show 0 < 256 by decide) (.splat x)
  rw [hrelisted] at hassemble
  refine ⟨_, hassemble, ?_, ?_⟩
  · rw [← Number.reread_eq_iff]
    show some [Vec4.splat (Number.reread x)] = some [Vec4.splat x] ↔ _
    constructor
    · intro h
      exact congrArg Vec4.x (List.cons.inj (Option.some.inj h)).1
    · intro h
      rw [h]
  · intro h
    show some [Vec4.splat (Number.reread x)] = _
    rcases h with h | h
    · rw [h, ← Float32.ofBits_toBits x, h, Number.reread_exception.1]
      rfl
    · rw [h, ← Float32.ofBits_toBits x, h, Number.reread_exception.2]
      rfl

/-- The number whose text is read as its upper neighbour. -/
theorem assemble_moved_scalar :
    constantText (.splat (Float32.ofBits 0x15ae43fd)) = utf8 "7.038531e-26" ∧
      assemble (utf8 ".const 0 7.038531e-26") = .ok {
        code := some [0x00]
        constants := some [.splat (Float32.ofBits 0x15ae43fe)] } ∧
      Float32.ofBits 0x15ae43fe ≠ Float32.ofBits 0x15ae43fd := by
  have htext : constantText (.splat (Float32.ofBits 0x15ae43fd)) = utf8 "7.038531e-26" := by
    decide +kernel
  have hsource : constantSource 0 (.splat (Float32.ofBits 0x15ae43fd)) =
      utf8 ".const 0 7.038531e-26" := by
    decide +kernel
  have hmoved : relisted (.splat (Float32.ofBits 0x15ae43fd)) =
      .splat (Float32.ofBits 0x15ae43fe) := by
    decide +kernel
  refine ⟨htext, ?_, by decide +kernel⟩
  rw [← hsource, assemble_constantSource (by decide), hmoved]
  rfl

end Listing

end VectorMachine
