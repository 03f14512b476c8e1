import VectorMachine.Instruction.Decode
import VectorMachine.Proofs.Executable
import VectorMachine.Proofs.Numerals

/-!
# What decoding finds

The instructions of decoded code, encoded one after another, are the front of the
code.  All of them are calls of kernels, but for a terminator at the end where
nothing stopped the decoding.
-/

namespace VectorMachine

namespace Operand

theorem map_index_ofBytes (descriptor : UInt8) (bytes : Bytes) :
    (ofBytes descriptor bytes).map index = bytes := by
  have hbyte : forall (c : Bool) (b : UInt8), (ofByte c b).index = b := by
    intro c b
    cases c <;> rfl
  induction bytes generalizing descriptor with
  | nil => rfl
  | cons b bytes ih => rw [ofBytes, List.map_cons, hbyte, ih]

/-- A descriptor without bits beyond the operands is that of its operands. -/
theorem descriptor_ofBytes {d : UInt8} {bytes : Bytes} (h : d.toNat < 2 ^ bytes.length) :
    descriptor (ofBytes d bytes) = d := by
  have hbits : forall d : UInt8,
      ((d >>> 1) <<< 1 ||| if (d &&& 1 != 0) = true then 1 else 0) = d ∧
        (d >>> 1).toNat = d.toNat / 2 := forall_byte (by decide +kernel)
  have hconstant : forall (c : Bool) (b : UInt8), (ofByte c b).isConstant = c := by
    intro c b
    cases c <;> rfl
  induction bytes generalizing d with
  | nil =>
      have hzero : d.toNat = 0 := Nat.lt_one_iff.mp h
      exact (UInt8.toNat_inj.mp hzero).symm
  | cons b bytes ih =>
      have hrest : (d >>> 1).toNat < 2 ^ bytes.length := by
        rw [(hbits d).2]
        rw [List.length_cons, Nat.pow_succ] at h
        omega
      rw [ofBytes, descriptor, ih hrest, hconstant]
      exact (hbits d).1

theorem lt_of_wired {arity : Nat} {d : UInt8} (h : wired arity d = true) :
    d.toNat < 2 ^ arity := by
  unfold wired at h
  split at h
  · exact Nat.lt_succ_of_le (UInt8.le_iff_toNat_le.mp (of_decide_eq_true h))
  · exact Nat.lt_succ_of_le (UInt8.le_iff_toNat_le.mp (of_decide_eq_true h))
  · exact Nat.lt_succ_of_le
      (UInt8.le_iff_toNat_le.mp (of_decide_eq_true (Bool.and_eq_true_iff.mp h).1))
  · cases h

end Operand

namespace Instruction

/-- A call of a kernel, with the operands that it takes in a wired order. -/
structure Calls (i : Instruction) (kernel : Kernel) : Prop where
  kernel_eq : i.op.kernel? = some kernel
  arity : i.sources.length = kernel.arity
  wired : Operand.wired kernel.arity i.descriptor = true

def Decodable (i : Instruction) : Prop :=
  i = terminator ∨ exists kernel, i.Calls kernel

theorem Calls.ne_done {i : Instruction} {kernel : Kernel} (h : i.Calls kernel) : i.op ≠ .done :=
  Chunk.ne_done_of_kernel? h.kernel_eq

theorem Calls.arity?_eq {i : Instruction} {kernel : Kernel} (h : i.Calls kernel) :
    i.op.arity? = some kernel.arity := by
  rw [Opcode.arity?_eq_map_kernel? h.ne_done, h.kernel_eq]
  rfl

theorem length_encode (i : Instruction) : i.encode.length = i.size := by
  unfold encode size
  split
  · rfl
  · simp only [fields, List.length_cons, List.length_map]
    omega

theorem length_flatMap_encode (insts : List Instruction) :
    (insts.flatMap encode).length = (insts.map size).sum := by
  rw [List.length_flatMap]
  exact congrArg (fun f => (insts.map f).sum) (funext length_encode)

theorem calls_decoded {code descriptor : UInt8} {operands : Bytes} {kernel : Kernel}
    (dst : UInt8) (hkernel : (Opcode.ofByte code).kernel? = some kernel)
    (hwired : Operand.wired kernel.arity descriptor = true)
    (hlength : kernel.arity ≤ operands.length) :
    let i := Chunk.decoded (Opcode.ofByte code) kernel dst descriptor operands
    i.Calls kernel ∧ i.encode = code :: dst :: descriptor :: operands.take kernel.arity := by
  have htake : (operands.take kernel.arity).length = kernel.arity := by
    rw [List.length_take, Nat.min_eq_left hlength]
  have hdescriptor :
      Operand.descriptor (Operand.ofBytes descriptor (operands.take kernel.arity)) =
      descriptor := by
    apply Operand.descriptor_ofBytes
    rw [htake]
    exact Operand.lt_of_wired hwired
  constructor
  · refine ⟨hkernel, Chunk.arity_decoded hlength, ?_⟩
    exact (congrArg (Operand.wired kernel.arity) hdescriptor).trans hwired
  · have hop : (Chunk.decoded (Opcode.ofByte code) kernel dst descriptor operands).op ≠ .done :=
      Chunk.ne_done_of_kernel? hkernel
    unfold encode
    rw [if_neg hop]
    show (Opcode.ofByte code).toByte :: dst ::
      Operand.descriptor (Operand.ofBytes descriptor (operands.take kernel.arity)) ::
        (Operand.ofBytes descriptor (operands.take kernel.arity)).map Operand.index = _
    rw [Opcode.toByte_ofByte, hdescriptor, Operand.map_index_ofBytes]

theorem decodeFrom_shape {offset : Nat} {code : Bytes} {placed : List Placed}
    {error : Option DecodeError} (h : decodeFrom offset code = (placed, error)) :
    exists calls ends rest, placed.map (·.instruction) = calls ++ ends ∧
      code = (calls ++ ends).flatMap encode ++ rest ∧
      (forall i, i ∈ calls -> exists kernel, i.Calls kernel) ∧
      ends = if error.isSome then [] else [terminator] := by
  fun_induction decodeFrom offset code generalizing placed with
  | case2 =>
      rename_i offset code rest op hop
      cases h
      have hcode : code = Opcode.done.toByte := by
        rw [← Opcode.toByte_ofByte code]
        exact congrArg Opcode.toByte hop
      refine ⟨[], [terminator], rest, rfl, ?_, nofun, rfl⟩
      rw [hcode]
      rfl
  | case6 =>
      rename_i offset code op hop arity harity dst descriptor operands hwired hlength sources
        more error hmore ih
      rcases Opcode.exists_kernel_of_arity? hop harity with ⟨kernel, hkernel, rfl⟩
      cases h
      rcases ih hmore with ⟨calls, ends, rest, hplaced, hcode, hcalls, hends⟩
      have hwired : Operand.wired kernel.arity descriptor = true := by simpa using hwired
      rcases calls_decoded dst hkernel hwired (Nat.not_lt.mp hlength) with ⟨hcall, hencode⟩
      refine ⟨Chunk.decoded (Opcode.ofByte code) kernel dst descriptor operands :: calls, ends,
        rest, ?_, ?_, ?_, hends⟩
      · rw [List.map_cons, hplaced]
        rfl
      · rw [List.cons_append, List.flatMap_cons, hencode, List.append_assoc, ← hcode]
        simp [List.take_append_drop]
      · intro i hi
        rcases List.mem_cons.mp hi with rfl | hi
        · exact ⟨kernel, hcall⟩
        · exact hcalls i hi
  | _ =>
      cases h
      exact ⟨[], [], _, rfl, rfl, nofun, rfl⟩

end Instruction
end VectorMachine
