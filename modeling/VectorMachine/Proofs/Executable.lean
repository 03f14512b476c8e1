import VectorMachine.Proofs.Plan

/-!
# Instructions that can be carried out

An instruction can be carried out when there is a register or a constant behind
each of its numbers.  Read back from its encoding it is the same instruction, and
nothing goes wrong at its place of the code.
-/

namespace VectorMachine

/-!
## Operands and their descriptors
-/

namespace Operand

theorem length_ofBytes (descriptor : UInt8) (bytes : Bytes) :
    (ofBytes descriptor bytes).length = bytes.length := by
  induction bytes generalizing descriptor with
  | nil => rfl
  | cons b bytes ih => simp [ofBytes, ih]

theorem ofByte_index (o : Operand) : ofByte o.isConstant o.index = o := by
  cases o <;> rfl

theorem toNat_descriptor_cons (o : Operand) {sources : List Operand}
    (h : (descriptor sources).toNat < 128) :
    (descriptor (o :: sources)).toNat =
      2 * (descriptor sources).toNat + if o.isConstant then 1 else 0 := by
  have hbits : forall n, n < 128 -> forall b : Bool,
      (UInt8.ofNat n <<< 1 ||| if b then 1 else 0).toNat = 2 * n + if b then 1 else 0 := by
    decide
  have hdescriptor := hbits _ h o.isConstant
  rw [UInt8.ofNat_toNat] at hdescriptor
  exact hdescriptor

theorem descriptor_lt {sources : List Operand} (h : sources.length ≤ 8) :
    (descriptor sources).toNat < 2 ^ sources.length := by
  induction sources with
  | nil => decide
  | cons o sources ih =>
      have hlength : sources.length ≤ 7 := Nat.le_of_succ_le_succ h
      have hrest := ih (by omega)
      have hsmall : 2 ^ sources.length ≤ 2 ^ 7 := Nat.pow_le_pow_right (by decide) hlength
      rw [toNat_descriptor_cons o (by omega), List.length_cons, Nat.pow_succ]
      split <;> omega

theorem ofBytes_descriptor {sources : List Operand} (h : sources.length ≤ 8) :
    ofBytes (descriptor sources) (sources.map index) = sources := by
  induction sources with
  | nil => rfl
  | cons o sources ih =>
      have hlength : sources.length ≤ 7 := Nat.le_of_succ_le_succ h
      have hsmall : 2 ^ sources.length ≤ 2 ^ 7 := Nat.pow_le_pow_right (by decide) hlength
      have hlt : (descriptor sources).toNat < 128 :=
        Nat.lt_of_lt_of_le (descriptor_lt (by omega)) hsmall
      have hbits : forall n, n < 128 -> forall b : Bool,
          ((UInt8.ofNat n <<< 1 ||| if b then 1 else 0) &&& 1 != 0) = b ∧
            (UInt8.ofNat n <<< 1 ||| if b then 1 else 0) >>> 1 = UInt8.ofNat n := by
        decide
      have hsplit := hbits _ hlt o.isConstant
      rw [UInt8.ofNat_toNat] at hsplit
      rw [List.map_cons, ofBytes, descriptor, hsplit.1, hsplit.2, ofByte_index, ih (by omega)]

end Operand

namespace Chunk

/-- An operand that can be read: a register that there is and that is bound, or
a constant that there is. -/
def Reachable (f : Frame) : Operand -> Prop
  | .register s => s.toNat < Slot.count ∧ (f.windows s).isSome
  | .constant index => index.toNat < f.constants.length

/-- The destination of an instruction can be written and its sources can be
read. -/
def Executable (f : Frame) (i : Instruction) : Prop :=
  Reachable f (.register i.dst) ∧ forall o, o ∈ i.sources -> Reachable f o

theorem reachable_iff {f : Frame} (o : Operand) :
    Reachable f o ↔ InRange f o ∧ bound f o = true := by
  cases o with
  | register s => rfl
  | constant index => simp [Reachable, InRange, bound]

/-!
## One instruction
-/

def callOf (kernel : Kernel) (i : Instruction) : Call :=
  { op := i.op, kernel, dst := i.dst, sources := i.sources }

def decoded (op : Opcode) (kernel : Kernel) (dst descriptor : UInt8) (operands : Bytes) :
    Instruction :=
  ⟨op, dst, Operand.ofBytes descriptor (operands.take kernel.arity)⟩

theorem arity_decoded {op : Opcode} {kernel : Kernel} {dst descriptor : UInt8}
    {operands : Bytes} (hlength : kernel.arity ≤ operands.length) :
    (decoded op kernel dst descriptor operands).sources.length = kernel.arity := by
  show (Operand.ofBytes descriptor (operands.take kernel.arity)).length = kernel.arity
  rw [Operand.length_ofBytes, List.length_take, Nat.min_eq_left hlength]

variable {f : Frame} {kernel : Kernel}

theorem ready_iff {i : Instruction} :
    (callOf kernel i).ready f = true ↔
      (f.windows i.dst).isSome = true ∧ forall o, o ∈ i.sources -> bound f o = true := by
  rw [← List.all_eq_true]
  exact Bool.and_eq_true_iff

/-- Fetching checks the numbers of an instruction, and its call the registers. -/
theorem executable_iff {i : Instruction} :
    Executable f i ↔
      (i.dst.toNat < Slot.count ∧ forall o, o ∈ i.sources -> InRange f o) ∧
        (callOf kernel i).ready f = true := by
  rw [ready_iff]
  constructor
  · rintro ⟨⟨hdst, hbound⟩, hsources⟩
    exact ⟨⟨hdst, fun o ho => ((reachable_iff o).mp (hsources o ho)).1⟩, hbound,
      fun o ho => ((reachable_iff o).mp (hsources o ho)).2⟩
  · rintro ⟨⟨hdst, hrange⟩, hbound, hsources⟩
    exact ⟨⟨hdst, hbound⟩, fun o ho => (reachable_iff o).mpr ⟨hrange o ho, hsources o ho⟩⟩

theorem ready_of_executable {i : Instruction} (h : Executable f i) :
    (callOf kernel i).ready f = true :=
  (executable_iff.mp h).2

theorem ne_done_of_kernel? {op : Opcode} (h : op.kernel? = some kernel) : op ≠ .done := by
  rintro rfl
  cases h

theorem fetch_inRange {op : Opcode} {code dst descriptor : UInt8} {operands : Bytes}
    (hcode : Opcode.ofByte code = op) (hkernel : op.kernel? = some kernel)
    (hwired : Operand.wired kernel.arity descriptor = true)
    (hlength : kernel.arity ≤ operands.length) (offset : Nat) (hdst : dst.toNat < Slot.count)
    (hrange : forall o, o ∈ (decoded op kernel dst descriptor operands).sources ->
      InRange f o) :
    fetch f offset code (dst :: descriptor :: operands) =
      .ok (.call (callOf kernel (decoded op kernel dst descriptor operands))) := by
  subst hcode
  rw [fetch_wired (ne_done_of_kernel? hkernel) hkernel offset operands hdst hwired,
    sources_of_inRange offset hlength hrange]
  rfl

theorem fetch_executable {op : Opcode} {code dst descriptor : UInt8} {operands : Bytes}
    (hcode : Opcode.ofByte code = op) (hkernel : op.kernel? = some kernel)
    (hwired : Operand.wired kernel.arity descriptor = true)
    (hlength : kernel.arity ≤ operands.length) (offset : Nat)
    (h : Executable f (decoded op kernel dst descriptor operands)) :
    fetch f offset code (dst :: descriptor :: operands) =
      .ok (.call (callOf kernel (decoded op kernel dst descriptor operands))) := by
  have hrange := (@executable_iff f kernel _).mp h
  exact fetch_inRange hcode hkernel hwired hlength offset hrange.1.1 hrange.1.2

/-!
## Encoded instructions
-/

/-- An instruction of as many operands as its kernel takes, all of them within
reach, in an order that is wired. -/
structure Runnable (f : Frame) (i : Instruction) (kernel : Kernel) : Prop where
  kernel_eq : i.op.kernel? = some kernel
  arity : i.sources.length = kernel.arity
  wired : Operand.wired kernel.arity i.descriptor = true
  executable : Executable f i

theorem arity_le (kernel : Kernel) : kernel.arity ≤ 3 := by
  cases kernel <;> simp [Kernel.arity]

theorem decoded_fields {i : Instruction} (h : i.sources.length = kernel.arity) (rest : Bytes) :
    decoded i.op kernel i.dst i.descriptor (i.sources.map Operand.index ++ rest) = i := by
  have hsmall := arity_le kernel
  unfold decoded Instruction.descriptor
  rw [List.take_append_of_le_length (by simp [h]), List.take_of_length_le (by simp [h]),
    Operand.ofBytes_descriptor (by omega)]

/-- A run comes upon the call that is encoded, and passes over it if its registers are
bound. -/
theorem plan_encode_eq {i : Instruction} (hkernel : i.op.kernel? = some kernel)
    (harity : i.sources.length = kernel.arity)
    (hwired : Operand.wired kernel.arity i.descriptor = true) (hdst : i.dst.toNat < Slot.count)
    (hrange : forall o, o ∈ i.sources -> InRange f o) (offset : Nat) (rest : Bytes) :
    plan f offset (i.encode ++ rest) =
      if (callOf kernel i).ready f then
        (.call (callOf kernel i) :: (plan f (offset + 3 + kernel.arity) rest).1,
          (plan f (offset + 3 + kernel.arity) rest).2)
      else ([], some (.outOfRange 0 0 offset)) := by
  have hcode : i.encode ++ rest =
      i.op.toByte :: i.dst :: i.descriptor :: (i.sources.map Operand.index ++ rest) := by
    simp [Instruction.encode, ne_done_of_kernel? hkernel, Instruction.fields]
  have hlength : kernel.arity ≤ (i.sources.map Operand.index ++ rest).length := by
    simp [harity]
  have hdecoded := decoded_fields harity rest
  have hfetch := fetch_inRange (Opcode.ofByte_toByte i.op) hkernel hwired hlength offset hdst
    (hdecoded.symm ▸ hrange)
  rw [hdecoded] at hfetch
  have hcount : (callOf kernel i).sources.length = kernel.arity := harity
  have hdrop : (i.dst :: i.descriptor :: (i.sources.map Operand.index ++ rest)).drop
      (2 + kernel.arity) = rest := by
    rw [Nat.add_comm, ← harity]
    simp
  rw [hcode, plan, hfetch]
  simp only [hcount, hdrop]

/-- A run passes over an instruction that is runnable, to what follows it. -/
theorem plan_encode {i : Instruction} (h : Runnable f i kernel) (offset : Nat) (rest : Bytes) :
    (plan f offset (i.encode ++ rest)).2 = (plan f (offset + 3 + kernel.arity) rest).2 := by
  have hexecutable := (@executable_iff f kernel i).mp h.executable
  rw [plan_encode_eq h.kernel_eq h.arity h.wired hexecutable.1.1 hexecutable.1.2,
    if_pos hexecutable.2]

theorem plan_terminator (offset : Nat) (rest : Bytes) :
    plan f offset (Instruction.terminator.encode ++ rest) = ([], none) := by
  have hcode : Instruction.terminator.encode ++ rest = Opcode.done.toByte :: rest := rfl
  rw [hcode, plan, fetch_done offset rest (Opcode.ofByte_toByte .done)]

end Chunk
end VectorMachine
