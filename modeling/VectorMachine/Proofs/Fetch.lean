import VectorMachine.Machine.Chunk
import VectorMachine.Proofs.Numerals

/-!
# Fetching

What stands at a place of the code, said for each way it can begin: with the
terminator, with an opcode that has no kernel, or with one that has.
-/

namespace VectorMachine

namespace Opcode

/-- The table of arities and the dispatch to kernels agree on every opcode but the
terminator, which is never dispatched. -/
theorem arity?_eq_map_kernel? {op : Opcode} (h : op ≠ done) :
    op.arity? = op.kernel?.map Kernel.arity := by
  cases op with
  | done => exact absurd rfl h
  | _ => rfl

theorem kernel?_of_arity?_eq_none {op : Opcode} (h : op.arity? = none) : op.kernel? = none := by
  have hop : op ≠ done := by
    rintro rfl
    cases h
  rwa [arity?_eq_map_kernel? hop, Option.map_eq_none_iff] at h

theorem exists_kernel_of_arity? {op : Opcode} {arity : Nat} (hop : op ≠ done)
    (h : op.arity? = some arity) :
    exists kernel, op.kernel? = some kernel ∧ kernel.arity = arity := by
  rwa [arity?_eq_map_kernel? hop, Option.map_eq_some_iff] at h

end Opcode

namespace Chunk

/-!
## Descriptors

The cases of the templates are the wired descriptors, and a case takes every operand
from where the bit of the descriptor says.
-/

namespace Origin

def operand : Origin -> UInt8 -> Operand
  | register, b => .register b
  | constant, b => .constant b

end Origin

def originOf (descriptor : UInt8) : Origin :=
  if descriptor &&& 1 != 0 then .constant else .register

def origins : Nat -> UInt8 -> List Origin
  | 0, _ => []
  | count + 1, descriptor => originOf descriptor :: origins count (descriptor >>> 1)

theorem operand_originOf (descriptor b : UInt8) :
    (originOf descriptor).operand b = Operand.ofByte (descriptor &&& 1 != 0) b := by
  unfold originOf Operand.ofByte
  split <;> rfl

theorem unaryCase?_eq : forall descriptor : UInt8,
    unaryCase? descriptor =
      if Operand.wired 1 descriptor then some (origins 1 descriptor) else none :=
  forall_byte (by decide +kernel)

theorem binaryCase?_eq : forall descriptor : UInt8,
    binaryCase? descriptor =
      if Operand.wired 2 descriptor then some (origins 2 descriptor) else none :=
  forall_byte (by decide +kernel)

theorem trinaryCase?_eq : forall descriptor : UInt8,
    trinaryCase? descriptor =
      if Operand.wired 3 descriptor then some (origins 3 descriptor) else none :=
  forall_byte (by decide +kernel)

theorem case?_eq (kernel : Kernel) (descriptor : UInt8) :
    case? kernel descriptor =
      if Operand.wired kernel.arity descriptor then some (origins kernel.arity descriptor)
      else none := by
  cases kernel with
  | unary => exact unaryCase?_eq descriptor
  | binary => exact binaryCase?_eq descriptor
  | trinary => exact trinaryCase?_eq descriptor
  | drawing => exact unaryCase?_eq descriptor

/-!
## Operands
-/

/-- An operand with a number that there is a register or a constant for. -/
def InRange (f : Frame) : Operand -> Prop
  | .register s => s.toNat < Slot.count
  | .constant index => index.toNat < f.constants.length

instance (f : Frame) : (o : Operand) -> Decidable (InRange f o)
  | .register s => inferInstanceAs (Decidable (s.toNat < Slot.count))
  | .constant index => inferInstanceAs (Decidable (index.toNat < f.constants.length))

theorem slot_of_lt {b : UInt8} (offset : Nat) (h : b.toNat < Slot.count) :
    slot offset b = .ok b := by
  unfold slot
  rw [if_pos h]

theorem slot_of_ge {b : UInt8} (offset : Nat) (h : ¬b.toNat < Slot.count) :
    slot offset b = .error (.outOfRange b.toNat Slot.count offset) := by
  unfold slot
  rw [if_neg h]

theorem source_of_inRange {f : Frame} {origin : Origin} {b : UInt8} (offset : Nat)
    (h : InRange f (origin.operand b)) : source f offset b origin = .ok (origin.operand b) := by
  cases origin with
  | register =>
      have hlt : b.toNat < Slot.count := h
      simp [source, Origin.operand, slot_of_lt offset hlt, Except.map]
  | constant =>
      have hlt : b.toNat < f.constants.length := h
      simp [source, Origin.operand, hlt]

theorem source_of_not_inRange {f : Frame} {origin : Origin} {b : UInt8} (offset : Nat)
    (h : ¬InRange f (origin.operand b)) :
    exists length, source f offset b origin = .error (.outOfRange b.toNat length offset) := by
  cases origin with
  | register =>
      have hge : ¬b.toNat < Slot.count := h
      exact ⟨Slot.count, by simp [source, slot_of_ge offset hge, Except.map]⟩
  | constant =>
      have hge : ¬b.toNat < f.constants.length := h
      exact ⟨f.constants.length, by simp [source, hge]⟩

theorem sources_of_inRange {f : Frame} (offset : Nat) {count : Nat} {descriptor : UInt8}
    {bytes : Bytes} (hlength : count ≤ bytes.length)
    (h : forall o, o ∈ Operand.ofBytes descriptor (bytes.take count) -> InRange f o) :
    sources f offset (origins count descriptor) bytes =
      .ok (Operand.ofBytes descriptor (bytes.take count)) := by
  induction count generalizing descriptor bytes with
  | zero => rfl
  | succ count ih =>
      cases bytes with
      | nil => cases hlength
      | cons b bytes =>
          rw [List.take_succ_cons, Operand.ofBytes, ← operand_originOf] at h
          have hfirst := source_of_inRange offset (h _ List.mem_cons_self)
          have hothers := ih (Nat.le_of_succ_le_succ hlength)
            fun o ho => h o (List.mem_cons_of_mem _ ho)
          simp only [origins, sources, List.head?_cons, List.tail_cons, byte, ok_bind, hfirst,
            hothers]
          rw [List.take_succ_cons, Operand.ofBytes, ← operand_originOf]

theorem sources_of_not_inRange {f : Frame} (offset : Nat) {count : Nat} {descriptor : UInt8}
    {bytes : Bytes}
    (h : bytes.length < count ∨
      exists o, o ∈ Operand.ofBytes descriptor (bytes.take count) ∧ ¬InRange f o) :
    exists index length,
      sources f offset (origins count descriptor) bytes =
        .error (.outOfRange index length offset) := by
  induction count generalizing descriptor bytes with
  | zero => simp [Operand.ofBytes] at h
  | succ count ih =>
      cases bytes with
      | nil => exact ⟨f.codeLength, f.codeLength, rfl⟩
      | cons b bytes =>
          rw [List.take_succ_cons, Operand.ofBytes, ← operand_originOf] at h
          by_cases hfirst : InRange f ((originOf descriptor).operand b)
          · have hothers : bytes.length < count ∨
                exists o, o ∈ Operand.ofBytes (descriptor >>> 1) (bytes.take count) ∧
                  ¬InRange f o := by
              rcases h with hshort | ⟨o, ho, hrange⟩
              · exact Or.inl (Nat.lt_of_succ_lt_succ hshort)
              · rcases List.mem_cons.mp ho with rfl | ho
                · exact absurd hfirst hrange
                · exact Or.inr ⟨o, ho, hrange⟩
            rcases ih hothers with ⟨index, length, hfault⟩
            refine ⟨index, length, ?_⟩
            simp only [origins, sources, List.head?_cons, List.tail_cons, byte, ok_bind,
              source_of_inRange offset hfirst, hfault, error_bind]
          · rcases source_of_not_inRange offset hfirst with ⟨length, hfault⟩
            refine ⟨b.toNat, length, ?_⟩
            simp only [origins, sources, List.head?_cons, byte, ok_bind, hfault, error_bind]

/-!
## Instructions
-/

section Fetch

variable {f : Frame} {code : UInt8}

theorem fetch_done (offset : Nat) (rest : Bytes) (hop : Opcode.ofByte code = .done) :
    fetch f offset code rest = .ok .halt := by
  simp [fetch, hop]

theorem fetch_unknown (offset : Nat) (rest : Bytes) (hop : Opcode.ofByte code ≠ .done)
    (hkernel : (Opcode.ofByte code).kernel? = none) :
    fetch f offset code rest = .error (.unknownOpcode code offset) := by
  simp [fetch, hop, hkernel]

variable {kernel : Kernel} (hop : Opcode.ofByte code ≠ .done)
  (hkernel : (Opcode.ofByte code).kernel? = some kernel)
include hop hkernel

theorem fetch_kernel (offset : Nat) (rest : Bytes) :
    fetch f offset code rest =
      (byte f offset rest[0]? >>= slot offset) >>= fun dst =>
        byte f offset rest[1]? >>= fun descriptor =>
          if Operand.wired kernel.arity descriptor then
            sources f offset (origins kernel.arity descriptor) (rest.drop 2) >>= fun sources =>
              .ok (.call { op := Opcode.ofByte code, kernel, dst, sources })
          else
            match f.policy with
            | .legacy => .ok (.skip (Opcode.ofByte code))
            | .strict => .error (.unwired (Opcode.ofByte code) descriptor offset) := by
  unfold fetch
  refine (if_neg hop).trans ?_
  split
  next h =>
    rw [hkernel] at h
    cases h
  next kernel' h =>
    rw [hkernel] at h
    cases h
    simp only [case?_eq]
    congr! 5 with dst descriptor
    cases Operand.wired kernel.arity descriptor <;> rfl

theorem fetch_short (offset : Nat) {rest : Bytes} (hrest : rest.length < 2) :
    exists index length,
      fetch f offset code rest = .error (.outOfRange index length offset) := by
  rw [fetch_kernel hop hkernel]
  cases rest with
  | nil => exact ⟨f.codeLength, f.codeLength, rfl⟩
  | cons dst rest =>
      have hnil : rest = [] := by
        rw [List.length_cons] at hrest
        exact List.length_eq_zero_iff.mp (by omega)
      subst hnil
      by_cases hdst : dst.toNat < Slot.count
      · refine ⟨f.codeLength, f.codeLength, ?_⟩
        simp [byte, slot_of_lt offset hdst]
      · refine ⟨dst.toNat, Slot.count, ?_⟩
        simp [byte, slot_of_ge offset hdst]

theorem fetch_bad_destination (offset : Nat) {dst : Slot} (rest : Bytes)
    (hdst : ¬dst.toNat < Slot.count) :
    fetch f offset code (dst :: rest) =
      .error (.outOfRange dst.toNat Slot.count offset) := by
  rw [fetch_kernel hop hkernel]
  simp [byte, slot_of_ge offset hdst]

theorem fetch_wired (offset : Nat) {dst : Slot} {descriptor : UInt8} (rest : Bytes)
    (hdst : dst.toNat < Slot.count) (hwired : Operand.wired kernel.arity descriptor = true) :
    fetch f offset code (dst :: descriptor :: rest) =
      sources f offset (origins kernel.arity descriptor) rest >>= fun sources =>
        .ok (.call { op := Opcode.ofByte code, kernel, dst, sources }) := by
  rw [fetch_kernel hop hkernel]
  simp [byte, slot_of_lt offset hdst, hwired]

/-- A number out of range and a missing operand are one fault, whichever comes
first. -/
theorem fetch_not_inRange (offset : Nat) {dst : Slot} {descriptor : UInt8} {rest : Bytes}
    (hwired : Operand.wired kernel.arity descriptor = true)
    (h : dst.toNat < Slot.count -> rest.length < kernel.arity ∨
      exists o, o ∈ Operand.ofBytes descriptor (rest.take kernel.arity) ∧ ¬InRange f o) :
    exists index length,
      fetch f offset code (dst :: descriptor :: rest) =
        .error (.outOfRange index length offset) := by
  by_cases hdst : dst.toNat < Slot.count
  · rcases sources_of_not_inRange offset (h hdst) with ⟨index, length, hsources⟩
    refine ⟨index, length, ?_⟩
    rw [fetch_wired hop hkernel offset rest hdst hwired, hsources, error_bind]
  · exact ⟨_, _, fetch_bad_destination hop hkernel offset (descriptor :: rest) hdst⟩

theorem fetch_unwired (offset : Nat) {dst : Slot} {descriptor : UInt8} (rest : Bytes)
    (hdst : dst.toNat < Slot.count) (hwired : Operand.wired kernel.arity descriptor = false)
    (hstrict : f.policy = .strict) :
    fetch f offset code (dst :: descriptor :: rest) =
      .error (.unwired (Opcode.ofByte code) descriptor offset) := by
  rw [fetch_kernel hop hkernel]
  simp [byte, slot_of_lt offset hdst, hwired, hstrict]

end Fetch

theorem fetched_op {f : Frame} {offset : Nat} {code : UInt8} {rest : Bytes} {fetched : Fetched}
    (h : fetch f offset code rest = .ok fetched) :
    fetched = .halt ∨ exists kernel, (Opcode.ofByte code).kernel? = some kernel ∧
      (fetched = .skip (Opcode.ofByte code) ∨
        exists dst sources, fetched = .call ⟨Opcode.ofByte code, kernel, dst, sources⟩) := by
  by_cases hop : Opcode.ofByte code = .done
  · rw [fetch_done offset rest hop] at h
    cases h
    exact Or.inl rfl
  cases hkernel : (Opcode.ofByte code).kernel? with
  | none =>
      rw [fetch_unknown offset rest hop hkernel] at h
      cases h
  | some kernel =>
      refine Or.inr ⟨kernel, rfl, ?_⟩
      rw [fetch_kernel hop hkernel] at h
      rcases exists_of_bind_eq_ok h with ⟨dst, _, h⟩
      rcases exists_of_bind_eq_ok h with ⟨descriptor, _, h⟩
      split at h
      · rcases exists_of_bind_eq_ok h with ⟨sources, _, h⟩
        cases h
        exact Or.inr ⟨dst, sources, rfl⟩
      · split at h
        · cases h
          exact Or.inl rfl
        · cases h

theorem kernel?_of_fetch {f : Frame} {offset : Nat} {code : UInt8} {rest : Bytes} {c : Call}
    (h : fetch f offset code rest = .ok (.call c)) : c.op.kernel? = some c.kernel := by
  rcases fetched_op h with hhalt | ⟨kernel, hkernel, hskip | ⟨dst, sources, hcall⟩⟩
  · cases hhalt
  · cases hskip
  · cases hcall
    exact hkernel

end Chunk
end VectorMachine
