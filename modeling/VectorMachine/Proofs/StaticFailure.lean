import VectorMachine.Proofs.LaneIndependence

/-!
# Failure is settled by the code

Whether a run fails, and with what, can be told from the code, the policy and the
numbers of inputs, outputs and constants.  No value in a lane or a constant, no
random draw and no number of lanes has a say in it, so a run that fails does so in
its first chunk and has not touched the lanes behind it.
-/

namespace VectorMachine

namespace Invocation

theorem isSome_array?_congr {i j : Invocation} (hinputs : i.inputs.length = j.inputs.length)
    (houtputs : i.outputs.length = j.outputs.length) (s : Slot) :
    (i.array? s).isSome = (j.array? s).isSome := by
  unfold array?
  split
  · rw [Bool.eq_iff_iff]
    simp [hinputs]
  · rw [Bool.eq_iff_iff]
    simp [houtputs]

end Invocation

namespace RunError

theorem chunk_infix_message (index : Nat) (fault : Fault) :
    utf8 "chunk " ++ Text.ofNat index <:+: (RunError.chunk index fault).message := by
  have hinside : utf8 " (chunk " = utf8 " (" ++ utf8 "chunk " := by decide
  cases fault with
  | outOfRange n length offset =>
      refine ⟨utf8 "malformed program: runtime error: index out of range [" ++ Text.ofNat n
        ++ utf8 "] with length " ++ Text.ofNat length ++ utf8 " (",
        utf8 ", offset " ++ Text.ofNat offset ++ utf8 ")", ?_⟩
      simp only [message, faultMessage, hinside, List.append_assoc]
  | unknownOpcode code offset =>
      refine ⟨[], utf8 ": unknown opcode: 0x" ++ Text.hex 2 code.toNat ++ utf8 " at offset "
        ++ Text.ofNat offset, ?_⟩
      simp only [message, faultMessage, List.append_assoc, List.nil_append]
  | unwired op descriptor offset =>
      refine ⟨[], utf8 ": unwired operand descriptor: " ++ op.name ++ utf8 " descriptor 0x"
        ++ Text.hex 2 descriptor.toNat ++ utf8 " at offset " ++ Text.ofNat offset, ?_⟩
      simp only [message, faultMessage, List.append_assoc, List.nil_append]

end RunError

namespace Machine

open Invocation

/-!
## Plans of two invocations
-/

theorem plan_eq_of_counts {m n : Machine} {i j : Invocation} (hpolicy : m.policy = n.policy)
    (hcode : i.code = j.code) (hconstants : i.constants.length = j.constants.length)
    (hinputs : i.inputs.length = j.inputs.length)
    (houtputs : i.outputs.length = j.outputs.length) : m.plan i = n.plan j := by
  have halike : (m.frame i 0 0 0).Alike (n.frame j 0 0 0) := by
    refine ⟨hpolicy, congrArg List.length hcode, hconstants, ?_⟩
    intro s
    show (windows i 0 _ s).isSome = (windows j 0 _ s).isSome
    rw [windows_eq, windows_eq]
    split
    · rfl
    · rw [Option.isSome_map, Option.isSome_map, isSome_array?_congr hinputs houtputs]
  unfold plan
  rw [Chunk.plan_congr halike, hcode]

/-!
## Where a run fails
-/

section Exec

variable {m : Machine} {i : Invocation} (hshape : i.shapeError? = none)
  (hlow : 1 ≤ i.lanes.toInt) (hhigh : i.lanes.toInt ≤ 2 ^ 63 - 128)
include hshape hlow hhigh

theorem exec_of_plan_fault {fault : Fault} (hfault : (m.plan i).2 = some fault) (store : Store)
    (statistics : Statistics) :
    m.exec i .always store statistics =
      ⟨(m.runChunk i 0 (i.span 0) store).1, statistics, .error (.chunk 0 fault)⟩ := by
  have hcount : i.Countable := ⟨by omega, hhigh⟩
  have hsome : exists left, i.chunkCount.toInt.toNat = left + 1 := by
    rw [chunkCount_eq hcount]
    refine ⟨(i.laneCount + 127) / 128 - 1, ?_⟩
    unfold laneCount
    omega
  rcases hsome with ⟨left, hleft⟩
  rw [exec_eq_of_shape hshape, hleft, runIndependently, thenChunk_always, hfault,
    chunkLanes_eq hcount (by omega)]

theorem exec_result_eq (store : Store) (statistics : Statistics) :
    (m.exec i .always store statistics).result =
      match (m.plan i).2 with
      | some fault => .error (.chunk 0 fault)
      | none => .ok () := by
  have hcount : i.Countable := ⟨by omega, hhigh⟩
  cases hfault : (m.plan i).2 with
  | some fault => rw [exec_of_plan_fault hshape hlow hhigh hfault]
  | none => exact (exec_result hshape hcount store statistics).mpr (Or.inr hfault)

end Exec

/-- Two runs of the same code under the same policy, with as many inputs, outputs and
constants, both succeed or both fail with the same error.  It names the first chunk,
and the lanes behind that chunk are as they were. -/
theorem exec_failure_static {m n : Machine} {i j : Invocation} (hpolicy : m.policy = n.policy)
    (hcode : i.code = j.code) (hconstants : i.constants.length = j.constants.length)
    (hinputs : i.inputs.length = j.inputs.length)
    (houtputs : i.outputs.length = j.outputs.length)
    (hshapei : i.shapeError? = none) (hshapej : j.shapeError? = none)
    (hlowi : 1 ≤ i.lanes.toInt) (hhighi : i.lanes.toInt ≤ 2 ^ 63 - 128)
    (hlowj : 1 ≤ j.lanes.toInt) (hhighj : j.lanes.toInt ≤ 2 ^ 63 - 128)
    (storei storej : Store) (statisticsi statisticsj : Statistics) :
    (m.exec i .always storei statisticsi).result =
      (n.exec j .always storej statisticsj).result ∧
    forall e, (m.exec i .always storei statisticsi).result = .error e ->
      (exists fault, e = .chunk 0 fault) ∧ utf8 "chunk 0" <:+: e.message ∧
      (i.WellPlaced storei -> forall w, w ∈ i.arrays -> forall lane, Chunk.size ≤ lane ->
        lane < w.size ->
          (m.exec i .always storei statisticsi).store.get? (w.cell lane) =
            storei.get? (w.cell lane)) := by
  constructor
  · rw [exec_result_eq hshapei hlowi hhighi, exec_result_eq hshapej hlowj hhighj,
      plan_eq_of_counts hpolicy hcode hconstants hinputs houtputs]
  · intro e he
    rw [exec_result_eq hshapei hlowi hhighi] at he
    cases hfault : (m.plan i).2 with
    | none =>
        rw [hfault] at he
        cases he
    | some fault =>
        rw [hfault] at he
        cases he
        refine ⟨⟨fault, rfl⟩, RunError.chunk_infix_message 0 fault, ?_⟩
        intro hplaced w hw lane hlane hsize
        rw [exec_of_plan_fault hshapei hlowi hhighi hfault]
        apply runChunk_get?_of_outside
        intro v hv other _ hother
        have hfits : i.Fits 0 (i.span 0) := fits_of_shape hshapei (by omega)
        have hwithin := hfits.within v hv
        have hspan := i.span_le_size 0
        exact hplaced.cell_ne hv hw (by omega) hsize (by omega)

/-- A product, a sum whose descriptor is passed over in the middle of the instruction,
and an opcode without a kernel, on two chunks of an input and an output. -/
def stoppedRun (value : Float32) (lanes : Int64) : Invocation where
  code := [3, 40, 2, 8, 0, 1, 40, 9, 33, 0]
  constants := [Vec4.splat value]
  inputs := [⟨0, 0, 200⟩]
  outputs := [⟨1, 0, 200⟩]
  lanes := lanes

def stoppedStore (value : Float32) : Store :=
  ⟨#[Array.replicate 200 (Vec4.splat value), Array.replicate 200 Vec4.zero]⟩

theorem wellPlaced_stoppedRun (constant value : Float32) (lanes : Int64) :
    (stoppedRun constant lanes).WellPlaced (stoppedStore value) where
  inside := by
    simp [arrays, stoppedRun, Window.Inside, Store.sizeOf, stoppedStore]
  apart := by
    intro w v hw hv
    simp only [arrays, stoppedRun, List.cons_append, List.nil_append, List.mem_cons,
      List.not_mem_nil, or_false] at hw hv
    rcases hw with rfl | rfl <;> rcases hv with rfl | rfl
    · exact Or.inl rfl
    · right
      simp [Window.Disjoint, Window.cell]
    · right
      simp [Window.Disjoint, Window.cell]
    · exact Or.inl rfl

/-- One lane and two hundred, other values in them, and a seed for one of the two. -/
theorem exec_failure_static_stopped :
    (({} : Machine).exec (stoppedRun 2 200) .always (stoppedStore 3) {}).result =
        .error (.chunk 0 (.unknownOpcode 33 8)) ∧
      ((({} : Machine).withSeed 7).exec (stoppedRun 5 1) .always (stoppedStore 0) {}).result =
        .error (.chunk 0 (.unknownOpcode 33 8)) ∧
      (({} : Machine).exec (stoppedRun 2 200) .always (stoppedStore 3) {}).store.get? ⟨1, 128⟩ =
        some Vec4.zero := by
  have hplan : (({} : Machine).plan (stoppedRun 2 200)).2 = some (.unknownOpcode 33 8) := by cbv
  have hshape : (stoppedRun 2 200).shapeError? = none := by decide
  have hlow : 1 ≤ (stoppedRun 2 200).lanes.toInt := by decide
  have hhigh : (stoppedRun 2 200).lanes.toInt ≤ 2 ^ 63 - 128 := by decide
  have hfault : (({} : Machine).exec (stoppedRun 2 200) .always (stoppedStore 3) {}).result =
      .error (.chunk 0 (.unknownOpcode 33 8)) := by
    rw [exec_result_eq hshape hlow hhigh, hplan]
  have hcode : (stoppedRun 2 200).code = (stoppedRun 5 1).code := by simp only [stoppedRun]
  have hstatic := exec_failure_static (m := {}) (n := ({} : Machine).withSeed 7) rfl hcode
    (by simp [stoppedRun]) (by simp [stoppedRun]) (by simp [stoppedRun]) hshape (by decide) hlow
    hhigh (by decide) (by decide) (stoppedStore 3) (stoppedStore 0) {} {}
  refine ⟨hfault, hstatic.1.symm.trans hfault, ?_⟩
  have hmem : (⟨1, 0, 200⟩ : Window) ∈ (stoppedRun 2 200).arrays := by decide
  have hlane := (hstatic.2 _ hfault).2.2 (wellPlaced_stoppedRun 2 3 200) _ hmem 128
    (Nat.le_refl 128) (by decide)
  rw [show (⟨1, 128⟩ : Cell) = (⟨1, 0, 200⟩ : Window).cell 128 from rfl, hlane]
  simp [Window.cell, Store.get?, stoppedStore]

end Machine
end VectorMachine
