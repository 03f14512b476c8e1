import VectorMachine.Proofs.AssemblerState
import VectorMachine.Proofs.Executable
import VectorMachine.Proofs.Schedule

/-!
# Assembled programs do not fail

The assembler checks what the machine would trip over: every operand it lets
through has a register or a constant behind it, as long as a run is given the
inputs and outputs that the program asks for.
-/

namespace VectorMachine

namespace Assembly

/-!
## Constants
-/

def ConstantLine.definition (c : ConstantLine) : Definition :=
  ⟨c.index.toNat, vectorOf c.values, c.line⟩

theorem define_eq_ok {defined after : List Definition} {c : ConstantLine}
    (h : define defined c = .ok after) :
    (0 ≤ c.index ∧ c.index < Program.constantLimit) ∧
      (forall d, d ∈ defined -> d.index ≠ c.index.toNat) ∧
      after = defined ++ [c.definition] := by
  unfold define at h
  split at h
  next hrange =>
    split at h
    · cases h
    next hnone =>
      cases h
      exact ⟨hrange, find?_index_eq_none_iff.mp hnone, rfl⟩
  next => cases h

theorem define_of_new {defined : List Definition} {c : ConstantLine}
    (hrange : 0 ≤ c.index ∧ c.index < Program.constantLimit)
    (hnew : forall d, d ∈ defined -> d.index ≠ c.index.toNat) :
    define defined c = .ok (defined ++ [c.definition]) := by
  unfold define
  rw [if_pos hrange, find?_index_eq_none_iff.mpr hnew]
  rfl

/-- Lines that are all defined have indices of the table, no two of them the same. -/
theorem defineAll_eq_ok {constants : List ConstantLine} {defined : List Definition}
    (h : defineAll constants = .ok defined) :
    defined = constants.map ConstantLine.definition ∧
      (forall c, c ∈ constants -> 0 ≤ c.index ∧ c.index < Program.constantLimit) ∧
      (constants.map (·.index)).Nodup := by
  unfold defineAll at h
  -- the line that is defined last is compared with all the others
  induction constants using List.reverseRecOn generalizing defined with
  | nil =>
      cases h
      exact ⟨rfl, nofun, List.nodup_nil⟩
  | append_singleton constants c ih =>
      rw [List.foldlM_append] at h
      rcases exists_of_bind_eq_ok h with ⟨before, hbefore, hlast⟩
      rw [List.foldlM_cons] at hlast
      rcases exists_of_bind_eq_ok hlast with ⟨after, hdefine, hafter⟩
      cases hafter
      rcases ih hbefore with ⟨rfl, hranges, hnodup⟩
      rcases define_eq_ok hdefine with ⟨hrange, hnew, hafter⟩
      refine ⟨?_, ?_, ?_⟩
      · rw [hafter, List.map_append]
        rfl
      · intro d hd
        rcases List.mem_append.mp hd with hd | hd
        · exact hranges d hd
        · rw [List.mem_singleton.mp hd]
          exact hrange
      · rw [List.map_append, List.map_singleton, List.nodup_append]
        refine ⟨hnodup, List.nodup_singleton _, ?_⟩
        intro index hindex other hother heq
        rcases List.mem_map.mp hindex with ⟨d, hd, rfl⟩
        apply hnew d.definition (List.mem_map_of_mem hd)
        show d.index.toNat = c.index.toNat
        rw [heq, List.mem_singleton.mp hother]

theorem index_lt_of_defineAll {constants : List ConstantLine} {defined : List Definition}
    (h : defineAll constants = .ok defined) :
    forall d, d ∈ defined -> d.index < Program.constantLimit := by
  rcases defineAll_eq_ok h with ⟨rfl, hranges, _⟩
  intro d hd
  rcases List.mem_map.mp hd with ⟨c, hc, rfl⟩
  exact (Int.toNat_lt (hranges c hc).1).mpr (hranges c hc).2

theorem tableOf_eq_none_iff {defined : List Definition} :
    tableOf defined = none ↔ defined = [] := by
  unfold tableOf
  split
  next hempty => simp [List.isEmpty_iff.mp hempty]
  next hsome =>
    constructor
    · nofun
    · rintro rfl
      exact absurd rfl hsome

theorem oneAbove_tableOf (defined : List Definition) :
    OneAbove (fun n => exists d, d ∈ defined ∧ d.index = n)
      ((tableOf defined).getD []).length := by
  have hlength : ((tableOf defined).getD []).length =
      ((defined.map (·.index)).map (· + 1)).foldl max 0 := by
    rw [List.map_map]
    unfold tableOf
    split
    next hempty =>
      rw [List.isEmpty_iff.mp hempty]
      rfl
    next =>
      show (List.map _ (List.range _)).length = _
      rw [List.length_map, List.length_range]
      rfl
  rw [hlength]
  exact (OneAbove.foldl_max _).congr fun n => List.mem_map

theorem length_tableOf_le {defined : List Definition}
    (h : forall d, d ∈ defined -> d.index < Program.constantLimit) :
    ((tableOf defined).getD []).length ≤ Program.constantLimit := by
  apply (oneAbove_tableOf defined).le
  rintro _ ⟨d, hd, rfl⟩
  exact h d hd

theorem index_lt_length_tableOf {defined : List Definition} {d : Definition}
    (hd : d ∈ defined) :
    d.index < ((tableOf defined).getD []).length :=
  (oneAbove_tableOf defined).lt _ ⟨d, hd, rfl⟩

/-!
## Operands
-/

def SourceOperand.indexIn (bank : Bank) : SourceOperand -> Option Nat
  | .reference b index _ => if b = bank then some index else none
  | .number _ _ => none

theorem SourceOperand.indexIn_eq_some_iff {bank : Bank} {o : SourceOperand} {n : Nat} :
    o.indexIn bank = some n ↔ exists text, o = .reference bank n text := by
  cases o with
  | number value text => simp [indexIn]
  | reference b index text =>
      by_cases hbank : b = bank
      · simp [indexIn, hbank]
      · simp [indexIn, hbank]

theorem usage_eq_foldl_max (bank : Bank) (source : List SourceInstruction) :
    usage bank source =
      (((source.flatMap (·.operands)).filterMap (·.indexIn bank)).map (· + 1)).foldl max 0 := by
  unfold usage
  generalize source.flatMap (·.operands) = operands
  generalize 0 = most
  induction operands generalizing most with
  | nil => rfl
  | cons o operands ih =>
      cases o with
      | number value text => exact ih most
      | reference b index text =>
          rw [List.foldl_cons, ih, List.filterMap_cons]
          simp only [raise, SourceOperand.indexIn]
          split <;> rfl

/-- An instruction names the register or constant, as its destination or as a source. -/
def Refers (bank : Bank) (instructions : List SourceInstruction) (n : Nat) : Prop :=
  exists i text, i ∈ instructions ∧ SourceOperand.reference bank n text ∈ i.operands

theorem oneAbove_usage (bank : Bank) (instructions : List SourceInstruction) :
    OneAbove (Refers bank instructions) (usage bank instructions) := by
  rw [usage_eq_foldl_max]
  apply (OneAbove.foldl_max _).congr
  intro n
  rw [List.mem_filterMap]
  constructor
  · rintro ⟨o, ho, hn⟩
    rcases List.mem_flatMap.mp ho with ⟨i, hi, ho⟩
    rcases SourceOperand.indexIn_eq_some_iff.mp hn with ⟨text, rfl⟩
    exact ⟨i, text, hi, ho⟩
  · rintro ⟨i, text, hi, ho⟩
    exact ⟨_, List.mem_flatMap.mpr ⟨i, hi, ho⟩,
      SourceOperand.indexIn_eq_some_iff.mpr ⟨text, rfl⟩⟩

theorem le_usage {bank : Bank} {index : Nat} {text : Text}
    {instructions : List SourceInstruction} {i : SourceInstruction} (hi : i ∈ instructions)
    (ho : SourceOperand.reference bank index text ∈ i.operands) :
    index < usage bank instructions :=
  (oneAbove_usage bank instructions).lt index ⟨i, text, hi, ho⟩

def Known (defined : List Definition) : Bank -> Nat -> Prop
  | .constant, index => exists d, d ∈ defined ∧ d.index = index
  | bank, index => index < bank.size

theorem resolve_eq_ok {defined : List Definition} {o : SourceOperand} {operand : Operand}
    (h : resolve defined o = .ok operand) :
    exists bank index text, o = .reference bank index text ∧ operand = bank.operand index ∧
      Known defined bank index := by
  cases o with
  | number value text => cases h
  | reference bank index text =>
      refine ⟨bank, index, text, rfl, ?_⟩
      cases bank with
      | constant =>
          simp only [resolve] at h
          split at h
          next hany =>
            cases h
            rcases List.any_eq_true.mp hany with ⟨d, hd, hindex⟩
            exact ⟨rfl, d, hd, of_decide_eq_true hindex⟩
          next => cases h
      | _ =>
          simp only [resolve] at h
          split at h
          next hsize =>
            cases h
            exact ⟨rfl, hsize⟩
          next => cases h

/-!
## Instructions
-/

theorem resolveDestination_eq_ok {defined : List Definition} {o : SourceOperand} {dst : Slot}
    (h : resolveDestination defined o = .ok dst) : resolve defined o = .ok (.register dst) := by
  unfold resolveDestination at h
  rcases exists_of_bind_eq_ok h with ⟨operand, hoperand, hdst⟩
  cases operand with
  | constant index => cases hdst
  | register slot =>
      cases hdst
      exact hoperand

/-- What the assembler makes of an instruction is a terminator, or an instruction of
a wired kernel with all of its operands resolved. -/
theorem assembleInstruction_eq_ok {defined : List Definition} {s : SourceInstruction}
    {instruction : Instruction} (h : assembleInstruction defined s = .ok instruction) :
    instruction = Instruction.terminator ∨
      exists kernel first others,
        instruction.op.kernel? = some kernel ∧
        Operand.wired kernel.arity instruction.descriptor = true ∧
        s.operands = first :: others ∧ others.length = kernel.arity ∧
        resolve defined first = .ok (.register instruction.dst) ∧
        List.Forall₂ (fun o operand => resolve defined o = .ok operand) others
          instruction.sources := by
  unfold assembleInstruction at h
  split at h
  · cases h
  next op hname =>
    split at h
    · split at h
      · cases h
        exact Or.inl rfl
      · cases h
    · split at h
      · cases h
      next kernel hkernel =>
        split at h
        · cases h
        next hcount =>
          split at h
          · cases h
          next first others hoperands =>
            rcases exists_of_bind_eq_ok h with ⟨dst, hdst, h⟩
            rcases exists_of_bind_eq_ok h with ⟨sources, hsources, h⟩
            dsimp only at h
            split at h
            next hwired =>
              cases h
              rw [hoperands, List.length_cons] at hcount
              exact Or.inr ⟨kernel, first, others, hkernel, hwired, hoperands, by omega,
                resolveDestination_eq_ok hdst, forall₂_of_mapM_eq_ok hsources⟩
            next => cases h

/-!
## What a run has to offer
-/

/-- The arrays and constants of an invocation are all that the operands of a source
may name. -/
structure Serves (i : Invocation) (defined : List Definition)
    (instructions : List SourceInstruction) : Prop where
  constants : i.constants = (tableOf defined).getD []
  limit : forall d, d ∈ defined -> d.index < Program.constantLimit
  inputs : usage .input instructions ≤ i.inputs.length
  outputs : usage .output instructions ≤ i.outputs.length

section Serves

variable {i : Invocation} {defined : List Definition} {instructions : List SourceInstruction}
  (hserves : Serves i defined instructions) (m : Machine)
include hserves

theorem reachable_operand {s : SourceInstruction} (hs : s ∈ instructions) {bank : Bank}
    {index : Nat} {text : Text} (ho : SourceOperand.reference bank index text ∈ s.operands)
    (hknown : Known defined bank index) :
    Chunk.Reachable (m.frame i 0 0 0) (bank.operand index) := by
  have husage := le_usage hs ho
  cases bank with
  | temp =>
      have hindex : index < Slot.tempCount := hknown
      have hslot := Slot.toNat_temp hindex
      refine ⟨by rw [hslot]; exact Nat.lt_trans hindex (by decide), ?_⟩
      show (Machine.windows i 0 _ (Slot.temp index)).isSome = true
      rw [Machine.windows_eq, hslot, if_pos (show index < Slot.firstInput from hindex)]
      rfl
  | input =>
      have hindex : index < Slot.inputLimit := hknown
      have hslot := Slot.toNat_input hindex
      have hbound : index < i.inputs.length := Nat.lt_of_lt_of_le husage hserves.inputs
      constructor
      · rw [hslot]
        exact Nat.lt_of_lt_of_le (Nat.add_lt_add_left hindex _) (by decide)
      · show (Machine.windows i 0 _ (Slot.input index)).isSome = true
        rw [Machine.windows_eq, hslot, if_neg (Nat.not_lt.mpr (Nat.le_add_right _ _)),
          Option.isSome_map, i.array?_input hindex]
        simpa using hbound
  | output =>
      have hindex : index < Slot.outputLimit := hknown
      have hslot := Slot.toNat_output hindex
      have hbound : index < i.outputs.length := Nat.lt_of_lt_of_le husage hserves.outputs
      have hpast : ¬Slot.firstOutput + index < Slot.firstInput :=
        Nat.not_lt.mpr (Nat.le_trans (by decide) (Nat.le_add_right _ _))
      refine ⟨by rw [hslot]; exact Nat.add_lt_add_left hindex _, ?_⟩
      show (Machine.windows i 0 _ (Slot.output index)).isSome = true
      rw [Machine.windows_eq, hslot, if_neg hpast, Option.isSome_map, i.array?_output hindex]
      simpa using hbound
  | constant =>
      rcases hknown with ⟨d, hd, rfl⟩
      have hlimit : d.index < 256 := hserves.limit d hd
      show (UInt8.ofNat d.index).toNat < i.constants.length
      rw [UInt8.toNat_ofNat_of_lt' hlimit, hserves.constants]
      exact index_lt_length_tableOf hd

theorem runnable_of_assembleInstruction {s : SourceInstruction} (hs : s ∈ instructions)
    {instruction : Instruction} (h : assembleInstruction defined s = .ok instruction) :
    instruction = Instruction.terminator ∨
      exists kernel, Chunk.Runnable (m.frame i 0 0 0) instruction kernel := by
  have hreach : forall o operand, o ∈ s.operands -> resolve defined o = .ok operand ->
      Chunk.Reachable (m.frame i 0 0 0) operand := by
    intro o operand ho hresolve
    rcases resolve_eq_ok hresolve with ⟨bank, index, text, rfl, rfl, hknown⟩
    exact reachable_operand hserves m hs ho hknown
  rcases assembleInstruction_eq_ok h with
    hterminator | ⟨kernel, first, others, hkernel, hwired, hoperands, hlength, hfirst, hothers⟩
  · exact Or.inl hterminator
  · right
    refine ⟨kernel, hkernel, hothers.length_eq.symm.trans hlength, hwired, ?_, ?_⟩
    · exact hreach first _ (by simp [hoperands]) hfirst
    · intro operand hoperand
      rcases exists_of_mem_right hothers hoperand with ⟨o, ho, hresolve⟩
      exact hreach o operand (by simp [hoperands, ho]) hresolve

end Serves

/-!
## Whole programs
-/

section Code

variable {f : Chunk.Frame} {instructions : List Instruction}
  (h : forall i, i ∈ instructions ->
    i = Instruction.terminator ∨ exists kernel, Chunk.Runnable f i kernel)
include h

/-- Encodings one after another run through, up to a terminator among them or one
after them. -/
theorem plan_flatMap_encode {tail : Bytes}
    (htail : Instruction.terminator ∈ instructions ∨
      forall offset, (Chunk.plan f offset tail).2 = none) (offset : Nat) :
    (Chunk.plan f offset (instructions.flatMap Instruction.encode ++ tail)).2 = none := by
  induction instructions generalizing offset with
  | nil =>
      rcases htail with hmem | htail
      · cases hmem
      · exact htail offset
  | cons i instructions ih =>
      have hrest := ih fun j hj => h j (List.mem_cons_of_mem i hj)
      rw [List.flatMap_cons, List.append_assoc]
      rcases h i List.mem_cons_self with rfl | ⟨kernel, hrunnable⟩
      · rw [Chunk.plan_terminator]
      · rw [Chunk.plan_encode hrunnable]
        apply hrest
        rcases htail with hmem | htail
        · left
          rcases List.mem_cons.mp hmem with rfl | hmem
          · cases hrunnable.kernel_eq
          · exact hmem
        · exact Or.inr htail

theorem plan_codeOf : (Chunk.plan f 0 (codeOf instructions)).2 = none := by
  unfold codeOf
  apply plan_flatMap_encode h
  split
  next hlast =>
    left
    rcases Option.map_eq_some_iff.mp hlast with ⟨i, hi, hop⟩
    have hmem := List.mem_of_getLast? hi
    rcases h i hmem with rfl | ⟨kernel, hrunnable⟩
    · exact hmem
    · exact absurd hop (Chunk.ne_done_of_kernel? hrunnable.kernel_eq)
  next => exact Or.inr fun offset => congrArg (·.2) (Chunk.plan_terminator offset [])

end Code

theorem assembleLine_eq_ok {defined : List Definition} {s : SourceInstruction}
    {i : Instruction} :
    assembleLine defined s = .ok i ↔ assembleInstruction defined s = .ok i := by
  unfold assembleLine
  cases assembleInstruction defined s with
  | error cause => exact ⟨nofun, nofun⟩
  | ok result =>
      exact ⟨fun h => congrArg Except.ok (Except.ok.inj h),
        fun h => congrArg Except.ok (Except.ok.inj h)⟩

theorem assembleSource_eq_ok_iff {source : Source} {p : Program} :
    assembleSource source = .ok p ↔
      exists (defined : List Definition) (instructions : List Instruction),
        defineAll source.constants = .ok defined ∧
        List.Forall₂ (fun s i => assembleInstruction defined s = .ok i) source.instructions
          instructions ∧
        p = {
          code := some (codeOf instructions)
          constants := tableOf defined
          inputs := usage .input source.instructions
          outputs := usage .output source.instructions } := by
  rw [assembleSource_eq]
  constructor
  · intro h
    rcases exists_of_bind_eq_ok h with ⟨defined, hdefined, h⟩
    rcases exists_of_bind_eq_ok h with ⟨instructions, hinstructions, h⟩
    refine ⟨defined, instructions, hdefined, ?_, (Except.ok.inj h).symm⟩
    exact (forall₂_of_mapM_eq_ok hinstructions).imp fun s i => assembleLine_eq_ok.mp
  · rintro ⟨defined, instructions, hdefined, hassembled, rfl⟩
    have hlines : source.instructions.mapM (assembleLine defined) = .ok instructions :=
      mapM_eq_ok_of_forall₂ (hassembled.imp fun s i => assembleLine_eq_ok.mpr)
    rw [hdefined, ok_bind, hlines, ok_bind]

theorem assemble_eq_ok {text : Text} {p : Program} (h : assemble text = .ok p) :
    exists (source : Source) (defined : List Definition) (instructions : List Instruction),
      defineAll source.constants = .ok defined ∧
      List.Forall₂ (fun s i => assembleInstruction defined s = .ok i) source.instructions
        instructions ∧
      p = {
        code := some (codeOf instructions)
        constants := tableOf defined
        inputs := usage .input source.instructions
        outputs := usage .output source.instructions } := by
  unfold assemble at h
  rcases exists_of_bind_eq_ok h with ⟨source, _, h⟩
  exact ⟨source, assembleSource_eq_ok_iff.mp h⟩

end Assembly

def Program.on (p : Program) (inputs outputs : List Window) (lanes : Int64) : Invocation where
  code := p.codeBytes
  constants := p.constantTable
  inputs := inputs
  outputs := outputs
  lanes := lanes

namespace Assembly

/-- An assembled program runs without an error on as many arrays as it asks for. -/
theorem exec_assembled {text : Text} {p : Program} (h : assemble text = .ok p) (m : Machine)
    {inputs outputs : List Window} {lanes : Int64}
    (hinputs : p.inputs ≤ inputs.length) (houtputs : p.outputs ≤ outputs.length)
    (hinputLimit : inputs.length ≤ Slot.inputLimit)
    (houtputLimit : outputs.length ≤ Slot.outputLimit) (hlanes : 0 ≤ lanes.toInt)
    (hsizes : forall w, w ∈ inputs ++ outputs -> lanes.toInt ≤ (w.size : Int))
    (store : Store) (statistics : Statistics) :
    (m.exec (p.on inputs outputs lanes) .always store statistics).result = .ok () := by
  rcases assemble_eq_ok h with ⟨source, defined, instructions, hdefined, hassembled, hp⟩
  have hcode : p.codeBytes = codeOf instructions := by rw [hp]; rfl
  have hconstants : p.constantTable = (tableOf defined).getD [] := by rw [hp]; rfl
  have hlimit := index_lt_of_defineAll hdefined
  have hserves : Serves (p.on inputs outputs lanes) defined source.instructions := by
    rw [hp] at hinputs houtputs
    exact ⟨hconstants, hlimit, Int.ofNat_le.mp hinputs, Int.ofNat_le.mp houtputs⟩
  have hshape : (p.on inputs outputs lanes).shapeError? = none := by
    rw [Invocation.shapeError?_eq_none_iff]
    refine ⟨hlanes, hinputLimit, houtputLimit, ?_, hsizes⟩
    show p.constantTable.length ≤ Program.constantLimit
    rw [hconstants]
    exact length_tableOf_le hlimit
  have hplan : (m.plan (p.on inputs outputs lanes)).2 = none := by
    show (Chunk.plan (m.frame (p.on inputs outputs lanes) 0 0 0) 0 p.codeBytes).2 = none
    rw [hcode]
    apply plan_codeOf
    intro i hi
    rcases exists_of_mem_right hassembled hi with ⟨s, hs, hinstruction⟩
    exact runnable_of_assembleInstruction hserves m hs hinstruction
  rw [Machine.exec_eq_of_shape hshape, Machine.runIndependently_result]
  exact Or.inr hplan

/-- A constant above gaps in the table, registers that skip numbers, a terminator in
the middle, and no terminator at the end. -/
theorem exec_assembled_gaps :
    assemble (utf8 ".const 2 0.5\nmul r1, i0, c2\ndone\nadd o1, r1, i3\n") =
        .ok {
          code := some [3, 1, 2, 8, 2, 0, 1, 41, 0, 1, 11, 0]
          constants := some [Vec4.zero, Vec4.zero, Vec4.splat 0.5]
          inputs := 4
          outputs := 2 } ∧
      (({ policy := .strict } : Machine).exec
        ((⟨some [3, 1, 2, 8, 2, 0, 1, 41, 0, 1, 11, 0],
          some [Vec4.zero, Vec4.zero, Vec4.splat 0.5], 4, 2⟩ : Program).on
            (List.replicate 4 ⟨0, 0, 200⟩) [⟨1, 0, 200⟩, ⟨2, 0, 300⟩] 200)
        .always ⟨Array.replicate 3 (Array.replicate 300 Vec4.zero)⟩ {}).result = .ok () := by
  have hassemble : assemble (utf8 ".const 2 0.5\nmul r1, i0, c2\ndone\nadd o1, r1, i3\n") =
      .ok {
        code := some [3, 1, 2, 8, 2, 0, 1, 41, 0, 1, 11, 0]
        constants := some [Vec4.zero, Vec4.zero, Vec4.splat 0.5]
        inputs := 4
        outputs := 2 } := by
    decide +kernel
  exact ⟨hassemble, exec_assembled hassemble _ (by decide) (by decide) (by decide) (by decide)
    (by decide) (by decide) _ _⟩

end Assembly
end VectorMachine
