import VectorMachine.Proofs.AssembledListing

/-!
# What a source says

Every instruction of a source stands for one instruction of the machine, and every definition
for one entry of the constant table.  The code of the assembled program is those instructions in
the order of the source, and its table and counts go up to the highest index that the source
has. -/

namespace VectorMachine
namespace Assembly

/-!
## Instructions
-/

inductive SourceOperand.Denotes : SourceOperand -> Operand -> Prop where
  | temp {n : Nat} {text : Text} {slot : Slot} (known : n < 8) (place : slot.toNat = n) :
      Denotes (.reference .temp n text) (.register slot)
  | input {n : Nat} {text : Text} {slot : Slot} (known : n < 32) (place : slot.toNat = 8 + n) :
      Denotes (.reference .input n text) (.register slot)
  | output {n : Nat} {text : Text} {slot : Slot} (known : n < 32)
      (place : slot.toNat = 40 + n) :
      Denotes (.reference .output n text) (.register slot)
  | constant {n : Nat} {text : Text} {index : UInt8} (place : index.toNat = n) :
      Denotes (.reference .constant n text) (.constant index)

inductive SourceInstruction.Denotes (s : SourceInstruction) : Instruction -> Prop where
  | terminator (mnemonic : Opcode.ofName? (LetterCase.lower s.mnemonic) = some .done)
      (operands : s.operands = []) : Denotes s Instruction.terminator
  | call {i : Instruction} {kernel : Kernel}
      (mnemonic : Opcode.ofName? (LetterCase.lower s.mnemonic) = some i.op)
      (calls : i.Calls kernel) (operands : List.Forall₂ SourceOperand.Denotes s.operands
        (.register i.dst :: i.sources)) :
      Denotes s i

section Instructions

variable {defined : List Definition}

theorem denotes_of_resolved (hlimit : forall d, d ∈ defined -> d.index < Program.constantLimit)
    {o : SourceOperand} {operand : Operand} (h : resolve defined o = .ok operand) :
    o.Denotes operand := by
  rcases resolve_eq_ok h with ⟨bank, index, text, rfl, rfl, hknown⟩
  cases bank with
  | temp => exact .temp hknown (Slot.toNat_temp hknown)
  | input => exact .input hknown (Slot.toNat_input hknown)
  | output => exact .output hknown (Slot.toNat_output hknown)
  | constant =>
      rcases hknown with ⟨d, hd, rfl⟩
      exact .constant (UInt8.toNat_ofNat_of_lt' (hlimit d hd))

theorem denotes_of_assembled (hlimit : forall d, d ∈ defined -> d.index < Program.constantLimit)
    {s : SourceInstruction} {i : Instruction} (h : assembleInstruction defined s = .ok i) :
    s.Denotes i := by
  rcases opcode_of_assembled h with ⟨hopcode, halone⟩
  rcases assembleInstruction_eq_ok h with
    rfl | ⟨kernel, first, others, hkernel, hwired, hoperands, hlength, hfirst, hothers⟩
  · exact .terminator hopcode (halone rfl)
  · refine .call hopcode ⟨hkernel, hothers.length_eq.symm.trans hlength, hwired⟩ ?_
    rw [hoperands]
    exact .cons (denotes_of_resolved hlimit hfirst)
      (hothers.imp fun o operand => denotes_of_resolved hlimit)

theorem last_of_assembled {source : List SourceInstruction} {insts : List Instruction}
    (h : List.Forall₂ (fun s i => assembleInstruction defined s = .ok i) source insts) :
    source.getLast?.map SourceInstruction.ends = some true ↔
      insts.getLast?.map (·.op) = some .done := by
  have hmap : source.map SourceInstruction.ends = insts.map Instruction.ends := by
    induction h with
    | nil => rfl
    | cons hs _ ih => rw [List.map_cons, List.map_cons, ih, ends_of_assembled hs]
  rw [← List.getLast?_map, hmap, List.getLast?_map, Option.map_eq_some_iff,
    Option.map_eq_some_iff]
  simp only [Instruction.ends, decide_eq_true_eq]

end Instructions

/-!
## Constants
-/

/-- The vector that a line is written for: one number for all components, or one for each,
rounded to single precision. -/
inductive ConstantLine.Denotes (c : ConstantLine) : Vec4 -> Prop where
  | splat {x : Float} (values : c.values = [x]) : Denotes c (Vec4.splat (Number.narrow x))
  | vector {x y z w : Float} (values : c.values = [x, y, z, w]) :
      Denotes c ⟨Number.narrow x, Number.narrow y, Number.narrow z, Number.narrow w⟩

structure Tabulates (constants : List ConstantLine) (table : Option (List Vec4)) : Prop where
  unique : (constants.map (·.index)).Nodup
  none_iff : table = none ↔ constants = []
  length : OneAbove (fun n => exists c, c ∈ constants ∧ c.index = n) (table.getD []).length
  defined : forall c, c ∈ constants -> exists (k : Nat) (v : Vec4), c.index = k ∧ c.Denotes v ∧
    (table.getD [])[k]? = some v
  undefined : forall k, k < (table.getD []).length ->
    (forall c, c ∈ constants -> c.index ≠ k) -> (table.getD [])[k]? = some Vec4.zero

theorem length_of_readConstant {line : Nat} {tokens : List Token} {c : ConstantLine}
    (h : readConstant line tokens = .ok c) : c.values.length = 1 ∨ c.values.length = 4 := by
  unfold readConstant at h
  rcases exists_of_bind_eq_ok h with ⟨operands, _, h⟩
  cases operands with
  | nil => cases h
  | cons index values =>
      rw [constantOf] at h
      split at h
      next hcount =>
        rcases exists_of_bind_eq_ok h with ⟨index, _, h⟩
        rcases exists_of_bind_eq_ok h with ⟨numbers, hnumbers, h⟩
        cases h
        have hlength := (forall₂_of_mapM_eq_ok hnumbers).length_eq
        rwa [hlength] at hcount
      next => cases h

theorem readConstant_of_readLine {tokens : List Token} {c : ConstantLine}
    (h : readLine tokens = .ok (some (.constant c))) :
    exists line rest, readConstant line rest = .ok c := by
  cases tokens with
  | nil => cases h
  | cons t rest =>
      rw [readLine] at h
      split at h
      · cases h
      · rcases exists_of_bind_eq_ok h with ⟨operands, _, h⟩
        cases h
      · split at h
        next =>
          rcases exists_of_bind_eq_ok h with ⟨constant, hread, h⟩
          cases h
          exact ⟨t.line, rest, hread⟩
        next => cases h
      · cases h

theorem length_of_read {text : Text} {source : Source} (h : Source.read text = .ok source)
    {c : ConstantLine} (hc : c ∈ source.constants) :
    c.values.length = 1 ∨ c.values.length = 4 := by
  rw [Source.read_eq_mapM] at h
  rcases exists_of_bind_eq_ok h with ⟨statements, hstatements, h⟩
  cases h
  rcases List.mem_filterMap.mp hc with ⟨statement, hstatement, hsome⟩
  cases statement with
  | instruction i => cases hsome
  | constant c' =>
      cases hsome
      rcases List.mem_filterMap.mp hstatement with ⟨_, hmem, rfl⟩
      rcases exists_of_mem_right (forall₂_of_mapM_eq_ok hstatements) hmem with
        ⟨tokens, _, hline⟩
      rcases readConstant_of_readLine hline with ⟨line, rest, hread⟩
      exact length_of_readConstant hread

theorem denotes_vectorOf {c : ConstantLine} (h : c.values.length = 1 ∨ c.values.length = 4) :
    c.Denotes (vectorOf c.values) := by
  rcases h with h | h
  · rcases List.length_eq_one_iff.mp h with ⟨x, hvalues⟩
    rw [hvalues]
    exact .splat hvalues
  · match hvalues : c.values, h with
    | [x, y, z, w], _ => exact .vector hvalues

theorem getElem?_tableOf {defined : List Definition} {k : Nat}
    (h : k < ((tableOf defined).getD []).length) :
    ((tableOf defined).getD [])[k]? =
      some (match defined.find? (fun d => d.index = k) with
        | some d => d.value
        | none => Vec4.zero) := by
  unfold tableOf at h ⊢
  split at h
  · cases h
  next hsome =>
    rw [if_neg hsome]
    simp only [Option.getD_some, List.length_map, List.length_range] at h ⊢
    rw [List.getElem?_map, List.getElem?_range h]
    rfl

theorem getElem?_tableOf_of_mem {defined : List Definition} {d : Definition} (hd : d ∈ defined)
    (hunique : forall e, e ∈ defined -> e.index = d.index -> e = d) :
    ((tableOf defined).getD [])[d.index]? = some d.value := by
  rw [getElem?_tableOf (index_lt_length_tableOf hd)]
  cases hfind : defined.find? (fun e => e.index = d.index) with
  | none => exact absurd rfl (find?_index_eq_none_iff.mp hfind d hd)
  | some e =>
      have hfound := List.find?_some hfind
      have hindex : e.index = d.index := of_decide_eq_true hfound
      rw [hunique e (List.mem_of_find?_eq_some hfind) hindex]

theorem getElem?_tableOf_of_undefined {defined : List Definition} {k : Nat}
    (hk : k < ((tableOf defined).getD []).length) (h : forall d, d ∈ defined -> d.index ≠ k) :
    ((tableOf defined).getD [])[k]? = some Vec4.zero := by
  rw [getElem?_tableOf hk, find?_index_eq_none_iff.mpr h]

theorem tabulates_of_defineAll {constants : List ConstantLine} {defined : List Definition}
    (h : defineAll constants = .ok defined)
    (hvalues : forall c, c ∈ constants -> c.values.length = 1 ∨ c.values.length = 4) :
    Tabulates constants (tableOf defined) := by
  rcases defineAll_eq_ok h with ⟨rfl, hranges, hnodup⟩
  -- a line may say any integer, but the table counts from zero
  have hindex : forall c, c ∈ constants -> forall n : Nat, c.index = n ↔ c.index.toNat = n := by
    intro c hc n
    have hnonneg := (hranges c hc).1
    omega
  refine ⟨hnodup, ?_, ?_, ?_, ?_⟩
  · rw [tableOf_eq_none_iff, List.map_eq_nil_iff]
  · apply (oneAbove_tableOf _).congr
    intro n
    constructor
    · rintro ⟨_, hd, rfl⟩
      rcases List.mem_map.mp hd with ⟨c, hc, rfl⟩
      exact ⟨c, hc, (hindex c hc _).mpr rfl⟩
    · rintro ⟨c, hc, hn⟩
      exact ⟨_, List.mem_map_of_mem hc, (hindex c hc n).mp hn⟩
  · intro c hc
    refine ⟨c.index.toNat, vectorOf c.values, (hindex c hc _).mpr rfl,
      denotes_vectorOf (hvalues c hc), ?_⟩
    apply getElem?_tableOf_of_mem (List.mem_map_of_mem (f := ConstantLine.definition) hc)
    intro e he hsame
    rcases List.mem_map.mp he with ⟨c', hc', rfl⟩
    have hindices : c'.index = c.index :=
      ((hindex c' hc' _).mpr hsame).trans ((hindex c hc _).mpr rfl).symm
    rw [List.inj_on_of_nodup_map hnodup hc' hc hindices]
  · intro k hk hnone
    apply getElem?_tableOf_of_undefined hk
    intro d hd hk
    rcases List.mem_map.mp hd with ⟨c, hc, rfl⟩
    exact hnone c hc ((hindex c hc k).mpr hk)

/-!
## Programs
-/

theorem upTo_ends_closed (insts : List Instruction) :
    upTo Instruction.ends (closed insts) =
      upTo Instruction.ends (insts ++ [Instruction.terminator]) := by
  rw [upTo_closed, upTo_append]
  rfl

/-- The assembler encodes a source line by line.  Whatever it accepts can be read.  The code has
one instruction for each of the source, and a terminator at the end if the source has none
there; decoding gives them back up to the first terminator.  The counts of inputs and outputs
and the constant table are what the highest indices of the source ask for. -/
theorem assemble_line_by_line {text : Text} {p : Program} (h : assemble text = .ok p) :
    exists source insts, Source.read text = .ok source ∧
      List.Forall₂ SourceInstruction.Denotes source.instructions insts ∧
      p.code = some (insts.flatMap Instruction.encode ++
        if source.instructions.getLast?.map SourceInstruction.ends = some true then []
        else [0]) ∧
      Instruction.decode p.codeBytes =
        (Instruction.placeFrom 0 (upTo Instruction.ends (insts ++ [Instruction.terminator])),
          none) ∧
      (exists count : Nat, p.inputs = count ∧
        OneAbove (Refers .input source.instructions) count) ∧
      (exists count : Nat, p.outputs = count ∧
        OneAbove (Refers .output source.instructions) count) ∧
      Tabulates source.constants p.constants := by
  unfold assemble at h
  rcases exists_of_bind_eq_ok h with ⟨source, hread, h⟩
  rcases assembleSource_eq_ok_iff.mp h with ⟨defined, insts, hdefined, hassembled, rfl⟩
  have hlimit := index_lt_of_defineAll hdefined
  have hclosed := closed_of_assembled hlimit hassembled
  refine ⟨source, insts, hread, ?_, ?_, ?_, ?_, ?_, ?_⟩
  · exact hassembled.imp fun s i => denotes_of_assembled hlimit
  · simp only [last_of_assembled hassembled]
    rfl
  · have hdecode := Instruction.decodeFrom_flatMap_encode (fun i hi => (hclosed i hi).1)
      (any_ends_closed insts) 0 []
    rw [List.append_nil, ← codeOf_eq, upTo_ends_closed] at hdecode
    exact hdecode
  · exact ⟨_, rfl, oneAbove_usage .input source.instructions⟩
  · exact ⟨_, rfl, oneAbove_usage .output source.instructions⟩
  · exact tabulates_of_defineAll hdefined fun c => length_of_read hread

/-- Lines behind terminators, the last input and output, and a constant between two that is not
defined. -/
def gappedText : Text :=
  utf8 ".const 2 1 2 3 0.5\nADD o31, i31, c2\ndone\nneg r7, i0\nDone\nneg o0, r7\n.const 0 7\n"

def gapped : Program where
  code := some [1, 71, 2, 39, 2, 0, 9, 7, 0, 8, 0, 9, 40, 0, 7, 0]
  constants := some [Vec4.splat 7, Vec4.zero, ⟨1, 2, 3, 0.5⟩]
  inputs := 32
  outputs := 32

theorem assemble_line_by_line_gapped :
    assemble gappedText = .ok gapped ∧ (Instruction.decode gapped.codeBytes).2 = none ∧
      exists source, Source.read gappedText = .ok source ∧
        OneAbove (Refers .input source.instructions) 32 ∧
        OneAbove (Refers .output source.instructions) 32 ∧
        Tabulates source.constants (some [Vec4.splat 7, Vec4.zero, ⟨1, 2, 3, 0.5⟩]) := by
  have hassemble : assemble gappedText = .ok gapped := by decide +kernel
  rcases assemble_line_by_line hassemble with
    ⟨source, insts, hread, _, _, hdecode, ⟨inputs, hinputs, hin⟩, ⟨outputs, houtputs, hout⟩,
      htable⟩
  cases Int.ofNat.inj hinputs
  cases Int.ofNat.inj houtputs
  refine ⟨hassemble, ?_, source, hread, hin, hout, htable⟩
  rw [hdecode]

end Assembly
end VectorMachine
