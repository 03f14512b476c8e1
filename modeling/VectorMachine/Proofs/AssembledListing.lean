import VectorMachine.Proofs.CodeRoundTrip
import VectorMachine.Proofs.Reassembly

/-!
# The listing of an assembled program

A listing ends where a run ends, at the first terminator.  The code of a program
goes on behind it if the source does, and that part is not listed.
-/

namespace VectorMachine

open Assembly

/-!
## The instructions of the code
-/

namespace Assembly

open Instruction (ends)

def closed (insts : List Instruction) : List Instruction :=
  insts ++ if insts.getLast?.map (·.op) = some .done then [] else [Instruction.terminator]

theorem any_ends_of_last {insts : List Instruction}
    (h : insts.getLast?.map (·.op) = some .done) : insts.any ends = true := by
  rcases Option.map_eq_some_iff.mp h with ⟨i, hi, hop⟩
  have hends : ends i = true := decide_eq_true hop
  exact List.any_eq_true.mpr ⟨i, List.mem_of_getLast? hi, hends⟩

theorem codeOf_eq (insts : List Instruction) :
    codeOf insts = (closed insts).flatMap Instruction.encode := by
  unfold codeOf closed
  rw [List.flatMap_append]
  split <;> rfl

theorem any_ends_closed (insts : List Instruction) : (closed insts).any ends = true := by
  unfold closed
  split
  next hlast =>
    rw [List.append_nil]
    exact any_ends_of_last hlast
  next => simp [Instruction.ends_terminator]

theorem mem_closed {insts : List Instruction} {i : Instruction} (h : i ∈ closed insts) :
    i ∈ insts ∨ i = Instruction.terminator := by
  unfold closed at h
  rcases List.mem_append.mp h with h | h
  · exact Or.inl h
  · split at h
    · cases h
    · exact Or.inr (List.mem_singleton.mp h)

/-- A terminator is listed that the source does not have only where it has none. -/
theorem upTo_closed (insts : List Instruction) :
    upTo ends (closed insts) =
      if insts.any ends then upTo ends insts else insts ++ [Instruction.terminator] := by
  unfold closed
  rw [upTo_append]
  split
  · rfl
  next hnone =>
    rw [if_neg fun hlast => hnone (any_ends_of_last hlast)]
    rfl

theorem codeOf_upTo_closed (insts : List Instruction) :
    codeOf (upTo ends (closed insts)) = codeOf (upTo ends insts) := by
  rw [upTo_closed]
  split
  · rfl
  next hnone =>
    have hadded : codeOf insts = insts.flatMap Instruction.encode ++ [Opcode.done.toByte] :=
      congrArg _ (if_neg fun hlast => hnone (any_ends_of_last hlast))
    rw [upTo_eq_of_not_any (Bool.not_eq_true _ ▸ hnone), hadded]
    simp [codeOf, Instruction.terminator, Instruction.encode]

theorem upTo_eq_of_codeOf_eq {insts : List Instruction}
    (h : codeOf (upTo ends insts) = codeOf insts) : upTo ends insts = insts := by
  rcases upTo_cases ends insts with ⟨hsame, _⟩ | ⟨before, i, rest, hfront, hi, hrest, hall⟩
  · exact hsame
  · have hop : (before ++ [i]).getLast?.map (·.op) = some .done := by
      rw [List.getLast?_concat]
      exact congrArg some (of_decide_eq_true hi)
    cases rest with
    | nil => exact absurd rfl hrest
    | cons j rest =>
        have hj : 0 < j.encode.length := by
          rw [Instruction.length_encode]
          unfold Instruction.size
          split <;> omega
        have hfrontCode : codeOf (before ++ [i]) = (before ++ [i]).flatMap Instruction.encode :=
          (congrArg _ (if_pos hop)).trans (List.append_nil _)
        rw [hfront, hfrontCode, hall] at h
        generalize before ++ [i] = front at h
        rw [codeOf, List.flatMap_append, List.append_assoc, List.self_eq_append_right,
          List.flatMap_cons, List.append_assoc] at h
        rw [(List.append_eq_nil_iff.mp h).1] at hj
        cases hj

/-!
## Sources and their instructions
-/

def SourceInstruction.ends (s : SourceInstruction) : Bool :=
  Opcode.ofName? (LetterCase.lower s.mnemonic) = some .done

section Operands

variable {defined : List Definition}
  (hlimit : forall d, d ∈ defined -> d.index < Program.constantLimit) {bank : Bank}
  {index : Nat}
include hlimit

theorem place_operand (h : Known defined bank index) :
    (bank.operand index).place = (bank, index) := by
  cases bank with
  | temp =>
      have hindex : index < Slot.tempCount := h
      show Slot.place (Slot.temp index) = _
      unfold Slot.place
      dsimp only
      rw [Slot.toNat_temp hindex, if_pos (show index < Slot.firstInput from hindex)]
  | input =>
      have hindex : index < Slot.inputLimit := h
      show Slot.place (Slot.input index) = _
      unfold Slot.place
      dsimp only
      rw [Slot.toNat_input hindex, if_neg (Nat.not_lt.mpr (Nat.le_add_right _ _)),
        if_pos (show _ < Slot.firstOutput from Nat.add_lt_add_left hindex _),
        Nat.add_sub_cancel_left]
  | output =>
      have hindex : index < Slot.outputLimit := h
      have hpast : ¬Slot.firstOutput + index < Slot.firstInput :=
        Nat.not_lt.mpr (Nat.le_trans (by decide) (Nat.le_add_right _ _))
      show Slot.place (Slot.output index) = _
      unfold Slot.place
      dsimp only
      rw [Slot.toNat_output hindex, if_neg hpast,
        if_neg (Nat.not_lt.mpr (Nat.le_add_right _ _)),
        if_pos (show _ < Slot.count from Nat.add_lt_add_left hindex _), Nat.add_sub_cancel_left]
  | constant =>
      rcases h with ⟨d, hd, rfl⟩
      have hsmall : d.index < 256 := hlimit d hd
      show (Bank.constant, (UInt8.ofNat d.index).toNat) = _
      rw [UInt8.toNat_ofNat_of_lt' hsmall]

theorem named_operand (h : Known defined bank index) :
    (bank.operand index).Named ((tableOf defined).getD []).length := by
  cases bank with
  | temp =>
      show (Slot.temp index).toNat < Slot.count
      rw [Slot.toNat_temp h]
      exact Nat.lt_trans h (by decide)
  | input =>
      show (Slot.input index).toNat < Slot.count
      rw [Slot.toNat_input h]
      exact Nat.lt_of_lt_of_le (Nat.add_lt_add_left h _) (by decide)
  | output =>
      show (Slot.output index).toNat < Slot.count
      rw [Slot.toNat_output h]
      exact Nat.add_lt_add_left h _
  | constant =>
      rcases h with ⟨d, hd, rfl⟩
      have hsmall : d.index < 256 := hlimit d hd
      show (UInt8.ofNat d.index).toNat < _
      rw [UInt8.toNat_ofNat_of_lt' hsmall]
      exact index_lt_length_tableOf hd

theorem named_of_resolved {o : SourceOperand} {operand : Operand}
    (h : resolve defined o = .ok operand) :
    operand.Named ((tableOf defined).getD []).length := by
  rcases resolve_eq_ok h with ⟨bank, index, text, rfl, rfl, hknown⟩
  exact named_operand hlimit hknown

theorem indexIn_of_resolved {o : SourceOperand} {operand : Operand}
    (h : resolve defined o = .ok operand) (bank : Bank) :
    o.indexIn bank = operand.indexIn bank := by
  rcases resolve_eq_ok h with ⟨b, index, text, rfl, rfl, hknown⟩
  unfold Operand.indexIn
  rw [place_operand hlimit hknown]
  rfl

theorem filterMap_of_resolved {written : List SourceOperand} {operands : List Operand}
    (h : List.Forall₂ (fun o operand => resolve defined o = .ok operand) written operands)
    (bank : Bank) :
    written.filterMap (·.indexIn bank) = operands.filterMap (·.indexIn bank) := by
  induction h with
  | nil => rfl
  | cons hresolve _ ih =>
      rw [List.filterMap_cons, List.filterMap_cons, ih, indexIn_of_resolved hlimit hresolve]

end Operands

section Instructions

variable {defined : List Definition} {s : SourceInstruction} {i : Instruction}
  (h : assembleInstruction defined s = .ok i)
include h

theorem opcode_of_assembled :
    Opcode.ofName? (LetterCase.lower s.mnemonic) = some i.op ∧
      (i.op = .done -> s.operands = []) := by
  unfold assembleInstruction at h
  split at h
  · cases h
  next op hname =>
    rw [hname]
    split at h
    next hop =>
      split at h
      next hempty =>
        cases h
        exact ⟨congrArg some hop, fun _ => List.isEmpty_iff.mp hempty⟩
      next => cases h
    next hop =>
      split at h
      · cases h
      · split at h
        · cases h
        · split at h
          · cases h
          · rcases exists_of_bind_eq_ok h with ⟨dst, _, h⟩
            rcases exists_of_bind_eq_ok h with ⟨sources, _, h⟩
            dsimp only at h
            split at h
            · cases h
              exact ⟨rfl, fun hdone => absurd hdone hop⟩
            · cases h

theorem ends_of_assembled : s.ends = i.ends := by
  unfold SourceInstruction.ends Instruction.ends
  rw [(opcode_of_assembled h).1]
  exact decide_eq_decide.mpr Option.some_inj

theorem known_of_assembled {bank : Bank} {index : Nat} {text : Text}
    (ho : SourceOperand.reference bank index text ∈ s.operands) : Known defined bank index := by
  rcases assembleInstruction_eq_ok h with
    rfl | ⟨kernel, first, others, _, _, hoperands, _, hfirst, hothers⟩
  · rw [(opcode_of_assembled h).2 rfl] at ho
    cases ho
  · have hresolved :
        exists operand, resolve defined (.reference bank index text) = .ok operand := by
      rw [hoperands] at ho
      rcases List.mem_cons.mp ho with rfl | ho
      · exact ⟨_, hfirst⟩
      · rcases exists_of_mem_left hothers ho with ⟨operand, _, hresolve⟩
        exact ⟨operand, hresolve⟩
    rcases hresolved with ⟨operand, hresolve⟩
    rcases resolve_eq_ok hresolve with ⟨_, _, _, heq, _, hknown⟩
    cases heq
    exact hknown

theorem decodable_of_assembled : i.Decodable := by
  rcases assembleInstruction_eq_ok h with
    hterminator | ⟨kernel, first, others, hkernel, hwired, _, hlength, _, hothers⟩
  · exact Or.inl hterminator
  · exact Or.inr ⟨kernel, hkernel, hothers.length_eq.symm.trans hlength, hwired⟩

variable (hlimit : forall d, d ∈ defined -> d.index < Program.constantLimit)
include hlimit

theorem names_of_assembled : i.Names ((tableOf defined).getD []).length := by
  rcases assembleInstruction_eq_ok h with
    rfl | ⟨kernel, first, others, _, _, _, _, hfirst, hothers⟩
  · exact ⟨by decide, nofun⟩
  · constructor
    · exact named_of_resolved hlimit hfirst
    · intro operand hoperand
      rcases exists_of_mem_right hothers hoperand with ⟨o, _, hresolve⟩
      exact named_of_resolved hlimit hresolve

theorem filterMap_of_assembled {bank : Bank} (hbank : bank ≠ .temp) :
    s.operands.filterMap (·.indexIn bank) = i.operands.filterMap (·.indexIn bank) := by
  rcases assembleInstruction_eq_ok h with
    rfl | ⟨kernel, first, others, _, _, hoperands, _, hfirst, hothers⟩
  · rw [(opcode_of_assembled h).2 rfl]
    cases bank with
    | temp => exact absurd rfl hbank
    | _ => rfl
  · rw [hoperands]
    exact @filterMap_of_resolved defined hlimit (first :: others) i.operands
      (.cons hfirst hothers) bank

end Instructions

section Lists

variable {defined : List Definition}
  (hlimit : forall d, d ∈ defined -> d.index < Program.constantLimit)
  {source : List SourceInstruction} {insts : List Instruction}
  (h : List.Forall₂ (fun s i => assembleInstruction defined s = .ok i) source insts)
include hlimit h

theorem usage_of_assembled {bank : Bank} (hbank : bank ≠ .temp) :
    usage bank source = Instruction.used bank insts := by
  rw [usage_eq_foldl_max, Instruction.used_eq_foldl_max]
  congr 2
  unfold Instruction.indices
  rw [List.filterMap_flatMap]
  induction h with
  | nil => rfl
  | cons hs _ ih =>
      rw [List.flatMap_cons, List.flatMap_cons, ih, filterMap_of_assembled hs hlimit hbank]

theorem closed_of_assembled :
    forall i, i ∈ closed insts -> i.Decodable ∧ i.Names ((tableOf defined).getD []).length := by
  intro i hi
  rcases mem_closed hi with hi | rfl
  · rcases exists_of_mem_right h hi with ⟨s, _, hs⟩
    exact ⟨decodable_of_assembled hs, names_of_assembled hs hlimit⟩
  · exact ⟨Or.inl rfl, by decide, nofun⟩

end Lists

theorem usage_le_of_assembled {defined : List Definition} {source : List SourceInstruction}
    {insts : List Instruction}
    (h : List.Forall₂ (fun s i => assembleInstruction defined s = .ok i) source insts)
    {bank : Bank} (hbank : bank ≠ .constant) : usage bank source ≤ bank.size := by
  apply (oneAbove_usage bank source).le
  rintro n ⟨s, text, hs, ho⟩
  rcases exists_of_mem_left h hs with ⟨i, _, hassemble⟩
  have hknown := known_of_assembled hassemble ho
  cases bank with
  | constant => exact absurd rfl hbank
  | _ => exact hknown

theorem used_append_terminator {bank : Bank} (hbank : bank ≠ .temp) (insts : List Instruction) :
    Instruction.used bank (insts ++ [Instruction.terminator]) =
      Instruction.used bank insts := by
  have hnone : Instruction.indices bank [Instruction.terminator] = [] := by
    cases bank with
    | temp => exact absurd rfl hbank
    | _ => rfl
  have hindices : Instruction.indices bank (insts ++ [Instruction.terminator]) =
      Instruction.indices bank insts :=
    List.flatMap_append.trans ((congrArg _ hnone).trans (List.append_nil _))
  unfold Instruction.used
  rw [hindices]

theorem used_upTo_closed {bank : Bank} (hbank : bank ≠ .temp) (insts : List Instruction) :
    Instruction.used bank (upTo ends (closed insts)) =
      Instruction.used bank (upTo ends insts) := by
  rw [upTo_closed]
  split
  · rfl
  next hnone =>
    rw [upTo_eq_of_not_any (Bool.not_eq_true _ ▸ hnone), used_append_terminator hbank]

end Assembly

/-!
## Assembling the listing
-/

namespace Listing

/-- The source without what stands behind its first terminator. -/
def listed (source : Source) : Source where
  instructions := upTo SourceInstruction.ends source.instructions
  constants := source.constants

theorem code_of_assemble {text : Text} {p : Program} (h : assemble text = .ok p) :
    p.code = some p.codeBytes := by
  rcases assemble_eq_ok h with ⟨source, defined, insts, _, _, rfl⟩
  rfl

theorem forall₂_listed {source : Source} {defined : List Definition} {insts : List Instruction}
    (h : List.Forall₂ (fun s i => assembleInstruction defined s = .ok i) source.instructions
      insts) :
    List.Forall₂ (fun s i => assembleInstruction defined s = .ok i) (listed source).instructions
      (upTo Instruction.ends insts) :=
  forall₂_upTo h fun _ _ => ends_of_assembled

theorem listed_eq_of_code_eq {source : Source} {p r : Program}
    (hp : assembleSource source = .ok p) (hr : assembleSource (listed source) = .ok r)
    (h : r.code = p.code) :
    upTo SourceInstruction.ends source.instructions = source.instructions := by
  rcases assembleSource_eq_ok_iff.mp hp with ⟨defined, insts, hdefined, hassembled, rfl⟩
  have hfront := forall₂_listed hassembled
  have hcode : codeOf (upTo Instruction.ends insts) = codeOf insts := by
    rw [Except.ok.inj (hr.symm.trans
      (assembleSource_eq_ok_iff.mpr ⟨defined, _, hdefined, hfront, rfl⟩))] at h
    exact Option.some.inj h
  apply upTo_eq_self_of_length
  show (listed source).instructions.length = _
  rw [hfront.length_eq, upTo_eq_of_codeOf_eq hcode, hassembled.length_eq]

theorem exists_assemble_listed {source : Source} {p : Program}
    (h : assembleSource source = .ok p) :
    exists q r, assemble (disassemble p) = .ok q ∧ assembleSource (listed source) = .ok r ∧
      q.code = r.code ∧ q.inputs = r.inputs ∧ q.outputs = r.outputs := by
  rcases assembleSource_eq_ok_iff.mp h with ⟨defined, insts, hdefined, hassembled, hp⟩
  have hlimit := index_lt_of_defineAll hdefined
  have hclosed := closed_of_assembled hlimit hassembled
  have hcode : p.codeBytes = (closed insts).flatMap Instruction.encode ++ [] := by
    rw [hp, List.append_nil, ← codeOf_eq]
    rfl
  have htable : p.constantTable = (tableOf defined).getD [] := by rw [hp]; rfl
  have hdecode := Instruction.decodeFrom_flatMap_encode (fun i hi => (hclosed i hi).1)
    (any_ends_closed insts) 0 []
  have hplaced := Instruction.map_instruction_placeFrom 0 (upTo Instruction.ends (closed insts))
  rw [← hcode] at hdecode
  generalize Instruction.placeFrom 0 (upTo Instruction.ends (closed insts)) = placed
    at hdecode hplaced
  have hnames : forall i, i ∈ placed.map (·.instruction) -> i.Names p.constantTable.length := by
    intro i hi
    rw [hplaced] at hi
    rw [htable]
    exact (hclosed i (mem_of_mem_upTo hi)).2
  rcases exists_assemble hdecode (htable ▸ length_tableOf_le hlimit) hnames
    with ⟨q, hq, hqcode, _, hqinputs, hqoutputs⟩
  have hfront := forall₂_listed hassembled
  have husage : forall bank, bank ≠ .temp ->
      Instruction.used bank (placed.map (·.instruction)) =
        usage bank (listed source).instructions := by
    intro bank hbank
    rw [hplaced, used_upTo_closed hbank]
    exact (usage_of_assembled hlimit hfront hbank).symm
  refine ⟨q, _, hq, assembleSource_eq_ok_iff.mpr ⟨defined, _, hdefined, hfront, rfl⟩,
    ?_, ?_, ?_⟩
  · rw [code_of_assemble hq, hqcode, hplaced, codeOf_upTo_closed]
  · rw [hqinputs, husage .input nofun]
  · rw [hqoutputs, husage .output nofun]

/-- The listing of an assembled program is always assembled.  It says what the source
says up to its first terminator, and so gives the same code, inputs and outputs again
exactly when no instruction stands behind a terminator. -/
theorem assemble_disassemble_assembled {text : Text} {source : Source} {p : Program}
    (hread : Source.read text = .ok source) (h : assemble text = .ok p) :
    exists q r, assemble (disassemble p) = .ok q ∧ assembleSource (listed source) = .ok r ∧
      (q.code = r.code ∧ q.inputs = r.inputs ∧ q.outputs = r.outputs) ∧
      ((q.code = p.code ∧ q.inputs = p.inputs ∧ q.outputs = p.outputs) ↔
        forall s, s ∈ source.instructions.dropLast -> s.ends = false) := by
  unfold assemble at h
  rw [hread, ok_bind] at h
  rcases exists_assemble_listed h with ⟨q, r, hq, hr, hcode, hinputs, houtputs⟩
  refine ⟨q, r, hq, hr, ⟨hcode, hinputs, houtputs⟩, ?_⟩
  rw [← upTo_eq_self_iff]
  constructor
  · rintro ⟨hsame, _⟩
    exact listed_eq_of_code_eq h hr (hcode.symm.trans hsame)
  · intro hsame
    have hlisted : listed source = source := by
      unfold listed
      rw [hsame]
    rw [hlisted] at hr
    have hrp : r = p := Except.ok.inj (hr.symm.trans h)
    rw [← hrp]
    exact ⟨hcode, hinputs, houtputs⟩

/-- Letters of both cases, comments, a gap in the constants, and a terminator at the end. -/
def endedText : Text :=
  utf8 ".const 2 0.5 ; half\nMul r1, i0, c2\n# sum\nadd o1, r1, i3\nDONE\n"

def ended : Program where
  code := some [3, 1, 2, 8, 2, 1, 41, 0, 1, 11, 0]
  constants := some [Vec4.zero, Vec4.zero, Vec4.splat 0.5]
  inputs := 4
  outputs := 2

theorem assemble_disassemble_assembled_ended :
    assemble endedText = .ok ended ∧ exists q, assemble (disassemble ended) = .ok q ∧
      q.code = ended.code ∧ q.inputs = ended.inputs ∧ q.outputs = ended.outputs := by
  have hassemble : assemble endedText = .ok ended := by decide +kernel
  have hlast : (match Source.read endedText with
      | .ok source => source.instructions.dropLast.all (!·.ends)
      | .error _ => false) = true := by decide +kernel
  cases hread : Source.read endedText with
  | error e =>
      rw [hread] at hlast
      cases hlast
  | ok source =>
      rw [hread] at hlast
      rcases assemble_disassemble_assembled hread hassemble with ⟨q, _, hq, _, _, hsame⟩
      refine ⟨hassemble, q, hq, hsame.mpr ?_⟩
      intro s hs
      simpa using List.all_eq_true.mp hlast s hs

def trailing : Program where
  code := some [0, 9, 40, 0, 8, 0]
  inputs := 1
  outputs := 1

theorem assemble_disassemble_trailing :
    assemble (utf8 "done\nneg o0, i0\n") = .ok trailing ∧
      ¬exists q, assemble (disassemble trailing) = .ok q ∧ q.code = trailing.code ∧
        q.inputs = trailing.inputs ∧ q.outputs = trailing.outputs := by
  have hagain : assemble (disassemble trailing) = .ok { code := some [0] } := by decide +kernel
  constructor
  · decide +kernel
  · rintro ⟨q, hq, hcode, _⟩
    have hempty : q = { code := some [0] } := Except.ok.inj (hq.symm.trans hagain)
    rw [hempty] at hcode
    cases hcode

end Listing
end VectorMachine
