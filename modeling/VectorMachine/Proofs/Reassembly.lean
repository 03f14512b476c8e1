import VectorMachine.Proofs.AssembledPrograms
import VectorMachine.Proofs.ListedLines

/-!
# Assembling a listing

A listing can be assembled when its constants fit the table, and its instructions
name registers and constants that there are.  What comes out is the code that was
decoded, with a terminator where decoding stopped before one.
-/

namespace VectorMachine

open Assembly

/-!
## Operands that there are
-/

namespace Operand

def Named (constants : Nat) : Operand -> Prop
  | .register slot => slot.toNat < Slot.count
  | .constant index => index.toNat < constants

theorem operand_place {constants : Nat} {o : Operand} (h : o.Named constants) :
    o.place.1.operand o.place.2 = o := by
  have hwrap : forall s : UInt8, UInt8.ofInt (s.toNat : Int) = s :=
    forall_byte (by decide +kernel)
  cases o with
  | constant index => exact congrArg Operand.constant UInt8.ofNat_toNat
  | register slot =>
      have hslot : slot.toNat < Slot.count := h
      show (Slot.place slot).1.operand (Slot.place slot).2 = .register slot
      unfold Slot.place
      dsimp only
      split
      · exact congrArg Operand.register (hwrap slot)
      · split
        next hlarge _ =>
          have hindex : (Slot.firstInput : Int) + ((slot.toNat - Slot.firstInput : Nat) : Int) =
              (slot.toNat : Int) := by omega
          apply congrArg Operand.register
          show UInt8.ofInt _ = slot
          rw [hindex, hwrap]
        next _ hlarge =>
          have hindex :
              (Slot.firstOutput : Int) + ((slot.toNat - Slot.firstOutput : Nat) : Int) =
              (slot.toNat : Int) := by omega
          apply congrArg Operand.register
          show UInt8.ofInt _ = slot
          rw [hindex, hwrap]

variable {defined : List Definition} {constants : Nat}
  (hdefined : defined.map (·.index) = List.range constants)
include hdefined

theorem known_place_iff (o : Operand) :
    Known defined o.place.1 o.place.2 ↔ o.Named constants := by
  cases o with
  | constant index =>
      have hmem : (exists d, d ∈ defined ∧ d.index = index.toNat) ↔
          index.toNat ∈ defined.map (·.index) := List.mem_map.symm
      show (exists d, d ∈ defined ∧ d.index = index.toNat) ↔ index.toNat < constants
      rw [hmem, hdefined, List.mem_range]
  | register slot =>
      show Known defined (Slot.place slot).1 (Slot.place slot).2 ↔ slot.toNat < Slot.count
      unfold Slot.place
      dsimp only
      split
      next h =>
        have hcount : slot.toNat < Slot.count := Nat.lt_trans h (by decide)
        exact ⟨fun _ => hcount, fun _ => h⟩
      next h =>
        split
        next h' =>
          have hcount : slot.toNat < Slot.count := Nat.lt_trans h' (by decide)
          have hindex : slot.toNat - Slot.firstInput < Slot.inputLimit := by
            unfold Slot.firstOutput at h'
            omega
          exact ⟨fun _ => hcount, fun _ => hindex⟩
        next h' =>
          split
          next hcount =>
            have hindex : slot.toNat - Slot.firstOutput < Slot.outputLimit := by
              unfold Slot.count at hcount
              omega
            exact ⟨fun _ => hcount, fun _ => hindex⟩
          next hcount =>
            exact ⟨fun hknown => absurd hknown h, fun hnamed => absurd hnamed hcount⟩

theorem resolve_written {o : Operand} (h : o.Named constants) :
    resolve defined o.written = .ok o := by
  have hknown := (known_place_iff hdefined o).mpr h
  have hplace := operand_place h
  unfold written
  revert hknown hplace
  cases o.place with
  | mk bank index =>
      intro hknown hplace
      cases bank with
      | constant =>
          have hany : defined.any (·.index = index) = true := by
            rcases hknown with ⟨d, hd, hindex⟩
            exact List.any_eq_true.mpr ⟨d, hd, decide_eq_true hindex⟩
          exact (if_pos hany).trans (congrArg Except.ok hplace)
      | _ => exact (if_pos hknown).trans (congrArg Except.ok hplace)

theorem named_of_resolve {o operand : Operand} (h : resolve defined o.written = .ok operand) :
    o.Named constants := by
  rcases resolve_eq_ok h with ⟨bank, index, text, heq, _, hknown⟩
  cases heq
  exact (known_place_iff hdefined o).mp hknown

end Operand

/-!
## Instructions
-/

namespace Instruction

def Names (constants : Nat) (i : Instruction) : Prop :=
  i.dst.toNat < Slot.count ∧ forall o, o ∈ i.sources -> o.Named constants

variable {defined : List Definition} {constants : Nat}
  (hdefined : defined.map (·.index) = List.range constants)

theorem assembleInstruction_calls {i : Instruction} {kernel : Kernel} (h : i.Calls kernel)
    (line : Nat) :
    assembleInstruction defined ⟨i.op.name, i.written, line⟩ = (do
      let dst ← resolveDestination defined (Operand.register i.dst).written
      let sources ← (i.sources.map Operand.written).mapM (resolve defined)
      if Operand.wired kernel.arity (Operand.descriptor sources) then .ok ⟨i.op, dst, sources⟩
      else .error (.unwired i.op (Operand.descriptor sources))) := by
  have hname := (Opcode.name_spec i.op (Opcode.mem_all_of_kernel? h.kernel_eq)).2.2.2
  have hwritten : i.written =
      (Operand.register i.dst).written :: i.sources.map Operand.written := by
    unfold written
    rw [if_neg h.ne_done]
    rfl
  have hcount : ¬(i.sources.map Operand.written).length + 1 ≠ kernel.arity + 1 := by
    rw [List.length_map, h.arity]
    exact fun hne => hne rfl
  unfold assembleInstruction
  simp only [hname, if_neg h.ne_done, h.kernel_eq, hwritten, List.length_cons, if_neg hcount]

include hdefined

theorem assembleInstruction_written {i : Instruction} (h : i.Decodable)
    (hnames : i.Names constants)
    (line : Nat) : assembleInstruction defined ⟨i.op.name, i.written, line⟩ = .ok i := by
  rcases h with rfl | ⟨kernel, hcalls⟩
  · rfl
  · have hdst : resolveDestination defined (Operand.register i.dst).written = .ok i.dst := by
      unfold resolveDestination
      rw [Operand.resolve_written hdefined (o := .register i.dst) hnames.1]
      rfl
    have hsources : (i.sources.map Operand.written).mapM (resolve defined) = .ok i.sources := by
      apply mapM_eq_ok_of_forall₂
      rw [List.forall₂_map_left_iff]
      exact List.forall₂_same.mpr fun o ho => Operand.resolve_written hdefined (hnames.2 o ho)
    rw [assembleInstruction_calls hcalls, hdst, hsources]
    exact if_pos hcalls.wired

theorem names_of_assembleInstruction {i result : Instruction} (h : i.Decodable) {line : Nat}
    (hok : assembleInstruction defined ⟨i.op.name, i.written, line⟩ = .ok result) :
    i.Names constants := by
  rcases h with rfl | ⟨kernel, hcalls⟩
  · exact ⟨by decide, nofun⟩
  · rw [assembleInstruction_calls hcalls] at hok
    rcases exists_of_bind_eq_ok hok with ⟨dst, hdst, hok⟩
    rcases exists_of_bind_eq_ok hok with ⟨sources, hsources, _⟩
    constructor
    · exact Operand.named_of_resolve hdefined (resolveDestination_eq_ok hdst)
    · intro o ho
      have hall := forall₂_of_mapM_eq_ok hsources
      rw [List.forall₂_map_left_iff] at hall
      rcases exists_of_mem_left hall ho with ⟨operand, _, hoperand⟩
      exact Operand.named_of_resolve hdefined hoperand

end Instruction

/-!
## Constants in order
-/

namespace Assembly

/-- Constants in the order of their indices are all defined, as long as they fit. -/
theorem exists_foldlM_define {constants : List ConstantLine} {before : List Definition}
    {size : Nat} (hbefore : before.map (·.index) = List.range size)
    (hindices : constants.map (·.index) = (List.range' size constants.length).map Int.ofNat)
    (hfits : size + constants.length ≤ Program.constantLimit) :
    exists defined, constants.foldlM define before = .ok defined ∧
      defined.map (·.index) = List.range (size + constants.length) := by
  induction constants generalizing before size with
  | nil => exact ⟨before, rfl, hbefore⟩
  | cons c constants ih =>
      rw [List.length_cons] at hindices hfits
      have hindex : c.index = Int.ofNat size := (List.cons.inj hindices).1
      have hrest := (List.cons.inj hindices).2
      have hrange : 0 ≤ c.index ∧ c.index < Program.constantLimit := by
        rw [hindex]
        exact ⟨Int.natCast_nonneg size, Int.ofNat_lt.mpr (by omega)⟩
      have hnew : forall d, d ∈ before -> d.index ≠ c.index.toNat := by
        intro d hd heq
        have hmem : d.index ∈ List.range size := hbefore ▸ List.mem_map_of_mem hd
        rw [heq, hindex] at hmem
        exact absurd (List.mem_range.mp hmem) (Nat.lt_irrefl size)
      have hafter : (before ++ [c.definition]).map (·.index) = List.range (size + 1) := by
        rw [List.map_append, hbefore, List.range_succ, List.map_singleton,
          ConstantLine.definition, hindex]
        rfl
      rcases ih hafter hrest (by omega) with ⟨defined, hdefined, hall⟩
      refine ⟨defined, ?_, ?_⟩
      · rw [List.foldlM_cons, define_of_new hrange hnew]
        exact hdefined
      · rw [hall, List.length_cons, Nat.add_right_comm, Nat.add_assoc]

theorem length_tableOf {defined : List Definition} {size : Nat}
    (h : defined.map (·.index) = List.range size) :
    ((tableOf defined).getD []).length = size := by
  have htable : OneAbove (· < size) ((tableOf defined).getD []).length := by
    apply (oneAbove_tableOf defined).congr
    intro n
    rw [← List.mem_map, h, List.mem_range]
  apply Nat.le_antisymm
  · exact htable.le fun _ hn => hn
  · exact Nat.le_of_not_lt fun hlt => Nat.lt_irrefl _ (htable.lt _ hlt)

def Spells (source : List SourceInstruction) (insts : List Instruction) : Prop :=
  source.map (fun s => (s.mnemonic, s.operands)) = insts.map fun i => (i.op.name, i.written)

theorem Spells.forall₂ {source : List SourceInstruction} {insts : List Instruction}
    (h : Spells source insts) :
    List.Forall₂ (fun s i => exists line, s = ⟨i.op.name, i.written, line⟩) source insts := by
  have hpairs : List.Forall₂ Eq (source.map fun s => (s.mnemonic, s.operands))
      (insts.map fun i => (i.op.name, i.written)) := by
    rw [List.forall₂_eq_eq_eq]
    exact h
  rw [List.forall₂_map_left_iff, List.forall₂_map_right_iff] at hpairs
  refine hpairs.imp ?_
  intro s i hs
  cases s with
  | mk mnemonic operands line =>
      cases hs
      exact ⟨line, rfl⟩

section Lines

variable {source : List SourceInstruction} {insts : List Instruction}
  (hspells : Spells source insts) (hinsts : forall i, i ∈ insts -> i.Decodable)
  {defined : List Definition} {constants : Nat}
  (hdefined : defined.map (·.index) = List.range constants)
include hspells hinsts hdefined

theorem mapM_assembleLine (hnames : forall i, i ∈ insts -> i.Names constants) :
    source.mapM (assembleLine defined) = .ok insts := by
  apply mapM_eq_ok_of_forall₂
  have hlines := hspells.forall₂
  clear hspells
  induction hlines with
  | nil => exact .nil
  | @cons s i source insts hs _ ih =>
      rcases hs with ⟨line, rfl⟩
      have hi := Instruction.assembleInstruction_written hdefined (hinsts i List.mem_cons_self)
        (hnames i List.mem_cons_self) line
      exact .cons (assembleLine_eq_ok.mpr hi)
        (ih (fun j hj => hinsts j (List.mem_cons_of_mem i hj))
          fun j hj => hnames j (List.mem_cons_of_mem i hj))

theorem names_of_mapM_assembleLine {results : List Instruction}
    (h : source.mapM (assembleLine defined) = .ok results) :
    forall i, i ∈ insts -> i.Names constants := by
  intro i hi
  rcases exists_of_mem_right hspells.forall₂ hi with ⟨s, hs, line, rfl⟩
  rcases exists_of_mem_left (forall₂_of_mapM_eq_ok h) hs with ⟨result, _, hresult⟩
  exact Instruction.names_of_assembleInstruction hdefined (hinsts i hi)
    (assembleLine_eq_ok.mp hresult)

end Lines

end Assembly

/-!
## Registers in use
-/

def Operand.indexIn (bank : Bank) (o : Operand) : Option Nat :=
  if o.place.1 = bank then some o.place.2 else none

namespace Instruction

def indices (bank : Bank) (insts : List Instruction) : List Nat :=
  insts.flatMap fun i => i.operands.filterMap (·.indexIn bank)

/-- One more than the highest index, or zero if there is none. -/
def used (bank : Bank) (insts : List Instruction) : Nat :=
  ((indices bank insts).map (· + 1)).max?.getD 0

theorem used_eq_foldl_max (bank : Bank) (insts : List Instruction) :
    used bank insts = ((indices bank insts).map (· + 1)).foldl max 0 := by
  unfold used
  cases (indices bank insts).map (· + 1) with
  | nil => rfl
  | cons n ns =>
      rw [List.max?_cons', List.foldl_cons, Nat.zero_max]
      rfl

theorem filterMap_written {bank : Bank} (hbank : bank ≠ .temp) {i : Instruction}
    (h : i.Decodable) :
    i.written.filterMap (·.indexIn bank) = i.operands.filterMap (·.indexIn bank) := by
  rcases h with rfl | ⟨kernel, hcalls⟩
  · cases bank with
    | temp => exact absurd rfl hbank
    | _ => rfl
  · unfold written
    rw [if_neg hcalls.ne_done, List.filterMap_map]
    rfl

theorem usage_eq_used {bank : Bank} (hbank : bank ≠ .temp) {source : List SourceInstruction}
    {insts : List Instruction} (hspells : Spells source insts)
    (hinsts : forall i, i ∈ insts -> i.Decodable) : usage bank source = used bank insts := by
  have hoperands : source.flatMap (·.operands) = insts.flatMap written := by
    have hmap := congrArg (List.map Prod.snd) hspells
    rw [List.map_map, List.map_map] at hmap
    rw [List.flatMap_def, List.flatMap_def]
    exact congrArg List.flatten hmap
  have hindices : (insts.flatMap written).filterMap (·.indexIn bank) = indices bank insts := by
    rw [List.filterMap_flatMap]
    exact List.flatMap_congr fun i hi => filterMap_written hbank (hinsts i hi)
  rw [usage_eq_foldl_max, used_eq_foldl_max, hoperands, hindices]

/-!
## The code that comes out
-/

theorem codeOf_calls {calls : List Instruction}
    (hcalls : forall i, i ∈ calls -> exists kernel, i.Calls kernel) (stopped : Bool) :
    codeOf (calls ++ if stopped then [] else [terminator]) =
      (calls ++ if stopped then [] else [terminator]).flatMap encode ++
        if stopped then [Opcode.done.toByte] else [] := by
  unfold codeOf
  cases stopped with
  | false => simp [terminator]
  | true =>
      have hlast : ¬(calls ++ []).getLast?.map (fun i : Instruction => i.op) = some .done := by
        intro h
        rw [List.append_nil] at h
        rcases Option.map_eq_some_iff.mp h with ⟨i, hi, hop⟩
        rcases hcalls i (List.mem_of_getLast? hi) with ⟨kernel, hcall⟩
        exact hcall.ne_done hop
      exact congrArg _ (if_neg hlast)

/-- Decoded code is assembled to its front, up to where decoding stopped. -/
theorem codeOf_decoded {code : Bytes} {placed : List Placed} {error : Option DecodeError}
    (h : decode code = (placed, error)) :
    codeOf (placed.map (·.instruction)) =
      code.take ((placed.map (·.instruction)).map size).sum ++
        if error.isSome then [Opcode.done.toByte] else [] := by
  rcases decodeFrom_shape h with ⟨calls, ends, rest, hplaced, hcode, hcalls, hends⟩
  have hfront : code.take ((calls ++ ends).map size).sum = (calls ++ ends).flatMap encode := by
    rw [hcode]
    exact List.take_left' (length_flatMap_encode (calls ++ ends))
  rw [hplaced, hfront, hends]
  exact codeOf_calls hcalls error.isSome

theorem decodable_of_decode {code : Bytes} {placed : List Placed} {error : Option DecodeError}
    (h : decode code = (placed, error)) :
    forall i, i ∈ placed.map (·.instruction) -> i.Decodable := by
  rcases decodeFrom_shape h with ⟨calls, ends, rest, hplaced, _, hcalls, hends⟩
  intro i hi
  rw [hplaced] at hi
  rcases List.mem_append.mp hi with hi | hi
  · exact Or.inr (hcalls i hi)
  · rw [hends] at hi
    split at hi
    · cases hi
    · exact Or.inl (List.mem_singleton.mp hi)

theorem Decodable.mem_all {i : Instruction} (h : i.Decodable) : i.op ∈ Opcode.all := by
  rcases h with rfl | ⟨kernel, hcalls⟩
  · decide
  · exact Opcode.mem_all_of_kernel? hcalls.kernel_eq

end Instruction

/-!
## Listings
-/

namespace Listing

/-- More constants than the table holds are not assembled, whatever follows them. -/
theorem length_constants_of_assemble {p q : Program} (h : assemble (disassemble p) = .ok q) :
    p.constantTable.length ≤ Program.constantLimit := by
  apply Nat.le_of_not_lt
  intro hlarge
  rcases exists_front p (Program.constantLimit + 1) with ⟨more, hmore⟩
  have hsays := says_front p (Program.constantLimit + 1) (by decide) hlarge
  unfold assemble at h
  rcases exists_of_bind_eq_ok h with ⟨source, hread, h⟩
  rw [assembleSource_eq] at h
  rcases exists_of_bind_eq_ok h with ⟨defined, hdefined, _⟩
  rw [hmore] at hread
  rcases hsays.indices_of_read_append hread with ⟨rest, hindices⟩
  have hlast : Int.ofNat Program.constantLimit ∈ source.constants.map (·.index) := by
    rw [hindices]
    exact List.mem_append_left rest
      (List.mem_map_of_mem (List.mem_range.mpr (Nat.lt_succ_self Program.constantLimit)))
  rcases List.mem_map.mp hlast with ⟨c, hc, hindex⟩
  have hsmall := ((defineAll_eq_ok hdefined).2.1 c hc).2
  rw [hindex] at hsmall
  exact absurd hsmall (Int.lt_irrefl _)

/-- Up to its instructions, a listing whose constants fit is always assembled. -/
theorem exists_source {p : Program} (h : p.constantTable.length ≤ Program.constantLimit)
    {placed : List Placed} {error : Option DecodeError}
    (hdecode : Instruction.decode p.codeBytes = (placed, error)) :
    exists source defined, Source.read (disassemble p) = .ok source ∧
      Spells source.instructions (placed.map (·.instruction)) ∧
      defineAll source.constants = .ok defined ∧
      defined.map (·.index) = List.range p.constantTable.length := by
  have hplaced : forall q, q ∈ placed -> q.instruction.op ∈ Opcode.all := fun q hq =>
    (Instruction.decodable_of_decode hdecode _ (List.mem_map_of_mem hq)).mem_all
  have hsmall : p.constantTable.length ≤ 1000000 := Nat.le_trans h (by decide)
  rcases (says_disassemble hsmall hdecode hplaced).read with ⟨source, hread, hinsts, hindices⟩
  have hlength : source.constants.length = p.constantTable.length := by
    have hlengths := congrArg List.length hindices
    rwa [List.length_map, List.length_map, List.length_range] at hlengths
  rw [← hlength, List.range_eq_range'] at hindices
  rcases @exists_foldlM_define source.constants [] 0 rfl hindices (by omega)
    with ⟨defined, hdefined, hrange⟩
  refine ⟨source, defined, hread, ?_, hdefined, ?_⟩
  · rw [Spells, hinsts, List.map_map]
    rfl
  · rw [hrange, hlength, Nat.zero_add]

section Decoded

variable {p : Program} {placed : List Placed} {error : Option DecodeError}
  (hdecode : Instruction.decode p.codeBytes = (placed, error))
include hdecode

theorem names_of_assemble {q : Program} (h : assemble (disassemble p) = .ok q) :
    forall i, i ∈ placed.map (·.instruction) -> i.Names p.constantTable.length := by
  rcases exists_source (length_constants_of_assemble h) hdecode
    with ⟨source, defined, hread, hspells, hdefine, hdefined⟩
  unfold assemble at h
  simp only [assembleSource_eq] at h
  rw [hread, ok_bind, hdefine, ok_bind] at h
  rcases exists_of_bind_eq_ok h with ⟨results, hresults, _⟩
  exact names_of_mapM_assembleLine hspells (Instruction.decodable_of_decode hdecode) hdefined
    hresults

theorem exists_assemble (hlimit : p.constantTable.length ≤ Program.constantLimit)
    (hnames : forall i, i ∈ placed.map (·.instruction) -> i.Names p.constantTable.length) :
    exists q, assemble (disassemble p) = .ok q ∧
      q.codeBytes = codeOf (placed.map (·.instruction)) ∧
      q.constantTable.length = p.constantTable.length ∧
      q.inputs = Instruction.used .input (placed.map (·.instruction)) ∧
      q.outputs = Instruction.used .output (placed.map (·.instruction)) := by
  have hinsts := Instruction.decodable_of_decode hdecode
  rcases exists_source hlimit hdecode with ⟨source, defined, hread, hspells, hdefine, hdefined⟩
  have hlines := mapM_assembleLine hspells hinsts hdefined hnames
  have husage : forall bank, bank ≠ .temp -> usage bank source.instructions =
      Instruction.used bank (placed.map (·.instruction)) := fun _ hbank =>
    Instruction.usage_eq_used hbank hspells hinsts
  refine ⟨⟨some (codeOf (placed.map (·.instruction))), tableOf defined,
    usage .input source.instructions, usage .output source.instructions⟩, ?_, rfl,
    length_tableOf hdefined, ?_, ?_⟩
  · unfold assemble
    simp only [assembleSource_eq]
    rw [hread, ok_bind, hdefine, ok_bind, hlines, ok_bind]
  · exact congrArg Int.ofNat (husage .input nofun)
  · exact congrArg Int.ofNat (husage .output nofun)

end Decoded

/-- What a listing is assembled to.  It is assembled exactly when its constants fit
the table and its instructions name nothing else than registers and its constants. -/
theorem assemble_disassemble (p : Program) :
    let insts := (Instruction.decode p.codeBytes).1.map (·.instruction)
    ((exists q, assemble (disassemble p) = .ok q) ↔
      p.constantTable.length ≤ Program.constantLimit ∧
        forall i, i ∈ insts -> i.Names p.constantTable.length) ∧
    forall q, assemble (disassemble p) = .ok q ->
      q.codeBytes = p.codeBytes.take (insts.map Instruction.size).sum ++
        (if (Instruction.decode p.codeBytes).2.isSome then [Opcode.done.toByte] else []) ∧
      q.constantTable.length = p.constantTable.length ∧
      q.inputs = Instruction.used .input insts ∧
      q.outputs = Instruction.used .output insts := by
  rcases hdecode : Instruction.decode p.codeBytes with ⟨placed, error⟩
  intro insts
  refine ⟨⟨?_, ?_⟩, ?_⟩
  · rintro ⟨q, hq⟩
    exact ⟨length_constants_of_assemble hq, names_of_assemble hdecode hq⟩
  · rintro ⟨hlimit, hnames⟩
    rcases exists_assemble hdecode hlimit hnames with ⟨q, hq, _⟩
    exact ⟨q, hq⟩
  · intro q hq
    rcases exists_assemble hdecode (length_constants_of_assemble hq)
      (names_of_assemble hdecode hq) with ⟨r, hr, hcode, hrest⟩
    have hsame : q = r := Except.ok.inj (hq.symm.trans hr)
    rw [hsame]
    exact ⟨hcode.trans (Instruction.codeOf_decoded hdecode), hrest⟩

/-- Code that runs into an unknown opcode, with a constant of which no component
is an ordinary number. -/
def stopped : Program where
  code := some [3, 40, 2, 11, 0, 99, 1]
  constants := some [⟨Float32.ofBits 0x7fc00000, Float32.ofBits 0x80000000, Float32.ofBits 1,
    Float32.ofBits 0xff800000⟩]

def beyond : Program where
  code := some [9, 72, 0, 8, 0]

theorem assemble_disassemble_stopped :
    (exists q, assemble (disassemble stopped) = .ok q ∧ q.codeBytes = [3, 40, 2, 11, 0, 0] ∧
      q.constantTable.length = 1 ∧ q.inputs = 4 ∧ q.outputs = 1) ∧
    ¬exists q, assemble (disassemble beyond) = .ok q := by
  have hstopped : Instruction.decode stopped.codeBytes =
      ([⟨0, ⟨.mul, 40, [.register 11, .constant 0]⟩⟩], some (.unknownOpcode 99 5)) := by
    unfold stopped
    cbv
  have hbeyond : Instruction.decode beyond.codeBytes =
      ([⟨0, ⟨.neg, 72, [.register 8]⟩⟩, ⟨4, Instruction.terminator⟩], none) := by
    unfold beyond
    cbv
  constructor
  · have hresult := assemble_disassemble stopped
    rw [hstopped] at hresult
    have hnames : Instruction.Names stopped.constantTable.length
        ⟨.mul, 40, [.register 11, .constant 0]⟩ := by
      refine ⟨by decide, ?_⟩
      intro o ho
      simp only [List.mem_cons, List.not_mem_nil, or_false] at ho
      rcases ho with rfl | rfl
      · show (11 : UInt8).toNat < Slot.count
        decide
      · show (0 : UInt8).toNat < 1
        decide
    rcases hresult.1.mpr ⟨by decide, by simpa using hnames⟩ with ⟨q, hq⟩
    exact ⟨q, hq, hresult.2 q hq⟩
  · have hresult := assemble_disassemble beyond
    rw [hbeyond] at hresult
    intro hok
    have hnames := (hresult.1.mp hok).2 ⟨.neg, 72, [.register 8]⟩ List.mem_cons_self
    exact absurd hnames.1 (by decide)

end Listing
end VectorMachine
