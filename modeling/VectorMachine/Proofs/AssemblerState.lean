import VectorMachine.Assembly.Assemble
import VectorMachine.Proofs.Fetch
import VectorMachine.Proofs.Results

/-!
# What the assembler has gathered

The assembler changes its state with every line: it grows a table and overwrites
entries, raises two counts, appends to the code and notes whether the last line was
a terminator.  Here all of that is said without a state: the table, the counts and
the code are functions of the lines, and every instruction is checked on its own.
The main statement is `assembleSource_eq`.
-/

namespace VectorMachine

/-!
## The greatest of some numbers
-/

/-- The count is one more than the greatest of the numbers, or zero if there are none. -/
structure OneAbove (numbers : Nat -> Prop) (count : Nat) : Prop where
  lt : forall n, numbers n -> n < count
  attained : count = 0 ∨ exists n, numbers n ∧ count = n + 1

namespace OneAbove

variable {numbers : Nat -> Prop} {count : Nat}

theorem le (h : OneAbove numbers count) {bound : Nat}
    (hbound : forall n, numbers n -> n < bound) :
    count ≤ bound := by
  rcases h.attained with rfl | ⟨n, hn, rfl⟩
  · exact Nat.zero_le bound
  · exact hbound n hn

theorem unique (h : OneAbove numbers count) {other : Nat} (h' : OneAbove numbers other) :
    count = other :=
  Nat.le_antisymm (h.le h'.lt) (h'.le h.lt)

theorem congr (h : OneAbove numbers count) {others : Nat -> Prop}
    (hsame : forall n, numbers n ↔ others n) : OneAbove others count := by
  rwa [funext fun n => propext (hsame n)] at h

theorem foldl_max (ns : List Nat) : OneAbove (· ∈ ns) ((ns.map (· + 1)).foldl max 0) := by
  induction ns using List.reverseRecOn with
  | nil => exact ⟨nofun, Or.inl rfl⟩
  | append_singleton ns last ih =>
      rw [List.map_append, List.foldl_append]
      show OneAbove _ (max ((ns.map (· + 1)).foldl max 0) (last + 1))
      constructor
      · intro n hn
        rcases List.mem_append.mp hn with hn | hn
        · exact Nat.lt_of_lt_of_le (ih.lt n hn) (Nat.le_max_left _ _)
        · rw [List.mem_singleton.mp hn]
          exact Nat.le_max_right _ _
      · right
        rcases Nat.le_total ((ns.map (· + 1)).foldl max 0) (last + 1) with hle | hle
        · exact ⟨last, by simp, Nat.max_eq_right hle⟩
        · rcases ih.attained with hzero | ⟨n, hn, hcount⟩
          · rw [hzero] at hle
            cases hle
          · exact ⟨n, List.mem_append_left _ hn, (Nat.max_eq_left hle).trans hcount⟩

end OneAbove

namespace Assembly

/-!
## Constants
-/

structure Definition where
  index : Nat
  value : Vec4
  line : Nat
deriving DecidableEq

def define (defined : List Definition) (c : ConstantLine) : Except Error (List Definition) :=
  if 0 ≤ c.index ∧ c.index < Program.constantLimit then
    match defined.find? (fun d => d.index = c.index.toNat) with
    | some earlier => .error ⟨c.line, .redefined c.index earlier.line⟩
    | none => .ok (defined ++ [⟨c.index.toNat, vectorOf c.values, c.line⟩])
  else .error ⟨c.line, .indexRange c.index⟩

def defineAll (constants : List ConstantLine) : Except Error (List Definition) :=
  constants.foldlM define []

/-- The vector at an index of the table, zero if it is not defined. -/
def entryOf (defined : List Definition) (k : Nat) : Vec4 :=
  match defined.find? (fun d => d.index = k) with
  | some d => d.value
  | none => Vec4.zero

/-- The table up to the highest index that is defined. -/
def tableOf (defined : List Definition) : Option (List Vec4) :=
  if defined.isEmpty then none
  else
    let size := (defined.map (·.index + 1)).foldl max 0
    some ((List.range size).map (entryOf defined))

theorem place_map_range {f : Nat -> Vec4} {size : Nat}
    (hzero : forall k, size ≤ k -> f k = Vec4.zero) (index : Nat) (v : Vec4) :
    place ((List.range size).map f) index v =
      (List.range (max size (index + 1))).map (Function.update f index v) := by
  unfold place
  apply List.ext_getElem
  · simp only [List.length_set, List.length_append, List.length_map, List.length_range,
      List.length_replicate]
    omega
  · intro k hk _
    rw [List.getElem_set, List.getElem_map, List.getElem_range, Function.update_apply]
    by_cases hindex : index = k
    · rw [if_pos hindex, if_pos hindex.symm]
    · rw [if_neg hindex, if_neg (Ne.symm hindex), List.getElem_append]
      split
      next => rw [List.getElem_map, List.getElem_range]
      next hlarge =>
        rw [List.length_map, List.length_range, Nat.not_lt] at hlarge
        rw [List.getElem_replicate, hzero k hlarge]

theorem find?_index_eq_none_iff {defined : List Definition} {k : Nat} :
    defined.find? (fun d => d.index = k) = none ↔ forall d, d ∈ defined -> d.index ≠ k := by
  rw [List.find?_eq_none]
  exact forall₂_congr fun d _ => not_congr decide_eq_true_iff

theorem entryOf_of_not_mem {defined : List Definition} {k : Nat}
    (h : forall d, d ∈ defined -> d.index ≠ k) : entryOf defined k = Vec4.zero := by
  rw [entryOf, find?_index_eq_none_iff.mpr h]

theorem entryOf_concat {defined : List Definition} {d : Definition}
    (hnew : forall e, e ∈ defined -> e.index ≠ d.index) :
    entryOf (defined ++ [d]) = Function.update (entryOf defined) d.index d.value := by
  funext k
  rw [Function.update_apply]
  by_cases hk : k = d.index
  · subst hk
    rw [if_pos rfl, entryOf, List.find?_append, find?_index_eq_none_iff.mpr hnew]
    simp
  · rw [if_neg hk, entryOf, entryOf, List.find?_append]
    simp [Ne.symm hk]

theorem tableOf_concat {defined : List Definition} {d : Definition}
    (hnew : forall e, e ∈ defined -> e.index ≠ d.index) :
    tableOf (defined ++ [d]) = some (place ((tableOf defined).getD []) d.index d.value) := by
  have hzero : forall k, (defined.map (·.index + 1)).foldl max 0 ≤ k ->
      entryOf defined k = Vec4.zero := by
    intro k hk
    apply entryOf_of_not_mem
    rintro e he rfl
    have hlt := (OneAbove.foldl_max (defined.map (·.index))).lt e.index (List.mem_map_of_mem he)
    rw [List.map_map] at hlt
    exact absurd hk (Nat.not_le.mpr hlt)
  have htable : (tableOf defined).getD [] =
      (List.range ((defined.map (·.index + 1)).foldl max 0)).map (entryOf defined) := by
    unfold tableOf
    split
    next hempty =>
      rw [List.isEmpty_iff.mp hempty]
      rfl
    next => rfl
  rw [htable, place_map_range hzero, ← entryOf_concat hnew]
  simp [tableOf]

theorem lookup_defined (defined : List Definition) (k : Nat) :
    (defined.map fun d => (d.index, d.line)).lookup k =
      (defined.find? fun d => d.index = k).map (·.line) := by
  induction defined with
  | nil => rfl
  | cons d defined ih =>
      rw [List.map_cons, List.lookup_cons, List.find?_cons]
      by_cases hk : d.index = k
      · simp [hk]
      · have hbeq : (k == d.index) = false := beq_eq_false_iff_ne.mpr (Ne.symm hk)
        simp [hk, hbeq, ih]

/-!
## Operands
-/

def Bank.size : Bank -> Nat
  | temp => Slot.tempCount
  | input => Slot.inputLimit
  | output => Slot.outputLimit
  | constant => Program.constantLimit

def Bank.operand (bank : Bank) (index : Nat) : Operand :=
  match bank with
  | temp => .register (Slot.temp index)
  | input => .register (Slot.input index)
  | output => .register (Slot.output index)
  | constant => .constant (UInt8.ofNat index)

/-- Resolve a written operand.  Constants must be defined. -/
def resolve (defined : List Definition) : SourceOperand -> Except Cause Operand
  | .number _ text => .error (.literal text)
  | .reference .constant index text =>
      if defined.any (·.index = index) then .ok (Bank.operand .constant index)
      else .error (.undefinedConstant text)
  | .reference bank index text =>
      if index < bank.size then .ok (bank.operand index)
      else .error (.bankRange bank text)

def resolveDestination (defined : List Definition) (o : SourceOperand) : Except Cause Slot := do
  match ← resolve defined o with
  | .register slot => .ok slot
  | .constant _ => .error (.constantDestination o.text)

/-- A count of registers of a bank, raised to reach an operand of that bank. -/
def raise (bank : Bank) (most : Nat) : SourceOperand -> Nat
  | .reference b index _ => if b = bank then max most (index + 1) else most
  | .number _ _ => most

/-- One more than the highest index of a bank among the operands. -/
def usage (bank : Bank) (instructions : List SourceInstruction) : Nat :=
  (instructions.flatMap (·.operands)).foldl (raise bank) 0

namespace Assembler

def noting (a : Assembler) (os : List SourceOperand) : Assembler :=
  { a with
    inputs := os.foldl (raise .input) a.inputs
    outputs := os.foldl (raise .output) a.outputs }

section Resolving

variable {a : Assembler} {defined : List Definition}

theorem operand_eq (hdefined : a.defined = defined.map fun d => (d.index, d.line))
    (o : SourceOperand) :
    a.operand o = (fun r => (r, a.noting [o])) <$> resolve defined o := by
  cases o with
  | number value text => rfl
  | reference bank index text =>
      cases bank with
      | constant =>
          have hany : (a.defined.lookup index).isSome = defined.any (·.index = index) := by
            rw [hdefined, lookup_defined, Option.isSome_map, List.isSome_find?]
          simp only [operand, resolve, hany]
          rw [apply_ite (Functor.map _)]
          rfl
      | temp | input | output =>
          simp only [operand, resolve]
          rw [apply_ite (Functor.map _)]
          rfl

theorem operands_eq (os : List SourceOperand) {a : Assembler}
    (hdefined : a.defined = defined.map fun d => (d.index, d.line)) :
    a.operands os = (fun rs => (rs, a.noting os)) <$> os.mapM (resolve defined) := by
  induction os generalizing a with
  | nil => rfl
  | cons o os ih =>
      rw [operands, operand_eq hdefined, List.mapM_cons]
      cases resolve defined o with
      | error cause => rfl
      | ok first =>
          show (a.noting [o]).operands os >>= _ = _
          rw [ih (a := a.noting [o]) hdefined]
          cases os.mapM (resolve defined) with
          | error cause => rfl
          | ok others => rfl

theorem destination_eq (hdefined : a.defined = defined.map fun d => (d.index, d.line))
    (o : SourceOperand) :
    a.destination o = (fun slot => (slot, a.noting [o])) <$> resolveDestination defined o := by
  rw [destination, operand_eq hdefined, resolveDestination]
  cases resolve defined o with
  | error cause => rfl
  | ok operand =>
      cases operand with
      | register slot => rfl
      | constant index => rfl

end Resolving

end Assembler

/-!
## Instructions
-/

def assembleInstruction (defined : List Definition) (i : SourceInstruction) :
    Except Cause Instruction := do
  match Opcode.ofName? (LetterCase.lower i.mnemonic) with
  | none => .error (.unknownMnemonic i.mnemonic)
  | some op =>
      if op = .done then
        if i.operands.isEmpty then .ok Instruction.terminator
        else .error .terminatorOperands
      else
        match op.kernel? with
        | none => .error (.notExecutable i.mnemonic)
        | some kernel =>
            if i.operands.length ≠ kernel.arity + 1 then
              .error (.operandCount op (kernel.arity + 1) i.operands.length)
            else
              match i.operands with
              | [] => .error (.operandCount op (kernel.arity + 1) 0)
              | first :: others =>
                  let dst ← resolveDestination defined first
                  let sources ← others.mapM (resolve defined)
                  let descriptor := Operand.descriptor sources
                  if Operand.wired kernel.arity descriptor then .ok { op, dst, sources }
                  else .error (.unwired op descriptor)

def assembleLine (defined : List Definition) (i : SourceInstruction) :
    Except Error Instruction :=
  (assembleInstruction defined i).mapError fun cause => ⟨i.line, cause⟩

/-- The encodings one after another, and a terminator unless they end with one. -/
def codeOf (instructions : List Instruction) : Bytes :=
  instructions.flatMap Instruction.encode
    ++ (if instructions.getLast?.map (·.op) = some .done then [] else [Opcode.done.toByte])

namespace Assembler

def appending (a : Assembler) (os : List SourceOperand) (inst : Instruction) : Assembler :=
  { a.noting os with
    builder := ⟨a.builder.code ++ inst.encode⟩
    lastDone := inst.op = .done }

/-- The fields that are emitted are the encoding, since the opcode is not the terminator. -/
theorem emit_eq {op : Opcode} (hop : op ≠ .done) (a : Assembler) (os : List SourceOperand)
    (arity : Nat) (dst : Slot) (sources : List Operand) :
    (if Operand.wired arity (Operand.descriptor sources) then
      Except.ok { a.noting os with
        builder := (a.noting os).builder.emit ⟨op, dst, sources⟩, lastDone := false }
    else .error (Cause.unwired op (Operand.descriptor sources))) =
      a.appending os <$> (if Operand.wired arity (Operand.descriptor sources) then
        Except.ok ⟨op, dst, sources⟩
      else .error (Cause.unwired op (Operand.descriptor sources))) := by
  have hencode : Instruction.encode ⟨op, dst, sources⟩ =
      Instruction.fields ⟨op, dst, sources⟩ :=
    if_neg hop
  have happending : a.appending os ⟨op, dst, sources⟩ =
      { a.noting os with
        builder := (a.noting os).builder.emit ⟨op, dst, sources⟩, lastDone := false } := by
    rw [appending, hencode, decide_eq_false hop]
    rfl
  rw [← happending, apply_ite (Functor.map _)]
  rfl

theorem assembleInstruction_eq {a : Assembler} {defined : List Definition}
    (hdefined : a.defined = defined.map fun d => (d.index, d.line)) (i : SourceInstruction) :
    a.assembleInstruction i =
      a.appending i.operands <$> Assembly.assembleInstruction defined i := by
  unfold assembleInstruction Assembly.assembleInstruction
  cases Opcode.ofName? (LetterCase.lower i.mnemonic) with
  | none => rfl
  | some op =>
      by_cases hop : op = .done
      · subst hop
        cases hoperands : i.operands with
        | nil => rfl
        | cons first others => rfl
      · simp only [Opcode.arity?_eq_map_kernel? hop, if_neg hop]
        cases op.kernel? with
        | none => rfl
        | some kernel =>
            simp only [Option.map_some]
            split
            · rfl
            · cases hoperands : i.operands with
              | nil => rfl
              | cons first others =>
                  simp only [destination_eq hdefined]
                  cases resolveDestination defined first with
                  | error cause => rfl
                  | ok dst =>
                      show (a.noting [first]).operands others >>= _ = _
                      rw [operands_eq others (a := a.noting [first]) hdefined]
                      cases others.mapM (resolve defined) with
                      | error cause => rfl
                      | ok sources =>
                          exact emit_eq hop a (first :: others) kernel.arity dst sources

def after (defined : List Definition) (lines : List SourceInstruction)
    (insts : List Instruction) : Assembler where
  builder := ⟨insts.flatMap Instruction.encode⟩
  constants := tableOf defined
  defined := defined.map fun d => (d.index, d.line)
  inputs := usage .input lines
  outputs := usage .output lines
  lastDone := insts.getLast?.map (·.op) = some .done

theorem after_concat {defined : List Definition} {d : Definition}
    (hnew : forall e, e ∈ defined -> e.index ≠ d.index) :
    after (defined ++ [d]) [] [] =
      { after defined [] [] with
        defined := (after defined [] []).defined ++ [(d.index, d.line)]
        constants :=
          some (place ((after defined [] []).constants.getD []) d.index d.value) } := by
  simp only [after, tableOf_concat hnew, List.map_append]
  rfl

theorem defineConstant_after (defined : List Definition) (c : ConstantLine) :
    onLine c.line ((after defined [] []).defineConstant c) =
      (fun defined => after defined [] []) <$> define defined c := by
  unfold defineConstant define
  by_cases hrange : 0 ≤ c.index ∧ c.index < Program.constantLimit
  · rw [if_pos hrange, if_pos hrange]
    have hlookup : (after defined [] []).defined.lookup c.index.toNat = _ :=
      lookup_defined defined c.index.toNat
    cases hfind : defined.find? fun d => d.index = c.index.toNat with
    | some earlier =>
        rw [hfind] at hlookup
        simp only [hlookup]
        rfl
    | none =>
        rw [hfind] at hlookup
        simp only [hlookup]
        show Except.ok _ = Except.ok (after (defined ++ [_]) [] [])
        rw [after_concat (d := ⟨c.index.toNat, vectorOf c.values, c.line⟩)
          (find?_index_eq_none_iff.mp hfind)]
  · rw [if_neg hrange, if_neg hrange]
    rfl

theorem foldlM_defineConstant (constants : List ConstantLine) (defined : List Definition) :
    constants.foldlM (fun (a : Assembler) c => onLine c.line (a.defineConstant c))
        (after defined [] []) =
      (fun defined => after defined [] []) <$> constants.foldlM define defined := by
  induction constants generalizing defined with
  | nil => rfl
  | cons c constants ih =>
      rw [List.foldlM_cons, List.foldlM_cons, defineConstant_after]
      cases define defined c with
      | error e => rfl
      | ok next => exact ih next

theorem assembleInstruction_after (defined : List Definition) (lines : List SourceInstruction)
    (insts : List Instruction) (i : SourceInstruction) :
    onLine i.line ((after defined lines insts).assembleInstruction i) =
      (fun inst => after defined (lines ++ [i]) (insts ++ [inst])) <$>
        assembleLine defined i := by
  have hstate : forall inst, (after defined lines insts).appending i.operands inst =
      after defined (lines ++ [i]) (insts ++ [inst]) := by
    intro inst
    simp [appending, noting, after, usage, List.flatMap_append, List.foldl_append]
  rw [assembleInstruction_eq rfl, assembleLine]
  cases Assembly.assembleInstruction defined i with
  | error cause => rfl
  | ok inst => exact congrArg Except.ok (hstate inst)

theorem foldlM_assembleInstruction (defined : List Definition)
    (rest lines : List SourceInstruction) (insts : List Instruction) :
    rest.foldlM (fun (a : Assembler) i => onLine i.line (a.assembleInstruction i))
        (after defined lines insts) =
      (fun more => after defined (lines ++ rest) (insts ++ more)) <$>
        rest.mapM (assembleLine defined) := by
  induction rest generalizing lines insts with
  | nil =>
      show Except.ok _ = Except.ok (after defined (lines ++ []) (insts ++ []))
      rw [List.append_nil, List.append_nil]
  | cons i rest ih =>
      rw [List.foldlM_cons, List.mapM_cons, assembleInstruction_after]
      cases assembleLine defined i with
      | error e => rfl
      | ok inst =>
          show rest.foldlM _ (after defined (lines ++ [i]) (insts ++ [inst])) = _
          rw [ih]
          cases rest.mapM (assembleLine defined) with
          | error e => rfl
          | ok more =>
              show Except.ok (after _ (lines ++ [i] ++ rest) (insts ++ [inst] ++ more)) =
                Except.ok (after _ (lines ++ i :: rest) (insts ++ inst :: more))
              rw [List.append_assoc, List.append_assoc]
              rfl

/-- The terminator that the builder adds is cut off exactly where there is one already. -/
theorem program_after (defined : List Definition) (lines : List SourceInstruction)
    (insts : List Instruction) :
    (after defined lines insts).program =
      { code := some (codeOf insts)
        constants := tableOf defined
        inputs := usage .input lines
        outputs := usage .output lines } := by
  have hcode : (if (after defined lines insts).lastDone then
      (after defined lines insts).builder.bytes.dropLast
      else (after defined lines insts).builder.bytes) = codeOf insts := by
    by_cases hlast : insts.getLast?.map (·.op) = some .done
    · simp [after, hlast, codeOf, CodeBuilder.bytes]
    · simp [after, hlast, codeOf, CodeBuilder.bytes]
  rw [program, hcode]
  rfl

end Assembler

theorem assembleSource_eq (source : Source) :
    assembleSource source = (do
      let defined ← defineAll source.constants
      let instructions ← source.instructions.mapM (assembleLine defined)
      .ok {
        code := some (codeOf instructions)
        constants := tableOf defined
        inputs := usage .input source.instructions
        outputs := usage .output source.instructions }) := by
  unfold assembleSource defineAll
  have hempty : ({} : Assembler) = Assembler.after [] [] [] := rfl
  rw [hempty, Assembler.foldlM_defineConstant]
  cases source.constants.foldlM define [] with
  | error e => rfl
  | ok defined =>
      rw [ok_bind]
      show source.instructions.foldlM
          (fun (a : Assembler) i => onLine i.line (a.assembleInstruction i))
          (Assembler.after defined [] []) >>= _ = _
      rw [Assembler.foldlM_assembleInstruction]
      cases source.instructions.mapM (assembleLine defined) with
      | error e => rfl
      | ok insts => exact congrArg Except.ok (Assembler.program_after defined _ insts)

end Assembly
end VectorMachine
