import VectorMachine.Assembly.Assemble
import VectorMachine.Listing
import VectorMachine.Proofs.DecodedCode
import VectorMachine.Proofs.SourceLines

/-!
# What a listing says

Every line of a listing is a line of source: the constants are defined in the order
of their indices, and the instructions stand with their mnemonics and operands as
they were decoded.  The rest is comments.
-/

namespace VectorMachine

open Assembly

/-!
## Texts of one line
-/

namespace Text

def OneLine (t : Text) : Prop :=
  0x0a ∉ t

instance (t : Text) : Decidable (OneLine t) :=
  inferInstanceAs (Decidable (0x0a ∉ t))

theorem OneLine.append {s t : Text} (hs : OneLine s) (ht : OneLine t) : OneLine (s ++ t) := by
  intro h
  rcases List.mem_append.mp h with h | h
  · exact hs h
  · exact ht h

theorem oneLine_ofNat (n : Nat) : OneLine (ofNat n) := by
  intro h
  cases allDigits_ofNat n _ h

theorem oneLine_ofInt (n : Int) : OneLine (ofInt n) := by
  cases n with
  | ofNat n => exact oneLine_ofNat n
  | negSucc n => exact OneLine.append (s := [0x2d]) (by decide) (oneLine_ofNat (n + 1))

theorem oneLine_hex (width n : Nat) : OneLine (hex width n) := by
  have hdigit : forall d : Fin 16, (Nat.digitChar d.val).toNat.toUInt8 ≠ 0x0a := by decide
  have hdigits : OneLine ((Nat.toDigits 16 n).map fun c => c.toNat.toUInt8) := by
    induction n using Nat.strongRecOn with
    | _ n ih =>
        rw [Nat.toDigits_eq_if (by decide)]
        split
        next hsmall =>
          intro h
          exact hdigit ⟨n, hsmall⟩ (List.mem_singleton.mp h).symm
        next hlarge =>
          rw [List.map_append]
          apply (ih (n / 16) (Nat.div_lt_self (by omega) (by decide))).append
          intro h
          exact hdigit ⟨n % 16, Nat.mod_lt n (by decide)⟩ (List.mem_singleton.mp h).symm
  apply OneLine.append _ hdigits
  intro h
  cases (List.mem_replicate.mp h).2

end Text

open Text (OneLine)

/-!
## Mnemonics
-/

namespace Opcode

theorem name_spec : forall op, op ∈ all ->
    TokenKind.ofWord op.name = .word ∧ op.name.head?.any isLetter = true ∧
      op.name.all isWordByte = true ∧ ofName? (LetterCase.lower op.name) = some op := by
  decide +kernel

theorem mem_all_of_kernel? {op : Opcode} {kernel : Kernel} (h : op.kernel? = some kernel) :
    op ∈ all := by
  cases op with
  | undefined code outside => cases h
  | _ => decide

theorem lexes_name {op : Opcode} (h : op ∈ all) : Lexes op.name [(.word, op.name)] := by
  rcases name_spec op h with ⟨hword, hletter, hbytes, _⟩
  cases hname : op.name with
  | nil =>
      rw [hname] at hletter
      cases hletter
  | cons b tail =>
      rw [hname] at hword hletter hbytes
      rw [← hword]
      exact Lexes.word hletter fun c hc =>
        List.all_eq_true.mp hbytes c (List.mem_cons_of_mem b hc)

theorem oneLine_name (op : Opcode) : OneLine op.name := by
  cases op with
  | undefined code outside =>
      show OneLine (utf8 (if code = 0xff then "invalid" else "unknown"))
      split <;> decide
  | _ => decide

end Opcode

theorem DecodeError.oneLine_message (e : DecodeError) : OneLine e.message := by
  have hoffset : forall o, OneLine (atOffset o) :=
    fun o => OneLine.append (by decide) (Text.oneLine_ofNat o)
  cases e with
  | missingTerminator o =>
      exact OneLine.append (by decide) (Text.oneLine_ofNat o)
  | unknownOpcode code o =>
      exact (OneLine.append (by decide) (Text.oneLine_hex 2 _)).append (hoffset o)
  | truncated op o =>
      exact (OneLine.append (by decide) op.oneLine_name).append (hoffset o)
  | unwired op descriptor o =>
      exact ((((OneLine.append (by decide) op.oneLine_name).append
        (by decide)).append (Text.oneLine_hex 2 _))).append (hoffset o)
  | truncatedOperands op o =>
      exact ((OneLine.append (by decide) op.oneLine_name).append
        (by decide)).append (hoffset o)

/-!
## Operands
-/

theorem Number.fitsInt_of_lt {n : Nat} (h : n < 1000000) : fitsInt n = true := by
  rw [fitsInt_iff]
  omega

/-- The bank of a slot and its index there.  A byte beyond the last slot is written
like a temporary. -/
def Slot.place (s : Slot) : Bank × Nat :=
  let n := s.toNat
  if n < firstInput then (.temp, n)
  else if n < firstOutput then (.input, n - firstInput)
  else if n < count then (.output, n - firstOutput)
  else (.temp, n)

namespace Operand

def place : Operand -> Bank × Nat
  | .register slot => slot.place
  | .constant index => (.constant, index.toNat)

theorem reference_place (o : Operand) : o.place.1.reference o.place.2 = o.text := by
  cases o with
  | constant index => rfl
  | register slot =>
      show (Slot.place slot).1.reference (Slot.place slot).2 = Slot.name slot
      unfold Slot.place Slot.name
      dsimp only
      split
      · rfl
      · split
        · rfl
        · split <;> rfl

theorem place_lt (o : Operand) : o.place.2 < 256 := by
  cases o with
  | constant index => exact index.toNat_lt
  | register slot =>
      have hbyte := slot.toNat_lt
      show (Slot.place slot).2 < 256
      unfold Slot.place
      dsimp only
      split
      · omega
      · split
        · omega
        · split <;> omega

def written (o : Operand) : SourceOperand :=
  .reference o.place.1 o.place.2 o.text

theorem lists_text (o : Operand) : Lists o.text [o.written] := by
  have hplace := o.place_lt
  have hlists :=
    Bank.lists_reference o.place.1 (Number.fitsInt_of_lt (n := o.place.2) (by omega))
  rwa [reference_place] at hlists

end Operand

namespace Instruction

def operands (i : Instruction) : List Operand :=
  .register i.dst :: i.sources

def written (i : Instruction) : List SourceOperand :=
  if i.op = .done then [] else i.operands.map Operand.written

end Instruction

namespace Listing

theorem breaks_blanks (n : Nat) {t : Text} (h : Breaks t) :
    Breaks (List.replicate n 0x20 ++ t) := by
  cases n with
  | zero => exact h
  | succ n => exact breaks_cons rfl _

theorem exists_text (i : Instruction) :
    exists t, i.text = i.op.name ++ t ∧ Breaks t ∧ Lists t i.written := by
  unfold Instruction.text Instruction.written
  split
  · exact ⟨[], (List.append_nil _).symm, breaks_nil, Lists.nil⟩
  · have hjoin : Lists (Text.join (utf8 ", ") (Slot.name i.dst :: i.sources.map Operand.text))
        (i.operands.map Operand.written) := by
      apply Lists.join
      show List.Forall₂ _ (i.operands.map Operand.text) (i.operands.map Operand.written)
      rw [List.forall₂_map_left_iff, List.forall₂_map_right_iff]
      exact List.forall₂_same.mpr fun o _ => o.lists_text
    refine ⟨_, ?_, breaks_blanks _ (breaks_cons rfl _),
      hjoin.blank.blanks (10 - i.op.name.length)⟩
    simp only [Text.padRight, List.append_assoc]
    rfl

theorem oneLine_comment (p : Placed) : OneLine (comment p) := by
  have htitles : forall entry, entry ∈ Catalog.entries -> 0x0a ∉ utf8 entry.title := by
    decide +kernel
  apply (Text.oneLine_hex 4 p.offset).append
  split
  · exact List.not_mem_nil
  · split
    next entry hentry =>
      have hmem : entry ∈ Catalog.entries := by
        unfold Catalog.canonical? at hentry
        split at hentry
        · cases hentry
        · exact List.mem_of_find?_eq_some hentry
      exact OneLine.append (by decide) (htitles entry hmem)
    next => exact List.not_mem_nil

theorem says_instructionLine {p : Placed} (h : p.instruction.op ∈ Opcode.all) :
    Says (instructionLine p) [] [(p.instruction.op.name, p.instruction.written)] := by
  rcases exists_text p.instruction with ⟨t, htext, hbreak, hlist⟩
  have hblanks : Lists (List.replicate (32 - p.instruction.text.length) 0x20) [] := by
    simpa using Lists.nil.blanks (32 - p.instruction.text.length)
  have hbreaks : Breaks (List.replicate (32 - p.instruction.text.length) 0x20) := by
    simpa using breaks_blanks (32 - p.instruction.text.length) breaks_nil
  have hpadded := hlist.append hblanks hbreaks
  rw [List.append_nil] at hpadded
  have hnote : 0x0a ∉ 0x20 :: comment p :=
    OneLine.append (s := [0x20]) (by decide) (oneLine_comment p)
  have hreads := Reads.instruction (Opcode.lexes_name h) (hbreak.append hbreaks) hpadded hnote
  have hline : instructionLine p =
      p.instruction.op.name ++ (t ++ List.replicate (32 - p.instruction.text.length) 0x20) ++
        0x20 :: 0x3b :: 0x20 :: comment p ++ [0x0a] := by
    have hmark : utf8 " ; " = [0x20, 0x3b, 0x20] := rfl
    have hend : utf8 "\n" = [0x0a] := rfl
    unfold instructionLine Text.padRight
    rw [hmark, hend]
    simp only [htext, List.append_assoc, List.cons_append, List.nil_append]
  rw [hline]
  exact Says.line hreads

theorem says_instructionLines {placed : List Placed}
    (h : forall p, p ∈ placed -> p.instruction.op ∈ Opcode.all) :
    Says (placed.flatMap instructionLine) []
      (placed.map fun p => (p.instruction.op.name, p.instruction.written)) := by
  induction placed with
  | nil => exact Says.nil
  | cons p placed ih =>
      have hrest := ih fun q hq => h q (List.mem_cons_of_mem p hq)
      exact (says_instructionLine (h p List.mem_cons_self)).append hrest

/-!
## Constants
-/

def relisted (v : Vec4) : Vec4 :=
  if v.x == v.y && v.y == v.z && v.z == v.w then .splat (Number.reread v.x)
  else v.map Number.reread

theorem exists_constantText (v : Vec4) :
    exists values : List (Float × Text), (values.length = 1 ∨ values.length = 4) ∧
      Lists (constantText v) (values.map fun x => .number x.1 x.2) ∧
      vectorOf (values.map (·.1)) = relisted v := by
  have hnumber : forall x : Float32,
      exists y, Lists (Number.text32 x) [.number y (Number.text32 x)] ∧
        Number.narrow y = Number.reread x := by
    intro x
    rcases Number.exists_readFloat_text32 x with ⟨y, hy⟩
    exact ⟨y, Lists.number (Lexes.text32 x) hy, (Number.reread_of_readFloat hy).symm⟩
  unfold constantText relisted
  split
  · rcases hnumber v.x with ⟨y, hy, hread⟩
    exact ⟨[(y, Number.text32 v.x)], Or.inl rfl, hy, congrArg Vec4.splat hread⟩
  · rcases hnumber v.x with ⟨x, hx, hreadx⟩
    rcases hnumber v.y with ⟨y, hy, hready⟩
    rcases hnumber v.z with ⟨z, hz, hreadz⟩
    rcases hnumber v.w with ⟨w, hw, hreadw⟩
    refine ⟨[(x, Number.text32 v.x), (y, Number.text32 v.y), (z, Number.text32 v.z),
      (w, Number.text32 v.w)], Or.inr rfl, ?_, ?_⟩
    · exact Lists.join (.cons hx (.cons hy (.cons hz (.cons hw .nil))))
    · show (⟨_, _, _, _⟩ : Vec4) = _
      rw [hreadx, hready, hreadz, hreadw]
      rfl

def constantSource (index : Nat) (v : Vec4) : Text :=
  utf8 ".const " ++ Text.ofNat index ++ utf8 " " ++ constantText v

theorem reads_constantSource {index : Nat} (h : index < 1000000) (v : Vec4) :
    exists values, Reads (constantSource index v) (.constant index values) ∧
      vectorOf values = relisted v := by
  rcases Number.readFloat_ofNat h with ⟨x, hx, hindex⟩
  rcases exists_constantText v with ⟨values, hcount, hvalues, hvector⟩
  have hlist := ((Lists.number (Lexes.ofNat index) hx).append hvalues.blank
    (breaks_cons rfl _)).blank
  have hreads := Reads.constant (breaks_cons rfl _) hlist hindex (Number.fitsInt_of_lt h) hcount
  have hline : constantSource index v =
      utf8 ".const" ++ 0x20 :: (Text.ofNat index ++ 0x20 :: constantText v) := by
    have hhead : utf8 ".const " = utf8 ".const" ++ [0x20] := rfl
    have hblank : utf8 " " = [0x20] := rfl
    unfold constantSource
    rw [hhead, hblank]
    simp only [List.append_assoc, List.cons_append, List.nil_append]
  rw [← hline] at hreads
  exact ⟨_, hreads, hvector⟩

theorem says_constantLine {index : Nat} (h : index < 1000000) (v : Vec4) :
    Says (constantLine index v) [(index : Int)] [] := by
  rcases reads_constantSource h v with ⟨values, hreads, _⟩
  exact Says.line hreads

theorem says_constantLines (constants : List Vec4) (start : Nat)
    (h : start + constants.length ≤ 1000000) :
    Says ((constants.zipIdx start).flatMap fun (v, index) => constantLine index v)
      ((List.range' start constants.length).map Int.ofNat) [] := by
  induction constants generalizing start with
  | nil => exact Says.nil
  | cons v constants ih =>
      rw [List.length_cons] at h
      exact (says_constantLine (by omega) v).append (ih (start + 1) (by omega))

/-!
## Listings
-/

theorem says_empty : Says [0x0a] [] [] :=
  Says.line Reads.empty

theorem says_comment {note : Text} (h : OneLine note) : Says (0x3b :: note ++ [0x0a]) [] [] :=
  Says.line (Reads.comment h)

theorem says_headLines (p : Program) : Says (headLines p) [] [] := by
  have hfirst : OneLine (utf8 " Disassembled from VVM bytecode") := by decide
  have hsecond : OneLine (utf8 " " ++ Text.ofNat p.codeBytes.length ++ utf8 " bytes, "
      ++ Text.ofNat p.constantTable.length ++ utf8 " constants, " ++ Text.ofInt p.inputs
      ++ utf8 " inputs, " ++ Text.ofInt p.outputs ++ utf8 " outputs") := by
    refine OneLine.append (OneLine.append (OneLine.append (OneLine.append (OneLine.append
      (OneLine.append (OneLine.append (OneLine.append ?_ (Text.oneLine_ofNat _)) ?_)
        (Text.oneLine_ofNat _)) ?_) (Text.oneLine_ofInt _)) ?_) (Text.oneLine_ofInt _)) ?_
    all_goals decide
  have hsays := ((says_comment hfirst).append (says_comment hsecond)).append says_empty
  have htext : headLines p = 0x3b :: utf8 " Disassembled from VVM bytecode" ++ [0x0a] ++
      (0x3b :: (utf8 " " ++ Text.ofNat p.codeBytes.length ++ utf8 " bytes, "
        ++ Text.ofNat p.constantTable.length ++ utf8 " constants, " ++ Text.ofInt p.inputs
        ++ utf8 " inputs, " ++ Text.ofInt p.outputs ++ utf8 " outputs") ++ [0x0a]) ++
      [0x0a] := by
    have hhead : utf8 "; Disassembled from VVM bytecode\n; " =
        0x3b :: utf8 " Disassembled from VVM bytecode" ++ [0x0a] ++ 0x3b :: utf8 " " := rfl
    have htail : utf8 " outputs\n\n" = utf8 " outputs" ++ [0x0a, 0x0a] := rfl
    unfold headLines
    rw [hhead, htail]
    simp only [List.append_assoc, List.cons_append, List.nil_append]
  rw [htext]
  exact hsays

theorem says_front (p : Program) (count : Nat) (h : count ≤ 1000000)
    (hcount : count ≤ p.constantTable.length) :
    Says (headLines p ++
        ((p.constantTable.take count).zipIdx.flatMap fun (v, index) => constantLine index v))
      ((List.range count).map Int.ofNat) [] := by
  have hlength : (p.constantTable.take count).length = count := by
    rw [List.length_take, Nat.min_eq_left hcount]
  have hconstants := says_constantLines (p.constantTable.take count) 0 (by omega)
  rw [hlength, ← List.range_eq_range'] at hconstants
  exact (says_headLines p).append hconstants

def errorLine : Option DecodeError -> Text
  | some e => utf8 "; error: " ++ e.message ++ utf8 "\n"
  | none => []

theorem disassemble_eq {p : Program} {placed : List Placed} {error : Option DecodeError}
    (h : Instruction.decode p.codeBytes = (placed, error)) :
    disassemble p = headLines p ++ constantLines p.constantTable ++
      placed.flatMap instructionLine ++ errorLine error := by
  unfold disassemble
  rw [h]
  cases error <;> rfl

theorem says_errorLine (error : Option DecodeError) : Says (errorLine error) [] [] := by
  cases error with
  | none => exact Says.nil
  | some e =>
      have hnote : OneLine (utf8 " error: " ++ e.message) :=
        OneLine.append (by decide) e.oneLine_message
      exact says_comment hnote

theorem says_disassemble {p : Program} (h : p.constantTable.length ≤ 1000000)
    {placed : List Placed} {error : Option DecodeError}
    (hdecode : Instruction.decode p.codeBytes = (placed, error))
    (hplaced : forall q, q ∈ placed -> q.instruction.op ∈ Opcode.all) :
    Says (disassemble p) ((List.range p.constantTable.length).map Int.ofNat)
      (placed.map fun q => (q.instruction.op.name, q.instruction.written)) := by
  have hfront := says_front p p.constantTable.length h (Nat.le_refl _)
  rw [List.take_length] at hfront
  have hgap : Says (if p.constantTable.isEmpty then [] else utf8 "\n") [] [] := by
    split
    · exact Says.nil
    · exact says_empty
  have hall := ((hfront.append hgap).append (says_instructionLines hplaced)).append
    (says_errorLine error)
  rw [disassemble_eq hdecode, constantLines, ← List.append_assoc (headLines p)]
  simpa only [List.append_nil, List.nil_append] using hall

theorem exists_front (p : Program) (count : Nat) :
    exists more, disassemble p = headLines p ++
      ((p.constantTable.take count).zipIdx.flatMap fun (v, index) => constantLine index v) ++
        more := by
  have hsplit : (p.constantTable.zipIdx.flatMap fun (v, index) => constantLine index v) =
      ((p.constantTable.take count).zipIdx.flatMap fun (v, index) => constantLine index v) ++
        (((p.constantTable.drop count).zipIdx (p.constantTable.take count).length).flatMap
          fun (v, index) => constantLine index v) := by
    rw [← List.flatMap_append]
    congr 1
    conv_lhs =>
      rw [← List.take_append_drop count p.constantTable, List.zipIdx_append, Nat.zero_add]
  unfold disassemble constantLines
  rw [hsplit]
  simp only [List.append_assoc]
  exact ⟨_, rfl⟩

end Listing
end VectorMachine
