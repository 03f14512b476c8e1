import VectorMachine.Assembly.Source
import VectorMachine.Proofs.TokenRanges

/-!
# Reading line by line

The reader goes through the tokens of all lines in one loop, and a list of operands
stops at the first token that ends a line.  So no statement takes a token from the next
line, and the loop comes to what reading each line by itself comes to.
-/

namespace VectorMachine
namespace Assembly

/-!
## One line
-/

inductive Statement where
  | instruction (i : SourceInstruction)
  | constant (c : ConstantLine)
deriving DecidableEq

/-- Read the operands of a line, of which the commas are dropped. -/
def readOperands (tokens : List Token) : Except Error (List SourceOperand) :=
  (tokens.filter (·.kind ≠ .comma)).mapM readOperand

def readConstant (line : Nat) (tokens : List Token) : Except Error ConstantLine :=
  readOperands tokens >>= constantOf line

def readLine : List Token -> Except Error (Option Statement)
  | [] => .ok none
  | t :: rest =>
      match t.kind with
      | .endOfInput => .ok none
      | .word => do
          let operands ← readOperands rest
          .ok (some (.instruction { mnemonic := t.value, operands, line := t.line }))
      | .directive =>
          if t.value = utf8 ".const" then do
            let constant ← readConstant t.line rest
            .ok (some (.constant constant))
          else .error ⟨t.line, .unknownDirective t.value⟩
      | _ => .error ⟨t.line, .unexpectedStart t.kind t.value⟩

/-- The tokens of each line, without the marks that end them. -/
def linesOf : List Token -> List (List Token)
  | [] => [[]]
  | t :: rest =>
      if t.kind = .newline then
        [] :: linesOf rest
      else if t.kind = .endOfInput then
        linesOf rest
      else
        match linesOf rest with
        | [] => [[t]]
        | line :: lines => (t :: line) :: lines

def Source.ofStatements (statements : List Statement) : Source where
  instructions := statements.filterMap fun
    | .instruction i => some i
    | .constant _ => none
  constants := statements.filterMap fun
    | .instruction _ => none
    | .constant c => some c

theorem linesOf_inner_append {tokens : List Token} (h : forall t, t ∈ tokens -> t.kind.Inner)
    {rest first : List Token} {lines : List (List Token)}
    (hrest : linesOf rest = first :: lines) :
    linesOf (tokens ++ rest) = (tokens ++ first) :: lines := by
  induction tokens with
  | nil => exact hrest
  | cons t tokens ih =>
      rcases h t List.mem_cons_self with ⟨hnewline, hend⟩
      rw [List.cons_append, linesOf, if_neg hnewline, if_neg hend,
        ih fun u hu => h u (List.mem_cons_of_mem t hu)]
      rfl

theorem linesOf_append {tokens : List Token} (h : forall t, t ∈ tokens -> t.kind.Inner)
    (value : Text) (line : Nat) (rest : List Token) :
    linesOf (tokens ++ ⟨.newline, value, line⟩ :: rest) = tokens :: linesOf rest := by
  rw [linesOf_inner_append h rfl, List.append_nil]

theorem linesOf_last {tokens : List Token} (h : forall t, t ∈ tokens -> t.kind.Inner)
    (n : Nat) :
    linesOf (tokens ++ [⟨.endOfInput, [], n⟩]) = [tokens] := by
  rw [linesOf_inner_append h rfl, List.append_nil]

theorem readOperands_comma {t : Token} (ht : t.kind = .comma) (tokens : List Token) :
    readOperands (t :: tokens) = readOperands tokens := by
  unfold readOperands
  rw [List.filter_cons_of_neg (by simp [ht])]

theorem readOperands_cons {t : Token} (ht : t.kind ≠ .comma) (tokens : List Token) :
    readOperands (t :: tokens) =
      readOperand t >>= fun o => readOperands tokens >>= fun os => .ok (o :: os) := by
  unfold readOperands
  rw [List.filter_cons_of_pos (by simp [ht]), List.mapM_cons]
  rfl

/-!
## The loops
-/

def Source.consStatement : Option Statement -> Source -> Source
  | none, s => s
  | some (.instruction i), s => s.consInstruction i
  | some (.constant c), s => s.consConstant c

theorem Source.ofStatements_cons (statement : Option Statement)
    (statements : List (Option Statement)) :
    ofStatements ((statement :: statements).filterMap id) =
      consStatement statement (ofStatements (statements.filterMap id)) := by
  cases statement with
  | none => rfl
  | some s => cases s <;> rfl

section Line

variable {line : List Token} (hline : forall t, t ∈ line -> t.kind.Inner) {mark : Token}
  (hmark : mark.kind = .newline ∨ mark.kind = .endOfInput) (rest : List Token)
include hline hmark

/-- A list of operands stops where the line does, whatever comes after it. -/
theorem readOperandList_append :
    readOperandList (line ++ mark :: rest) =
      readOperands line >>= fun operands => .ok (operands, mark :: rest) := by
  induction line with
  | nil =>
      rw [List.nil_append, readOperandList, if_pos hmark]
      rfl
  | cons t line ih =>
      have hrest := ih fun u hu => hline u (List.mem_cons_of_mem t hu)
      have hinner : ¬(t.kind = .newline ∨ t.kind = .endOfInput) :=
        not_or.mpr (hline t List.mem_cons_self)
      rw [List.cons_append, readOperandList, if_neg hinner]
      by_cases hcomma : t.kind = .comma
      · rw [if_pos hcomma, readOperands_comma hcomma, hrest]
      · rw [if_neg hcomma, readOperands_cons hcomma, hrest]
        cases readOperand t with
        | error e => rfl
        | ok operand => cases readOperands line <;> rfl

theorem readInstruction_append (t : Token) :
    readInstruction t (line ++ mark :: rest) =
      readOperands line >>= fun operands =>
        .ok (⟨t.value, operands, t.line⟩, mark :: rest) := by
  unfold readInstruction
  rw [readOperandList_append hline hmark]
  cases readOperands line <;> rfl

theorem readDirective_append {t : Token} (ht : t.value = utf8 ".const") :
    readDirective t (line ++ mark :: rest) =
      readConstant t.line line >>= fun constant => .ok (constant, mark :: rest) := by
  unfold readDirective readConstant
  rw [if_pos ht, readOperandList_append hline hmark]
  cases readOperands line with
  | error e => rfl
  | ok operands => cases constantOf t.line operands <;> rfl

/-- The loop takes one line as a whole and goes on at the mark that ends it. -/
theorem readFrom_append :
    Source.readFrom (line ++ mark :: rest) =
      readLine line >>= fun statement =>
        (Source.readFrom (mark :: rest)).map (Source.consStatement statement) := by
  cases line with
  | nil =>
      show Source.readFrom (mark :: rest) =
        (Source.readFrom (mark :: rest)).map (Source.consStatement none)
      cases Source.readFrom (mark :: rest) <;> rfl
  | cons t line =>
      have hrest : forall u, u ∈ line -> u.kind.Inner :=
        fun u hu => hline u (List.mem_cons_of_mem t hu)
      have hinner := hline t List.mem_cons_self
      rw [List.cons_append, Source.readFrom, readLine]
      cases hkind : t.kind with
      | newline => exact absurd hkind hinner.1
      | endOfInput => exact absurd hkind hinner.2
      | word =>
          dsimp only
          rw [readInstruction_append hrest hmark]
          cases readOperands line <;> rfl
      | directive =>
          dsimp only
          by_cases hconst : t.value = utf8 ".const"
          · rw [if_pos hconst, readDirective_append hrest hmark rest hconst]
            cases readConstant t.line line <;> rfl
          · have herror : readDirective t (line ++ mark :: rest) =
                .error ⟨t.line, .unknownDirective t.value⟩ := if_neg hconst
            rw [if_neg hconst, herror]
            rfl
      | _ => rfl

end Line

theorem exists_first_line {tokens : List Token}
    (h : forall t, t ∈ tokens -> t.kind ≠ .endOfInput) :
    exists line, (forall t, t ∈ line -> t.kind.Inner) ∧
      (tokens = line ∨ exists value n rest, tokens = line ++ ⟨.newline, value, n⟩ :: rest) := by
  induction tokens with
  | nil => exact ⟨[], fun t ht => absurd ht List.not_mem_nil, Or.inl rfl⟩
  | cons t tokens ih =>
      by_cases hnewline : t.kind = .newline
      · refine ⟨[], fun u hu => absurd hu List.not_mem_nil,
          Or.inr ⟨t.value, t.line, tokens, ?_⟩⟩
        rw [List.nil_append, ← hnewline]
      · rcases ih fun u hu => h u (List.mem_cons_of_mem t hu) with ⟨line, hline, hsplit⟩
        refine ⟨t :: line, ?_, ?_⟩
        · intro u hu
          rcases List.mem_cons.mp hu with rfl | hu
          · exact ⟨hnewline, h u List.mem_cons_self⟩
          · exact hline u hu
        · rcases hsplit with rfl | ⟨value, n, rest, rfl⟩
          · exact Or.inl rfl
          · exact Or.inr ⟨value, n, rest, rfl⟩

namespace Source

theorem readFrom_eq_mapM {tokens : List Token}
    (h : forall t, t ∈ tokens -> t.kind ≠ .endOfInput) (n : Nat) :
    readFrom (tokens ++ [⟨.endOfInput, [], n⟩]) =
      (linesOf (tokens ++ [⟨.endOfInput, [], n⟩])).mapM readLine >>= fun statements =>
        .ok (ofStatements (statements.filterMap id)) := by
  rcases exists_first_line h with ⟨line, hline, hlast | ⟨value, m, rest, hsplit⟩⟩
  · have hend : readFrom [⟨.endOfInput, [], n⟩] = .ok {} := by
      rw [readFrom]
    rw [hlast, linesOf_last hline, readFrom_append hline (Or.inr rfl), List.mapM_cons, hend]
    cases readLine line with
    | error e => rfl
    | ok statement => exact congrArg Except.ok (ofStatements_cons statement []).symm
  · have hshorter : rest.length < tokens.length := by
      rw [hsplit, List.length_append, List.length_cons]
      omega
    have hrest : forall t, t ∈ rest -> t.kind ≠ .endOfInput :=
      fun t ht => h t (hsplit ▸ List.mem_append_right _ (List.mem_cons_of_mem _ ht))
    have hnext : readFrom (⟨.newline, value, m⟩ :: (rest ++ [⟨.endOfInput, [], n⟩])) =
        readFrom (rest ++ [⟨.endOfInput, [], n⟩]) := by
      rw [readFrom]
    rw [hsplit, List.append_assoc, List.cons_append, linesOf_append hline,
      readFrom_append hline (Or.inl rfl), List.mapM_cons, hnext, readFrom_eq_mapM hrest n]
    cases readLine line with
    | error e => rfl
    | ok statement =>
        cases (linesOf (rest ++ [⟨.endOfInput, [], n⟩])).mapM readLine with
        | error e => rfl
        | ok statements =>
            exact congrArg Except.ok (ofStatements_cons statement statements).symm
termination_by tokens.length
decreasing_by exact hshorter

theorem read_eq_mapM (text : Text) :
    Source.read text =
      (linesOf (Token.scan text)).mapM readLine >>= fun statements =>
        .ok (ofStatements (statements.filterMap id)) := by
  rcases exists_tiled_scanFrom [] text rfl with ⟨tokens, spans, hscan, htiled⟩
  unfold Source.read
  rw [Token.scan, show (1 : Nat) = 1 + List.count 0x0a ([] : Text) from rfl, hscan]
  exact readFrom_eq_mapM htiled.kind_ne_endOfInput _

end Source

end Assembly
end VectorMachine
