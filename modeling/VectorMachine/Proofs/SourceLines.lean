import VectorMachine.Proofs.ConstantTexts
import VectorMachine.Proofs.LineReading

/-!
# Lines of source

What a stretch of operands lists, what a line holds, and how the lines of a source
are read one after another.  Nothing here depends on the number of the line.
-/

namespace VectorMachine
namespace Assembly

/-!
## Operands
-/

def Lists (t : Text) (operands : List SourceOperand) : Prop :=
  exists pieces, Lexes t pieces ∧ (forall x, x ∈ pieces -> x.1.Inner) ∧
    forall line, readOperands (pieces.map (Token.on line)) = .ok operands

theorem readOperands_append {s t : List Token} {os ps : List SourceOperand}
    (hs : readOperands s = .ok os) (ht : readOperands t = .ok ps) :
    readOperands (s ++ t) = .ok (os ++ ps) := by
  unfold readOperands at hs ht ⊢
  rw [List.filter_append, List.mapM_append, hs, ht]
  rfl

namespace Lists

theorem nil : Lists [] [] :=
  ⟨[], Lexes.nil, nofun, fun _ => rfl⟩

theorem append {s t : Text} {os ps : List SourceOperand} (hs : Lists s os) (ht : Lists t ps)
    (hbreak : Breaks t) : Lists (s ++ t) (os ++ ps) := by
  rcases hs with ⟨xs, hxs, hinner, hos⟩
  rcases ht with ⟨ys, hys, hinner', hps⟩
  refine ⟨xs ++ ys, hxs.append hys hbreak, ?_, ?_⟩
  · intro x hx
    rcases List.mem_append.mp hx with hx | hx
    · exact hinner x hx
    · exact hinner' x hx
  · intro line
    rw [List.map_append]
    exact readOperands_append (hos line) (hps line)

theorem blank {t : Text} {os : List SourceOperand} (h : Lists t os) : Lists (0x20 :: t) os := by
  rcases h with ⟨xs, hxs, hread⟩
  exact ⟨xs, hxs.blank, hread⟩

theorem blanks {t : Text} {os : List SourceOperand} (h : Lists t os) (n : Nat) :
    Lists (List.replicate n 0x20 ++ t) os := by
  rcases h with ⟨xs, hxs, hread⟩
  exact ⟨xs, hxs.blanks n, hread⟩

theorem comma {t : Text} {os : List SourceOperand} (h : Lists t os) : Lists (0x2c :: t) os := by
  rcases h with ⟨xs, hxs, hinner, hread⟩
  refine ⟨(.comma, [0x2c]) :: xs, hxs.comma, ?_, hread⟩
  intro x hx
  rcases List.mem_cons.mp hx with rfl | hx
  · exact ⟨nofun, nofun⟩
  · exact hinner x hx

theorem join {texts : List Text} {os : List SourceOperand}
    (h : List.Forall₂ (fun t o => Lists t [o]) texts os) :
    Lists (Text.join (utf8 ", ") texts) os := by
  induction h with
  | nil => exact nil
  | @cons t o texts os ht hrest ih =>
      cases hrest with
      | nil => simpa [Text.join, List.intercalate] using ht
      | cons hu hmore =>
          have hsep : utf8 ", " = [0x2c, 0x20] := rfl
          have hsplit := ht.append ih.blank.comma (breaks_cons rfl _)
          simpa [Text.join, List.intercalate, hsep] using hsplit

theorem token {kind : TokenKind} {t : Text} {o : SourceOperand} (hlexes : Lexes t [(kind, t)])
    (hinner : kind.Inner) (hcomma : kind ≠ .comma)
    (hread : forall line, readOperand ⟨kind, t, line⟩ = .ok o) : Lists t [o] := by
  refine ⟨[(kind, t)], hlexes, ?_, ?_⟩
  · intro x hx
    rw [List.mem_singleton.mp hx]
    exact hinner
  · intro line
    have hkeep : ([(kind, t)].map (Token.on line)).filter (·.kind ≠ .comma) =
        [⟨kind, t, line⟩] := by
      simp [Token.on, hcomma]
    unfold readOperands
    rw [hkeep, List.mapM_cons, hread line]
    rfl

theorem number {t : Text} {x : Float} (hlexes : Lexes t [(.number, t)])
    (hread : Number.readFloat t = .ok x) : Lists t [.number x t] := by
  refine token hlexes ⟨nofun, nofun⟩ nofun ?_
  intro line
  unfold readOperand
  simp only [bankOf?, hread, if_true]

end Lists

/-!
## References
-/

namespace Bank

def letter : Bank -> UInt8
  | temp => 0x72
  | input => 0x69
  | output => 0x6f
  | constant => 0x63

def reference (bank : Bank) (n : Nat) : Text :=
  bank.letter :: Text.ofNat n

theorem ofWord_reference (bank : Bank) (n : Nat) :
    TokenKind.ofWord (bank.reference n) = bank.kind := by
  have hdigits := Text.allDigits_ofNat n
  unfold reference TokenKind.ofWord
  cases hcase : Text.ofNat n with
  | nil => exact absurd hcase (Text.ofNat_ne_nil n)
  | cons d digits =>
      rw [hcase] at hdigits
      have hall : (d :: digits).all isDigit = true := List.all_eq_true.mpr hdigits
      have hclass : forall b : UInt8, Text.isAsciiDigit b = true ->
          b < 0x80 ∧ Text.lowerByte b ≠ 0x6e ∧ Text.lowerByte b ≠ 0x61 :=
        forall_byte (by decide +kernel)
      have hletter : bank.letter < 0x80 := by cases bank <;> decide
      have hascii : (bank.letter :: d :: digits).all (· < 0x80) = true := by
        rw [List.all_eq_true]
        intro b hb
        rcases List.mem_cons.mp hb with rfl | hb
        · exact decide_eq_true hletter
        · exact decide_eq_true (hclass b (hdigits b hb)).1
      -- the second byte is a digit, so the word is the name of no number
      have hname : ¬(LetterCase.lower (bank.letter :: d :: digits) = utf8 "inf" ∨
          LetterCase.lower (bank.letter :: d :: digits) = utf8 "infinity" ∨
          LetterCase.lower (bank.letter :: d :: digits) = utf8 "nan") := by
        rcases hclass d (hdigits d List.mem_cons_self) with ⟨_, hn, ha⟩
        unfold LetterCase.lower
        rw [if_pos hascii]
        rintro (heq | heq | heq)
        · exact hn (List.cons.inj (List.cons.inj heq).2).1
        · exact hn (List.cons.inj (List.cons.inj heq).2).1
        · exact ha (List.cons.inj (List.cons.inj heq).2).1
      simp only [if_neg hname, if_pos hall]
      cases bank <;> rfl

theorem lists_reference (bank : Bank) {n : Nat} (h : Number.fitsInt n = true) :
    Lists (bank.reference n) [.reference bank n (bank.reference n)] := by
  have hlexes : Lexes (bank.reference n) [(bank.kind, bank.reference n)] := by
    rw [← bank.ofWord_reference n]
    refine Lexes.word ?_ ?_
    · cases bank <;> rfl
    · intro b hb
      have hdigit : isDigit b = true := Text.allDigits_ofNat n b hb
      unfold isWordByte
      rw [hdigit, Bool.or_true, Bool.true_or]
  refine Lists.token hlexes ?_ ?_ ?_
  · cases bank <;> exact ⟨nofun, nofun⟩
  · cases bank <;> exact nofun
  · intro line
    have hbank : bankOf? bank.kind = some bank := by cases bank <;> rfl
    have hindex : Number.readInt ((bank.reference n).drop 1) = .ok n := Number.readInt_ofNat h
    unfold readOperand
    simp only [hbank, hindex, Int.toNat_natCast]

end Bank

/-!
## Lines
-/

inductive Content where
  | nothing
  | instruction (mnemonic : Text) (operands : List SourceOperand)
  | constant (index : Int) (values : List Float)

namespace Content

def statement (line : Nat) : Content -> Option Statement
  | nothing => none
  | instruction mnemonic operands => some (.instruction ⟨mnemonic, operands, line⟩)
  | constant index values => some (.constant ⟨index, values, line⟩)

def instruction? : Content -> Option (Text × List SourceOperand)
  | instruction mnemonic operands => some (mnemonic, operands)
  | _ => none

def constant? : Content -> Option (Int × List Float)
  | constant index values => some (index, values)
  | _ => none

end Content

def Reads (t : Text) (c : Content) : Prop :=
  exists pieces : List (TokenKind × Text), (forall x, x ∈ pieces -> x.1.Inner) ∧
    (forall line rest, Token.scanFrom line (t ++ 0x0a :: rest) =
      pieces.map (Token.on line) ++
        ⟨.newline, [0x0a], line⟩ :: Token.scanFrom (line + 1) rest) ∧
    forall line, readLine (pieces.map (Token.on line)) = .ok (c.statement line)

theorem scanFrom_newline (line : Nat) (rest : Text) :
    Token.scanFrom line (0x0a :: rest) =
      ⟨.newline, [0x0a], line⟩ :: Token.scanFrom (line + 1) rest := by
  rw [Token.scanFrom]
  rfl

theorem many_note {note : Text} (h : 0x0a ∉ note) (rest : Text) :
    Extent.many (fun c => !isNewline c) (note ++ rest) =
      note.length + Extent.many (fun c => !isNewline c) rest := by
  have hall : forall b, b ∈ note -> (!isNewline b) = true := by
    intro b hb
    have hne : b ≠ 0x0a := fun heq => h (heq ▸ hb)
    simp [isNewline, hne]
  unfold Extent.many
  rw [List.takeWhile_append_of_pos hall, List.length_append]

theorem scanFrom_mark {b : UInt8} (hb : isCommentMark b = true) (line : Nat) (rest : Text) :
    Token.scanFrom line (b :: rest) =
      Token.scanFrom line (rest.drop (Extent.many (fun c => !isNewline c) rest)) := by
  have hclass : forall b : UInt8, isCommentMark b = true ->
      isBlank b = false ∧ isNewline b = false := forall_byte (by decide +kernel)
  rcases hclass b hb with ⟨hblank, hnewline⟩
  rw [Token.scanFrom, hblank, hnewline, hb]
  rfl

theorem scanFrom_comment {b : UInt8} (hb : isCommentMark b = true) {note : Text}
    (h : 0x0a ∉ note) (line : Nat) (rest : Text) :
    Token.scanFrom line (b :: (note ++ 0x0a :: rest)) =
      ⟨.newline, [0x0a], line⟩ :: Token.scanFrom (line + 1) rest := by
  rw [scanFrom_mark hb, many_note h, show Extent.many _ (0x0a :: rest) = 0 from rfl,
    Nat.add_zero, List.drop_left, scanFrom_newline]

namespace Reads

theorem empty : Reads [] .nothing :=
  ⟨[], nofun, scanFrom_newline, fun _ => rfl⟩

theorem comment {note : Text} (h : 0x0a ∉ note) : Reads (0x3b :: note) .nothing :=
  ⟨[], nofun, scanFrom_comment rfl h, fun _ => rfl⟩

theorem instruction {mnemonic t note : Text} {os : List SourceOperand}
    (hword : Lexes mnemonic [(.word, mnemonic)]) (hbreak : Breaks t) (hlist : Lists t os)
    (hnote : 0x0a ∉ note) :
    Reads (mnemonic ++ t ++ 0x20 :: 0x3b :: note) (.instruction mnemonic os) := by
  rcases hlist with ⟨pieces, hlexes, hinner, hread⟩
  refine ⟨(.word, mnemonic) :: pieces, ?_, ?_, ?_⟩
  · intro x hx
    rcases List.mem_cons.mp hx with rfl | hx
    · exact ⟨nofun, nofun⟩
    · exact hinner x hx
  · intro line rest
    have hline := hword.append hlexes hbreak line (0x20 :: 0x3b :: (note ++ 0x0a :: rest))
      (breaks_cons rfl _)
    rw [Token.scanFrom_blank rfl, scanFrom_comment rfl hnote] at hline
    simpa using hline
  · intro line
    show (readOperands (pieces.map (Token.on line)) >>= _) = _
    rw [hread line]
    rfl

theorem constant {t written : Text} {x : Float} {index : Int} {values : List (Float × Text)}
    (hbreak : Breaks t)
    (hlist : Lists t (.number x written :: values.map fun v => .number v.1 v.2))
    (hindex : Number.toInt? x = some index) (hfits : Number.fitsInt index = true)
    (hcount : values.length = 1 ∨ values.length = 4) :
    Reads (utf8 ".const" ++ t) (.constant index (values.map (·.1))) := by
  have hdirective : Lexes (utf8 ".const") [(.directive, utf8 ".const")] :=
    Lexes.token 0x2e (utf8 "const") rfl rfl rfl rfl
  have hvalues : forall (line : Nat) (vs : List (Float × Text)),
      readValues line (vs.map fun v => .number v.1 v.2) = .ok (vs.map (·.1)) := by
    intro line vs
    unfold readValues
    induction vs with
    | nil => rfl
    | cons v vs ih =>
        rw [List.map_cons, List.mapM_cons, ih]
        rfl
  rcases hlist with ⟨pieces, hlexes, hinner, hread⟩
  refine ⟨(.directive, utf8 ".const") :: pieces, ?_, ?_, ?_⟩
  · intro y hy
    rcases List.mem_cons.mp hy with rfl | hy
    · exact ⟨nofun, nofun⟩
    · exact hinner y hy
  · intro line rest
    have hline := hdirective.append hlexes hbreak line (0x0a :: rest) (breaks_cons rfl _)
    rwa [scanFrom_newline] at hline
  · intro line
    have hconstant : readConstant line (pieces.map (Token.on line)) =
        .ok ⟨index, values.map (·.1), line⟩ := by
      have hlength : (values.map fun v => SourceOperand.number v.1 v.2).length = 1 ∨
          (values.map fun v => SourceOperand.number v.1 v.2).length = 4 := by
        rwa [List.length_map]
      have hnumber : readIndex line (.number x written) = .ok index := by
        simp only [readIndex, hindex, hfits, if_true]
      unfold readConstant
      rw [hread line]
      simp only [ok_bind, constantOf, if_pos hlength, hnumber, hvalues]
    show (readConstant line (pieces.map (Token.on line)) >>= _) = _
    rw [hconstant]
    rfl

end Reads

/-!
## Sources
-/

def textOf (lines : List (Text × Content)) : Text :=
  lines.flatMap fun x => x.1 ++ [0x0a]

def statementsFrom : Nat -> List (Text × Content) -> List (Option Statement)
  | _, [] => []
  | line, x :: rest => x.2.statement line :: statementsFrom (line + 1) rest

theorem mapM_readLine_textOf {lines : List (Text × Content)}
    (h : forall x, x ∈ lines -> Reads x.1 x.2) (line : Nat) (more : Text) :
    (linesOf (Token.scanFrom line (textOf lines ++ more))).mapM readLine =
      ((linesOf (Token.scanFrom (line + lines.length) more)).mapM readLine >>= fun later =>
        .ok (statementsFrom line lines ++ later)) := by
  induction lines generalizing line with
  | nil =>
      cases hlater : (linesOf (Token.scanFrom line more)).mapM readLine with
      | error e => simp [textOf, hlater]
      | ok later => simp [textOf, statementsFrom, hlater]
  | cons x lines ih =>
      rcases h x List.mem_cons_self with ⟨pieces, hinner, hscan, hread⟩
      have htokens : forall t, t ∈ pieces.map (Token.on line) -> t.kind.Inner := by
        intro t ht
        rcases List.mem_map.mp ht with ⟨y, hy, rfl⟩
        exact hinner y hy
      have htext : textOf (x :: lines) ++ more = x.1 ++ 0x0a :: (textOf lines ++ more) := by
        simp [textOf]
      rw [htext, hscan, linesOf_append htokens, List.mapM_cons, hread line,
        ih (fun y hy => h y (List.mem_cons_of_mem x hy)), List.length_cons,
        show line + (lines.length + 1) = line + 1 + lines.length by omega]
      cases (linesOf (Token.scanFrom (line + 1 + lines.length) more)).mapM readLine with
      | error e => rfl
      | ok later => rfl

theorem ofStatements_statementsFrom (line : Nat) (lines : List (Text × Content))
    (later : List (Option Statement)) :
    let source := Source.ofStatements ((statementsFrom line lines ++ later).filterMap id)
    let after := Source.ofStatements (later.filterMap id)
    source.instructions.map (fun i => (i.mnemonic, i.operands)) =
        lines.filterMap (·.2.instruction?) ++
          after.instructions.map (fun i => (i.mnemonic, i.operands)) ∧
      source.constants.map (fun c => (c.index, c.values)) =
        lines.filterMap (·.2.constant?) ++
          after.constants.map (fun c => (c.index, c.values)) := by
  induction lines generalizing line with
  | nil => exact ⟨rfl, rfl⟩
  | cons x lines ih =>
      rcases x with ⟨t, c⟩
      rcases ih (line + 1) with ⟨hinstructions, hconstants⟩
      cases c with
      | nothing => exact ⟨hinstructions, hconstants⟩
      | instruction mnemonic operands =>
          exact ⟨congrArg ((mnemonic, operands) :: ·) hinstructions, hconstants⟩
      | constant index values =>
          exact ⟨hinstructions, congrArg ((index, values) :: ·) hconstants⟩

/-- The text is made of lines that define the constants of these indices and hold
these instructions. -/
def Says (t : Text) (indices : List Int) (instructions : List (Text × List SourceOperand)) :
    Prop :=
  exists lines : List (Text × Content), textOf lines = t ∧
    (forall x, x ∈ lines -> Reads x.1 x.2) ∧
    lines.filterMap (·.2.instruction?) = instructions ∧
    (lines.filterMap (·.2.constant?)).map (·.1) = indices

namespace Says

variable {s t : Text} {indices indices' : List Int}
  {instructions instructions' : List (Text × List SourceOperand)}

theorem nil : Says [] [] [] :=
  ⟨[], rfl, nofun, rfl, rfl⟩

theorem append (hs : Says s indices instructions) (ht : Says t indices' instructions') :
    Says (s ++ t) (indices ++ indices') (instructions ++ instructions') := by
  rcases hs with ⟨xs, rfl, hxs, rfl, rfl⟩
  rcases ht with ⟨ys, rfl, hys, rfl, rfl⟩
  refine ⟨xs ++ ys, List.flatMap_append, ?_, List.filterMap_append, ?_⟩
  · intro x hx
    rcases List.mem_append.mp hx with hx | hx
    · exact hxs x hx
    · exact hys x hx
  · rw [List.filterMap_append, List.map_append]

theorem line {c : Content} (h : Reads t c) :
    Says (t ++ [0x0a]) (c.constant?.map (·.1)).toList c.instruction?.toList := by
  refine ⟨[(t, c)], List.flatMap_singleton _ _, ?_, ?_, ?_⟩
  · intro x hx
    rw [List.mem_singleton.mp hx]
    exact h
  · cases c <;> rfl
  · cases c <;> rfl

theorem read (h : Says t indices instructions) :
    exists source, Source.read t = .ok source ∧
      source.instructions.map (fun i => (i.mnemonic, i.operands)) = instructions ∧
      source.constants.map (·.index) = indices := by
  rcases h with ⟨lines, rfl, hreads, rfl, rfl⟩
  have hmap := mapM_readLine_textOf hreads 1 []
  have hend : (linesOf (Token.scanFrom (1 + lines.length) [])).mapM readLine = .ok [none] := by
    rw [Token.scanFrom]
    rfl
  rw [List.append_nil, hend, ok_bind] at hmap
  rcases ofStatements_statementsFrom 1 lines [none] with ⟨hinstructions, hconstants⟩
  refine ⟨_, ?_, hinstructions.trans (List.append_nil _), ?_⟩
  · rw [Source.read_eq_mapM, Token.scan, hmap, ok_bind]
  · have hindices := congrArg (List.map Prod.fst) (hconstants.trans (List.append_nil _))
    rwa [List.map_map] at hindices

theorem indices_of_read_append (h : Says t indices instructions) {more : Text} {source : Source}
    (hread : Source.read (t ++ more) = .ok source) :
    exists rest, source.constants.map (·.index) = indices ++ rest := by
  rcases h with ⟨lines, rfl, hreads, rfl, rfl⟩
  rw [Source.read_eq_mapM, Token.scan, mapM_readLine_textOf hreads] at hread
  cases hlater : (linesOf (Token.scanFrom (1 + lines.length) more)).mapM readLine with
  | error e =>
      rw [hlater] at hread
      cases hread
  | ok later =>
      rw [hlater] at hread
      cases hread
      have hindices :=
        congrArg (List.map Prod.fst) (ofStatements_statementsFrom 1 lines later).2
      rw [List.map_map, List.map_append] at hindices
      exact ⟨_, hindices⟩

end Says

end Assembly
end VectorMachine
