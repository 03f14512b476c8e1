import VectorMachine.Proofs.SourceLines

/-!
# The grammar of a line

A line says nothing, or is a word with operands, or defines a constant.  Whether it
does is said of its tokens alone, and a source is read exactly if all of its lines
follow the grammar.  The first line that does not decides the error, which is its own.
-/

namespace VectorMachine

/-!
## Integral numbers
-/

namespace Number

open Float.Model.UnpackedFloat (Sign)

theorem apply_mul (sign : Sign) (a b : Int) : sign.apply (a * b) = sign.apply a * b := by
  cases sign with
  | positive => rfl
  | negative => exact (Int.neg_mul a b).symm

theorem dvd_apply_iff (sign : Sign) (a b : Int) : a ∣ sign.apply b ↔ a ∣ b := by
  cases sign with
  | positive => exact Iff.rfl
  | negative => exact Int.dvd_neg

def rational? (x : Float) : Option ℚ :=
  match x.toModel.unpack with
  | .zero _ => some 0
  | .finite sign mantissa exponent _ => some ((sign.apply mantissa : Int) * 2 ^ exponent)
  | _ => none

theorem toInt?_eq_some_iff {x : Float} {n : Int} :
    toInt? x = some n ↔ rational? x = some (n : ℚ) := by
  unfold toInt? rational?
  cases x.toModel.unpack with
  | notANumber => simp
  | infinity sign => simp
  | zero sign => simp [eq_comm]
  | finite sign mantissa exponent hpos =>
      simp only [Option.some.injEq]
      by_cases hexponent : 0 ≤ exponent
      · rcases Int.eq_ofNat_of_zero_le hexponent with ⟨k, rfl⟩
        have hvalue : ((sign.apply mantissa : Int) : ℚ) * 2 ^ (k : Int) =
            (sign.apply (mantissa <<< k : Nat) : Int) := by
          rw [Nat.shiftLeft_eq, Nat.cast_mul, apply_mul, zpow_natCast]
          push_cast
          rfl
        rw [if_pos hexponent, Int.toNat_natCast, Option.some.injEq, hvalue, Int.cast_inj]
      · have hnegative := Int.neg_nonneg_of_nonpos (le_of_lt (not_le.mp hexponent))
        rcases Int.eq_ofNat_of_zero_le hnegative with ⟨k, hk⟩
        have hvalue : ((sign.apply mantissa : Int) : ℚ) * 2 ^ exponent = n ↔
            sign.apply mantissa = n * ((2 ^ k : Nat) : Int) := by
          rw [← Int.neg_neg exponent, hk, zpow_neg, zpow_natCast,
            mul_inv_eq_iff_eq_mul₀ (pow_ne_zero k two_ne_zero)]
          norm_cast
        rw [if_neg hexponent, hvalue, hk, Int.toNat_natCast, Nat.pow_eq]
        have hpower : ((2 ^ k : Nat) : Int) ≠ 0 := by positivity
        split
        next hmod =>
          rcases Nat.dvd_of_mod_eq_zero hmod with ⟨q, rfl⟩
          rw [Nat.cast_mul, Int.mul_ediv_cancel_left _ hpower, Option.some.injEq,
            Int.mul_comm _ (q : Int), apply_mul, Int.mul_eq_mul_right_iff hpower]
        next hmod =>
          constructor
          · intro hnone
            cases hnone
          · intro heq
            have hdvd : ((2 ^ k : Nat) : Int) ∣ mantissa :=
              (dvd_apply_iff sign _ _).mp ⟨n, heq.trans (Int.mul_comm _ _)⟩
            exact absurd (Nat.mod_eq_zero_of_dvd (Int.natCast_dvd_natCast.mp hdvd)) hmod
end Number

namespace Assembly

/-!
## Grammar

Tokens count here by their kind and value alone.
-/

inductive IsOperand : TokenKind × Text -> SourceOperand -> Prop where
  | reference {kind : TokenKind} {value : Text} {bank : Bank} (hbank : bankOf? kind = some bank)
      (hindex : Text.valueOf 10 (Number.digitsOf (value.drop 1)) < 2 ^ 63) :
      IsOperand (kind, value)
        (.reference bank (Text.valueOf 10 (Number.digitsOf (value.drop 1))) value)
  | number {value : Text} {x : Float} (hread : Number.readFloat value = .ok x) :
      IsOperand (.number, value) (.number x value)

/-- The tokens are these operands and commas anywhere among them. -/
inductive AreOperands : List (TokenKind × Text) -> List SourceOperand -> Prop where
  | nil : AreOperands [] []
  | comma {value : Text} {pieces : List (TokenKind × Text)} {operands : List SourceOperand}
      (hrest : AreOperands pieces operands) : AreOperands ((.comma, value) :: pieces) operands
  | operand {piece : TokenKind × Text} {pieces : List (TokenKind × Text)} {o : SourceOperand}
      {operands : List SourceOperand} (hfirst : IsOperand piece o)
      (hrest : AreOperands pieces operands) : AreOperands (piece :: pieces) (o :: operands)

inductive Grammatical : List (TokenKind × Text) -> Content -> Prop where
  | nothing : Grammatical [] .nothing
  | instruction {mnemonic : Text} {pieces : List (TokenKind × Text)}
      {operands : List SourceOperand} (hoperands : AreOperands pieces operands) :
      Grammatical ((.word, mnemonic) :: pieces) (.instruction mnemonic operands)
  | constant {pieces : List (TokenKind × Text)} {x : Float} {text : Text}
      {values : List (Float × Text)} {index : Int}
      (hoperands : AreOperands pieces (.number x text :: values.map fun v => .number v.1 v.2))
      (hcount : values.length = 1 ∨ values.length = 4)
      (hindex : Number.rational? x = some (index : ℚ))
      (hfits : -2 ^ 63 ≤ index ∧ index < 2 ^ 63) :
      Grammatical ((.directive, utf8 ".const") :: pieces) (.constant index (values.map (·.1)))

/-- The tokens of a line by itself, without the mark of its end. -/
def Token.ofLine (line : Text) : List (TokenKind × Text) :=
  (Token.scan line).dropLast.map fun t => (t.kind, t.value)

/-!
## Operands
-/

theorem Spelled.digits {kind : TokenKind} {value text : Text} (h : Spelled kind value text)
    {bank : Bank} (hbank : bankOf? kind = some bank) :
    value.drop 1 ≠ [] ∧ Text.AllDigits (value.drop 1) := by
  cases h with
  | reference _ letter hne hdigits => exact ⟨hne, hdigits⟩
  | newline => cases hbank
  | comma => cases hbank
  | word => cases hbank
  | number => cases hbank
  | directive => cases hbank
  | illegal => cases hbank

theorem readOperand_eq_ok_iff {line : Nat} {piece : TokenKind × Text} {text : Text}
    (h : Spelled piece.1 piece.2 text) {o : SourceOperand} :
    readOperand (Token.on line piece) = .ok o ↔ IsOperand piece o := by
  rcases piece with ⟨kind, value⟩
  unfold readOperand Token.on
  constructor
  · intro hread
    simp only at hread
    split at hread
    next bank hbank =>
      rcases h.digits hbank with ⟨hne, hdigits⟩
      split at hread
      next n hindex =>
        cases hread
        rcases (Number.readInt_eq_ok_iff hne hdigits).mp hindex with ⟨rfl, hfits⟩
        exact .reference hbank (Int.ofNat_lt.mp ((Number.fitsInt_iff _).mp hfits).2)
      next => cases hread
    next =>
      split at hread
      next hkind =>
        cases hkind
        split at hread
        next x hx =>
          cases hread
          exact .number hx
        next => cases hread
      next => cases hread
  · intro hoperand
    cases hoperand with
    | reference hbank hindex =>
        rcases h.digits hbank with ⟨hne, hdigits⟩
        have hfits :=
          (Number.fitsInt_iff (Text.valueOf 10 (Number.digitsOf (value.drop 1)))).mpr
            ⟨by omega, Int.ofNat_lt.mpr hindex⟩
        simp only [hbank, (Number.readInt_eq_ok_iff hne hdigits).mpr ⟨rfl, hfits⟩,
          Int.toNat_natCast]
    | number hread => simp only [bankOf?, if_true, hread]

theorem IsOperand.kind_ne_comma {piece : TokenKind × Text} {o : SourceOperand}
    (h : IsOperand piece o) : piece.1 ≠ .comma := by
  intro hcomma
  cases h with
  | reference hbank =>
      cases hcomma
      cases hbank
  | number => cases hcomma

section Pieces

variable {line : Nat} {pieces : List (TokenKind × Text)}
  (hspelled : forall x, x ∈ pieces -> exists text, Spelled x.1 x.2 text)
include hspelled

theorem readOperands_eq_ok_iff {operands : List SourceOperand} :
    readOperands (pieces.map (Token.on line)) = .ok operands ↔ AreOperands pieces operands := by
  induction pieces generalizing operands with
  | nil =>
      constructor
      · intro hread
        cases hread
        exact .nil
      · intro h
        cases h
        rfl
  | cons x pieces ih =>
      rcases hspelled x List.mem_cons_self with ⟨text, hx⟩
      have ih : forall {operands}, readOperands (pieces.map (Token.on line)) = .ok operands ↔
          AreOperands pieces operands := ih fun y hy => hspelled y (List.mem_cons_of_mem x hy)
      rw [List.map_cons]
      constructor
      · intro hread
        rcases x with ⟨kind, value⟩
        by_cases hcomma : kind = .comma
        · subst hcomma
          rw [readOperands_comma rfl] at hread
          exact .comma (ih.mp hread)
        · have hkind : (Token.on line (kind, value)).kind ≠ .comma := hcomma
          rw [readOperands_cons hkind] at hread
          rcases exists_of_bind_eq_ok hread with ⟨o, ho, hread⟩
          rcases exists_of_bind_eq_ok hread with ⟨rest, hrest, hread⟩
          cases hread
          exact .operand ((readOperand_eq_ok_iff hx).mp ho) (ih.mp hrest)
      · intro h
        cases h with
        | comma hrest =>
            rw [readOperands_comma rfl]
            exact ih.mpr hrest
        | operand hfirst hrest =>
            have hkind : (Token.on line x).kind ≠ .comma := hfirst.kind_ne_comma
            rw [readOperands_cons hkind,
              (readOperand_eq_ok_iff hx).mpr hfirst, ok_bind, ih.mpr hrest, ok_bind]

end Pieces

/-!
## Lines
-/

theorem readValues_eq_ok_iff {line : Nat} {operands : List SourceOperand} {xs : List Float} :
    readValues line operands = .ok xs ↔
      exists values : List (Float × Text), operands = values.map (fun v => .number v.1 v.2) ∧
        xs = values.map (·.1) := by
  unfold readValues
  constructor
  · intro hread
    induction operands generalizing xs with
    | nil =>
        cases hread
        exact ⟨[], rfl, rfl⟩
    | cons o operands ih =>
        rw [List.mapM_cons] at hread
        rcases exists_of_bind_eq_ok hread with ⟨x, hx, hread⟩
        rcases exists_of_bind_eq_ok hread with ⟨rest, hrest, hread⟩
        cases hread
        rcases ih hrest with ⟨values, rfl, rfl⟩
        cases o with
        | reference bank index text => cases hx
        | number y text =>
            cases hx
            exact ⟨(x, text) :: values, rfl, rfl⟩
  · intro hgiven
    rcases hgiven with ⟨values, rfl, rfl⟩
    induction values with
    | nil => rfl
    | cons v values ih =>
        rw [List.map_cons, List.mapM_cons, ih]
        rfl

theorem readIndex_eq_ok_iff {line : Nat} {operand : SourceOperand} {index : Int} :
    readIndex line operand = .ok index ↔
      exists x text, operand = .number x text ∧ Number.rational? x = some (index : ℚ) ∧
        (-2 ^ 63 ≤ index ∧ index < 2 ^ 63) := by
  constructor
  · intro hread
    cases operand with
    | reference bank n text => cases hread
    | number x text =>
        simp only [readIndex] at hread
        split at hread
        next n hn =>
          split at hread
          next hfits =>
            cases hread
            exact ⟨x, text, rfl, Number.toInt?_eq_some_iff.mp hn,
              (Number.fitsInt_iff _).mp hfits⟩
          next => cases hread
        next => cases hread
  · intro hgiven
    rcases hgiven with ⟨x, text, rfl, hindex, hfits⟩
    unfold readIndex
    simp only [Number.toInt?_eq_some_iff.mpr hindex, (Number.fitsInt_iff _).mpr hfits, if_true]

section Pieces

variable {line : Nat} {pieces : List (TokenKind × Text)}
  (hspelled : forall x, x ∈ pieces -> exists text, Spelled x.1 x.2 text)
include hspelled

theorem readConstant_eq_ok_iff {c : ConstantLine} :
    readConstant line (pieces.map (Token.on line)) = .ok c ↔
      exists x text, exists values : List (Float × Text), exists index : Int,
        AreOperands pieces (.number x text :: values.map fun v => .number v.1 v.2) ∧
        (values.length = 1 ∨ values.length = 4) ∧ Number.rational? x = some (index : ℚ) ∧
        (-2 ^ 63 ≤ index ∧ index < 2 ^ 63) ∧ c = ⟨index, values.map (·.1), line⟩ := by
  unfold readConstant
  constructor
  · intro hread
    rcases exists_of_bind_eq_ok hread with ⟨operands, hoperands, hread⟩
    cases operands with
    | nil => cases hread
    | cons o operands =>
        rw [constantOf] at hread
        split at hread
        next hcount =>
          rcases exists_of_bind_eq_ok hread with ⟨index, hindex, hread⟩
          rcases exists_of_bind_eq_ok hread with ⟨xs, hvalues, hread⟩
          cases hread
          rcases readIndex_eq_ok_iff.mp hindex with ⟨x, text, rfl, hexact, hfits⟩
          rcases readValues_eq_ok_iff.mp hvalues with ⟨values, rfl, rfl⟩
          rw [List.length_map] at hcount
          exact ⟨x, text, values, index, (readOperands_eq_ok_iff hspelled).mp hoperands, hcount,
            hexact, hfits, rfl⟩
        next => cases hread
  · intro hgiven
    rcases hgiven with ⟨x, text, values, index, hoperands, hcount, hexact, hfits, rfl⟩
    rw [(readOperands_eq_ok_iff hspelled).mpr hoperands, ok_bind]
    simp only [constantOf, List.length_map, if_pos hcount]
    rw [readIndex_eq_ok_iff.mpr ⟨x, text, rfl, hexact, hfits⟩, ok_bind,
      readValues_eq_ok_iff.mpr ⟨values, rfl, rfl⟩, ok_bind]

theorem readLine_eq_ok_iff {r : Option Statement} :
    readLine (pieces.map (Token.on line)) = .ok r ↔
      exists c, Grammatical pieces c ∧ r = c.statement line := by
  cases pieces with
  | nil =>
      constructor
      · intro hread
        cases hread
        exact ⟨.nothing, .nothing, rfl⟩
      · intro hgiven
        rcases hgiven with ⟨c, hc, rfl⟩
        cases hc
        rfl
  | cons x pieces =>
      have hrest : forall y, y ∈ pieces -> exists text, Spelled y.1 y.2 text :=
        fun y hy => hspelled y (List.mem_cons_of_mem x hy)
      constructor
      · intro hread
        rcases x with ⟨kind, value⟩
        rw [List.map_cons, readLine] at hread
        split at hread
        next hend =>
          rcases hspelled _ List.mem_cons_self with ⟨text, hx⟩
          exact absurd hend hx.kind_ne_endOfInput
        next hkind =>
          obtain rfl : kind = .word := hkind
          rcases exists_of_bind_eq_ok hread with ⟨operands, hoperands, hread⟩
          cases hread
          exact ⟨_, .instruction ((readOperands_eq_ok_iff hrest).mp hoperands), rfl⟩
        next hkind =>
          obtain rfl : kind = .directive := hkind
          split at hread
          next hname =>
            obtain rfl : value = utf8 ".const" := hname
            rcases exists_of_bind_eq_ok hread with ⟨c, hc, hread⟩
            cases hread
            rcases (readConstant_eq_ok_iff hrest).mp hc with
              ⟨x, text, values, index, hoperands, hcount, hexact, hfits, rfl⟩
            exact ⟨_, .constant hoperands hcount hexact hfits, rfl⟩
          next => cases hread
        next => cases hread
      · intro hgiven
        rcases hgiven with ⟨c, hc, rfl⟩
        cases hc with
        | @instruction _ _ operands hoperands =>
            have hread : readOperands (pieces.map (Token.on line)) = .ok operands :=
              (readOperands_eq_ok_iff hrest).mpr hoperands
            simp only [List.map_cons, readLine, Token.on, hread, ok_bind]
            rfl
        | @constant _ x text values index hoperands hcount hexact hfits =>
            have hread : readConstant line (pieces.map (Token.on line)) =
                .ok ⟨index, values.map (·.1), line⟩ := (readConstant_eq_ok_iff hrest).mpr
              ⟨x, text, values, index, hoperands, hcount, hexact, hfits, rfl⟩
            simp only [List.map_cons, readLine, Token.on, if_true, hread, ok_bind]
            rfl

end Pieces

end Assembly
end VectorMachine
