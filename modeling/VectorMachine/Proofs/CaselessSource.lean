import VectorMachine.Proofs.AssembledPrograms
import VectorMachine.Proofs.LetterCase
import VectorMachine.Proofs.LineReading

/-!
# Sources without letter case

Two sources that differ in the case of their letters have the same tokens up to the
case of what the tokens quote, and so the same lines and the same operands.  What is
assembled has no case left in it, and an error keeps its line and the rule that was
broken.
-/

namespace VectorMachine
namespace Assembly

open Text

/-!
## Tokens
-/

theorem caselessClasses :
    CaselessClass isBlank ∧ CaselessClass isNewline ∧ CaselessClass isCommentMark ∧
      CaselessClass isComma ∧ CaselessClass isPoint ∧ CaselessClass isSign ∧
      CaselessClass isExponentMark ∧ CaselessClass isDigit ∧ CaselessClass isLetter ∧
      CaselessClass isWordByte := by
  refine ⟨?_, ?_, ?_, ?_, ?_, ?_, ?_, ?_, ?_, ?_⟩ <;> exact forall_byte (by decide +kernel)

namespace Extent

theorem caseless_many {p : UInt8 -> Bool} (hp : CaselessClass p) : Caseless (many p) := by
  intro t
  unfold many
  rw [takeWhile_lowerAscii hp]
  exact List.length_map _

theorem caseless_optional {p : UInt8 -> Bool} (hp : CaselessClass p) :
    Caseless (optional p) := by
  intro t
  unfold optional
  rw [head?_any_lowerAscii hp]

theorem caseless_andThen {first second : Extent} (hfirst : Caseless first)
    (hsecond : Caseless second) : Caseless (andThen first second) := by
  intro t
  unfold andThen
  rw [hfirst, ← lowerAscii_drop, hsecond]

theorem caseless_ifNext {p : UInt8 -> Bool} (hp : CaselessClass p) {yes no : Extent}
    (hyes : Caseless yes) (hno : Caseless no) : Caseless (ifNext p yes no) := by
  intro t
  unfold ifNext
  rw [head?_any_lowerAscii hp, hyes, hno]

theorem caseless_unsigned : Caseless fraction ∧ Caseless unsigned := by
  rcases caselessClasses with ⟨_, _, _, _, hpoint, hsign, hmark, hdigit, _⟩
  have hexponent : Caseless exponent :=
    caseless_ifNext hmark (caseless_andThen (caseless_optional hmark)
      (caseless_andThen (caseless_optional hsign) (caseless_many hdigit))) fun _ => rfl
  have hfraction : Caseless fraction := caseless_andThen (caseless_many hdigit) hexponent
  exact ⟨hfraction, caseless_andThen (caseless_many hdigit)
    (caseless_ifNext hpoint (caseless_andThen (caseless_optional hpoint) hfraction) hexponent)⟩

end Extent

theorem TokenKind.caseless_ofWord : Caseless ofWord := by
  intro t
  have hdigit : CaselessClass isDigit := caselessClasses.2.2.2.2.2.2.2.1
  unfold ofWord
  rw [LetterCase.caseless_lower t]
  match t with
  | [] => rfl
  | [_] => rfl
  | letter :: d :: digits =>
      have hall := all_lowerAscii hdigit (d :: digits)
      simp only [lowerAscii_cons] at hall ⊢
      simp only [hall, lowerByte_lowerByte]

theorem TokenKind.ofWord_ne_directive (t : Text) : ofWord t ≠ .directive := by
  unfold ofWord
  simp only
  split
  · nofun
  · split
    · split
      · split <;> nofun
      · nofun
    · nofun

namespace Token

theorem extent_lowerByte (b : UInt8) (t : Text) :
    extent (lowerByte b) (lowerAscii t) = extent b t := by
  rcases caselessClasses with ⟨_, _, _, _, hpoint, hsign, _, hdigit, hletter, hword⟩
  have hunder : (lowerByte b == 0x5f) = (b == 0x5f) := caselessClass_beq rfl b
  rcases Extent.caseless_unsigned with ⟨hfraction, hunsigned⟩
  have hletters := Extent.caseless_many hletter
  unfold extent
  rw [hpoint b, hsign b, hdigit b, hletter b, hunder]
  split
  · exact Extent.caseless_ifNext hletter hletters hfraction t
  · split
    · exact Extent.caseless_ifNext hletter hletters hunsigned t
    · split
      · exact hunsigned t
      · split
        · exact Extent.caseless_many hword t
        · rfl

/-- Two tokens that differ at most in the case of what they quote.  A directive has been
lower-cased by then. -/
structure UpToCase (t u : Token) : Prop where
  kind : t.kind = u.kind
  line : t.line = u.line
  value : lowerAscii t.value = lowerAscii u.value
  directive : t.kind = .directive -> t.value = u.value

theorem upToCase_classify {b c : UInt8} {s t : Text} (hbyte : lowerByte b = lowerByte c)
    (htail : lowerAscii s = lowerAscii t) (line : Nat) :
    UpToCase (on line (classify b s)) (on line (classify c t)) := by
  rcases caselessClasses with ⟨_, _, _, hcomma, hpoint, hsign, _, hdigit, hletter, _⟩
  have hunder : CaselessClass (· == 0x5f) := caselessClass_beq rfl
  have hwhole : lowerAscii (b :: s) = lowerAscii (c :: t) := by
    rw [lowerAscii_cons, lowerAscii_cons, hbyte, htail]
  have hnext : s.head?.any isLetter = t.head?.any isLetter := by
    rw [← head?_any_lowerAscii hletter s, htail, head?_any_lowerAscii hletter]
  unfold classify
  rw [hcomma.eq hbyte, hpoint.eq hbyte, hsign.eq hbyte, hdigit.eq hbyte, hletter.eq hbyte,
    hnext, show (b == 0x5f) = (c == 0x5f) from hunder.eq hbyte]
  split
  · exact ⟨rfl, rfl, congrArg (fun x => [x]) hbyte, nofun⟩
  · split
    · have hname : LetterCase.lower (b :: s) = LetterCase.lower (c :: t) :=
        LetterCase.caseless_lower.eq hwhole
      exact ⟨rfl, rfl, congrArg lowerAscii hname, fun _ => hname⟩
    · split
      · exact ⟨rfl, rfl, hwhole, nofun⟩
      · split
        · have hkind := TokenKind.caseless_ofWord.eq hwhole
          exact ⟨hkind, rfl, hwhole, fun h => absurd h (TokenKind.ofWord_ne_directive _)⟩
        next hother =>
          -- an illegal byte is no letter, and so it is the same in both
          have hfixed : forall b : UInt8, ¬isLetter b = true -> lowerByte b = b :=
            forall_byte (by decide +kernel)
          have hc : ¬isLetter c = true := by
            intro h
            rw [h] at hother
            exact hother rfl
          have hb : ¬isLetter b = true := by
            rw [hletter.eq hbyte]
            exact hc
          have hsame : b = c := by
            rw [← hfixed b hb, hbyte, hfixed c hc]
          rw [hsame]
          exact ⟨rfl, rfl, rfl, fun _ => rfl⟩

theorem forall₂_upToCase_scanFrom (line : Nat) {s t : Text} (h : lowerAscii s = lowerAscii t) :
    List.Forall₂ UpToCase (scanFrom line s) (scanFrom line t) := by
  rcases caselessClasses with ⟨hblank, hnewline, hmark, _⟩
  fun_induction scanFrom line s generalizing t with
  | case1 line =>
      cases t with
      | nil =>
          rw [scanFrom]
          exact .cons ⟨rfl, rfl, rfl, fun _ => rfl⟩ .nil
      | cons c t => cases h
  | case2 line b rest hb ih =>
      rcases exists_of_lowerAscii_eq_cons h with ⟨c, u, rfl, hbyte, hrest⟩
      rw [hblank.eq hbyte] at hb
      rw [scanFrom_blank hb]
      exact ih hrest
  | case3 line b rest hb hb' ih =>
      rcases exists_of_lowerAscii_eq_cons h with ⟨c, u, rfl, hbyte, hrest⟩
      rw [hblank.eq hbyte] at hb
      rw [hnewline.eq hbyte] at hb'
      rw [scanFrom, if_neg hb, if_pos hb']
      refine .cons ⟨rfl, rfl, congrArg (fun x => [x]) hbyte, ?_⟩ (ih hrest)
      intro hkind
      cases hkind
  | case4 line b rest hb hb' hb'' ih =>
      have hnote : CaselessClass fun c => !isNewline c :=
        fun c => congrArg Bool.not (hnewline c)
      rcases exists_of_lowerAscii_eq_cons h with ⟨c, u, rfl, hbyte, hrest⟩
      rw [hblank.eq hbyte] at hb
      rw [hnewline.eq hbyte] at hb'
      rw [hmark.eq hbyte] at hb''
      rw [scanFrom, if_neg hb, if_neg hb', if_pos hb'']
      apply ih
      rw [lowerAscii_drop, lowerAscii_drop, hrest, (Extent.caseless_many hnote).eq hrest]
  | case5 line b rest hb hb' hb'' size kind value hpiece =>
      rename_i ih
      rcases exists_of_lowerAscii_eq_cons h with ⟨c, u, rfl, hbyte, hrest⟩
      have hsize : extent c u = size := by
        rw [← extent_lowerByte, ← hbyte, ← hrest, extent_lowerByte]
      rw [hblank.eq hbyte] at hb
      rw [hnewline.eq hbyte] at hb'
      rw [hmark.eq hbyte] at hb''
      rw [scanFrom_token (Bool.eq_false_iff.mpr hb) (Bool.eq_false_iff.mpr hb')
        (Bool.eq_false_iff.mpr hb''), hsize]
      have htail : lowerAscii (rest.take size) = lowerAscii (u.take size) := by
        rw [lowerAscii_take, lowerAscii_take, hrest]
      have hmore : lowerAscii (rest.drop size) = lowerAscii (u.drop size) := by
        rw [lowerAscii_drop, lowerAscii_drop, hrest]
      have htoken := upToCase_classify hbyte htail line
      rw [hpiece] at htoken
      exact .cons htoken (ih hmore)

end Token

theorem forall₂_linesOf {ts us : List Token} (h : List.Forall₂ Token.UpToCase ts us) :
    List.Forall₂ (List.Forall₂ Token.UpToCase) (linesOf ts) (linesOf us) := by
  induction h with
  | nil => exact .cons .nil .nil
  | @cons t u ts us htoken _ ih =>
      rw [linesOf, linesOf, htoken.kind]
      split
      · exact .cons .nil ih
      · split
        · exact ih
        · generalize linesOf ts = lines, linesOf us = lines' at ih
          cases ih with
          | nil => exact .cons (.cons htoken .nil) .nil
          | cons hline hlines => exact .cons (.cons htoken hline) hlines

/-!
## Results
-/

/-- Both fail with related errors, or both succeed with related results. -/
inductive Concur {ε α : Type} (E : ε -> ε -> Prop) (R : α -> α -> Prop) :
    Except ε α -> Except ε α -> Prop where
  | error {e e' : ε} (h : E e e') : Concur E R (.error e) (.error e')
  | ok {a b : α} (h : R a b) : Concur E R (.ok a) (.ok b)

namespace Concur

variable {ε α β : Type} {E : ε -> ε -> Prop} {R : α -> α -> Prop} {S : β -> β -> Prop}

theorem bind {x y : Except ε α} {f g : α -> Except ε β} (h : Concur E R x y)
    (hnext : forall a b, R a b -> Concur E S (f a) (g b)) : Concur E S (x >>= f) (y >>= g) := by
  cases h with
  | error he => exact .error he
  | ok hab => exact hnext _ _ hab

theorem bind_eq {x y : Except ε α} {f g : α -> Except ε β} (h : Concur E Eq x y)
    (hnext : forall a, Concur E S (f a) (g a)) : Concur E S (x >>= f) (y >>= g) := by
  refine h.bind ?_
  intro a b hab
  rw [hab]
  exact hnext b

theorem mapM {f g : α -> Except ε β} {xs ys : List α} (h : List.Forall₂ R xs ys)
    (hstep : forall x y, R x y -> Concur E S (f x) (g y)) :
    Concur E (List.Forall₂ S) (xs.mapM f) (ys.mapM g) := by
  induction h with
  | nil => exact .ok .nil
  | @cons x y xs ys hxy _ ih =>
      rw [List.mapM_cons, List.mapM_cons]
      refine (hstep x y hxy).bind ?_
      intro a b hab
      refine ih.bind ?_
      intro as bs hrest
      exact .ok (.cons hab hrest)

theorem mono {T : α -> α -> Prop} {x y : Except ε α} (h : Concur E R x y)
    (hmore : forall a b, R a b -> T a b) : Concur E T x y := by
  cases h with
  | error he => exact .error he
  | ok hab => exact .ok (hmore _ _ hab)

end Concur

def SameRule (e e' : Error) : Prop :=
  e.line = e'.line ∧ e.cause.rule = e'.cause.rule

/-!
## Lines
-/

/-- Two operands that differ at most in the case of how they are written. -/
inductive SourceOperand.UpToCase : SourceOperand -> SourceOperand -> Prop where
  | reference (bank : Bank) (index : Nat) (text text' : Text) :
      UpToCase (.reference bank index text) (.reference bank index text')
  | number (value : Float) (text text' : Text) :
      UpToCase (.number value text) (.number value text')

theorem concur_readOperand {t u : Token} (h : t.UpToCase u) :
    Concur SameRule SourceOperand.UpToCase (readOperand t) (readOperand u) := by
  have hdigits : lowerAscii (t.value.drop 1) = lowerAscii (u.value.drop 1) := by
    rw [lowerAscii_drop, lowerAscii_drop, h.value]
  unfold readOperand
  rw [h.kind, Number.caseless_readInt.eq hdigits, Number.caseless_readFloat.eq h.value]
  split
  · split
    · exact .ok (.reference _ _ _ _)
    · exact .error ⟨h.line, rfl⟩
  · split
    · split
      · exact .ok (.number _ _ _)
      · exact .error ⟨h.line, rfl⟩
    · exact .error ⟨h.line, rfl⟩

theorem concur_readOperands {ts us : List Token} (h : List.Forall₂ Token.UpToCase ts us) :
    Concur SameRule (List.Forall₂ SourceOperand.UpToCase) (readOperands ts)
      (readOperands us) := by
  have hkept : List.Forall₂ Token.UpToCase (ts.filter (·.kind ≠ .comma))
      (us.filter (·.kind ≠ .comma)) := by
    refine List.rel_filter ?_ h
    intro t u htoken
    simp only [htoken.kind]
  exact Concur.mapM hkept fun t u => concur_readOperand

theorem concur_readIndex (line : Nat) {o o' : SourceOperand} (h : o.UpToCase o') :
    Concur SameRule Eq (readIndex line o) (readIndex line o') := by
  cases h with
  | reference bank index text text' => exact .error ⟨rfl, rfl⟩
  | number x text text' =>
      simp only [readIndex]
      split
      · split
        · exact .ok rfl
        · exact .error ⟨rfl, rfl⟩
      · exact .error ⟨rfl, rfl⟩

theorem concur_readValues (line : Nat) {os os' : List SourceOperand}
    (h : List.Forall₂ SourceOperand.UpToCase os os') :
    Concur SameRule Eq (readValues line os) (readValues line os') := by
  have hvalues :
      Concur SameRule (List.Forall₂ Eq) (readValues line os) (readValues line os') := by
    refine Concur.mapM h ?_
    intro o o' ho
    cases ho with
    | reference bank index text text' => exact .error ⟨rfl, rfl⟩
    | number x text text' => exact .ok rfl
  exact hvalues.mono fun xs ys hxs => List.forall₂_eq_eq_eq ▸ hxs

theorem concur_readConstant (line : Nat) {ts us : List Token}
    (h : List.Forall₂ Token.UpToCase ts us) :
    Concur SameRule Eq (readConstant line ts) (readConstant line us) := by
  refine (concur_readOperands h).bind ?_
  intro os os' hos
  cases hos with
  | nil => exact .error ⟨rfl, rfl⟩
  | cons ho hrest =>
      simp only [constantOf, hrest.length_eq]
      split
      · refine (concur_readIndex line ho).bind_eq ?_
        intro index
        refine (concur_readValues line hrest).bind_eq ?_
        intro values
        exact .ok rfl
      · exact .error ⟨rfl, rfl⟩

structure SourceInstruction.UpToCase (i j : SourceInstruction) : Prop where
  mnemonic : lowerAscii i.mnemonic = lowerAscii j.mnemonic
  operands : List.Forall₂ SourceOperand.UpToCase i.operands j.operands
  line : i.line = j.line

inductive Statement.UpToCase : Option Statement -> Option Statement -> Prop where
  | nothing : UpToCase none none
  | instruction {i j : SourceInstruction} (h : i.UpToCase j) :
      UpToCase (some (.instruction i)) (some (.instruction j))
  | constant (c : ConstantLine) : UpToCase (some (.constant c)) (some (.constant c))

theorem concur_readLine {ts us : List Token} (h : List.Forall₂ Token.UpToCase ts us) :
    Concur SameRule Statement.UpToCase (readLine ts) (readLine us) := by
  cases h with
  | nil => exact .ok .nothing
  | @cons t u ts us htoken hrest =>
      rw [readLine, readLine, htoken.kind, htoken.line]
      split
      · exact .ok .nothing
      · refine (concur_readOperands hrest).bind ?_
        intro os os' hos
        exact .ok (.instruction ⟨htoken.value, hos, rfl⟩)
      next hkind =>
        rw [htoken.directive (htoken.kind.trans hkind)]
        split
        · refine (concur_readConstant u.line hrest).bind_eq ?_
          intro c
          exact .ok (.constant c)
        · exact .error ⟨rfl, rfl⟩
      · exact .error ⟨rfl, rfl⟩

/-!
## Sources
-/

structure Source.UpToCase (s t : Source) : Prop where
  instructions : List.Forall₂ SourceInstruction.UpToCase s.instructions t.instructions
  constants : s.constants = t.constants

theorem Source.upToCase_ofStatements {rs rs' : List (Option Statement)}
    (h : List.Forall₂ Statement.UpToCase rs rs') :
    (ofStatements (rs.filterMap id)).UpToCase (ofStatements (rs'.filterMap id)) := by
  induction h with
  | nil => exact ⟨.nil, rfl⟩
  | cons hfirst _ ih =>
      cases hfirst with
      | nothing => exact ih
      | instruction hi => exact ⟨.cons hi ih.instructions, ih.constants⟩
      | constant c => exact ⟨ih.instructions, congrArg (c :: ·) ih.constants⟩

theorem concur_read {s t : Text} (h : lowerAscii s = lowerAscii t) :
    Concur SameRule Source.UpToCase (Source.read s) (Source.read t) := by
  have hlines := forall₂_linesOf (Token.forall₂_upToCase_scanFrom 1 h)
  rw [Source.read_eq_mapM, Source.read_eq_mapM]
  refine (Concur.mapM hlines fun ts us => concur_readLine).bind ?_
  intro rs rs' hrs
  exact .ok (Source.upToCase_ofStatements hrs)

/-!
## Programs
-/

def SameRuleCause (c c' : Cause) : Prop :=
  c.rule = c'.rule

theorem concur_resolve (defined : List Definition) {o o' : SourceOperand} (h : o.UpToCase o') :
    Concur SameRuleCause Eq (resolve defined o) (resolve defined o') := by
  cases h with
  | number x text text' => exact .error rfl
  | reference bank index text text' =>
      cases bank with
      | constant =>
          simp only [resolve]
          split
          · exact .ok rfl
          · exact .error rfl
      | _ =>
          simp only [resolve]
          split
          · exact .ok rfl
          · exact .error rfl

theorem concur_resolveDestination (defined : List Definition) {o o' : SourceOperand}
    (h : o.UpToCase o') :
    Concur SameRuleCause Eq (resolveDestination defined o) (resolveDestination defined o') := by
  refine (concur_resolve defined h).bind_eq ?_
  intro operand
  cases operand with
  | register slot => exact .ok rfl
  | constant index => exact .error rfl

theorem concur_assembleInstruction (defined : List Definition) {i j : SourceInstruction}
    (h : i.UpToCase j) :
    Concur SameRuleCause Eq (assembleInstruction defined i)
      (assembleInstruction defined j) := by
  rcases i with ⟨mnemonic, os, line⟩
  rcases j with ⟨mnemonic', os', line'⟩
  rcases h with ⟨hmnemonic, hoperands, _⟩
  have hempty : os.isEmpty = os'.isEmpty := by
    cases hoperands <;> rfl
  have hname := LetterCase.caseless_lower.eq hmnemonic
  unfold assembleInstruction
  simp only [hname, hoperands.length_eq, hempty]
  split
  · exact .error rfl
  · split
    · split
      · exact .ok rfl
      · exact .error rfl
    · split
      · exact .error rfl
      · split
        · exact .error rfl
        · cases hoperands with
          | nil => exact .error rfl
          | cons hfirst hothers =>
              refine (concur_resolveDestination defined hfirst).bind_eq ?_
              intro dst
              have hsources := Concur.mapM hothers fun o o' => concur_resolve defined
              refine (hsources.mono fun _ _ hall => List.forall₂_eq_eq_eq ▸ hall).bind_eq ?_
              intro sources
              split
              · exact .ok rfl
              · exact .error rfl

theorem concur_assembleLine (defined : List Definition) {i j : SourceInstruction}
    (h : i.UpToCase j) :
    Concur SameRule Eq (assembleLine defined i) (assembleLine defined j) := by
  have hconcur := concur_assembleInstruction defined h
  unfold assembleLine
  generalize assembleInstruction defined i = x, assembleInstruction defined j = y at hconcur
  cases hconcur with
  | error hrule => exact .error ⟨h.line, hrule⟩
  | ok hsame => exact .ok hsame

theorem usage_upToCase (bank : Bank) {is js : List SourceInstruction}
    (h : List.Forall₂ SourceInstruction.UpToCase is js) : usage bank is = usage bank js := by
  have hindex : forall {os os' : List SourceOperand},
      List.Forall₂ SourceOperand.UpToCase os os' ->
        os.filterMap (·.indexIn bank) = os'.filterMap (·.indexIn bank) := by
    intro os os' hos
    induction hos with
    | nil => rfl
    | cons ho _ ih =>
        rw [List.filterMap_cons, List.filterMap_cons, ih]
        cases ho <;> rfl
  rw [usage_eq_foldl_max, usage_eq_foldl_max]
  congr 2
  induction h with
  | nil => rfl
  | cons hi _ ih =>
      rw [List.flatMap_cons, List.flatMap_cons, List.filterMap_append, List.filterMap_append,
        hindex hi.operands, ih]

theorem concur_assembleSource {s t : Source} (h : s.UpToCase t) :
    Concur SameRule Eq (assembleSource s) (assembleSource t) := by
  rw [assembleSource_eq, assembleSource_eq, h.constants, usage_upToCase .input h.instructions,
    usage_upToCase .output h.instructions]
  cases defineAll t.constants with
  | error e => exact .error ⟨rfl, rfl⟩
  | ok defined =>
      have hlines := Concur.mapM h.instructions fun i j => concur_assembleLine defined
      refine (hlines.mono fun _ _ hall => List.forall₂_eq_eq_eq ▸ hall).bind_eq ?_
      intro instructions
      exact .ok rfl

theorem concur_assemble {s t : Text} (h : lowerAscii s = lowerAscii t) :
    Concur SameRule Eq (assemble s) (assemble t) :=
  (concur_read h).bind fun _ _ => concur_assembleSource

/-- Sources that differ in the case of ASCII letters only, whatever their other bytes, are
assembled to the same program, or are both rejected on the same line by the same rule. -/
theorem assemble_ignores_case {s t : Text} (h : List.Forall₂ SameLetter s t) :
    (forall p, assemble s = .ok p ↔ assemble t = .ok p) ∧
      (forall e, assemble s = .error e -> exists e', assemble t = .error e' ∧
        e'.line = e.line ∧ e'.cause.rule = e.cause.rule) ∧
      (forall e, assemble t = .error e -> exists e', assemble s = .error e' ∧
        e'.line = e.line ∧ e'.cause.rule = e.cause.rule) := by
  have hconcur := concur_assemble (lowerAscii_eq_of_forall₂ h)
  generalize assemble s = x, assemble t = y at hconcur
  cases hconcur with
  | ok hsame =>
      rw [hsame]
      exact ⟨fun _ => Iff.rfl, nofun, nofun⟩
  | @error e e' hrule =>
      rcases hrule with ⟨hline, hrule⟩
      refine ⟨fun p => ⟨nofun, nofun⟩, ?_, ?_⟩
      · intro _ he
        cases he
        exact ⟨e', rfl, hline.symm, hrule.symm⟩
      · intro _ he
        cases he
        exact ⟨e, rfl, hline, hrule⟩

/-- Capitals in a directive, the name and the exponent of a number, mnemonics and registers. -/
def shouted : Text :=
  utf8 ".CONST 1 +INF 1E2 -0 iNF\nMad O0, I0, C1, R7 ; \u00c4\nDONE"

def whispered : Text :=
  utf8 ".const 1 +inf 1e2 -0 inf\nmad o0, i0, c1, r7 ; \u00c4\ndone"

/-- In both, what is wrong stands in a word with a byte that belongs to no character. -/
theorem assemble_ignores_case_shouted :
    (exists p, p.code = some [4, 40, 2, 8, 1, 7, 0] ∧ assemble shouted = .ok p ∧
      assemble whispered = .ok p) ∧
    assemble (utf8 "Done\n" ++ [0xff, 0x4e]) = .error ⟨2, .unknownMnemonic [0xff, 0x4e]⟩ ∧
    exists e, assemble (utf8 "dONE\n" ++ [0xff, 0x6e]) = .error e ∧ e.line = 2 ∧
      e.cause.rule = .knownMnemonic := by
  have hcase : List.Forall₂ SameLetter shouted whispered := by decide +kernel
  have hstray : List.Forall₂ SameLetter (utf8 "Done\n" ++ [0xff, 0x4e])
      (utf8 "dONE\n" ++ [0xff, 0x6e]) := by decide +kernel
  have haccepted : assemble shouted = .ok {
      code := some [4, 40, 2, 8, 1, 7, 0]
      constants := some [Vec4.zero,
        ⟨Number.narrow Number.infinity, 100, -0, Number.narrow Number.infinity⟩]
      inputs := 1
      outputs := 1 } := by decide +kernel
  have hrejected : assemble (utf8 "Done\n" ++ [0xff, 0x4e]) =
      .error ⟨2, .unknownMnemonic [0xff, 0x4e]⟩ := by decide +kernel
  refine ⟨⟨_, rfl, haccepted, ((assemble_ignores_case hcase).1 _).mp haccepted⟩, hrejected, ?_⟩
  exact (assemble_ignores_case hstray).2.1 _ hrejected

end Assembly
end VectorMachine
