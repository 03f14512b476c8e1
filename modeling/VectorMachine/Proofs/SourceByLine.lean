import VectorMachine.Proofs.LineGrammar

/-!
# Sources line by line

The lines of a source are read apart from one another, and the number of a line
changes nothing but the numbers in what is read.  So a source says what its lines say,
fails as its first bad line does, and can be put together from two.
-/

namespace VectorMachine

/-!
## Lines
-/

namespace Text

theorem splitOn_of_notMem {b : UInt8} {t : Text} (h : b ∉ t) : splitOn b t = [t] := by
  induction t with
  | nil => rfl
  | cons c t ih =>
      have hc : c ≠ b := fun heq => h (heq ▸ List.mem_cons_self)
      rw [splitOn, if_neg hc, ih fun hmem => h (List.mem_cons_of_mem c hmem)]

theorem exists_splitOn (b : UInt8) (t : Text) :
    exists piece pieces, splitOn b t = piece :: pieces := by
  cases t with
  | nil => exact ⟨[], [], rfl⟩
  | cons c t =>
      rw [splitOn]
      split
      · exact ⟨_, _, rfl⟩
      · split
        · exact ⟨_, _, rfl⟩
        · exact ⟨_, _, rfl⟩

theorem splitOn_append (b : UInt8) (s t : Text) :
    splitOn b (s ++ b :: t) = splitOn b s ++ splitOn b t := by
  induction s with
  | nil =>
      show splitOn b (b :: t) = [] :: splitOn b t
      rw [splitOn, if_pos rfl]
  | cons c s ih =>
      rw [List.cons_append, splitOn, splitOn, ih]
      split
      · rfl
      · rcases exists_splitOn b s with ⟨piece, pieces, hsplit⟩
        rw [hsplit]
        rfl

theorem notMem_of_mem_splitOn {b : UInt8} {t line : Text} (h : line ∈ splitOn b t) :
    b ∉ line := by
  induction t generalizing line with
  | nil =>
      rw [List.mem_singleton.mp h]
      exact List.not_mem_nil
  | cons c t ih =>
      rw [splitOn] at h
      split at h
      next =>
        rcases List.mem_cons.mp h with rfl | h
        · exact List.not_mem_nil
        · exact ih h
      next hc =>
        rcases exists_splitOn b t with ⟨piece, pieces, hsplit⟩
        rw [hsplit] at h ih
        rcases List.mem_cons.mp h with rfl | h
        · intro hmem
          rcases List.mem_cons.mp hmem with rfl | hmem
          · exact hc rfl
          · exact ih List.mem_cons_self hmem
        · exact ih (List.mem_cons_of_mem piece h)

theorem length_splitOn (b : UInt8) (t : Text) : (splitOn b t).length = 1 + t.count b := by
  induction t with
  | nil => rfl
  | cons c t ih =>
      rw [splitOn]
      split
      next hc =>
        rw [hc, List.count_cons_self, List.length_cons, ih]
        rfl
      next hc =>
        rw [List.count_cons_of_ne hc, ← ih]
        rcases exists_splitOn b t with ⟨piece, pieces, hsplit⟩
        rw [hsplit]
        rfl

end Text

namespace Assembly

theorem lines_induction {P : Text -> Prop} (hlast : forall line, 0x0a ∉ line -> P line)
    (hmore : forall line rest, 0x0a ∉ line -> P rest -> P (line ++ 0x0a :: rest)) (t : Text) :
    P t := by
  rcases exists_note t with ⟨line, after, rfl, hline, _, rfl | ⟨more, rfl⟩⟩
  · rw [List.append_nil]
    exact hlast line hline
  · exact hmore line more hline (lines_induction hlast hmore more)
termination_by t.length

/-- What the tokens of a line are, whatever the number of the line and whatever comes
after it. -/
structure LineTokens (line : Text) (pieces : List (TokenKind × Text)) : Prop where
  inner : forall x, x ∈ pieces -> x.1.Inner
  spelled : forall x, x ∈ pieces -> exists text, Spelled x.1 x.2 text
  last : forall n, Token.scanFrom n line = pieces.map (Token.on n) ++ [⟨.endOfInput, [], n⟩]
  more : forall n rest, Token.scanFrom n (line ++ 0x0a :: rest) =
    pieces.map (Token.on n) ++ ⟨.newline, [0x0a], n⟩ :: Token.scanFrom (n + 1) rest

namespace LineTokens

theorem nil : LineTokens [] [] where
  inner := fun _ hx => absurd hx List.not_mem_nil
  spelled := fun _ hx => absurd hx List.not_mem_nil
  last := by
    intro n
    rw [Token.scanFrom]
    rfl
  more := scanFrom_newline

theorem blank {b : UInt8} {line : Text} {pieces : List (TokenKind × Text)}
    (hb : isBlank b = true) (h : LineTokens line pieces) : LineTokens (b :: line) pieces where
  inner := h.inner
  spelled := h.spelled
  last := by
    intro n
    rw [Token.scanFrom_blank hb, h.last]
  more := by
    intro n rest
    rw [List.cons_append, Token.scanFrom_blank hb, h.more]

theorem comment {b : UInt8} {note : Text} (hb : isCommentMark b = true) (hnote : 0x0a ∉ note) :
    LineTokens (b :: note) [] where
  inner := fun _ hx => absurd hx List.not_mem_nil
  spelled := fun _ hx => absurd hx List.not_mem_nil
  last := by
    intro n
    have hmany := many_note hnote []
    rw [List.append_nil] at hmany
    rw [scanFrom_mark hb, hmany, show Extent.many _ [] = 0 from rfl, Nat.add_zero,
      List.drop_length, Token.scanFrom]
    rfl
  more := scanFrom_comment hb hnote

theorem token {b : UInt8} {rest : Text} {pieces : List (TokenKind × Text)}
    (hblank : isBlank b = false) (hnewline : isNewline b = false)
    (hmark : isCommentMark b = false)
    (h : LineTokens (rest.drop (Token.extent b rest)) pieces) :
    LineTokens (b :: rest) (Token.classify b (rest.take (Token.extent b rest)) :: pieces) where
  inner := by
    intro x hx
    rcases List.mem_cons.mp hx with rfl | hx
    · exact Token.inner_classify hnewline rest
    · exact h.inner x hx
  spelled := by
    intro x hx
    rcases List.mem_cons.mp hx with rfl | hx
    · exact ⟨_, Token.spelled_classify b rest⟩
    · exact h.spelled x hx
  last := by
    intro n
    rw [Token.scanFrom_token hblank hnewline hmark, h.last]
    rfl
  more := by
    intro n more
    rcases Token.stops_extent b rest (0x0a :: more) (breaks_cons rfl more) with ⟨hle, hextent⟩
    rw [List.cons_append, Token.scanFrom_token hblank hnewline hmark, hextent,
      List.take_append_of_le_length hle, List.drop_append_of_le_length hle, h.more]
    rfl

theorem ofLine_eq {line : Text} {pieces : List (TokenKind × Text)}
    (h : LineTokens line pieces) :
    Token.ofLine line = pieces := by
  unfold Token.ofLine Token.scan
  rw [h.last, List.dropLast_concat, List.map_map]
  exact List.map_id pieces

end LineTokens

theorem exists_lineTokens {line : Text} (h : 0x0a ∉ line) :
    exists pieces, LineTokens line pieces := by
  fun_induction Token.scanFrom 1 line with
  | case1 => exact ⟨[], .nil⟩
  | case2 n b rest hblank ih =>
      rcases ih fun hmem => h (List.mem_cons_of_mem b hmem) with ⟨pieces, hpieces⟩
      exact ⟨pieces, hpieces.blank hblank⟩
  | case3 n b rest _ hnewline =>
      rw [eq_of_beq hnewline] at h
      exact absurd List.mem_cons_self h
  | case4 n b rest _ _ hmark =>
      exact ⟨[], .comment hmark fun hmem => h (List.mem_cons_of_mem b hmem)⟩
  | case5 n b rest hblank hnewline hmark size kind value hpiece ih =>
      rcases ih fun hmem => h (List.mem_cons_of_mem b (List.mem_of_mem_drop hmem)) with
        ⟨pieces, hpieces⟩
      exact ⟨_, .token (Bool.eq_false_iff.mpr hblank) (Bool.eq_false_iff.mpr hnewline)
        (Bool.eq_false_iff.mpr hmark) hpieces⟩

theorem inner_on {pieces : List (TokenKind × Text)} (h : forall x, x ∈ pieces -> x.1.Inner)
    (n : Nat) : forall t, t ∈ pieces.map (Token.on n) -> t.kind.Inner := by
  intro t ht
  rcases List.mem_map.mp ht with ⟨x, hx, rfl⟩
  exact h x hx

theorem linesOf_scanFrom (n : Nat) (t : Text) :
    linesOf (Token.scanFrom n t) =
      ((Text.splitOn 0x0a t).zipIdx n).map fun x => (Token.ofLine x.1).map (Token.on x.2) := by
  induction t using lines_induction generalizing n with
  | hlast line hline =>
      rcases exists_lineTokens hline with ⟨pieces, hpieces⟩
      rw [hpieces.last, linesOf_last (inner_on hpieces.inner n), Text.splitOn_of_notMem hline]
      show [pieces.map (Token.on n)] = [(Token.ofLine line).map (Token.on n)]
      rw [hpieces.ofLine_eq]
  | hmore line rest hline ih =>
      rcases exists_lineTokens hline with ⟨pieces, hpieces⟩
      rw [hpieces.more, linesOf_append (inner_on hpieces.inner n), ih, Text.splitOn_append,
        Text.splitOn_of_notMem hline, List.singleton_append, List.zipIdx_cons, List.map_cons,
        hpieces.ofLine_eq]

/-!
## The number of a line
-/

/-- Both fail for the same cause, each on its own line, or both succeed, with related
results. -/
inductive Alike (n m : Nat) {α : Type} (R : α -> α -> Prop) :
    Except Error α -> Except Error α -> Prop where
  | error (cause : Cause) : Alike n m R (.error ⟨n, cause⟩) (.error ⟨m, cause⟩)
  | ok {a b : α} (h : R a b) : Alike n m R (.ok a) (.ok b)

section Alike

variable {n m : Nat} {α β : Type}

theorem Alike.bind {R : α -> α -> Prop} {S : β -> β -> Prop} {x y : Except Error α}
    {f g : α -> Except Error β} (h : Alike n m R x y)
    (hnext : forall a b, R a b -> Alike n m S (f a) (g b)) :
    Alike n m S (x >>= f) (y >>= g) := by
  cases h with
  | error cause => exact .error cause
  | ok hab => exact hnext _ _ hab

theorem Alike.bind_eq {S : β -> β -> Prop} {x y : Except Error α} {f g : α -> Except Error β}
    (h : Alike n m Eq x y) (hnext : forall a, Alike n m S (f a) (g a)) :
    Alike n m S (x >>= f) (y >>= g) := by
  refine h.bind ?_
  intro a b hab
  rw [hab]
  exact hnext b

theorem alike_readOperand (x : TokenKind × Text) :
    Alike n m Eq (readOperand (Token.on n x)) (readOperand (Token.on m x)) := by
  unfold readOperand Token.on
  simp only
  split
  · split
    · exact .ok rfl
    · exact .error _
  · split
    · split
      · exact .ok rfl
      · exact .error _
    · exact .error _

theorem alike_readOperands (pieces : List (TokenKind × Text)) :
    Alike n m Eq (readOperands (pieces.map (Token.on n)))
      (readOperands (pieces.map (Token.on m))) := by
  induction pieces with
  | nil => exact .ok rfl
  | cons x pieces ih =>
      rw [List.map_cons, List.map_cons]
      by_cases hcomma : x.1 = .comma
      · rw [readOperands_comma hcomma, readOperands_comma hcomma]
        exact ih
      · rw [readOperands_cons hcomma, readOperands_cons hcomma]
        refine (alike_readOperand x).bind_eq ?_
        intro o
        refine ih.bind_eq ?_
        intro operands
        exact .ok rfl

theorem alike_readIndex (o : SourceOperand) : Alike n m Eq (readIndex n o) (readIndex m o) := by
  cases o with
  | reference bank index text => exact .error _
  | number x text =>
      simp only [readIndex]
      split
      · split
        · exact .ok rfl
        · exact .error _
      · exact .error _

theorem alike_readValues (operands : List SourceOperand) :
    Alike n m Eq (readValues n operands) (readValues m operands) := by
  unfold readValues
  induction operands with
  | nil => exact .ok rfl
  | cons o operands ih =>
      rw [List.mapM_cons, List.mapM_cons]
      refine Alike.bind_eq ?_ ?_
      · cases o with
        | reference bank index text => exact .error _
        | number x text => exact .ok rfl
      · intro x
        refine ih.bind_eq ?_
        intro xs
        exact .ok rfl

theorem alike_readConstant (pieces : List (TokenKind × Text)) :
    Alike n m (fun _ _ => True) (readConstant n (pieces.map (Token.on n)))
      (readConstant m (pieces.map (Token.on m))) := by
  refine (alike_readOperands pieces).bind_eq ?_
  intro operands
  cases operands with
  | nil => exact .error _
  | cons o operands =>
      simp only [constantOf]
      split
      · refine (alike_readIndex o).bind_eq ?_
        intro index
        refine (alike_readValues operands).bind_eq ?_
        intro values
        exact .ok trivial
      · exact .error _

/-- The number of a line does not decide whether it is read, nor why not. -/
theorem alike_readLine (pieces : List (TokenKind × Text)) :
    Alike n m (fun _ _ => True) (readLine (pieces.map (Token.on n)))
      (readLine (pieces.map (Token.on m))) := by
  cases pieces with
  | nil => exact .ok trivial
  | cons x pieces =>
      rcases x with ⟨kind, value⟩
      simp only [List.map_cons, readLine, Token.on]
      split
      · exact .ok trivial
      · refine (alike_readOperands pieces).bind_eq ?_
        intro operands
        exact .ok trivial
      · split
        · refine (alike_readConstant pieces).bind ?_
          intro c d _
          exact .ok trivial
        · exact .error _
      · exact .error _

end Alike

theorem readLine_error_everywhere {pieces : List (TokenKind × Text)} {n : Nat} {e : Error}
    (h : readLine (pieces.map (Token.on n)) = .error e) :
    exists cause, e = ⟨n, cause⟩ ∧
      forall m, readLine (pieces.map (Token.on m)) = .error ⟨m, cause⟩ := by
  have hfirst : exists cause, e = ⟨n, cause⟩ := by
    have halike : Alike n n _ _ _ := alike_readLine pieces
    rw [h] at halike
    cases halike with
    | error cause => exact ⟨cause, rfl⟩
  rcases hfirst with ⟨cause, rfl⟩
  refine ⟨cause, rfl, ?_⟩
  intro m
  have halike : Alike n m _ _ _ := alike_readLine pieces
  rw [h] at halike
  generalize readLine (pieces.map (Token.on m)) = r at halike
  cases halike with
  | error => rfl

/-!
## Lists of lines
-/

/-- Read lines, the first of which has the given number. -/
def readLines (n : Nat) (lines : List Text) : Except Error (List (Option Statement)) :=
  ((lines.zipIdx n).map fun x => (Token.ofLine x.1).map (Token.on x.2)).mapM readLine

theorem readLines_cons (n : Nat) (line : Text) (lines : List Text) :
    readLines n (line :: lines) = readLine ((Token.ofLine line).map (Token.on n)) >>= fun r =>
      readLines (n + 1) lines >>= fun rs => .ok (r :: rs) := by
  unfold readLines
  rw [List.zipIdx_cons, List.map_cons, List.mapM_cons]
  rfl

theorem readLine_ofLine {line : Text} (h : 0x0a ∉ line) {n : Nat} {r : Option Statement} :
    readLine ((Token.ofLine line).map (Token.on n)) = .ok r ↔
      exists c, Grammatical (Token.ofLine line) c ∧ r = c.statement n := by
  rcases exists_lineTokens h with ⟨pieces, hpieces⟩
  rw [hpieces.ofLine_eq]
  exact readLine_eq_ok_iff hpieces.spelled

section Lines

variable {lines : List Text} (hlines : forall line, line ∈ lines -> 0x0a ∉ line)
include hlines

theorem readLines_eq_ok_iff {n : Nat} {rs : List (Option Statement)} :
    readLines n lines = .ok rs ↔
      exists contents,
        List.Forall₂ (fun line c => Grammatical (Token.ofLine line) c) lines contents ∧
        rs = (contents.zipIdx n).map fun x => x.1.statement x.2 := by
  induction lines generalizing n rs with
  | nil =>
      constructor
      · intro hread
        cases hread
        exact ⟨[], .nil, rfl⟩
      · intro hgiven
        rcases hgiven with ⟨contents, hcontents, rfl⟩
        cases hcontents
        rfl
  | cons line lines ih =>
      have hline := hlines line List.mem_cons_self
      have hrest : forall l, l ∈ lines -> 0x0a ∉ l :=
        fun l hl => hlines l (List.mem_cons_of_mem line hl)
      rw [readLines_cons]
      constructor
      · intro hread
        rcases exists_of_bind_eq_ok hread with ⟨r, hr, hread⟩
        rcases exists_of_bind_eq_ok hread with ⟨rs, hrs, hread⟩
        cases hread
        rcases (readLine_ofLine hline).mp hr with ⟨c, hc, rfl⟩
        rcases (ih hrest).mp hrs with ⟨contents, hcontents, rfl⟩
        exact ⟨c :: contents, .cons hc hcontents, rfl⟩
      · intro hgiven
        rcases hgiven with ⟨contents, hcontents, rfl⟩
        cases hcontents with
        | @cons _ c _ contents hc hcontents =>
            rw [(readLine_ofLine hline).mpr ⟨c, hc, rfl⟩, ok_bind,
              (ih hrest).mpr ⟨contents, hcontents, rfl⟩, ok_bind]
            rfl

theorem readLines_of_first_error {before after : List Text} {line : Text} {cause : Cause}
    (hsplit : lines = before ++ line :: after)
    (hbefore : forall l, l ∈ before -> exists c, Grammatical (Token.ofLine l) c)
    (hcause : forall m, readLine ((Token.ofLine line).map (Token.on m)) = .error ⟨m, cause⟩)
    (n : Nat) : readLines n lines = .error ⟨n + before.length, cause⟩ := by
  subst hsplit
  induction before generalizing n with
  | nil =>
      rw [List.nil_append, readLines_cons, hcause]
      rfl
  | cons l before ih =>
      rcases hbefore l List.mem_cons_self with ⟨c, hc⟩
      have hl : 0x0a ∉ l := hlines l List.mem_cons_self
      rw [List.cons_append, readLines_cons, (readLine_ofLine hl).mpr ⟨c, hc, rfl⟩, ok_bind,
        ih (fun k hk => hbefore k (List.mem_cons_of_mem l hk)) (n + 1)
          (fun k hk => hlines k (List.mem_cons_of_mem l hk)), error_bind, List.length_cons,
        Nat.add_right_comm, Nat.add_assoc]

theorem exists_first_error {n : Nat} {e : Error} (hread : readLines n lines = .error e) :
    exists before line after cause, lines = before ++ line :: after ∧
      (forall l, l ∈ before -> exists c, Grammatical (Token.ofLine l) c) ∧
      (forall m, readLine ((Token.ofLine line).map (Token.on m)) = .error ⟨m, cause⟩) ∧
      e = ⟨n + before.length, cause⟩ := by
  induction lines generalizing n with
  | nil => cases hread
  | cons line lines ih =>
      have hline := hlines line List.mem_cons_self
      have hrest : forall l, l ∈ lines -> 0x0a ∉ l :=
        fun l hl => hlines l (List.mem_cons_of_mem line hl)
      rw [readLines_cons] at hread
      cases hfirst : readLine ((Token.ofLine line).map (Token.on n)) with
      | error e' =>
          rw [hfirst] at hread
          cases hread
          rcases readLine_error_everywhere hfirst with ⟨cause, rfl, hcause⟩
          exact ⟨[], line, lines, cause, rfl, fun _ hl => absurd hl List.not_mem_nil,
            hcause, rfl⟩
      | ok r =>
          rw [hfirst, ok_bind] at hread
          cases hlater : readLines (n + 1) lines with
          | ok rs =>
              rw [hlater] at hread
              cases hread
          | error e' =>
              rw [hlater] at hread
              cases hread
              rcases ih hrest hlater with ⟨before, bad, after, cause, rfl, hbefore, hcause, rfl⟩
              rcases (readLine_ofLine hline).mp hfirst with ⟨c, hc, _⟩
              refine ⟨line :: before, bad, after, cause, rfl, ?_, hcause, ?_⟩
              · intro l hl
                rcases List.mem_cons.mp hl with rfl | hl
                · exact ⟨c, hc⟩
                · exact hbefore l hl
              · rw [List.length_cons, Nat.add_right_comm, Nat.add_assoc]

end Lines

/-!
## Sources
-/

namespace Source

/-- What lines with these contents say, the first of which has the given number. -/
def ofContents (n : Nat) (contents : List Content) : Source :=
  ofStatements ((contents.zipIdx n).filterMap fun x => x.1.statement x.2)

def shift (k : Nat) (s : Source) : Source where
  instructions := s.instructions.map fun i => { i with line := k + i.line }
  constants := s.constants.map fun c => { c with line := k + c.line }

def append (s t : Source) : Source where
  instructions := s.instructions ++ t.instructions
  constants := s.constants ++ t.constants

/-- What is read from two sources, the second of which stands behind the given number of
lines. -/
def followedBy (k : Nat) : Except Error Source -> Except Error Source -> Except Error Source
  | .error e, _ => .error e
  | .ok _, .error e => .error ⟨k + e.line, e.cause⟩
  | .ok s, .ok t => .ok (s.append (t.shift k))

theorem read_eq (t : Text) :
    Source.read t = readLines 1 (Text.splitOn 0x0a t) >>= fun statements =>
      .ok (ofStatements (statements.filterMap id)) := by
  unfold readLines
  rw [read_eq_mapM, Token.scan, linesOf_scanFrom]

theorem read_eq_ok_iff {t : Text} {s : Source} :
    Source.read t = .ok s ↔
      exists contents, List.Forall₂ (fun line c => Grammatical (Token.ofLine line) c)
        (Text.splitOn 0x0a t) contents ∧ s = ofContents 1 contents := by
  have hlines : forall line, line ∈ Text.splitOn 0x0a t -> 0x0a ∉ line :=
    fun line => Text.notMem_of_mem_splitOn
  have hcontents : forall contents : List Content,
      ofStatements (((contents.zipIdx 1).map fun x => x.1.statement x.2).filterMap id) =
        ofContents 1 contents := by
    intro contents
    rw [List.filterMap_map]
    rfl
  rw [read_eq]
  constructor
  · intro hread
    rcases exists_of_bind_eq_ok hread with ⟨statements, hstatements, hread⟩
    cases hread
    rcases (readLines_eq_ok_iff hlines).mp hstatements with ⟨contents, hgrammar, rfl⟩
    exact ⟨contents, hgrammar, hcontents contents⟩
  · intro hgiven
    rcases hgiven with ⟨contents, hgrammar, rfl⟩
    rw [(readLines_eq_ok_iff hlines).mpr ⟨contents, hgrammar, rfl⟩, ok_bind, hcontents]

theorem read_eq_error_iff_readLines {t : Text} {e : Error} :
    Source.read t = .error e ↔ readLines 1 (Text.splitOn 0x0a t) = .error e := by
  rw [read_eq]
  cases readLines 1 (Text.splitOn 0x0a t) with
  | error e' =>
      rw [error_bind, Except.error.injEq, Except.error.injEq]
  | ok statements =>
      constructor
      · intro hread
        cases hread
      · intro hread
        cases hread

theorem read_line_eq_error_iff {line : Text} (h : 0x0a ∉ line) {cause : Cause} :
    Source.read line = .error ⟨1, cause⟩ ↔
      forall m, readLine ((Token.ofLine line).map (Token.on m)) = .error ⟨m, cause⟩ := by
  rw [read_eq_error_iff_readLines, Text.splitOn_of_notMem h, readLines_cons]
  constructor
  · intro hread
    cases hfirst : readLine ((Token.ofLine line).map (Token.on 1)) with
    | ok r =>
        rw [hfirst] at hread
        cases hread
    | error e =>
        rw [hfirst] at hread
        cases hread
        rcases readLine_error_everywhere hfirst with ⟨cause', heq, hcause⟩
        cases heq
        exact hcause
  · intro hcause
    rw [hcause, error_bind]

theorem read_eq_error_iff {t : Text} {e : Error} :
    Source.read t = .error e ↔
      exists before line after cause, Text.splitOn 0x0a t = before ++ line :: after ∧
        (forall l, l ∈ before -> exists c, Grammatical (Token.ofLine l) c) ∧
        (forall c, ¬Grammatical (Token.ofLine line) c) ∧
        Source.read line = .error ⟨1, cause⟩ ∧ e = ⟨before.length + 1, cause⟩ := by
  have hlines : forall line, line ∈ Text.splitOn 0x0a t -> 0x0a ∉ line :=
    fun line => Text.notMem_of_mem_splitOn
  rw [read_eq_error_iff_readLines]
  constructor
  · intro hread
    rcases exists_first_error hlines hread with
      ⟨before, line, after, cause, hsplit, hbefore, hcause, rfl⟩
    have hline : 0x0a ∉ line := hlines line (by rw [hsplit]; exact List.mem_append_cons_self)
    refine ⟨before, line, after, cause, hsplit, hbefore, ?_,
      (read_line_eq_error_iff hline).mpr hcause, by rw [Nat.add_comm]⟩
    intro c hc
    have hok := (readLine_ofLine hline (n := 1)).mpr ⟨c, hc, rfl⟩
    rw [hcause] at hok
    cases hok
  · intro hgiven
    rcases hgiven with ⟨before, line, after, cause, hsplit, hbefore, _, hread, rfl⟩
    have hline : 0x0a ∉ line := hlines line (by rw [hsplit]; exact List.mem_append_cons_self)
    rw [readLines_of_first_error hlines hsplit hbefore
      ((read_line_eq_error_iff hline).mp hread), Nat.add_comm]

/-!
## Two sources
-/

theorem ofContents_append (n : Nat) (first second : List Content) :
    ofContents n (first ++ second) =
      (ofContents n first).append (ofContents (n + first.length) second) := by
  unfold ofContents ofStatements append
  simp only [List.zipIdx_append, List.filterMap_append]

theorem shift_append (k : Nat) (s t : Source) :
    (s.append t).shift k = (s.shift k).append (t.shift k) := by
  unfold append shift
  simp only [List.map_append]

theorem ofContents_shift (k n : Nat) (contents : List Content) :
    ofContents (k + n) contents = (ofContents n contents).shift k := by
  induction contents generalizing n with
  | nil => rfl
  | cons c contents ih =>
      have hfirst : ofContents (k + n) [c] = (ofContents n [c]).shift k := by
        cases c <;> rfl
      rw [← List.singleton_append, ofContents_append, ofContents_append, shift_append, hfirst,
        ← ih]
      rfl

theorem read_append (first second : Text) :
    Source.read (first ++ 0x0a :: second) =
      followedBy (1 + first.count 0x0a) (Source.read first) (Source.read second) := by
  cases hfirst : Source.read first with
  | error e =>
      rcases read_eq_error_iff.mp hfirst with
        ⟨before, line, after, cause, hsplit, hbefore, hline, hread, rfl⟩
      refine read_eq_error_iff.mpr ⟨before, line, after ++ Text.splitOn 0x0a second, cause, ?_,
        hbefore, hline, hread, rfl⟩
      rw [Text.splitOn_append, hsplit, List.append_assoc, List.cons_append]
  | ok s =>
      rcases read_eq_ok_iff.mp hfirst with ⟨contents, hcontents, rfl⟩
      rw [← Text.length_splitOn]
      cases hsecond : Source.read second with
      | error e =>
          rcases read_eq_error_iff.mp hsecond with
            ⟨before, line, after, cause, hsplit, hbefore, hline, hread, rfl⟩
          refine read_eq_error_iff.mpr ⟨Text.splitOn 0x0a first ++ before, line, after, cause,
            ?_, ?_, hline, hread, ?_⟩
          · rw [Text.splitOn_append, hsplit, List.append_assoc]
          · intro l hl
            rcases List.mem_append.mp hl with hl | hl
            · rcases exists_of_mem_left hcontents hl with ⟨c, _, hc⟩
              exact ⟨c, hc⟩
            · exact hbefore l hl
          · rw [List.length_append, Nat.add_assoc]
      | ok t =>
          rcases read_eq_ok_iff.mp hsecond with ⟨later, hlater, rfl⟩
          refine read_eq_ok_iff.mpr ⟨contents ++ later, ?_, ?_⟩
          · rw [Text.splitOn_append]
            exact List.rel_append hcontents hlater
          · rw [ofContents_append, ← hcontents.length_eq, Nat.add_comm, ofContents_shift]

end Source

/-- A source is read exactly if each of its lines follows the grammar, and it says what
they say, one after another.  Otherwise its error is that of the first line that does not,
read by itself.  Two sources one below the other are read as each of them is. -/
theorem read_by_grammar_of_lines (source : Text) :
    (forall s, Source.read source = .ok s ↔
      exists contents, List.Forall₂ (fun line c => Grammatical (Token.ofLine line) c)
        (Text.splitOn 0x0a source) contents ∧ s = Source.ofContents 1 contents) ∧
    (forall e, Source.read source = .error e ↔
      exists before line after cause, Text.splitOn 0x0a source = before ++ line :: after ∧
        (forall l, l ∈ before -> exists c, Grammatical (Token.ofLine l) c) ∧
        (forall c, ¬Grammatical (Token.ofLine line) c) ∧
        Source.read line = .error ⟨1, cause⟩ ∧ e = ⟨before.length + 1, cause⟩) ∧
    (forall more, Source.read (source ++ 0x0a :: more) =
      Source.followedBy (1 + source.count 0x0a) (Source.read source) (Source.read more)) :=
  ⟨fun _ => Source.read_eq_ok_iff, fun _ => Source.read_eq_error_iff, Source.read_append source⟩

end Assembly
end VectorMachine
