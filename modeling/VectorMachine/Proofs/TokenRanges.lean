import VectorMachine.Proofs.Lexemes

/-!
# Where tokens stand

Every token but the last is the text of a stretch of the source.  The stretches come
one after another, nothing but blanks and comments lies between them, and the line of
a token counts the newlines before its stretch.
-/

namespace VectorMachine
namespace Assembly

def TokenKind.Inner (kind : TokenKind) : Prop :=
  kind ≠ .newline ∧ kind ≠ .endOfInput

def Bank.kind : Bank -> TokenKind
  | temp => .temp
  | input => .input
  | output => .output
  | constant => .constant

/-!
## Stretches of source
-/

/-- The places from the first up to the second, which is not included. -/
structure Span where
  start : Nat
  stop : Nat

def Span.text (s : Span) (source : Text) : Text :=
  (source.drop s.start).take (s.stop - s.start)

def Outside (spans : List Span) (i : Nat) : Prop :=
  forall s, s ∈ spans -> i < s.start ∨ s.stop ≤ i

def SameLine (source : Text) (m i : Nat) : Prop :=
  forall j, m ≤ j -> j ≤ i -> source[j]? ≠ some 0x0a

inductive Spelled : TokenKind -> Text -> Text -> Prop where
  | newline : Spelled .newline [0x0a] [0x0a]
  | comma : Spelled .comma [0x2c] [0x2c]
  | word (text : Text) : Spelled .word text text
  | number (text : Text) : Spelled .number text text
  | reference {kind : TokenKind} {bank : Bank} (hbank : bankOf? kind = some bank)
      (letter : UInt8) {digits : Text} (hne : digits ≠ []) (hdigits : Text.AllDigits digits) :
      Spelled kind (letter :: digits) (letter :: digits)
  | directive (text : Text) : Spelled .directive (LetterCase.lower text) text
  | illegal (b : UInt8) : Spelled .illegal (Utf8.encode (Char.ofNat b.toNat)) [b]

structure Token.Stands (source : Text) (t : Token) (s : Span) : Prop where
  nonempty : s.start < s.stop
  inside : s.stop ≤ source.length
  spelled : Spelled t.kind t.value (s.text source)
  line : t.line = 1 + (source.take s.start).count 0x0a

/-- A comment starts at the place, and the rest of its line is outside the stretches. -/
structure Comment (source : Text) (spans : List Span) (m : Nat) : Prop where
  mark : source[m]?.any isCommentMark = true
  free : forall i, m ≤ i -> SameLine source m i -> Outside spans i

/-- From the given place on, the source is the tokens in their stretches with blanks and
comments between them. -/
structure Tiled (source : Text) (start : Nat) (tokens : List Token) (spans : List Span) :
    Prop where
  stands : List.Forall₂ (Token.Stands source) tokens spans
  ordered : spans.Pairwise fun s t => s.stop ≤ t.start
  behind : forall s, s ∈ spans -> start ≤ s.start
  between : forall i, start ≤ i -> i < source.length -> Outside spans i ->
    source[i]?.any isBlank = true ∨
      exists m, start ≤ m ∧ m ≤ i ∧ Comment source spans m ∧ SameLine source m i

namespace Tiled

variable {source : Text} {start next : Nat} {tokens : List Token} {spans : List Span}

theorem nil (source : Text) : Tiled source source.length [] [] where
  stands := .nil
  ordered := .nil
  behind := fun _ hs => absurd hs List.not_mem_nil
  between := fun _ hle hlt => absurd hle (Nat.not_le.mpr hlt)

theorem inside (h : Tiled source start tokens spans) {s : Span} (hs : s ∈ spans) :
    s.stop ≤ source.length := by
  rcases exists_of_mem_right h.stands hs with ⟨t, _, hstands⟩
  exact hstands.inside

theorem blank (hblank : source[start]?.any isBlank = true)
    (h : Tiled source (start + 1) tokens spans) : Tiled source start tokens spans where
  stands := h.stands
  ordered := h.ordered
  behind := fun s hs => Nat.le_of_succ_le (h.behind s hs)
  between := by
    intro i hle hlt houtside
    rcases Nat.eq_or_lt_of_le hle with rfl | hlater
    · exact Or.inl hblank
    · rcases h.between i hlater hlt houtside with hblank' | ⟨m, hm, hcomment⟩
      · exact Or.inl hblank'
      · exact Or.inr ⟨m, Nat.le_of_succ_le hm, hcomment⟩

theorem comment (hmark : source[start]?.any isCommentMark = true) (hnext : start ≤ next)
    (hline : forall j, start ≤ j -> j < next -> source[j]? ≠ some 0x0a)
    (hend : source.length ≤ next ∨ source[next]? = some 0x0a)
    (h : Tiled source next tokens spans) : Tiled source start tokens spans where
  stands := h.stands
  ordered := h.ordered
  behind := fun s hs => Nat.le_trans hnext (h.behind s hs)
  between := by
    have hfree : forall i, start ≤ i -> SameLine source start i -> Outside spans i := by
      intro i hle hsame s hs
      by_cases hlt : i < next
      · exact Or.inl (Nat.lt_of_lt_of_le hlt (h.behind s hs))
      · have hpast := Nat.le_of_not_lt hlt
        rcases hend with hend | hend
        · exact Or.inr (Nat.le_trans (h.inside hs) (Nat.le_trans hend hpast))
        · exact absurd hend (hsame next hnext hpast)
    intro i hle hlt houtside
    by_cases hearly : i < next
    · have hsame : SameLine source start i :=
        fun j hj hji => hline j hj (Nat.lt_of_le_of_lt hji hearly)
      exact Or.inr ⟨start, Nat.le_refl start, hle, ⟨hmark, hfree⟩, hsame⟩
    · rcases h.between i (Nat.le_of_not_lt hearly) hlt houtside with hblank | ⟨m, hm, hcomment⟩
      · exact Or.inl hblank
      · exact Or.inr ⟨m, Nat.le_trans hnext hm, hcomment⟩

theorem token {t : Token} {s : Span} (ht : t.Stands source s)
    (h : Tiled source s.stop tokens spans) :
    Tiled source s.start (t :: tokens) (s :: spans) where
  stands := .cons ht h.stands
  ordered := List.pairwise_cons.mpr ⟨h.behind, h.ordered⟩
  behind := by
    intro r hr
    rcases List.mem_cons.mp hr with rfl | hr
    · exact Nat.le_refl _
    · exact Nat.le_trans (Nat.le_of_lt ht.nonempty) (h.behind r hr)
  between := by
    intro i hle hlt houtside
    have hpast : s.stop ≤ i :=
      (houtside s List.mem_cons_self).resolve_left (Nat.not_lt.mpr hle)
    have hrest : Outside spans i := fun r hr => houtside r (List.mem_cons_of_mem s hr)
    rcases h.between i hpast hlt hrest with hblank | ⟨m, hm, hmi, hcomment, hsame⟩
    · exact Or.inl hblank
    · refine Or.inr ⟨m, Nat.le_trans (Nat.le_of_lt ht.nonempty) hm, hmi,
        ⟨hcomment.mark, ?_⟩, hsame⟩
      intro j hj hline r hr
      rcases List.mem_cons.mp hr with rfl | hr
      · exact Or.inr (Nat.le_trans hm hj)
      · exact hcomment.free j hj hline r hr

end Tiled

/-!
## Single tokens
-/

theorem Extent.Stops.newline_notMem {e : Extent} (h : e.Stops) (t : Text) :
    0x0a ∉ t.take (e t) := by
  intro hmem
  rcases List.append_of_mem hmem with ⟨u, v, huv⟩
  -- the text up to the newline stops the extent there
  have htext : t = u ++ 0x0a :: (v ++ t.drop (e t)) := by
    have hsplit := List.take_append_drop (e t) t
    rw [huv, List.append_assoc] at hsplit
    exact hsplit.symm
  rcases h u (0x0a :: (v ++ t.drop (e t))) (breaks_cons rfl _) with ⟨hle, heq⟩
  rw [← htext] at heq
  have hlength := congrArg List.length huv
  rw [List.length_take, heq, List.length_append, List.length_cons] at hlength
  omega

theorem Spelled.kind_ne_endOfInput {kind : TokenKind} {value text : Text}
    (h : Spelled kind value text) : kind ≠ .endOfInput := by
  intro hkind
  subst hkind
  cases h with
  | reference hbank => cases hbank

theorem Spelled.text_of_newline {value text : Text} (h : Spelled .newline value text) :
    text = [0x0a] := by
  cases h with
  | newline => rfl
  | reference hbank => cases hbank

theorem spelled_ofWord (text : Text) : Spelled (TokenKind.ofWord text) text text := by
  have hreference : forall (bank : Bank) (letter d : UInt8) (digits : Text),
      (d :: digits).all isDigit = true ->
        Spelled bank.kind (letter :: d :: digits) (letter :: d :: digits) := by
    intro bank letter d digits hall
    have hbank : bankOf? bank.kind = some bank := by cases bank <;> rfl
    exact .reference hbank letter (List.cons_ne_nil d digits) (List.all_eq_true.mp hall)
  fun_cases TokenKind.ofWord text with
  | case1 => exact .number text
  | case2 letter d digits hall => exact hreference .temp letter d digits hall
  | case3 letter d digits hall => exact hreference .input letter d digits hall
  | case4 letter d digits hall => exact hreference .output letter d digits hall
  | case5 letter d digits hall => exact hreference .constant letter d digits hall
  | case6 => exact .word _
  | case7 => exact .word _
  | case8 => exact .word _

namespace Token

theorem extent_eq_zero {b : UInt8} (hpoint : isPoint b = false) (hsign : isSign b = false)
    (hdigit : isDigit b = false) (hword : (isLetter b || b == 0x5f) = false) (t : Text) :
    extent b t = 0 := by
  unfold extent
  rw [hpoint, hsign, hdigit, hword]
  rfl

theorem spelled_classify (b : UInt8) (t : Text) :
    Spelled (classify b (t.take (extent b t))).1 (classify b (t.take (extent b t))).2
      (b :: t.take (extent b t)) := by
  unfold classify
  split
  next hcomma =>
    rw [show b = 0x2c from eq_of_beq hcomma, extent_eq_zero rfl rfl rfl rfl]
    exact .comma
  next =>
    split
    next => exact .directive _
    next =>
      split
      next => exact .number _
      next hnumber =>
        split
        next => exact spelled_ofWord _
        next hword =>
          simp only [Bool.not_eq_true, Bool.or_eq_false_iff] at hnumber
          rcases hnumber with ⟨⟨hpoint, hsign⟩, hdigit⟩
          rw [extent_eq_zero hpoint hsign hdigit (Bool.not_eq_true _ ▸ hword)]
          exact .illegal b

theorem inner_classify {b : UInt8} (hb : isNewline b = false) (t : Text) :
    (classify b (t.take (extent b t))).1.Inner := by
  have hspelled := spelled_classify b t
  refine ⟨?_, hspelled.kind_ne_endOfInput⟩
  intro hnewline
  rw [hnewline] at hspelled
  have htext := hspelled.text_of_newline
  rw [(List.cons.inj htext).1] at hb
  cases hb

end Token

/-!
## Sources
-/

theorem text_span (before text after : Text) :
    Span.text ⟨before.length, (before ++ text).length⟩ (before ++ (text ++ after)) = text := by
  unfold Span.text
  rw [List.drop_left, List.length_append, Nat.add_sub_cancel_left, List.take_left]

theorem tiled_of_spelled {before text after value : Text} {kind : TokenKind}
    {tokens : List Token}
    {spans : List Span} (hne : text ≠ []) (hspelled : Spelled kind value text)
    (h : Tiled (before ++ (text ++ after)) (before ++ text).length tokens spans) :
    Tiled (before ++ (text ++ after)) before.length
      (⟨kind, value, 1 + before.count 0x0a⟩ :: tokens)
      (⟨before.length, (before ++ text).length⟩ :: spans) := by
  refine Tiled.token (s := ⟨before.length, (before ++ text).length⟩) ⟨?_, ?_, ?_, ?_⟩ h
  · rw [List.length_append]
    exact Nat.lt_add_of_pos_right (List.length_pos_iff.mpr hne)
  · rw [← List.append_assoc]
    exact Nat.le_trans (Nat.le_add_right _ _) (Nat.le_of_eq List.length_append.symm)
  · rw [text_span]
    exact hspelled
  · rw [List.take_left]

theorem getElem?_length_append (before : Text) (b : UInt8) (after : Text) :
    (before ++ b :: after)[before.length]? = some b := by
  rw [List.getElem?_append_right (Nat.le_refl _), Nat.sub_self, List.getElem?_cons_zero]

theorem ne_newline_of_append {before text after : Text} (h : 0x0a ∉ text) {i : Nat}
    (hle : before.length ≤ i) (hlt : i < (before ++ text).length) :
    (before ++ (text ++ after))[i]? ≠ some 0x0a := by
  intro hi
  rw [← List.append_assoc, List.getElem?_append_left hlt, List.getElem?_append_right hle] at hi
  exact h (List.mem_of_getElem? hi)

theorem tiled_of_comment {before note after : Text} {b : UInt8} {tokens : List Token}
    {spans : List Span} (hmark : isCommentMark b = true) (hnote : 0x0a ∉ b :: note)
    (hafter : after = [] ∨ exists rest, after = 0x0a :: rest)
    (h : Tiled (before ++ (b :: note ++ after)) (before ++ b :: note).length tokens spans) :
    Tiled (before ++ (b :: note ++ after)) before.length tokens spans := by
  have hnext : before.length ≤ (before ++ b :: note).length := by
    rw [List.length_append]
    exact Nat.le_add_right _ _
  refine Tiled.comment ?_ hnext (fun i => ne_newline_of_append hnote) ?_ h
  · rw [List.cons_append, getElem?_length_append]
    exact hmark
  · rw [← List.append_assoc]
    rcases hafter with rfl | ⟨rest, rfl⟩
    · left
      rw [List.append_nil]
    · right
      exact getElem?_length_append _ _ _

theorem count_newline_append {before text : Text} (h : 0x0a ∉ text) :
    (before ++ text).count 0x0a = before.count 0x0a := by
  rw [List.count_append, List.count_eq_zero.mpr h, Nat.add_zero]

theorem exists_note (rest : Text) :
    exists note after, rest = note ++ after ∧ 0x0a ∉ note ∧
      Extent.many (fun c => !isNewline c) rest = note.length ∧
      (after = [] ∨ exists more, after = 0x0a :: more) := by
  refine ⟨rest.takeWhile (fun c => !isNewline c), rest.dropWhile (fun c => !isNewline c),
    List.takeWhile_append_dropWhile.symm, ?_, rfl, ?_⟩
  · intro hmem
    have hnot := List.mem_takeWhile_imp hmem
    cases hnot
  · have hhead := List.head?_dropWhile_not (fun c => !isNewline c) rest
    cases hafter : rest.dropWhile (fun c => !isNewline c) with
    | nil => exact Or.inl rfl
    | cons b more =>
        rw [hafter] at hhead
        have hb : isNewline b = true := by simpa using hhead
        exact Or.inr ⟨more, by rw [eq_of_beq hb]⟩

theorem exists_tiled_scanFrom {source : Text} (done rest : Text)
    (hsource : source = done ++ rest) :
    exists tokens spans, Token.scanFrom (1 + done.count 0x0a) rest =
        tokens ++ [⟨.endOfInput, [], 1 + source.count 0x0a⟩] ∧
      Tiled source done.length tokens spans := by
  generalize hline : 1 + done.count 0x0a = line
  fun_induction Token.scanFrom line rest generalizing done with
  | case1 line =>
      rw [List.append_nil] at hsource
      subst hsource
      exact ⟨[], [], by rw [hline]; rfl, Tiled.nil source⟩
  | case2 line b rest hblank ih =>
      have hfree : 0x0a ∉ [b] := by
        intro hmem
        rw [← List.mem_singleton.mp hmem] at hblank
        cases hblank
      rcases ih (done ++ [b]) (by simp [hsource])
        (by rw [count_newline_append hfree, hline]) with ⟨tokens, spans, hscan, htiled⟩
      rw [List.length_append] at htiled
      refine ⟨tokens, spans, hscan, Tiled.blank ?_ htiled⟩
      rw [hsource, getElem?_length_append]
      exact hblank
  | case3 line b rest hblank hnewline ih =>
      obtain rfl : b = 0x0a := eq_of_beq hnewline
      have hnext : 1 + (done ++ [0x0a]).count 0x0a = line + 1 := by
        rw [← hline, List.count_append]
        rfl
      rcases ih (done ++ [0x0a]) (by simp [hsource]) hnext with
        ⟨tokens, spans, hscan, htiled⟩
      subst hsource hline
      exact ⟨_ :: tokens, _ :: spans, by rw [hscan]; rfl,
        tiled_of_spelled (List.cons_ne_nil _ _) .newline htiled⟩
  | case4 line b rest hblank hnewline hmark ih =>
      rcases exists_note rest with ⟨note, after, rfl, hnote, hmany, hafter⟩
      have hfree : 0x0a ∉ b :: note := by
        intro hmem
        rcases List.mem_cons.mp hmem with rfl | hmem
        · exact hnewline rfl
        · exact hnote hmem
      rw [hmany, List.drop_left] at ih ⊢
      rcases ih (done ++ b :: note) (by simp [hsource])
        (by rw [count_newline_append hfree, hline]) with ⟨tokens, spans, hscan, htiled⟩
      subst hsource
      exact ⟨tokens, spans, hscan, tiled_of_comment hmark hfree hafter htiled⟩
  | case5 line b rest hblank hnewline hmark size kind value hpiece ih =>
      have hfree : 0x0a ∉ b :: rest.take size := by
        intro hmem
        rcases List.mem_cons.mp hmem with rfl | hmem
        · exact hnewline rfl
        · exact (Token.stops_extent b).newline_notMem rest hmem
      have hsplit : b :: rest = b :: rest.take size ++ rest.drop size := by
        rw [List.cons_append, List.take_append_drop]
      have hspelled := Token.spelled_classify b rest
      rw [hpiece] at hspelled
      rw [hsplit] at hsource
      rcases ih (done ++ b :: rest.take size) (by rw [hsource, List.append_assoc])
        (by rw [count_newline_append hfree, hline]) with ⟨tokens, spans, hscan, htiled⟩
      subst hsource hline
      exact ⟨_ :: tokens, _ :: spans, by rw [hscan]; rfl,
        tiled_of_spelled (List.cons_ne_nil _ _) hspelled htiled⟩

theorem Tiled.kind_ne_endOfInput {source : Text} {place : Nat} {tokens : List Token}
    {spans : List Span} (h : Tiled source place tokens spans) :
    forall t, t ∈ tokens -> t.kind ≠ .endOfInput := by
  intro t ht
  rcases exists_of_mem_left h.stands ht with ⟨s, _, hstands⟩
  exact hstands.spelled.kind_ne_endOfInput

/-- A source is read as its tokens and one mark of the end.  The tokens stand in the
source one after another, and all else is blanks and comments. -/
theorem scan_tiles_source (source : Text) :
    exists tokens spans,
      Token.scan source = tokens ++ [⟨.endOfInput, [], 1 + source.count 0x0a⟩] ∧
      (forall t, t ∈ tokens -> t.kind ≠ .endOfInput) ∧ Tiled source 0 tokens spans := by
  rcases exists_tiled_scanFrom [] source rfl with ⟨tokens, spans, hscan, htiled⟩
  exact ⟨tokens, spans, hscan, htiled.kind_ne_endOfInput, htiled⟩

end Assembly
end VectorMachine
