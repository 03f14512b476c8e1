import VectorMachine.Assembly.Source
import VectorMachine.Proofs.Numerals

/-!
# Tokens one after another

A token goes on as far as its bytes do, and a blank, a comma or the end of the line
is no byte of any token.  So pieces of source that are kept apart by such breaks are
read one by one, and lines are read one by one.
-/

namespace VectorMachine
namespace Assembly

open Float.Model.UnpackedFloat (Sign)

/-!
## Breaks
-/

def isBreak (b : UInt8) : Bool :=
  isBlank b || isNewline b || isComma b

def Breaks (t : Text) : Prop :=
  forall b, t.head? = some b -> isBreak b = true

theorem breaks_nil : Breaks [] := nofun

theorem breaks_cons {b : UInt8} (h : isBreak b = true) (t : Text) : Breaks (b :: t) := by
  intro c hc
  cases hc
  exact h

theorem Breaks.append {s t : Text} (hs : Breaks s) (ht : Breaks t) : Breaks (s ++ t) := by
  cases s with
  | nil => exact ht
  | cons b s => exact breaks_cons (hs b rfl) (s ++ t)

def Unbroken (p : UInt8 -> Bool) : Prop :=
  forall b, isBreak b = true -> p b = false

theorem head?_any_append {p : UInt8 -> Bool} (hp : Unbroken p) (t : Text) {rest : Text}
    (hrest : Breaks rest) : (t ++ rest).head?.any p = t.head?.any p := by
  cases t with
  | cons b t => rfl
  | nil =>
      cases rest with
      | nil => rfl
      | cons b rest => exact hp b (hrest b rfl)

namespace Extent

/-- The extent ends at a break, whatever comes after it. -/
def Stops (e : Extent) : Prop :=
  forall t rest, Breaks rest -> e t ≤ t.length ∧ e (t ++ rest) = e t

theorem stops_none : Stops none :=
  fun _ _ _ => ⟨Nat.zero_le _, rfl⟩

theorem stops_many {p : UInt8 -> Bool} (hp : Unbroken p) : Stops (many p) := by
  intro t rest hrest
  induction t with
  | nil =>
      refine ⟨Nat.le_refl 0, ?_⟩
      cases rest with
      | nil => rfl
      | cons b rest => simp [many, hp b (hrest b rfl)]
  | cons b t ih =>
      unfold many at ih ⊢
      rw [List.cons_append, List.takeWhile_cons, List.takeWhile_cons]
      cases p b with
      | false => exact ⟨Nat.zero_le _, rfl⟩
      | true =>
          rcases ih with ⟨hle, heq⟩
          simp only [if_true, List.length_cons, heq]
          exact ⟨Nat.succ_le_succ hle, trivial⟩

theorem stops_optional {p : UInt8 -> Bool} (hp : Unbroken p) : Stops (optional p) := by
  intro t rest hrest
  unfold optional
  rw [head?_any_append hp t hrest]
  constructor
  · cases t with
    | nil => exact Nat.le_refl 0
    | cons b t =>
        rw [List.length_cons]
        split <;> omega
  · rfl

theorem stops_andThen {first second : Extent} (hfirst : Stops first) (hsecond : Stops second) :
    Stops (andThen first second) := by
  intro t rest hrest
  rcases hfirst t rest hrest with ⟨hle, heq⟩
  rcases hsecond (t.drop (first t)) rest hrest with ⟨hle', heq'⟩
  rw [List.length_drop] at hle'
  unfold andThen
  rw [heq, List.drop_append_of_le_length hle, heq']
  exact ⟨by omega, rfl⟩

theorem stops_ifNext {p : UInt8 -> Bool} (hp : Unbroken p) {yes no : Extent} (hyes : Stops yes)
    (hno : Stops no) : Stops (ifNext p yes no) := by
  intro t rest hrest
  unfold ifNext
  rw [head?_any_append hp t hrest]
  split
  · exact hyes t rest hrest
  · exact hno t rest hrest

theorem unbroken_classes :
    Unbroken isDigit ∧ Unbroken isLetter ∧ Unbroken isWordByte ∧ Unbroken isPoint ∧
      Unbroken isSign ∧ Unbroken isExponentMark := by
  have hall : forall b : UInt8, isBreak b = true ->
      isDigit b = false ∧ isLetter b = false ∧ isWordByte b = false ∧ isPoint b = false ∧
        isSign b = false ∧ isExponentMark b = false := forall_byte (by decide +kernel)
  exact ⟨fun b hb => (hall b hb).1, fun b hb => (hall b hb).2.1, fun b hb => (hall b hb).2.2.1,
    fun b hb => (hall b hb).2.2.2.1, fun b hb => (hall b hb).2.2.2.2.1,
    fun b hb => (hall b hb).2.2.2.2.2⟩

theorem stops_unsigned : Stops fraction ∧ Stops unsigned := by
  rcases unbroken_classes with ⟨hdigit, _, _, hpoint, hsign, hmark⟩
  have hexponent : Stops exponent :=
    stops_ifNext hmark (stops_andThen (stops_optional hmark)
      (stops_andThen (stops_optional hsign) (stops_many hdigit))) stops_none
  have hfraction : Stops fraction := stops_andThen (stops_many hdigit) hexponent
  exact ⟨hfraction, stops_andThen (stops_many hdigit)
    (stops_ifNext hpoint (stops_andThen (stops_optional hpoint) hfraction) hexponent)⟩

theorem many_digits {digits : Text} (hdigits : Text.AllDigits digits) (rest : Text) :
    many isDigit (digits ++ rest) = digits.length + many isDigit rest := by
  have hall : forall b, b ∈ digits -> isDigit b = true := hdigits
  unfold many
  rw [List.takeWhile_append_of_pos hall, List.length_append]

theorem andThen_digits {digits rest : Text} (hdigits : Text.AllDigits digits)
    (hrest : many isDigit rest = 0) (second : Extent) :
    andThen (many isDigit) second (digits ++ rest) = digits.length + second rest := by
  unfold andThen
  rw [many_digits hdigits, hrest, Nat.add_zero, List.drop_left]

theorem andThen_byte {p : UInt8 -> Bool} {b : UInt8} (hb : p b = true) (rest : Text)
    (second : Extent) : andThen (optional p) second (b :: rest) = 1 + second rest := by
  have hone : optional p (b :: rest) = 1 := if_pos hb
  unfold andThen
  rw [hone]
  rfl

theorem ifNext_cons_true {p : UInt8 -> Bool} {b : UInt8} (hb : p b = true) (rest : Text)
    (yes no : Extent) : ifNext p yes no (b :: rest) = yes (b :: rest) :=
  if_pos hb

theorem ifNext_of_head?_false {p : UInt8 -> Bool} {t : Text} (h : t.head?.any p = false)
    (yes no : Extent) : ifNext p yes no t = no t := by
  unfold ifNext
  rw [h]
  rfl

section Numerals

variable {l : Number.Layout} (h : l.Proper)
include h

theorem exponent_powerText : exponent l.powerText = l.powerText.length := by
  unfold Number.Layout.powerText
  cases hpower : l.power with
  | none => rfl
  | some power =>
      rcases power with ⟨sign, digits⟩
      have hdigits : many isDigit digits = digits.length := by
        simpa [many] using many_digits (h.power sign digits hpower).2 []
      have hsign : isSign (Number.Layout.signByte sign) = true := by
        cases sign <;> rfl
      show exponent (0x65 :: Number.Layout.signByte sign :: digits) = digits.length + 1 + 1
      rw [exponent, ifNext_cons_true rfl, andThen_byte rfl, andThen_byte hsign, hdigits]
      omega

/-- All of a numeral after its sign is one extent, also without its first digits. -/
theorem unsigned_digits {digits : Text} (hdigits : Text.AllDigits digits) :
    unsigned (digits ++ (l.pointText ++ l.powerText)) =
      (digits ++ (l.pointText ++ l.powerText)).length := by
  have hpower : many isDigit l.powerText = 0 ∧ l.powerText.head?.any isPoint = false := by
    unfold Number.Layout.powerText
    cases l.power with
    | none => exact ⟨rfl, rfl⟩
    | some power => exact ⟨rfl, rfl⟩
  have hexponent := exponent_powerText h
  unfold unsigned Number.Layout.pointText
  split
  · rw [List.nil_append, andThen_digits hdigits hpower.1, ifNext_of_head?_false hpower.2,
      hexponent, List.length_append]
  · rw [List.cons_append, andThen_digits hdigits rfl, ifNext_cons_true rfl, andThen_byte rfl,
      fraction, andThen_digits h.fraction hpower.1, hexponent]
    simp only [List.length_append, List.length_cons]
    omega

end Numerals

end Extent

namespace Token

theorem stops_extent (b : UInt8) : Extent.Stops (extent b) := by
  rcases Extent.unbroken_classes with ⟨_, hletter, hword, _⟩
  rcases Extent.stops_unsigned with ⟨hfraction, hunsigned⟩
  unfold extent
  split
  · exact Extent.stops_ifNext hletter (Extent.stops_many hletter) hfraction
  · split
    · exact Extent.stops_ifNext hletter (Extent.stops_many hletter) hunsigned
    · split
      · exact hunsigned
      · split
        · exact Extent.stops_many hword
        · exact Extent.stops_none

def on (line : Nat) (piece : TokenKind × Text) : Token :=
  ⟨piece.1, piece.2, line⟩

theorem scanFrom_blank {b : UInt8} (hb : isBlank b = true) (line : Nat) (rest : Text) :
    scanFrom line (b :: rest) = scanFrom line rest := by
  rw [scanFrom, if_pos hb]

theorem scanFrom_token {b : UInt8} (hblank : isBlank b = false) (hnewline : isNewline b = false)
    (hcomment : isCommentMark b = false) (line : Nat) (rest : Text) :
    scanFrom line (b :: rest) = on line (classify b (rest.take (extent b rest))) ::
      scanFrom line (rest.drop (extent b rest)) := by
  rw [scanFrom, hblank, hnewline, hcomment]
  rfl

end Token

/-!
## Pieces of source
-/

def Lexes (t : Text) (pieces : List (TokenKind × Text)) : Prop :=
  forall line rest, Breaks rest ->
    Token.scanFrom line (t ++ rest) = pieces.map (Token.on line) ++ Token.scanFrom line rest

namespace Lexes

theorem nil : Lexes [] [] :=
  fun _ _ _ => rfl

theorem append {s t : Text} {ps qs : List (TokenKind × Text)} (hs : Lexes s ps)
    (ht : Lexes t qs) (hbreak : Breaks t) : Lexes (s ++ t) (ps ++ qs) := by
  intro line rest hrest
  rw [List.append_assoc, hs line (t ++ rest) (hbreak.append hrest), ht line rest hrest,
    List.map_append, List.append_assoc]

theorem blank {t : Text} {ps : List (TokenKind × Text)} (h : Lexes t ps) :
    Lexes (0x20 :: t) ps := by
  intro line rest hrest
  rw [List.cons_append, Token.scanFrom_blank rfl]
  exact h line rest hrest

theorem blanks {t : Text} {ps : List (TokenKind × Text)} (h : Lexes t ps) (n : Nat) :
    Lexes (List.replicate n 0x20 ++ t) ps := by
  induction n with
  | zero => exact h
  | succ n ih => exact ih.blank

theorem comma {t : Text} {ps : List (TokenKind × Text)} (h : Lexes t ps) :
    Lexes (0x2c :: t) ((.comma, [0x2c]) :: ps) := by
  intro line rest hrest
  rw [List.cons_append, Token.scanFrom]
  exact congrArg (⟨.comma, [0x2c], line⟩ :: ·) (h line rest hrest)

theorem token (b : UInt8) (tail : Text) (hblank : isBlank b = false)
    (hnewline : isNewline b = false) (hcomment : isCommentMark b = false)
    (hextent : Token.extent b tail = tail.length) :
    Lexes (b :: tail) [Token.classify b tail] := by
  intro line rest hrest
  have hsize : Token.extent b (tail ++ rest) = tail.length :=
    (Token.stops_extent b tail rest hrest).2.trans hextent
  rw [List.cons_append, Token.scanFrom_token hblank hnewline hcomment, hsize, List.take_left,
    List.drop_left]
  rfl

theorem word {b : UInt8} {tail : Text} (hb : isLetter b = true)
    (htail : forall c, c ∈ tail -> isWordByte c = true) :
    Lexes (b :: tail) [(TokenKind.ofWord (b :: tail), b :: tail)] := by
  have hclass : forall b : UInt8, isLetter b = true ->
      isBlank b = false ∧ isNewline b = false ∧ isCommentMark b = false ∧ isPoint b = false ∧
        isSign b = false ∧ isDigit b = false ∧ isComma b = false :=
    forall_byte (by decide +kernel)
  rcases hclass b hb with ⟨hblank, hnewline, hcomment, hpoint, hsign, hdigit, hcomma⟩
  have hextent : Token.extent b tail = tail.length := by
    unfold Token.extent
    rw [hpoint, hsign, hdigit, hb]
    show (tail.takeWhile isWordByte).length = tail.length
    rw [List.takeWhile_eq_self_iff.mpr htail]
  have hclassify : Token.classify b tail = (TokenKind.ofWord (b :: tail), b :: tail) := by
    unfold Token.classify
    rw [hcomma, hpoint, hsign, hdigit, hb]
    rfl
  rw [← hclassify]
  exact token b tail hblank hnewline hcomment hextent

theorem numeral {l : Number.Layout} (h : l.Proper) (sign : Sign) :
    Lexes (Number.Layout.signText sign ++ l.text)
      [(.number, Number.Layout.signText sign ++ l.text)] := by
  have hclass : forall b : UInt8, isDigit b = true ->
      isBlank b = false ∧ isNewline b = false ∧ isCommentMark b = false ∧ isPoint b = false ∧
        isSign b = false ∧ isLetter b = false ∧ isComma b = false :=
    forall_byte (by decide +kernel)
  have hwhole := h.whole
  have hunsigned := Extent.unsigned_digits h hwhole
  unfold Number.Layout.text
  cases hcase : l.whole with
  | nil => exact absurd hcase h.whole_ne
  | cons b digits =>
      rw [hcase] at hwhole hunsigned
      have hb : isDigit b = true := hwhole b List.mem_cons_self
      have hdigits : Text.AllDigits digits := fun c hc => hwhole c (List.mem_cons_of_mem b hc)
      rcases hclass b hb with ⟨hblank, hnewline, hcomment, hpoint, hsign, hletter, hcomma⟩
      cases sign with
      | positive =>
          have hextent : Token.extent b (digits ++ (l.pointText ++ l.powerText)) =
              (digits ++ (l.pointText ++ l.powerText)).length := by
            unfold Token.extent
            rw [hpoint, hsign, hb]
            exact Extent.unsigned_digits h hdigits
          have htoken := token b _ hblank hnewline hcomment hextent
          unfold Token.classify at htoken
          rw [hcomma, hpoint, hsign, hb] at htoken
          exact htoken
      | negative =>
          have hextent : Token.extent 0x2d (b :: digits ++ (l.pointText ++ l.powerText)) =
              (b :: digits ++ (l.pointText ++ l.powerText)).length := by
            have hnext :
                (b :: digits ++ (l.pointText ++ l.powerText)).head?.any isLetter = false :=
              hletter
            show Extent.ifNext isLetter (Extent.many isLetter) Extent.unsigned _ = _
            rw [Extent.ifNext_of_head?_false hnext]
            exact hunsigned
          exact token 0x2d _ rfl rfl rfl hextent

theorem ofNat (n : Nat) : Lexes (Text.ofNat n) [(.number, Text.ofNat n)] := by
  have hlexes := numeral (l := ⟨Text.ofNat n, [], none⟩)
    ⟨Text.ofNat_ne_nil n, Text.allDigits_ofNat n, nofun, nofun⟩ .positive
  simpa [Number.Layout.text, Number.Layout.pointText, Number.Layout.powerText,
    Number.Layout.signText] using hlexes

theorem text32 (x : Float32) : Lexes (Number.text32 x) [(.number, Number.text32 x)] := by
  have hdecimal : forall (sign : Sign) (d : Number.Decimal),
      Lexes (Number.Layout.signText sign ++ d.text)
        [(.number, Number.Layout.signText sign ++ d.text)] := by
    intro sign d
    rw [← d.text_layout]
    exact numeral d.proper_layout sign
  unfold Number.text32
  cases x.toModel.unpack with
  | notANumber =>
      have hbytes : [0x61, 0x4e].all isWordByte = true := rfl
      exact @word 0x4e [0x61, 0x4e] rfl (List.all_eq_true.mp hbytes)
  | infinity sign =>
      cases sign with
      | positive => exact token 0x2b [0x49, 0x6e, 0x66] rfl rfl rfl rfl
      | negative => exact token 0x2d [0x49, 0x6e, 0x66] rfl rfl rfl rfl
  | zero sign =>
      cases sign with
      | positive => exact token 0x30 [] rfl rfl rfl rfl
      | negative => exact token 0x2d [0x30] rfl rfl rfl rfl
  | finite sign mantissa exponent hm =>
      cases sign with
      | positive => exact hdecimal .positive _
      | negative => exact hdecimal .negative _

end Lexes

end Assembly
end VectorMachine
