import VectorMachine.Proofs.Numerals
import VectorMachine.Text.LetterCase

/-!
# Letter case

Two texts that differ in the case of ASCII letters are the same text once it is
lower-cased.  So a reader does not depend on case if it makes of the lower-cased text
what it makes of the text, and that is shown here of every part of a numeral and of
the lower-case form itself.
-/

namespace VectorMachine

namespace Text

/-!
## Bytes
-/

/-- The bytes are equal, or they are a capital of ASCII and its small letter. -/
def SameLetter (a b : UInt8) : Prop :=
  a = b ∨ ((0x41 ≤ a ∧ a ≤ 0x5a) ∧ b = a + 0x20) ∨ ((0x41 ≤ b ∧ b ≤ 0x5a) ∧ a = b + 0x20)

instance (a b : UInt8) : Decidable (SameLetter a b) :=
  inferInstanceAs (Decidable (_ ∨ _))

theorem SameLetter.lowerByte_eq {a b : UInt8} (h : SameLetter a b) :
    lowerByte a = lowerByte b := by
  have hsmall : forall c : UInt8, 0x41 ≤ c ∧ c ≤ 0x5a -> lowerByte (c + 0x20) = lowerByte c :=
    forall_byte (by decide +kernel)
  rcases h with rfl | ⟨hcapital, rfl⟩ | ⟨hcapital, rfl⟩
  · rfl
  · exact (hsmall a hcapital).symm
  · exact hsmall b hcapital

theorem lowerByte_lowerByte (b : UInt8) : lowerByte (lowerByte b) = lowerByte b := by
  have hall : forall b : UInt8, lowerByte (lowerByte b) = lowerByte b :=
    forall_byte (by decide +kernel)
  exact hall b

theorem lowerByte_eq_iff {c : UInt8} (hc : isAsciiLetter c = false) (b : UInt8) :
    lowerByte b = c ↔ b = c := by
  have hall : forall b : UInt8, lowerByte b = b ∨
      isAsciiLetter b = true ∧ isAsciiLetter (lowerByte b) = true :=
    forall_byte (by decide +kernel)
  rcases hall b with hfixed | ⟨hbefore, hafter⟩
  · rw [hfixed]
  · constructor
    · intro h
      rw [h, hc] at hafter
      cases hafter
    · intro h
      rw [h, hc] at hbefore
      cases hbefore

/-- The class does not tell a capital from its small letter. -/
def CaselessClass (p : UInt8 -> Bool) : Prop :=
  forall b, p (lowerByte b) = p b

theorem CaselessClass.eq {p : UInt8 -> Bool} (hp : CaselessClass p) {a b : UInt8}
    (h : lowerByte a = lowerByte b) : p a = p b := by
  rw [← hp a, h, hp b]

theorem CaselessClass.or {p q : UInt8 -> Bool} (hp : CaselessClass p) (hq : CaselessClass q) :
    CaselessClass fun b => p b || q b := by
  intro b
  show (p (lowerByte b) || q (lowerByte b)) = (p b || q b)
  rw [hp, hq]

theorem caselessClass_beq {c : UInt8} (hc : isAsciiLetter c = false) :
    CaselessClass fun b => b == c := by
  intro b
  show (lowerByte b == c) = (b == c)
  rw [Bool.eq_iff_iff, beq_iff_eq, beq_iff_eq, lowerByte_eq_iff hc]

theorem caselessClass_isAsciiDigit : CaselessClass isAsciiDigit :=
  forall_byte (by decide +kernel)

/-!
## Texts
-/

theorem lowerAscii_nil : lowerAscii [] = [] := rfl

theorem lowerAscii_cons (b : UInt8) (t : Text) :
    lowerAscii (b :: t) = lowerByte b :: lowerAscii t := rfl

theorem lowerAscii_eq_of_forall₂ {s t : Text} (h : List.Forall₂ SameLetter s t) :
    lowerAscii s = lowerAscii t := by
  induction h with
  | nil => rfl
  | cons hbyte _ ih => rw [lowerAscii_cons, lowerAscii_cons, hbyte.lowerByte_eq, ih]

theorem lowerAscii_lowerAscii (t : Text) : lowerAscii (lowerAscii t) = lowerAscii t := by
  unfold lowerAscii
  rw [List.map_map]
  exact List.map_congr_left fun b _ => lowerByte_lowerByte b

theorem exists_of_lowerAscii_eq_cons {b : UInt8} {s t : Text}
    (h : lowerAscii (b :: s) = lowerAscii t) :
    exists c u, t = c :: u ∧ lowerByte b = lowerByte c ∧ lowerAscii s = lowerAscii u := by
  cases t with
  | nil => cases h
  | cons c u =>
      rw [lowerAscii_cons, lowerAscii_cons] at h
      injection h with hbyte hrest
      exact ⟨c, u, rfl, hbyte, hrest⟩

theorem lowerAscii_append (s t : Text) : lowerAscii (s ++ t) = lowerAscii s ++ lowerAscii t :=
  List.map_append

theorem lowerAscii_take (n : Nat) (t : Text) : lowerAscii (t.take n) = (lowerAscii t).take n :=
  List.map_take

theorem lowerAscii_drop (n : Nat) (t : Text) : lowerAscii (t.drop n) = (lowerAscii t).drop n :=
  List.map_drop

section Class

variable {p : UInt8 -> Bool} (hp : CaselessClass p)
include hp

theorem takeWhile_lowerAscii (t : Text) :
    (lowerAscii t).takeWhile p = lowerAscii (t.takeWhile p) := by
  have hsame : p ∘ lowerByte = p := funext hp
  unfold lowerAscii
  rw [List.takeWhile_map, hsame]

theorem dropWhile_lowerAscii (t : Text) :
    (lowerAscii t).dropWhile p = lowerAscii (t.dropWhile p) := by
  have hsame : p ∘ lowerByte = p := funext hp
  unfold lowerAscii
  rw [List.dropWhile_map, hsame]

theorem head?_any_lowerAscii (t : Text) : (lowerAscii t).head?.any p = t.head?.any p := by
  cases t with
  | nil => rfl
  | cons b t => exact hp b

theorem all_lowerAscii (t : Text) : (lowerAscii t).all p = t.all p := by
  have hsame : p ∘ lowerByte = p := funext hp
  unfold lowerAscii
  rw [List.all_map, hsame]

end Class

/-- What is made of a text does not depend on the case of its letters. -/
def Caseless {α : Type} (f : Text -> α) : Prop :=
  forall t, f (lowerAscii t) = f t

theorem Caseless.eq {α : Type} {f : Text -> α} (hf : Caseless f) {s t : Text}
    (h : lowerAscii s = lowerAscii t) : f s = f t := by
  rw [← hf s, h, hf t]

end Text

open Text

/-!
## Numerals
-/

namespace Number

open Float.Model.UnpackedFloat (Sign)

theorem digitOf?_lowerByte (b : UInt8) : digitOf? (lowerByte b) = digitOf? b := by
  have hall : forall b : UInt8, digitOf? (lowerByte b) = digitOf? b :=
    forall_byte (by decide +kernel)
  exact hall b

theorem caselessClass_isHexDigit : CaselessClass isHexDigit := by
  intro b
  unfold isHexDigit
  rw [digitOf?_lowerByte]

theorem caseless_digitsOf : Caseless digitsOf := by
  intro t
  have hsame : digitOf? ∘ lowerByte = digitOf? := funext digitOf?_lowerByte
  unfold digitsOf lowerAscii
  rw [List.filterMap_map, hsame]

theorem splitSign_cons (b : UInt8) (t : Text) :
    splitSign (b :: t) =
      if b = 0x2d then (.negative, t) else if b = 0x2b then (.positive, t)
      else (.positive, b :: t) := by
  unfold splitSign
  split
  next heq =>
    cases heq
    rfl
  next heq =>
    cases heq
    rfl
  next hminus hplus =>
    have hm : b ≠ 0x2d := fun heq => hminus t (by rw [heq])
    have hp : b ≠ 0x2b := fun heq => hplus t (by rw [heq])
    rw [if_neg hm, if_neg hp]

theorem splitSign_lowerAscii (t : Text) :
    splitSign (lowerAscii t) = ((splitSign t).1, lowerAscii (splitSign t).2) := by
  cases t with
  | nil => rfl
  | cons b t =>
      rw [lowerAscii_cons, splitSign_cons, splitSign_cons]
      simp only [lowerByte_eq_iff (c := 0x2d) rfl, lowerByte_eq_iff (c := 0x2b) rfl]
      split
      · rfl
      · split <;> rfl

theorem separated_lowerAscii {p : UInt8 -> Bool} (hp : CaselessClass p) (before : Bool)
    (t : Text) :
    separated p before (lowerAscii t) = separated p before t := by
  induction t generalizing before with
  | nil => rfl
  | cons b t ih =>
      rw [lowerAscii_cons, separated, separated]
      simp only [lowerByte_eq_iff (c := underscore) rfl, head?_any_lowerAscii hp, ih, hp b]

theorem caselessClass_part {p : UInt8 -> Bool} (hp : CaselessClass p) :
    CaselessClass fun c => p c || c == underscore :=
  hp.or (caselessClass_beq rfl)

theorem caseless_readExponent (mark : UInt8) (needed : Bool) :
    Caseless (readExponent mark needed) := by
  intro t
  cases t with
  | nil => rfl
  | cons b t =>
      have hpart := caselessClass_part caselessClass_isAsciiDigit
      rw [lowerAscii_cons, readExponent, readExponent]
      simp only [lowerByte_lowerByte, splitSign_lowerAscii,
        head?_any_lowerAscii caselessClass_isAsciiDigit, all_lowerAscii hpart,
        caseless_digitsOf _]

/-- The digits behind a point, if there is one, and what follows. -/
def splitFraction (p : UInt8 -> Bool) : Text -> Text × Text
  | 0x2e :: rest => (rest.takeWhile p, rest.dropWhile p)
  | rest => ([], rest)

theorem splitFraction_cons (p : UInt8 -> Bool) (b : UInt8) (t : Text) :
    splitFraction p (b :: t) =
      if b = 0x2e then (t.takeWhile p, t.dropWhile p) else ([], b :: t) := by
  unfold splitFraction
  split
  next heq =>
    cases heq
    rfl
  next hpoint =>
    have hb : b ≠ 0x2e := fun heq => hpoint t (by rw [heq])
    rw [if_neg hb]

theorem splitFraction_lowerAscii {p : UInt8 -> Bool} (hp : CaselessClass p) (t : Text) :
    splitFraction p (lowerAscii t) =
      (lowerAscii (splitFraction p t).1, lowerAscii (splitFraction p t).2) := by
  cases t with
  | nil => rfl
  | cons b t =>
      rw [lowerAscii_cons, splitFraction_cons, splitFraction_cons]
      simp only [lowerByte_eq_iff (c := 0x2e) rfl, takeWhile_lowerAscii hp,
        dropWhile_lowerAscii hp]
      split <;> rfl

theorem readNumeral_eq (p : UInt8 -> Bool) (mark : UInt8) (needed : Bool) (t : Text) :
    readNumeral p mark needed t =
      let part := fun c => p c || c == underscore
      let tail := splitFraction part (t.dropWhile part)
      let digits := digitsOf (t.takeWhile part ++ tail.1)
      if digits.isEmpty then none
      else
        (readExponent mark needed tail.2).map fun exponent =>
          { digits, places := (digitsOf tail.1).length, exponent } := rfl

theorem caseless_readNumeral {p : UInt8 -> Bool} (hp : CaselessClass p) (mark : UInt8)
    (needed : Bool) : Caseless (readNumeral p mark needed) := by
  intro t
  have hpart := caselessClass_part hp
  simp only [readNumeral_eq, takeWhile_lowerAscii hpart, dropWhile_lowerAscii hpart,
    splitFraction_lowerAscii hpart, ← lowerAscii_append, caseless_digitsOf _,
    caseless_readExponent _ _ _]

theorem hexBody?_lowerAscii (t : Text) :
    hexBody? (lowerAscii t) = (hexBody? t).map lowerAscii := by
  match t with
  | [] => rfl
  | [z] => simp [hexBody?, lowerAscii]
  | [z, m] => simp [hexBody?, lowerAscii]
  | z :: m :: b :: rest =>
      simp only [lowerAscii_cons]
      by_cases hz : z = 0x30
      · subst hz
        have hlower : lowerByte 0x30 = 0x30 := rfl
        simp only [hlower, hexBody?, lowerByte_lowerByte]
        split <;> rfl
      · have hlower : lowerByte z ≠ 0x30 := fun heq => hz ((lowerByte_eq_iff rfl z).mp heq)
        simp [hexBody?, hz, hlower]

theorem caseless_readUnsigned (sign : Sign) : Caseless (readUnsigned sign) := by
  intro t
  unfold readUnsigned
  rw [hexBody?_lowerAscii]
  cases hexBody? t with
  | none =>
      simp only [Option.map_none, separated_lowerAscii caselessClass_isAsciiDigit,
        caseless_readNumeral caselessClass_isAsciiDigit _ _ t]
  | some body =>
      simp only [Option.map_some, separated_lowerAscii caselessClass_isHexDigit,
        caseless_readNumeral caselessClass_isHexDigit _ _ body]

theorem caseless_readSpecial : Caseless readSpecial := by
  intro t
  unfold readSpecial
  simp only [splitSign_lowerAscii, lowerAscii_lowerAscii]

theorem caseless_readFloat : Caseless readFloat := by
  intro t
  unfold readFloat
  rw [caseless_readSpecial t]
  cases readSpecial t with
  | some x => rfl
  | none => simp only [splitSign_lowerAscii, caseless_readUnsigned _ _]

theorem caseless_readDigits (base : Nat) (skip : Bool) (n : Nat) :
    Caseless (readDigits base skip n) := by
  intro t
  induction t generalizing n with
  | nil => rfl
  | cons b t ih =>
      have hunderscore := caselessClass_beq (c := underscore) rfl b
      rw [lowerAscii_cons, readDigits, readDigits, digitOf?_lowerByte]
      simp only [hunderscore, ih]

theorem caseless_readInt : Caseless readInt := by
  intro t
  have hempty : forall u : Text, (lowerAscii u).isEmpty = u.isEmpty := by
    intro u
    cases u <;> rfl
  unfold readInt
  simp only [splitSign_lowerAscii, hempty, caseless_readDigits _ _ _ _]

end Number

/-!
## Lower case
-/

namespace LetterCase

theorem caselessClass_isContinuation : CaselessClass Utf8.isContinuation :=
  forall_byte (by decide +kernel)

theorem lowerAscii_of_all_isContinuation {t : Text} (h : t.all Utf8.isContinuation = true) :
    lowerAscii t = t := by
  have hfixed : forall b : UInt8, Utf8.isContinuation b = true -> lowerByte b = b :=
    forall_byte (by decide +kernel)
  have hall := List.all_eq_true.mp h
  unfold lowerAscii
  rw [List.map_congr_left fun b hb => hfixed b (hall b hb), List.map_id']

theorem next?_ascii {b : UInt8} (hb : b < 0x80) (rest : Text) :
    Utf8.next? b rest = some (Char.ofNat b.toNat, 0) := by
  have hsmall : b.toNat < 0x80 := UInt8.lt_iff_toNat_lt.mp hb
  have hvalid : b.toNat.isValidChar := Or.inl (by omega)
  unfold Utf8.next? Utf8.leading
  simp [hb, hvalid, Utf8.leastFor, Char.ofNat]

theorem next?_lowerAscii (b : UInt8) (rest : Text) :
    Utf8.next? b (lowerAscii rest) = Utf8.next? b rest := by
  unfold Utf8.next?
  cases Utf8.leading b with
  | none => rfl
  | some lead =>
      rcases lead with ⟨count, bits⟩
      have hlength : ((lowerAscii rest).take count).length = (rest.take count).length := by
        rw [← lowerAscii_take]
        exact List.length_map _
      have hclass : ((lowerAscii rest).take count).all Utf8.isContinuation =
          (rest.take count).all Utf8.isContinuation := by
        rw [← lowerAscii_take]
        exact all_lowerAscii caselessClass_isContinuation _
      cases hall : (rest.take count).all Utf8.isContinuation with
      | false => simp only [hlength, hclass, hall, Bool.and_false, Bool.false_eq_true, if_false]
      | true =>
          have hsame : (lowerAscii rest).take count = rest.take count := by
            rw [← lowerAscii_take]
            exact lowerAscii_of_all_isContinuation hall
          simp only [hsame]

def lowerRune : Rune -> Text
  | .char c => Utf8.encode (lowerChar c)
  | .stray _ => Utf8.encode replacement

/-- The table has the capitals of ASCII in front and nothing else of ASCII. -/
theorem lowerChar_ascii {b : UInt8} (hb : b < 0x80) :
    lowerChar (Char.ofNat b.toNat) = Char.ofNat (lowerByte b).toNat := by
  have hsplit : capitals = ⟨0x41, 0x5a, 1, 32⟩ :: capitals.tail := rfl
  have htail : (capitals.tail.all fun r => 0x80 ≤ r.first) = true := by decide +kernel
  have hbytes : forall b : UInt8, b < 0x80 -> (Char.ofNat b.toNat).toNat = b.toNat ∧
      b.toNat < 0x80 ∧ (lowerByte b).toNat =
        if Range.holds ⟨0x41, 0x5a, 1, 32⟩ b.toNat then b.toNat + 32 else b.toNat :=
    forall_byte (by decide +kernel)
  rcases hbytes b hb with ⟨hcode, hsmall, hlower⟩
  have hnone : capitals.tail.find? (·.holds b.toNat) = none := by
    rw [List.find?_eq_none]
    intro r hr hholds
    have hfirst : 0x80 ≤ r.first := of_decide_eq_true (List.all_eq_true.mp htail r hr)
    simp only [Range.holds, Bool.and_eq_true, decide_eq_true_eq] at hholds
    omega
  unfold lowerChar
  rw [hcode, hlower, hsplit, List.find?_cons, hnone]
  cases Range.holds ⟨0x41, 0x5a, 1, 32⟩ b.toNat <;> rfl

theorem flatMap_lowerRune_lowerAscii (t : Text) :
    (Utf8.runes (lowerAscii t)).flatMap lowerRune = (Utf8.runes t).flatMap lowerRune := by
  have hclass :
      forall b : UInt8, (b < 0x80 ∧ lowerByte b < 0x80) ∨ (¬b < 0x80 ∧ lowerByte b = b) :=
    forall_byte (by decide +kernel)
  fun_induction Utf8.runes t with
  | case1 => rw [lowerAscii_nil, Utf8.runes]
  | case2 b rest c count hnext ih =>
      rw [lowerAscii_cons, Utf8.runes, List.flatMap_cons, ← ih, lowerAscii_drop]
      rcases hclass b with ⟨hb, hlower⟩ | ⟨_, hlower⟩
      · rw [next?_ascii hb] at hnext
        cases hnext
        rw [next?_ascii hlower]
        simp only [List.flatMap_cons, lowerRune, lowerChar_ascii hb, lowerChar_ascii hlower,
          lowerByte_lowerByte]
      · rw [hlower, next?_lowerAscii, hnext]
        rfl
  | case3 b rest hnext ih =>
      rw [lowerAscii_cons, Utf8.runes, List.flatMap_cons, ← ih]
      rcases hclass b with ⟨hb, _⟩ | ⟨_, hlower⟩
      · rw [next?_ascii hb] at hnext
        cases hnext
      · rw [hlower, next?_lowerAscii, hnext]
        rfl

theorem caseless_lower : Caseless lower := by
  intro t
  have hascii : CaselessClass (· < 0x80) := forall_byte (by decide +kernel)
  have hwide : forall t : Text, ¬t.all (· < 0x80) = true ->
      lower t = (Utf8.runes t).flatMap lowerRune := by
    intro t ht
    unfold lower
    rw [if_neg ht]
    rfl
  by_cases hall : t.all (· < 0x80) = true
  · have hall' : (lowerAscii t).all (· < 0x80) = true := (all_lowerAscii hascii t).trans hall
    unfold lower
    rw [if_pos hall, if_pos hall', lowerAscii_lowerAscii]
  · have hall' : ¬(lowerAscii t).all (· < 0x80) = true :=
      fun h => hall ((all_lowerAscii hascii t).symm.trans h)
    rw [hwide t hall, hwide _ hall', flatMap_lowerRune_lowerAscii]

end LetterCase
end VectorMachine
