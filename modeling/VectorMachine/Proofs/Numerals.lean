import VectorMachine.Number.Decimal
import VectorMachine.Number.Read
import VectorMachine.Proofs.Results

/-!
# Numerals read back

Numerals are written by one part of the machine and read by another.  A numeral of
digits, a point and an exponent is read to the number that it was written for, as
far as its format allows.
-/

namespace VectorMachine

/-!
## Bytes
-/

theorem forall_byte {P : UInt8 -> Prop} (h : forall n : Fin 256, P (UInt8.ofNat n.val))
    (b : UInt8) : P b := by
  have hb := h ⟨b.toNat, b.toNat_lt⟩
  rw [UInt8.ofNat_toNat] at hb
  exact hb

namespace Text

def AllDigits (t : Text) : Prop :=
  forall b, b ∈ t -> isAsciiDigit b = true

theorem AllDigits.append {s t : Text} (hs : AllDigits s) (ht : AllDigits t) :
    AllDigits (s ++ t) := by
  intro b hb
  rcases List.mem_append.mp hb with hb | hb
  · exact hs b hb
  · exact ht b hb

theorem AllDigits.take {t : Text} (h : AllDigits t) (n : Nat) : AllDigits (t.take n) :=
  fun b hb => h b (List.mem_of_mem_take hb)

theorem AllDigits.drop {t : Text} (h : AllDigits t) (n : Nat) : AllDigits (t.drop n) :=
  fun b hb => h b (List.mem_of_mem_drop hb)

theorem allDigits_zeros (n : Nat) : AllDigits (List.replicate n 0x30) := by
  intro b hb
  rw [List.eq_of_mem_replicate hb]
  rfl

theorem digitOf?_of_isAsciiDigit {b : UInt8} (h : isAsciiDigit b = true) :
    exists d, digitOf? b = some d ∧ d < 10 := by
  have hall : forall b : UInt8, isAsciiDigit b = true -> (digitOf? b).any (· < 10) = true :=
    forall_byte (by decide +kernel)
  have hb := hall b h
  cases hd : digitOf? b with
  | none =>
      rw [hd] at hb
      cases hb
  | some d =>
      rw [hd] at hb
      exact ⟨d, rfl, of_decide_eq_true hb⟩

/-!
## Values
-/

section Value

variable {base : Nat}

theorem foldl_digits (n : Nat) (digits : List Nat) :
    digits.foldl (fun n d => n * base + d) n =
      n * base ^ digits.length + valueOf base digits := by
  induction digits generalizing n with
  | nil => simp [valueOf]
  | cons d digits ih =>
      unfold valueOf
      rw [List.foldl_cons, List.foldl_cons, ih, ih (0 * base + d), List.length_cons,
        Nat.pow_succ]
      rw [Nat.zero_mul, Nat.zero_add, Nat.add_mul, Nat.mul_comm (base ^ _) base, Nat.mul_assoc,
        Nat.add_assoc]

theorem valueOf_append (xs ys : List Nat) :
    valueOf base (xs ++ ys) = valueOf base xs * base ^ ys.length + valueOf base ys := by
  unfold valueOf
  rw [List.foldl_append, foldl_digits]
  rfl

end Value

end Text

namespace Number

open Text

theorem digitsOf_append (s t : Text) : digitsOf (s ++ t) = digitsOf s ++ digitsOf t :=
  List.filterMap_append

theorem length_digitsOf {t : Text} (h : AllDigits t) : (digitsOf t).length = t.length := by
  induction t with
  | nil => rfl
  | cons b t ih =>
      rcases digitOf?_of_isAsciiDigit (h b List.mem_cons_self) with ⟨d, hd, _⟩
      have hrest := ih fun c hc => h c (List.mem_cons_of_mem b hc)
      unfold digitsOf at hrest ⊢
      rw [List.filterMap_cons_some hd, List.length_cons, List.length_cons, hrest]

theorem valueOf_zeros (n : Nat) : valueOf 10 (digitsOf (List.replicate n 0x30)) = 0 := by
  induction n with
  | zero => rfl
  | succ n ih =>
      have hdigits : digitsOf (List.replicate (n + 1) 0x30) =
          digitsOf [0x30] ++ digitsOf (List.replicate n 0x30) := by
        rw [← digitsOf_append]
        rfl
      rw [hdigits, valueOf_append, ih]
      rw [show valueOf 10 (digitsOf [0x30]) = 0 from rfl, Nat.zero_mul]

end Number

/-!
## The numeral of a natural number
-/

namespace Text

theorem ofNat_eq (n : Nat) :
    ofNat n = (if n < 10 then [] else ofNat (n / 10)) ++ [UInt8.ofNat (48 + n % 10)] := by
  have hdigit : forall d : Fin 10,
      (Nat.digitChar d.val).toNat.toUInt8 = UInt8.ofNat (48 + d.val) := by
    decide
  unfold ofNat
  rw [Nat.toDigits_eq_if (by decide)]
  split
  next hsmall => simp [hdigit ⟨n, hsmall⟩, Nat.mod_eq_of_lt hsmall]
  next => simp [hdigit ⟨n % 10, Nat.mod_lt n (by decide)⟩]

theorem ofNat_ne_nil (n : Nat) : ofNat n ≠ [] := by
  rw [ofNat_eq]
  simp

theorem allDigits_ofNat (n : Nat) : AllDigits (ofNat n) := by
  have hdigit : forall d : Fin 10, isAsciiDigit (UInt8.ofNat (48 + d.val)) = true := by decide
  induction n using Nat.strongRecOn with
  | _ n ih =>
      rw [ofNat_eq]
      apply AllDigits.append
      · split
        · exact fun b hb => absurd hb List.not_mem_nil
        next hlarge => exact ih (n / 10) (Nat.div_lt_self (by omega) (by decide))
      · intro b hb
        rw [List.mem_singleton.mp hb]
        exact hdigit ⟨n % 10, Nat.mod_lt n (by decide)⟩

theorem valueOf_ofNat (n : Nat) : valueOf 10 (Number.digitsOf (ofNat n)) = n := by
  have hdigit : forall d : Fin 10, Number.digitsOf [UInt8.ofNat (48 + d.val)] = [d.val] := by
    decide
  induction n using Nat.strongRecOn with
  | _ n ih =>
      rw [ofNat_eq, Number.digitsOf_append, valueOf_append,
        hdigit ⟨n % 10, Nat.mod_lt n (by decide)⟩]
      split
      next hsmall => simp [valueOf, Number.digitsOf, Nat.mod_eq_of_lt hsmall]
      next hlarge =>
        rw [ih (n / 10) (Nat.div_lt_self (by omega) (by decide))]
        simp only [valueOf, List.length_cons, List.length_nil, List.foldl_cons, List.foldl_nil]
        omega

theorem length_ofNat_le {n k : Nat} (hk : 0 < k) (h : n < 10 ^ k) : (ofNat n).length ≤ k := by
  unfold ofNat
  rw [List.length_map]
  exact (Nat.length_toDigits_le_iff (by decide) hk).mpr h

end Text

namespace Number

open Float.Model (Format UnpackedFloat)
open Float.Model.UnpackedFloat (Sign)
open Text

/-!
## Integers
-/

theorem valueOf_digitsOf_cons {b : UInt8} {d : Nat} {t : Text} (hd : digitOf? b = some d)
    (h : AllDigits t) (n : Nat) :
    n * 10 ^ (b :: t).length + valueOf 10 (digitsOf (b :: t)) =
      (n * 10 + d) * 10 ^ t.length + valueOf 10 (digitsOf t) := by
  have hdigits : digitsOf (b :: t) = [d] ++ digitsOf t := List.filterMap_cons_some hd
  rw [hdigits, valueOf_append, length_digitsOf h, List.length_cons, Nat.pow_succ,
    Nat.add_mul, Nat.mul_comm (10 ^ _) 10, Nat.mul_assoc]
  simp [valueOf, Nat.add_assoc]

theorem readDigits_of_allDigits {t : Text} (h : AllDigits t) (n : Nat)
    (hfits : n * 10 ^ t.length + valueOf 10 (digitsOf t) ≤ maxUnsigned) :
    readDigits 10 false n t = .ok (n * 10 ^ t.length + valueOf 10 (digitsOf t)) := by
  induction t generalizing n with
  | nil => simp [readDigits, digitsOf, valueOf]
  | cons b t ih =>
      rcases digitOf?_of_isAsciiDigit (h b List.mem_cons_self) with ⟨d, hd, hlt⟩
      have hrest : AllDigits t := fun c hc => h c (List.mem_cons_of_mem b hc)
      rw [valueOf_digitsOf_cons hd hrest] at hfits ⊢
      have hnow : n * 10 + d ≤ maxUnsigned := by
        have hpow : 1 ≤ 10 ^ t.length := Nat.one_le_pow _ _ (by decide)
        have := Nat.mul_le_mul_left (n * 10 + d) hpow
        omega
      unfold readDigits
      rw [hd]
      simp only [Bool.false_and, Bool.false_eq_true, if_false]
      rw [if_neg (Nat.not_le.mpr hlt), if_neg (Nat.not_lt.mpr hnow)]
      exact ih hrest (n * 10 + d) hfits

theorem eq_of_readDigits {t : Text} (h : AllDigits t) {n m : Nat}
    (hread : readDigits 10 false n t = .ok m) :
    m = n * 10 ^ t.length + valueOf 10 (digitsOf t) := by
  induction t generalizing n with
  | nil =>
      cases hread
      simp [digitsOf, valueOf]
  | cons b t ih =>
      rcases digitOf?_of_isAsciiDigit (h b List.mem_cons_self) with ⟨d, hd, hlt⟩
      have hrest : AllDigits t := fun c hc => h c (List.mem_cons_of_mem b hc)
      rw [valueOf_digitsOf_cons hd hrest]
      unfold readDigits at hread
      rw [hd] at hread
      simp only [Bool.false_and, Bool.false_eq_true, if_false,
        if_neg (Nat.not_le.mpr hlt)] at hread
      split at hread
      next => cases hread
      next => exact ih hrest hread

theorem splitSign_digit {b : UInt8} (h : isAsciiDigit b = true) (t : Text) :
    splitSign (b :: t) = (.positive, b :: t) := by
  have hminus : b ≠ 0x2d := by
    rintro rfl
    cases h
  have hplus : b ≠ 0x2b := by
    rintro rfl
    cases h
  unfold splitSign
  split
  next heq => exact absurd (List.cons.inj heq).1 hminus
  next heq => exact absurd (List.cons.inj heq).1 hplus
  next => rfl

theorem fitsInt_iff (n : Int) : fitsInt n = true ↔ -2 ^ 63 ≤ n ∧ n < 2 ^ 63 := by
  unfold fitsInt minInt maxInt
  rw [Bool.and_eq_true, decide_eq_true_iff, decide_eq_true_iff]
  omega

theorem readInt_eq_ok_iff {t : Text} (hne : t ≠ []) (h : AllDigits t) {n : Int} :
    readInt t = .ok n ↔ n = valueOf 10 (digitsOf t) ∧ fitsInt n = true := by
  cases t with
  | nil => exact absurd rfl hne
  | cons b t =>
      unfold readInt
      rw [splitSign_digit (h b List.mem_cons_self)]
      simp only [List.isEmpty_cons, Bool.false_eq_true, if_false]
      constructor
      · intro hread
        rcases exists_of_bind_eq_ok hread with ⟨m, hdigits, hread⟩
        have hm := eq_of_readDigits h hdigits
        rw [Nat.zero_mul, Nat.zero_add] at hm
        split at hread
        next hfits =>
          cases hread
          exact ⟨congrArg Nat.cast hm, hfits⟩
        next => cases hread
      · rintro ⟨rfl, hfits⟩
        have hmax : 0 * 10 ^ (b :: t).length + valueOf 10 (digitsOf (b :: t)) ≤
            maxUnsigned := by
          have hrange := (fitsInt_iff _).mp hfits
          unfold maxUnsigned
          omega
        rw [readDigits_of_allDigits h 0 hmax, Nat.zero_mul, Nat.zero_add, ok_bind]
        exact if_pos hfits

theorem readInt_ofNat {n : Nat} (h : fitsInt n = true) : readInt (Text.ofNat n) = .ok n :=
  (readInt_eq_ok_iff (ofNat_ne_nil n) (allDigits_ofNat n)).mpr ⟨by rw [valueOf_ofNat], h⟩

/-!
## Layout

Digits, a point with more digits if there are any, and a signed exponent.
-/

structure Layout where
  whole : Text
  fraction : Text
  power : Option (Sign × Text)

namespace Layout

def signByte : Sign -> UInt8
  | .positive => 0x2b
  | .negative => 0x2d

def pointText (l : Layout) : Text :=
  if l.fraction.isEmpty then [] else 0x2e :: l.fraction

def powerText (l : Layout) : Text :=
  match l.power with
  | none => []
  | some (sign, digits) => 0x65 :: signByte sign :: digits

def text (l : Layout) : Text :=
  l.whole ++ (l.pointText ++ l.powerText)

def mantissa (l : Layout) : Nat :=
  valueOf 10 (digitsOf (l.whole ++ l.fraction))

def exponent (l : Layout) : Int :=
  match l.power with
  | none => 0
  | some (sign, digits) => sign.apply (cappedExponent (digitsOf digits))

structure Proper (l : Layout) : Prop where
  whole_ne : l.whole ≠ []
  whole : AllDigits l.whole
  fraction : AllDigits l.fraction
  power : forall sign digits, l.power = some (sign, digits) -> digits ≠ [] ∧ AllDigits digits

variable {l : Layout} (h : l.Proper)
include h

theorem byte_cases {b : UInt8} (hb : b ∈ l.text) :
    isAsciiDigit b = true ∨ b = 0x2e ∨ b = 0x65 ∨ b = 0x2b ∨ b = 0x2d := by
  unfold text at hb
  rcases List.mem_append.mp hb with hb | hb
  · exact Or.inl (h.whole b hb)
  · rcases List.mem_append.mp hb with hb | hb
    · unfold pointText at hb
      split at hb
      · cases hb
      · rcases List.mem_cons.mp hb with rfl | hb
        · exact Or.inr (Or.inl rfl)
        · exact Or.inl (h.fraction b hb)
    · unfold powerText at hb
      split at hb
      · cases hb
      next sign digits hpower =>
        rcases List.mem_cons.mp hb with rfl | hb
        · exact Or.inr (Or.inr (Or.inl rfl))
        · rcases List.mem_cons.mp hb with rfl | hb
          · cases sign with
            | positive => exact Or.inr (Or.inr (Or.inr (Or.inl rfl)))
            | negative => exact Or.inr (Or.inr (Or.inr (Or.inr rfl)))
          · exact Or.inl ((h.power sign digits hpower).2 b hb)

theorem head_digit : exists b rest, l.text = b :: rest ∧ isAsciiDigit b = true := by
  unfold text
  have hall := h.whole
  cases hwhole : l.whole with
  | nil => exact absurd hwhole h.whole_ne
  | cons b rest =>
      rw [hwhole] at hall
      exact ⟨b, _, rfl, hall b List.mem_cons_self⟩

theorem readExponent_powerText : readExponent 0x65 false l.powerText = some l.exponent := by
  unfold powerText exponent
  cases hpower : l.power with
  | none => rfl
  | some power =>
      rcases power with ⟨sign, digits⟩
      rcases h.power sign digits hpower with ⟨hne, hall⟩
      have hsign : splitSign (signByte sign :: digits) = (sign, digits) := by
        cases sign <;> rfl
      have hhead : digits.head?.any isAsciiDigit = true := by
        cases digits with
        | nil => exact absurd rfl hne
        | cons b digits => exact hall b List.mem_cons_self
      have hparts : (digits.all fun c => isAsciiDigit c || c == underscore) = true := by
        rw [List.all_eq_true]
        intro b hb
        rw [hall b hb, Bool.true_or]
      simp only [readExponent, hsign, hhead, hparts]
      rfl

omit h in
theorem span_digits {digits : Text} (hdigits : AllDigits digits) {rest : Text}
    (hrest : rest = l.powerText ∨ rest = l.pointText ++ l.powerText) :
    ((digits ++ rest).takeWhile fun c => isAsciiDigit c || c == underscore) = digits ∧
      ((digits ++ rest).dropWhile fun c => isAsciiDigit c || c == underscore) = rest := by
  have hpart : forall b, b ∈ digits -> (isAsciiDigit b || b == underscore) = true := by
    intro b hb
    rw [hdigits b hb, Bool.true_or]
  have hpower : (l.powerText.takeWhile fun c => isAsciiDigit c || c == underscore) = [] ∧
      (l.powerText.dropWhile fun c => isAsciiDigit c || c == underscore) = l.powerText := by
    unfold powerText
    cases l.power with
    | none => exact ⟨rfl, rfl⟩
    | some power => exact ⟨rfl, rfl⟩
  have hstop : (rest.takeWhile fun c => isAsciiDigit c || c == underscore) = [] ∧
      (rest.dropWhile fun c => isAsciiDigit c || c == underscore) = rest := by
    rcases hrest with rfl | rfl
    · exact hpower
    · unfold pointText
      split
      · exact hpower
      · exact ⟨rfl, rfl⟩
  constructor
  · rw [List.takeWhile_append_of_pos hpart, hstop.1, List.append_nil]
  · rw [List.dropWhile_append_of_pos hpart, hstop.2]

theorem readNumeral_text :
    readNumeral isAsciiDigit 0x65 false l.text =
      some ⟨digitsOf (l.whole ++ l.fraction), l.fraction.length, l.exponent⟩ := by
  have hdigits : (digitsOf (l.whole ++ l.fraction)).isEmpty = false := by
    rw [List.isEmpty_eq_false_iff, ← List.length_pos_iff,
      length_digitsOf (h.whole.append h.fraction), List.length_append]
    have := List.length_pos_iff.mpr h.whole_ne
    omega
  have hplaces := length_digitsOf h.fraction
  rcases span_digits (l := l) h.whole (Or.inr rfl) with ⟨hwhole, hrest⟩
  rcases span_digits (l := l) h.fraction (Or.inl rfl) with ⟨hfraction, hpower⟩
  have hexponent := readExponent_powerText h
  unfold readNumeral text
  simp only [hwhole, hrest]
  cases hcase : l.fraction with
  | nil =>
      have hpoint : l.pointText = [] := by
        unfold pointText
        rw [hcase]
        rfl
      -- an exponent does not start with a point
      have hmark : forall t, l.powerText ≠ 0x2e :: t := by
        intro t heq
        unfold powerText at heq
        split at heq
        · cases heq
        · cases (List.cons.inj heq).1
      rw [hcase] at hdigits
      rw [hpoint, List.nil_append]
      split
      next rest heq => exact absurd heq (hmark rest)
      next =>
        simp only [hdigits, hexponent]
        rfl
  | cons b fraction =>
      have hpoint : l.pointText = 0x2e :: l.fraction := by
        unfold pointText
        rw [hcase]
        rfl
      rw [hpoint, List.cons_append]
      simp only [hfraction, hpower]
      simp only [hdigits, hexponent, hplaces, ← hcase]
      rfl

theorem readUnsigned_text (sign : Sign) :
    readUnsigned sign l.text =
      some (ofScaled .binary64 sign l.mantissa 10 (l.exponent - l.fraction.length)) := by
  have hseparated : forall (t : Text) (before : Bool), (forall b, b ∈ t -> b ≠ underscore) ->
      separated isAsciiDigit before t = true := by
    intro t
    induction t with
    | nil => exact fun _ _ => rfl
    | cons b t ih =>
        intro before hbytes
        unfold separated
        rw [if_neg (hbytes b List.mem_cons_self)]
        exact ih _ fun c hc => hbytes c (List.mem_cons_of_mem b hc)
  have hbyte : forall b, b ∈ l.text -> b ≠ underscore ∧ lowerByte b ≠ 0x78 := by
    have hall : forall b : UInt8,
        (isAsciiDigit b = true ∨ b = 0x2e ∨ b = 0x65 ∨ b = 0x2b ∨ b = 0x2d) ->
        b ≠ underscore ∧ lowerByte b ≠ 0x78 := forall_byte (by decide +kernel)
    exact fun b hb => hall b (byte_cases h hb)
  have hhex : hexBody? l.text = none := by
    unfold hexBody?
    split
    next m b rest htext =>
      rw [if_neg]
      exact (hbyte m (by simp [htext])).2
    next => rfl
  unfold readUnsigned
  rw [hhex]
  simp only [hseparated l.text false fun b hb => (hbyte b hb).1, if_true, readNumeral_text h,
    Option.map_some, mantissa]

def signText : Sign -> Text
  | .positive => []
  | .negative => [0x2d]

theorem readFloat_text (sign : Sign) :
    readFloat (signText sign ++ l.text) =
      let number := Float.ofModel
        (.pack (ofScaled .binary64 sign l.mantissa 10 (l.exponent - l.fraction.length)))
      if number.isInf then .error .outOfRange else .ok number := by
  rcases head_digit h with ⟨b, rest, htext, hdigit⟩
  have hsplit : splitSign (signText sign ++ l.text) = (sign, l.text) := by
    rw [htext]
    cases sign with
    | positive => exact splitSign_digit hdigit rest
    | negative => rfl
  have hletter : lowerByte b ≠ 0x69 ∧ lowerByte b ≠ 0x6e := by
    have hall : forall b : UInt8, isAsciiDigit b = true ->
        lowerByte b ≠ 0x69 ∧ lowerByte b ≠ 0x6e := forall_byte (by decide +kernel)
    exact hall b hdigit
  have hspecial : readSpecial (signText sign ++ l.text) = none := by
    unfold readSpecial
    rw [hsplit]
    have hinf : ¬(lowerAscii l.text = utf8 "inf" ∨ lowerAscii l.text = utf8 "infinity") := by
      rw [htext]
      rintro (heq | heq)
      · exact hletter.1 (List.cons.inj heq).1
      · exact hletter.1 (List.cons.inj heq).1
    have hnan : lowerAscii (signText sign ++ l.text) ≠ utf8 "nan" := by
      rw [htext]
      intro heq
      cases sign with
      | positive => exact hletter.2 (List.cons.inj heq).1
      | negative => cases (List.cons.inj heq).1
    simp only [if_neg hinf, if_neg hnan]
  unfold readFloat
  simp only [hspecial, hsplit, readUnsigned_text h]

end Layout

/-!
## Decimals
-/

namespace Decimal

theorem digits_ne_nil (d : Decimal) : d.digits ≠ [] :=
  ofNat_ne_nil d.coefficient

theorem allDigits_digits (d : Decimal) : AllDigits d.digits :=
  allDigits_ofNat d.coefficient

theorem valueOf_digits (d : Decimal) : valueOf 10 (digitsOf d.digits) = d.coefficient :=
  valueOf_ofNat d.coefficient

def layout (d : Decimal) : Layout :=
  if d.leadingExponent < -4 ∨ 6 ≤ d.leadingExponent then
    let size := Text.ofNat d.leadingExponent.natAbs
    ⟨d.digits.take 1, d.digits.drop 1,
      some (if d.leadingExponent < 0 then .negative else .positive,
        List.replicate (2 - size.length) 0x30 ++ size)⟩
  else if 0 ≤ d.exponent then
    ⟨d.digits ++ List.replicate d.exponent.toNat 0x30, [], none⟩
  else if 0 < d.leadingExponent + 1 then
    ⟨d.digits.take (d.leadingExponent + 1).toNat,
      d.digits.drop (d.leadingExponent + 1).toNat, none⟩
  else
    ⟨[0x30], List.replicate (-(d.leadingExponent + 1)).toNat 0x30 ++ d.digits, none⟩

theorem proper_layout (d : Decimal) : d.layout.Proper := by
  have hall := d.allDigits_digits
  have hne := List.length_pos_iff.mpr d.digits_ne_nil
  have htake : forall n, 0 < n -> d.digits.take n ≠ [] := by
    intro n hn
    rw [← List.length_pos_iff, List.length_take]
    omega
  unfold layout
  split
  · refine ⟨htake 1 Nat.one_pos, hall.take 1, hall.drop 1, ?_⟩
    intro sign digits hpower
    cases hpower
    constructor
    · simp [ofNat_ne_nil]
    · exact (allDigits_zeros _).append (allDigits_ofNat _)
  · split
    · refine ⟨?_, hall.append (allDigits_zeros _), nofun, nofun⟩
      simp [digits_ne_nil]
    · split
      · exact ⟨htake _ (by omega), hall.take _, hall.drop _, nofun⟩
      · exact ⟨by simp, allDigits_zeros 1, (allDigits_zeros _).append hall, nofun⟩

theorem text_layout (d : Decimal) : d.layout.text = d.text := by
  have hlength : d.leadingExponent = d.exponent + (d.digits.length : Int) - 1 := rfl
  unfold layout text
  split
  · have hsign : Layout.signByte (if d.leadingExponent < 0 then .negative else .positive) =
        if d.leadingExponent < 0 then 0x2d else 0x2b := by
      split <;> rfl
    simp only [Layout.text, Layout.pointText, Layout.powerText, scientific, hsign]
    simp
  · unfold positional
    split
    · simp [Layout.text, Layout.pointText, Layout.powerText]
    · split
      next hnegative hpoint =>
        have hrest : (d.digits.drop (d.leadingExponent + 1).toNat).isEmpty = false := by
          rw [List.isEmpty_eq_false_iff, ← List.length_pos_iff, List.length_drop]
          omega
        simp only [Layout.text, Layout.pointText, Layout.powerText, hrest, if_pos hpoint]
        simp
      next hpoint =>
        simp only [Layout.text, Layout.pointText, Layout.powerText, if_neg hpoint]
        simp [digits_ne_nil]

theorem cappedExponent_eq {digits : List Nat} (h : valueOf 10 digits < 10000) :
    cappedExponent digits = valueOf 10 digits := by
  have hfold : forall (digits : List Nat) (n : Nat),
      digits.foldl (fun n d => n * 10 + d) n < 10000 ->
        digits.foldl (fun e d => if e < 10000 then e * 10 + d else e) n =
          digits.foldl (fun n d => n * 10 + d) n := by
    intro digits
    induction digits with
    | nil => exact fun _ _ => rfl
    | cons d digits ih =>
        intro n hsmall
        rw [List.foldl_cons] at hsmall ⊢
        have hn : n < 10000 := by
          rw [foldl_digits] at hsmall
          have hpow : 1 ≤ 10 ^ digits.length := Nat.one_le_pow _ _ (by decide)
          have := Nat.mul_le_mul_left (n * 10 + d) hpow
          omega
        rw [if_pos hn, List.foldl_cons]
        exact ih _ hsmall
  exact hfold digits 0 h

theorem ofScaled_layout (d : Decimal) (hsmall : d.leadingExponent.natAbs < 10000) (S : Format)
    (sign : Sign) :
    ofScaled S sign d.layout.mantissa 10 (d.layout.exponent - d.layout.fraction.length) =
      ofScaled S sign d.coefficient 10 d.exponent := by
  have hlength : d.leadingExponent = d.exponent + (d.digits.length : Int) - 1 := rfl
  have hne := List.length_pos_iff.mpr d.digits_ne_nil
  unfold layout
  split
  · have hcapped : cappedExponent (digitsOf (List.replicate
        (2 - (Text.ofNat d.leadingExponent.natAbs).length) 0x30 ++
          Text.ofNat d.leadingExponent.natAbs)) = d.leadingExponent.natAbs := by
      have hvalue : valueOf 10 (digitsOf (List.replicate
          (2 - (Text.ofNat d.leadingExponent.natAbs).length) 0x30 ++
            Text.ofNat d.leadingExponent.natAbs)) = d.leadingExponent.natAbs := by
        rw [digitsOf_append, valueOf_append, valueOf_zeros, Nat.zero_mul, Nat.zero_add,
          valueOf_ofNat]
      rw [cappedExponent_eq (by rw [hvalue]; exact hsmall), hvalue]
    have hexponent : (if d.leadingExponent < 0 then Sign.negative else Sign.positive).apply
        d.leadingExponent.natAbs = d.leadingExponent := by
      split
      · show -((d.leadingExponent.natAbs : Nat) : Int) = _
        omega
      · show ((d.leadingExponent.natAbs : Nat) : Int) = _
        omega
    simp only [Layout.mantissa, Layout.exponent, hcapped, hexponent, List.take_append_drop,
      valueOf_digits, List.length_drop]
    congr 1
    omega
  · split
    next hpositive =>
      simp only [Layout.mantissa, Layout.exponent, List.append_nil, digitsOf_append,
        valueOf_append, valueOf_zeros, valueOf_digits, length_digitsOf (allDigits_zeros _)]
      simp [ofScaled, Int.toNat_of_nonpos (show -d.exponent ≤ 0 by omega)]
    next hnegative =>
      split
      · simp only [Layout.mantissa, Layout.exponent, List.take_append_drop, valueOf_digits,
          List.length_drop]
        congr 1
        omega
      · simp only [Layout.mantissa, Layout.exponent, digitsOf_append, valueOf_append,
          valueOf_zeros, valueOf_digits, List.length_append, List.length_replicate]
        rw [show valueOf 10 (digitsOf [0x30]) = 0 from rfl]
        simp only [Nat.zero_mul, Nat.zero_add]
        congr 1
        omega

theorem readFloat_text (d : Decimal) (hsmall : d.leadingExponent.natAbs < 10000) (sign : Sign) :
    readFloat (Layout.signText sign ++ d.text) =
      let number := Float.ofModel (.pack (ofScaled .binary64 sign d.coefficient 10 d.exponent))
      if number.isInf then .error .outOfRange else .ok number := by
  rw [← text_layout, Layout.readFloat_text (proper_layout d), ofScaled_layout d hsmall]

end Decimal

end Number
end VectorMachine
