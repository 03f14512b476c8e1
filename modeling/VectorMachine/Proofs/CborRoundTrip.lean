import VectorMachine.Cbor.Read
import VectorMachine.Cbor.Write
import VectorMachine.Proofs.FloatFormats

/-!
# Items read back

What is written for an item is read as that item, whatever bytes follow it.  The
item must stay within what a head can count and within the limits of reading.
-/

namespace VectorMachine
namespace Cbor

/-!
## Bytes and heads
-/

theorem length_bigEndian (size n : Nat) : (bigEndian size n).length = size := by
  induction size generalizing n with
  | zero => rfl
  | succ size ih => simp [bigEndian, ih]

theorem ofBigEndian_append (bytes : Bytes) (b : UInt8) :
    ofBigEndian (bytes ++ [b]) = ofBigEndian bytes * 256 + b.toNat := by
  simp [ofBigEndian]

theorem ofBigEndian_bigEndian {size n : Nat} (h : n < 256 ^ size) :
    ofBigEndian (bigEndian size n) = n := by
  induction size generalizing n with
  | zero =>
      have hzero : n = 0 := by simpa using h
      rw [hzero]
      rfl
  | succ size ih =>
      have hdiv : n / 256 < 256 ^ size := by
        rw [Nat.pow_succ] at h
        exact Nat.div_lt_of_lt_mul (by omega)
      have hbyte : n.toUInt8.toNat = n % 256 := rfl
      rw [bigEndian, ofBigEndian_append, ih hdiv, hbyte]
      omega

theorem takeExactly_append (bytes rest : Bytes) :
    takeExactly bytes.length (bytes ++ rest) = some bytes := by
  simp [takeExactly]

theorem argument_wide {info size n : Nat} (hsize : argumentSize info = some size)
    (hpositive : size ≠ 0) (hn : n < 256 ^ size) (rest : Bytes) :
    argument info (bigEndian size n ++ rest) = some (n, size) := by
  have htake := takeExactly_append (bigEndian size n) rest
  rw [length_bigEndian] at htake
  simp [argument, hsize, htake, hpositive, ofBigEndian_bigEndian hn]

theorem argument_narrow {info : Nat} (h : info < 24) (rest : Bytes) :
    argument info rest = some (info, 0) := by
  have hsizes : forall info, info < 24 -> argumentSize info = some 0 := by decide
  simp [argument, hsizes info h, takeExactly]

section Head

variable {major info : Nat} (hmajor : major < 8) (hinfo : info < 32)
include hmajor hinfo

theorem toNat_first : (major * 32 + info).toUInt8.toNat = major * 32 + info := by
  show (major * 32 + info) % 256 = major * 32 + info
  omega

theorem majorOf_first : majorOf (major * 32 + info).toUInt8 = major := by
  unfold majorOf
  rw [toNat_first hmajor hinfo]
  omega

theorem infoOf_first : infoOf (major * 32 + info).toUInt8 = info := by
  unfold infoOf
  rw [toNat_first hmajor hinfo]
  omega

end Head

/-- A head is a byte with the major type and an argument that is read back. -/
theorem exists_head {major n : Nat} (hmajor : major < 8) (hn : n < 2 ^ 64) :
    exists b tail, head major n = b :: tail ∧ majorOf b = major ∧ infoOf b < 28 ∧
      forall rest, argument (infoOf b) (tail ++ rest) = some (n, tail.length) := by
  have hwide : forall {info size : Nat}, info < 28 -> argumentSize info = some size ->
      size ≠ 0 -> n < 256 ^ size ->
      majorOf (major * 32 + info).toUInt8 = major ∧
      infoOf (major * 32 + info).toUInt8 < 28 ∧
      forall rest, argument (infoOf (major * 32 + info).toUInt8) (bigEndian size n ++ rest) =
        some (n, (bigEndian size n).length) := by
    intro info size hinfo hsize hpositive hbound
    rw [majorOf_first hmajor (by omega), infoOf_first hmajor (by omega), length_bigEndian]
    exact ⟨rfl, hinfo, argument_wide hsize hpositive hbound⟩
  unfold head
  simp only
  split
  next hsmall =>
    refine ⟨_, [], rfl, majorOf_first hmajor (by omega), ?_, ?_⟩
    · rw [infoOf_first hmajor (by omega)]
      omega
    · intro rest
      rw [infoOf_first hmajor (by omega)]
      exact argument_narrow hsmall _
  · split
    next h => exact ⟨_, _, rfl, hwide (by decide) rfl (by decide) (by omega)⟩
    · split
      next h => exact ⟨_, _, rfl, hwide (by decide) rfl (by decide) (by omega)⟩
      · split
        next h => exact ⟨_, _, rfl, hwide (by decide) rfl (by decide) (by omega)⟩
        · exact ⟨_, _, rfl, hwide (by decide) rfl (by decide) (by omega)⟩

/-!
## Items without items inside
-/

theorem splitTags_of_ne {b : UInt8} (h : majorOf b ≠ 6) (rest : Bytes) :
    splitTags (b :: rest) = some ([], b :: rest) := by
  rw [splitTags, if_neg h]

theorem readItem_leaf (levels : Nat) {b : UInt8} (harray : majorOf b ≠ 4) (hmap : majorOf b ≠ 5)
    (htag : majorOf b ≠ 6) (rest : Bytes) : readItem levels (b :: rest) = readLeaf b rest := by
  rw [readItem, splitTags_of_ne htag]
  simp [harray, hmap]

theorem readStrings_append {major info : Nat} {tail bytes : Bytes} (hinfo : info < 28)
    (hargument : forall rest, argument info (tail ++ rest) = some (bytes.length, tail.length))
    (rest : Bytes) :
    readStrings major info (tail ++ (bytes ++ rest)) = some ([bytes], rest) := by
  unfold readStrings
  rw [if_neg (by omega)]
  simp [readString, hargument, takeExactly_append]

def Leaf : Item -> Prop
  | .unsigned n => n < 2 ^ 64
  | .negative n => n < 2 ^ 64
  | .bytes b => b.length < 2 ^ 64
  | .text chunks => exists text, chunks = [text] ∧ text.length < 2 ^ 64
  | .simple value => value < 24 ∨ 32 ≤ value ∧ value < 256
  | .float _ => True
  | _ => False

theorem floatOfBits_of_fits {format : Float.Model.Format} {x : Float}
    (h : fitsFormat format x = true) : floatOfBits format (bitsOfFloat format x) = x := by
  have hbits : (floatOfBits format (bitsOfFloat format x)).toModel.toBits = x.toModel.toBits :=
    beq_iff_eq.mp h
  generalize floatOfBits format (bitsOfFloat format x) = y at hbits
  rcases x with ⟨⟨bits, valid⟩⟩
  rcases y with ⟨⟨bits', valid'⟩⟩
  have hbits : bits' = bits := hbits
  subst hbits
  rfl

theorem fits_double (x : Float) : fitsFormat .binary64 x = true := by
  have hx := Number.representable_double x
  unfold fitsFormat floatOfBits bitsOfFloat
  rw [Number.refit_of_representable hx, BitVec.ofNat_toNat]
  simp only [BitVec.setWidth_eq]
  rw [Number.unpack_pack hx, Number.refit_of_representable hx, Number.pack_unpack_double]
  exact beq_self_eq_true _

theorem bitsOfFloat_lt (format : Float.Model.Format) (x : Float) :
    bitsOfFloat format x < 2 ^ format.numBits :=
  BitVec.isLt _

theorem argument_float {format : Float.Model.Format} {info size : Nat}
    (hsize : argumentSize info = some size) (hpositive : size ≠ 0)
    (hbits : 2 ^ format.numBits ≤ 256 ^ size) (x : Float) (rest : Bytes) :
    argument info (bigEndian size (bitsOfFloat format x) ++ rest) =
      some (bitsOfFloat format x, size) :=
  argument_wide hsize hpositive (Nat.lt_of_lt_of_le (bitsOfFloat_lt format x) hbits) rest

theorem drop_bigEndian (size n : Nat) (rest : Bytes) :
    (bigEndian size n ++ rest).drop size = rest := by
  have hlength := length_bigEndian size n
  rw [List.drop_append_of_le_length (Nat.le_of_eq hlength.symm),
    List.drop_of_length_le (Nat.le_of_eq hlength), List.nil_append]

theorem readItem_writeFloat (levels : Nat) (x : Float) (rest : Bytes) :
    readItem levels (writeFloat x ++ rest) = some (.float x, rest) := by
  unfold writeFloat
  split
  next hfits =>
    have hargument : argument 25 (bigEndian 2 (bitsOfFloat half x) ++ rest) =
        some (bitsOfFloat half x, 2) := argument_float rfl (by decide) (by decide) x rest
    rw [List.cons_append, readItem_leaf levels (by decide) (by decide) (by decide)]
    show readSimple 25 _ = _
    simp [readSimple, hargument, drop_bigEndian, floatOfBits_of_fits hfits]
  · split
    next hfits =>
      have hargument : argument 26 (bigEndian 4 (bitsOfFloat .binary32 x) ++ rest) =
          some (bitsOfFloat .binary32 x, 4) := argument_float rfl (by decide) (by decide) x rest
      rw [List.cons_append, readItem_leaf levels (by decide) (by decide) (by decide)]
      show readSimple 26 _ = _
      simp [readSimple, hargument, drop_bigEndian, floatOfBits_of_fits hfits]
    · have hargument : argument 27 (bigEndian 8 (bitsOfFloat .binary64 x) ++ rest) =
          some (bitsOfFloat .binary64 x, 8) := argument_float rfl (by decide) (by decide) x rest
      rw [List.cons_append, readItem_leaf levels (by decide) (by decide) (by decide)]
      show readSimple 27 _ = _
      simp [readSimple, hargument, drop_bigEndian, floatOfBits_of_fits (fits_double x)]

theorem readSimple_narrow {value : Nat} (h : value < 24) (rest : Bytes) :
    readSimple value rest = some (.simple value, rest) := by
  unfold readSimple
  rw [argument_narrow h, Option.bind_eq_bind, Option.bind_some]
  dsimp only
  split
  next => omega
  next => omega
  next => omega
  next => omega
  next => rfl

theorem readItem_writeSimple (levels : Nat) {value : Nat}
    (h : value < 24 ∨ 32 ≤ value ∧ value < 256) (rest : Bytes) :
    readItem levels (head 7 value ++ rest) = some (.simple value, rest) := by
  have hfirst : forall {info : Nat} {tail : Bytes}, info < 32 ->
      readItem levels ((7 * 32 + info).toUInt8 :: tail) = readSimple info tail := by
    intro info tail hinfo
    have hmajor := majorOf_first (show 7 < 8 by decide) hinfo
    rw [readItem_leaf levels (by omega) (by omega) (by omega)]
    simp only [readLeaf, hmajor, infoOf_first (show 7 < 8 by decide) hinfo]
  unfold head
  rcases h with hsmall | ⟨hlow, hhigh⟩
  · rw [if_pos hsmall, List.cons_append, hfirst (by omega)]
    exact readSimple_narrow hsmall rest
  · have hargument : argument 24 (bigEndian 1 value ++ rest) = some (value, 1) :=
      argument_wide rfl (by decide) hhigh rest
    have htail : (bigEndian 1 value ++ rest).tail = rest := by
      simpa using drop_bigEndian 1 value rest
    have hbyte : value < Nat.pow 2 8 := hhigh
    rw [if_neg (by omega), if_pos hbyte, List.cons_append, hfirst (by decide)]
    simp [readSimple, hargument, htail, Nat.not_lt.mpr hlow]

theorem readItem_write_leaf (levels : Nat) {item : Item} (h : Leaf item) (rest : Bytes) :
    readItem levels (write item ++ rest) = some (item, rest) := by
  cases item with
  | unsigned n =>
      rcases exists_head (show 0 < 8 by decide) h with ⟨b, tail, hhead, hmajor, _, hargument⟩
      rw [write, hhead, List.cons_append, readItem_leaf levels (by omega) (by omega) (by omega)]
      simp [readLeaf, hmajor, hargument]
  | negative n =>
      rcases exists_head (show 1 < 8 by decide) h with ⟨b, tail, hhead, hmajor, _, hargument⟩
      rw [write, hhead, List.cons_append, readItem_leaf levels (by omega) (by omega) (by omega)]
      simp [readLeaf, hmajor, hargument]
  | bytes bytes =>
      rcases exists_head (show 2 < 8 by decide) h with
        ⟨b, tail, hhead, hmajor, hinfo, hargument⟩
      rw [write, hhead, List.append_assoc, List.cons_append,
        readItem_leaf levels (by omega) (by omega) (by omega)]
      simp [readLeaf, hmajor, readStrings_append hinfo hargument]
  | text chunks =>
      rcases h with ⟨text, rfl, h⟩
      rcases exists_head (show 3 < 8 by decide) h with
        ⟨b, tail, hhead, hmajor, hinfo, hargument⟩
      rw [write, List.flatten_singleton, hhead, List.append_assoc, List.cons_append,
        readItem_leaf levels (by omega) (by omega) (by omega)]
      simp [readLeaf, hmajor, readStrings_append hinfo hargument]
  | simple value =>
      rw [write]
      exact readItem_writeSimple levels h rest
  | float x =>
      rw [write]
      exact readItem_writeFloat levels x rest
  | array items => cases h
  | map entries => cases h
  | tag number content => cases h

/-!
## Arrays and maps
-/

theorem readItem_array (levels : Nat) {b : UInt8} (h : majorOf b = 4) (rest : Bytes) :
    readItem (levels + 1) (b :: rest) =
      (readElements (readItem levels) (infoOf b) rest).map
        fun (items, rest) => (.array items, rest) := by
  rw [readItem, splitTags_of_ne (by omega)]
  simp [h]

theorem readItem_map (levels : Nat) {b : UInt8} (h : majorOf b = 5) (rest : Bytes) :
    readItem (levels + 1) (b :: rest) =
      (readElements (readEntry (readItem levels)) (infoOf b) rest).map
        fun (entries, rest) => (.map entries, rest) := by
  rw [readItem, splitTags_of_ne (by omega)]
  simp [h]

section Elements

variable {α : Type} {read : Reader α} {emit : α -> Bytes} {xs : List α}
  (h : forall x, x ∈ xs -> forall rest, read (emit x ++ rest) = some (x, rest))
include h

theorem readCount_flatMap (done : List α) (rest : Bytes) :
    readCount read xs.length done (xs.flatMap emit ++ rest) =
      some (done.reverse ++ xs, rest) := by
  induction xs generalizing done with
  | nil => simp [readCount]
  | cons x xs ih =>
      rw [List.length_cons, readCount, List.flatMap_cons, List.append_assoc,
        h x List.mem_cons_self]
      simp only
      rw [ih fun y hy => h y (List.mem_cons_of_mem x hy)]
      simp

theorem readElements_flatMap {info : Nat} {tail : Bytes} (hinfo : info < 28)
    (hcount : xs.length ≤ maxElements)
    (hargument : forall rest, argument info (tail ++ rest) = some (xs.length, tail.length))
    (rest : Bytes) :
    readElements read info (tail ++ (xs.flatMap emit ++ rest)) = some (xs, rest) := by
  unfold readElements
  rw [if_neg (by omega), hargument]
  simp only
  rw [if_neg (Nat.not_lt.mpr hcount), List.drop_left]
  exact readCount_flatMap h [] rest

end Elements

theorem readEntry_append {read : Reader Item} {key value : Item} {k v : Bytes}
    (hkey : forall rest, read (k ++ rest) = some (key, rest))
    (hvalue : forall rest, read (v ++ rest) = some (value, rest)) (rest : Bytes) :
    readEntry read ((k ++ v) ++ rest) = some ((key, value), rest) := by
  unfold readEntry
  rw [List.append_assoc, hkey]
  simp [hvalue]

theorem writeAll_eq (items : List Item) : writeAll items = items.flatMap write := by
  induction items with
  | nil => rfl
  | cons item items ih => rw [writeAll, ih, List.flatMap_cons]

theorem writeEntries_eq (entries : List (Item × Item)) :
    writeEntries entries = entries.flatMap fun entry => write entry.1 ++ write entry.2 := by
  induction entries with
  | nil => rfl
  | cons entry entries ih => rw [writeEntries, ih, List.flatMap_cons]

/-- An item that fits its heads and the limits of reading, within so many levels. -/
def Writable : Nat -> Item -> Prop
  | levels + 1, .array items =>
      items.length ≤ maxElements ∧ forall item, item ∈ items -> Writable levels item
  | levels + 1, .map entries =>
      entries.length ≤ maxElements ∧ forall entry, entry ∈ entries ->
        Writable levels entry.1 ∧ Writable levels entry.2
  | _, item => Leaf item

theorem readItem_write {levels : Nat} {item : Item} (h : Writable levels item) (rest : Bytes) :
    readItem levels (write item ++ rest) = some (item, rest) := by
  have hsmall : maxElements < 2 ^ 64 := by decide
  induction levels generalizing item rest with
  | zero =>
      apply readItem_write_leaf
      cases item <;> exact h
  | succ levels ih =>
      cases item with
      | array items =>
          rcases h with ⟨hcount, hitems⟩
          rcases exists_head (show 4 < 8 by decide) (Nat.lt_of_le_of_lt hcount hsmall) with
            ⟨b, tail, hhead, hmajor, hinfo, hargument⟩
          rw [write, hhead, writeAll_eq, List.append_assoc, List.cons_append,
            readItem_array levels hmajor,
            readElements_flatMap (fun item hitem rest => ih (hitems item hitem) rest) hinfo
              hcount hargument]
          rfl
      | map entries =>
          rcases h with ⟨hcount, hentries⟩
          rcases exists_head (show 5 < 8 by decide) (Nat.lt_of_le_of_lt hcount hsmall) with
            ⟨b, tail, hhead, hmajor, hinfo, hargument⟩
          have hentry : forall entry, entry ∈ entries -> forall rest,
              readEntry (readItem levels) ((write entry.1 ++ write entry.2) ++ rest) =
                some (entry, rest) := by
            intro entry hmem rest
            rcases hentries entry hmem with ⟨hkey, hvalue⟩
            exact readEntry_append (ih hkey) (ih hvalue) rest
          rw [write, hhead, writeEntries_eq, List.append_assoc, List.cons_append,
            readItem_map levels hmajor, readElements_flatMap hentry hinfo hcount hargument]
          rfl
      | _ => exact readItem_write_leaf (levels + 1) h rest

theorem read_write {item : Item} (h : Writable maxDepth item) :
    read (write item) = some item := by
  have hitem := readItem_write h []
  rw [List.append_nil] at hitem
  unfold read
  rw [hitem]

end Cbor
end VectorMachine
