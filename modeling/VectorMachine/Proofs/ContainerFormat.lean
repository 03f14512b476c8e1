import VectorMachine.Proofs.CborPrefix
import VectorMachine.Proofs.ContainerRoundTrip

/-!
# What a container is

A container is a mark, a version, the length of a body and the body, with anything
behind it.  Everything else is rejected, and the first part that is missing or wrong
decides the error.  What a program is written as cannot be cut short.
-/

namespace VectorMachine
namespace Container

inductive Holds : Bytes -> Program -> Prop where
  | body {body rest : Bytes} {p : Program} (counted : body.length < 2 ^ 32)
      (decoded : Cbor.read body >>= readProgram = some p) :
      Holds (utf8 "VVBC" ++ [1, 0] ++ littleEndian 4 body.length ++ body ++ rest) p

/-- The data is no container, for the first reason that it gives. -/
inductive Rejected : Bytes -> Error -> Prop where
  | noMagic {data : Bytes} (short : data.length < 4) :
      Rejected data (.ended .magic (!data.isEmpty))
  | otherMagic {mark rest : Bytes} (length : mark.length = 4) (other : mark ≠ utf8 "VVBC") :
      Rejected (mark ++ rest) .invalidMagic
  | noVersion {rest : Bytes} (short : rest.length < 2) :
      Rejected (utf8 "VVBC" ++ rest) (.ended .version (!rest.isEmpty))
  | otherVersion {number rest : Bytes} (length : number.length = 2) (other : number ≠ [1, 0]) :
      Rejected (utf8 "VVBC" ++ number ++ rest) .invalidVersion
  | noLength {rest : Bytes} (short : rest.length < 4) :
      Rejected (utf8 "VVBC" ++ [1, 0] ++ rest) (.ended .bodyLength (!rest.isEmpty))
  | truncated {n : Nat} {rest : Bytes} (counted : n < 2 ^ 32) (short : rest.length < n) :
      Rejected (utf8 "VVBC" ++ [1, 0] ++ littleEndian 4 n ++ rest)
        (.truncatedBody n rest.length)
  | undecodable {body rest : Bytes} (counted : body.length < 2 ^ 32)
      (undecoded : Cbor.read body >>= readProgram = none) :
      Rejected (utf8 "VVBC" ++ [1, 0] ++ littleEndian 4 body.length ++ body ++ rest)
        .undecodable

/-!
## Parts
-/

theorem takePart_short {part : Part} {size : Nat} {data : Bytes} (h : data.length < size) :
    takePart part size data = .error (.ended part (!data.isEmpty)) :=
  if_pos h

theorem ofLittleEndian_lt (bytes : Bytes) : ofLittleEndian bytes < 256 ^ bytes.length := by
  induction bytes with
  | nil => exact Nat.one_pos
  | cons b bytes ih =>
      have hb := b.toNat_lt
      rw [ofLittleEndian, List.length_cons, Nat.pow_succ]
      omega

theorem littleEndian_ofLittleEndian (bytes : Bytes) :
    littleEndian bytes.length (ofLittleEndian bytes) = bytes := by
  induction bytes with
  | nil => rfl
  | cons b bytes ih =>
      have hb := b.toNat_lt
      have hbyte : (b.toNat + 256 * ofLittleEndian bytes).toUInt8 = b := by
        apply UInt8.toNat_inj.mp
        show (b.toNat + 256 * ofLittleEndian bytes) % 256 = b.toNat
        omega
      have hrest : (b.toNat + 256 * ofLittleEndian bytes) / 256 = ofLittleEndian bytes := by
        omega
      rw [List.length_cons, ofLittleEndian, littleEndian, hbyte, hrest, ih]

theorem exists_part {size : Nat} {data : Bytes} (h : ¬data.length < size) :
    exists part rest, part.length = size ∧ data = part ++ rest :=
  ⟨data.take size, data.drop size, List.length_take_of_le (Nat.le_of_not_lt h),
    (List.take_append_drop size data).symm⟩

theorem ofLittleEndian_ne_version {number : Bytes} (hlength : number.length = 2)
    (hother : number ≠ [1, 0]) : ofLittleEndian number ≠ version := by
  intro heq
  apply hother
  rw [← littleEndian_ofLittleEndian number, hlength, heq]
  rfl

/-!
## Reading
-/

theorem utf8_eq_magic : ¬utf8 "VVBC" ≠ magic :=
  not_not.mpr rfl

theorem ofLittleEndian_eq_version : ¬ofLittleEndian [1, 0] ≠ version :=
  not_not.mpr rfl

theorem deserialize_counted {n : Nat} (hn : n < 2 ^ 32) (rest : Bytes) :
    deserialize (utf8 "VVBC" ++ [1, 0] ++ littleEndian 4 n ++ rest) =
      if rest.length < n then .error (.truncatedBody n rest.length)
      else (Cbor.read (rest.take n) >>= readProgram).elim (.error .undecodable) .ok := by
  have hcount : ofLittleEndian (littleEndian 4 n) = n := ofLittleEndian_littleEndian hn
  unfold deserialize
  simp only [List.append_assoc, takePart_append .magic (show (utf8 "VVBC").length = 4 from rfl),
    takePart_append .version (show ([1, 0] : Bytes).length = 2 from rfl),
    takePart_append .bodyLength (length_littleEndian 4 n), ok_bind, hcount]
  rw [if_neg utf8_eq_magic, if_neg ofLittleEndian_eq_version]
  cases Cbor.read (rest.take n) >>= readProgram with
  | none => rfl
  | some p => rfl

theorem deserialize_body {body : Bytes} (hbody : body.length < 2 ^ 32) (rest : Bytes) :
    deserialize (utf8 "VVBC" ++ [1, 0] ++ littleEndian 4 body.length ++ body ++ rest) =
      (Cbor.read body >>= readProgram).elim (.error .undecodable) .ok := by
  rw [List.append_assoc _ body, deserialize_counted hbody, if_neg (by simp), List.take_left]

theorem deserialize_of_holds {data : Bytes} {p : Program} (h : Holds data p) :
    deserialize data = .ok p := by
  cases h with
  | body counted decoded =>
      rw [deserialize_body counted, decoded]
      rfl

theorem deserialize_of_rejected {data : Bytes} {e : Error} (h : Rejected data e) :
    deserialize data = .error e := by
  have hmark : (utf8 "VVBC").length = 4 := rfl
  cases h with
  | noMagic short =>
      unfold deserialize
      rw [takePart_short short, error_bind]
  | otherMagic length other =>
      unfold deserialize
      rw [takePart_append .magic length, ok_bind]
      exact if_pos other
  | noVersion short =>
      unfold deserialize
      simp only [takePart_append .magic hmark, takePart_short short, ok_bind, error_bind]
      rw [if_neg utf8_eq_magic]
  | otherVersion length other =>
      unfold deserialize
      simp only [List.append_assoc, takePart_append .magic hmark,
        takePart_append .version length, ok_bind]
      rw [if_neg utf8_eq_magic, if_pos (ofLittleEndian_ne_version length other)]
  | noLength short =>
      unfold deserialize
      simp only [List.append_assoc, takePart_append .magic hmark,
        takePart_append .version (show ([1, 0] : Bytes).length = 2 from rfl),
        takePart_short short, ok_bind, error_bind]
      rw [if_neg utf8_eq_magic, if_neg ofLittleEndian_eq_version]
  | truncated counted short => rw [deserialize_counted counted, if_pos short]
  | undecodable counted undecoded =>
      rw [deserialize_body counted, undecoded]
      rfl

theorem holds_or_rejected (data : Bytes) :
    (exists p, Holds data p) ∨ exists e, Rejected data e := by
  by_cases hshort : data.length < 4
  · exact Or.inr ⟨_, .noMagic hshort⟩
  rcases exists_part hshort with ⟨mark, rest, hlength, rfl⟩
  by_cases hmark : mark = utf8 "VVBC"
  case neg => exact Or.inr ⟨_, .otherMagic hlength hmark⟩
  subst hmark
  by_cases hshort : rest.length < 2
  · exact Or.inr ⟨_, .noVersion hshort⟩
  rcases exists_part hshort with ⟨number, rest, hlength, rfl⟩
  rw [← List.append_assoc]
  by_cases hnumber : number = [1, 0]
  case neg => exact Or.inr ⟨_, .otherVersion hlength hnumber⟩
  subst hnumber
  by_cases hshort : rest.length < 4
  · exact Or.inr ⟨_, .noLength hshort⟩
  rcases exists_part hshort with ⟨count, rest, hlength, rfl⟩
  have hcount : littleEndian 4 (ofLittleEndian count) = count := by
    rw [← hlength]
    exact littleEndian_ofLittleEndian count
  have hlimit : ofLittleEndian count < 2 ^ 32 := by
    have hlt := ofLittleEndian_lt count
    rwa [hlength] at hlt
  rw [← List.append_assoc, ← hcount]
  by_cases hshort : rest.length < ofLittleEndian count
  · exact Or.inr ⟨_, .truncated hlimit hshort⟩
  rcases exists_part hshort with ⟨body, rest, hbody, rfl⟩
  rw [← hbody] at hlimit ⊢
  rw [← List.append_assoc]
  cases hdecoded : Cbor.read body >>= readProgram with
  | some p => exact Or.inl ⟨p, .body hlimit hdecoded⟩
  | none => exact Or.inr ⟨_, .undecodable hlimit hdecoded⟩

theorem deserialize_eq_ok_iff {data : Bytes} {p : Program} :
    deserialize data = .ok p ↔ Holds data p := by
  refine ⟨?_, deserialize_of_holds⟩
  intro h
  rcases holds_or_rejected data with ⟨q, hholds⟩ | ⟨e, hrejected⟩
  · rw [deserialize_of_holds hholds] at h
    cases h
    exact hholds
  · rw [deserialize_of_rejected hrejected] at h
    cases h

theorem deserialize_eq_error_iff {data : Bytes} {e : Error} :
    deserialize data = .error e ↔ Rejected data e := by
  refine ⟨?_, deserialize_of_rejected⟩
  intro h
  rcases holds_or_rejected data with ⟨q, hholds⟩ | ⟨f, hrejected⟩
  · rw [deserialize_of_holds hholds] at h
    cases h
  · rw [deserialize_of_rejected hrejected] at h
    cases h
    exact hrejected

/-!
## What is written
-/

structure Counted (p : Program) : Prop where
  code : p.codeBytes.length < 2 ^ 63
  constants : p.constantTable.length < 2 ^ 63
  inputs : -2 ^ 63 ≤ p.inputs ∧ p.inputs < 2 ^ 63
  outputs : -2 ^ 63 ≤ p.outputs ∧ p.outputs < 2 ^ 63

theorem readItem_programItem_large {p : Program} (h : Counted p)
    (hlarge : Cbor.maxElements < p.constantTable.length) :
    Cbor.readItem Cbor.maxDepth (Cbor.write (programItem p)) = none := by
  have hkey : forall n, n < 5 -> Cbor.Writable 31 (.unsigned n) := by
    intro n hn
    exact Nat.lt_trans hn (by decide)
  have hcode : Cbor.Writable 31 (codeItem p.code) :=
    writable_of_leaf (leaf_codeItem (Nat.lt_trans h.code (by decide)))
  have hconstants : forall rest : Bytes,
      Cbor.readItem 31 (Cbor.write (constantsItem p.constants) ++ rest) = none := by
    intro rest
    have hcount := h.constants
    unfold Program.constantTable at hlarge hcount
    cases hcase : p.constants with
    | none =>
        rw [hcase] at hlarge
        cases hlarge
    | some constants =>
        rw [hcase] at hlarge hcount
        have hlength : (constants.map vectorItem).length = constants.length := List.length_map _
        exact Cbor.readItem_write_array_large 30 (hlength ▸ hlarge)
          (hlength ▸ Nat.lt_trans hcount (by decide)) rest
  refine @Cbor.readItem_write_map_none 31 [(.unsigned 1, codeItem p.code)]
    [(.unsigned 3, Cbor.Item.ofInt p.inputs), (.unsigned 4, Cbor.Item.ofInt p.outputs)] _ _ ?_
    (hkey 2 (by decide)) hconstants (show 1 + (2 + 1) ≤ Cbor.maxElements by decide)
  intro entry hentry
  rw [List.mem_singleton.mp hentry]
  exact ⟨hkey 1 (by decide), hcode⟩

theorem whole_programItem {p : Program} (h : Counted p) :
    Cbor.Whole (Cbor.write (programItem p)) := by
  by_cases hlarge : Cbor.maxElements < p.constantTable.length
  · intro item rest hread
    rw [readItem_programItem_large h hlarge] at hread
    cases hread
  · exact Cbor.whole_write (writable_programItem (Nat.lt_trans h.code (by decide))
      (Nat.le_of_not_lt hlarge) ((Number.fitsInt_iff _).mpr h.inputs)
      ((Number.fitsInt_iff _).mpr h.outputs))

/-- The container of a program cannot be cut short, not even where its body is longer than
the length in front of it can say. -/
theorem exists_error_of_cut {p : Program} (h : Counted p) {data : Bytes}
    (hcut : data <+: serialize p) (hproper : data ≠ serialize p) :
    exists e, deserialize data = .error e := by
  cases hread : deserialize data with
  | error e => exact ⟨e, rfl⟩
  | ok q =>
      exfalso
      apply hproper
      rcases hcut with ⟨more, hmore⟩
      cases deserialize_eq_ok_iff.mp hread with
      | @body body rest _ counted decoded =>
          rcases Option.bind_eq_some_iff.mp decoded with ⟨item, hitem, _⟩
          -- the heads have the same length, so the bodies start at the same place
          have hsplit : utf8 "VVBC" ++ [1, 0] ++ littleEndian 4 body.length ++
              (body ++ (rest ++ more)) = utf8 "VVBC" ++ [1, 0] ++
                littleEndian 4 (Cbor.write (programItem p)).length ++
                Cbor.write (programItem p) := by
            rw [← List.append_assoc, ← List.append_assoc]
            exact hmore
          rcases List.append_inj hsplit (by simp [length_littleEndian]) with ⟨_, hbody⟩
          have hwhole := whole_programItem h
          rw [← hbody] at hwhole
          have hnone := (List.append_eq_nil_iff.mp (hwhole.eq_nil_of_read hitem)).2
          rw [hnone, List.append_nil] at hmore
          exact hmore

/-!
## Containers
-/

/-- Data is a program exactly if it is a container of one, and an error exactly as its
first defect says.  No container of a program can be cut short. -/
theorem deserialize_exactly_containers :
    (forall data p, deserialize data = .ok p ↔ Holds data p) ∧
    (forall data e, deserialize data = .error e ↔ Rejected data e) ∧
    (forall p, Counted p -> forall data, data <+: serialize p -> data ≠ serialize p ->
      exists e, deserialize data = .error e) :=
  ⟨fun _ _ => deserialize_eq_ok_iff, fun _ _ => deserialize_eq_error_iff,
    fun _ h _ => exists_error_of_cut h⟩

/-- The last byte is missing. -/
theorem deserialize_exactly_containers_extreme :
    Counted extremeProgram ∧
      exists e, deserialize (serialize extremeProgram).dropLast = .error e := by
  have hcounted : Counted extremeProgram := by
    refine ⟨?_, ?_, ?_, ?_⟩ <;> decide
  refine ⟨hcounted, deserialize_exactly_containers.2.2 _ hcounted _ (List.dropLast_prefix _) ?_⟩
  decide +kernel

end Container
end VectorMachine
