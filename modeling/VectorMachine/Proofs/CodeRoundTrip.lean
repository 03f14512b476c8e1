import VectorMachine.Proofs.DecodedCode

/-!
# Code as a row of instructions

Code is the encodings of its instructions one behind the other.  Decoding finds the
instructions again, each at the offset where those in front of it end.  It stops behind the
first terminator, or at the end of what it has found where it cannot go on.
-/

namespace VectorMachine

/-!
## The front of a list
-/

section Front

variable {α β : Type}

/-- The elements up to the first one of a kind, and that one. -/
def upTo (last : α -> Bool) : List α -> List α
  | [] => []
  | x :: xs => if last x then [x] else x :: upTo last xs

variable {last : α -> Bool}

theorem upTo_cons_of_last {x : α} (h : last x = true) (xs : List α) :
    upTo last (x :: xs) = [x] :=
  if_pos h

theorem upTo_cons {x : α} (h : last x = false) (xs : List α) :
    upTo last (x :: xs) = x :: upTo last xs := by
  rw [upTo, h]
  rfl

theorem upTo_cases (last : α -> Bool) (xs : List α) :
    (upTo last xs = xs ∧ forall x, x ∈ xs.dropLast -> last x = false) ∨
      exists before x rest, upTo last xs = before ++ [x] ∧ last x = true ∧ rest ≠ [] ∧
        xs = before ++ [x] ++ rest := by
  induction xs with
  | nil => exact Or.inl ⟨rfl, nofun⟩
  | cons y xs ih =>
      cases hy : last y with
      | true =>
          rw [upTo_cons_of_last hy]
          cases xs with
          | nil => exact Or.inl ⟨rfl, nofun⟩
          | cons z zs => exact Or.inr ⟨[], y, z :: zs, rfl, hy, List.cons_ne_nil z zs, rfl⟩
      | false =>
          rw [upTo_cons hy]
          rcases ih with ⟨hsame, hall⟩ | ⟨before, x, rest, hfront, hx, hrest, hxs⟩
          · left
            constructor
            · rw [hsame]
            · intro x hx
              cases xs with
              | nil => cases hx
              | cons z zs =>
                  rw [List.dropLast_cons_cons] at hx
                  rcases List.mem_cons.mp hx with rfl | hx
                  · exact hy
                  · exact hall x hx
          · exact Or.inr ⟨y :: before, x, rest, by rw [hfront]; rfl, hx, hrest,
              by rw [hxs]; rfl⟩

theorem upTo_eq_self_iff (xs : List α) :
    upTo last xs = xs ↔ forall x, x ∈ xs.dropLast -> last x = false := by
  rcases upTo_cases last xs with ⟨hsame, hall⟩ | ⟨before, x, rest, hfront, hx, hrest, hxs⟩
  · exact ⟨fun _ => hall, fun _ => hsame⟩
  · constructor
    · intro hsame
      rw [hfront, hxs] at hsame
      exact absurd (List.self_eq_append_right.mp hsame) hrest
    · intro hall
      have hmem : x ∈ xs.dropLast := by
        rw [hxs, List.dropLast_append_of_ne_nil hrest]
        simp
      rw [hall x hmem] at hx
      cases hx

theorem upTo_eq_self_of_length {xs : List α} (h : (upTo last xs).length = xs.length) :
    upTo last xs = xs := by
  rcases upTo_cases last xs with ⟨hsame, _⟩ | ⟨before, x, rest, hfront, _, hrest, hxs⟩
  · exact hsame
  · rw [hfront, hxs, @List.length_append _ (before ++ [x])] at h
    exact absurd (List.length_eq_zero_iff.mp (by omega)) hrest

theorem upTo_append (last : α -> Bool) (xs ys : List α) :
    upTo last (xs ++ ys) =
      if xs.any last then upTo last xs else xs ++ upTo last ys := by
  induction xs with
  | nil => rfl
  | cons x xs ih =>
      cases hx : last x with
      | true => simp [upTo_cons_of_last hx, hx]
      | false =>
          rw [List.cons_append, upTo_cons hx, upTo_cons hx, ih, List.any_cons, hx,
            Bool.false_or]
          split <;> rfl

theorem upTo_eq_of_not_any {xs : List α} (h : xs.any last = false) : upTo last xs = xs := by
  have happend := upTo_append last xs []
  rw [h, List.append_nil] at happend
  exact happend.trans (List.append_nil xs)

theorem mem_of_mem_upTo {xs : List α} {x : α} (h : x ∈ upTo last xs) : x ∈ xs := by
  rcases upTo_cases last xs with ⟨hsame, _⟩ | ⟨before, y, rest, hfront, _, _, hxs⟩
  · rwa [hsame] at h
  · rw [hxs]
    exact List.mem_append_left rest (hfront ▸ h)

theorem forall₂_upTo {r : α -> β -> Prop} {last' : β -> Bool} {xs : List α} {ys : List β}
    (h : List.Forall₂ r xs ys) (hlast : forall x y, r x y -> last x = last' y) :
    List.Forall₂ r (upTo last xs) (upTo last' ys) := by
  induction h with
  | nil => exact .nil
  | @cons x y xs ys hxy _ ih =>
      cases hx : last x with
      | true =>
          rw [upTo_cons_of_last hx, upTo_cons_of_last ((hlast x y hxy).symm.trans hx)]
          exact .cons hxy .nil
      | false =>
          rw [upTo_cons hx, upTo_cons ((hlast x y hxy).symm.trans hx)]
          exact .cons hxy ih

end Front

namespace Instruction

/-!
## Offsets
-/

/-- The instructions one behind the other, the first of them at the given offset. -/
def placeFrom (offset : Nat) : List Instruction -> List Placed
  | [] => []
  | i :: insts => ⟨offset, i⟩ :: placeFrom (offset + i.size) insts

theorem map_instruction_placeFrom (offset : Nat) (insts : List Instruction) :
    (placeFrom offset insts).map (·.instruction) = insts := by
  induction insts generalizing offset with
  | nil => rfl
  | cons i insts ih => rw [placeFrom, List.map_cons, ih]

/-!
## Decoding what was encoded
-/

def ends (i : Instruction) : Bool :=
  i.op = .done

theorem ends_terminator : terminator.ends = true := rfl

theorem Calls.ends_eq_false {i : Instruction} {kernel : Kernel} (h : i.Calls kernel) :
    i.ends = false :=
  decide_eq_false h.ne_done

theorem decodeFrom_terminator (offset : Nat) (rest : Bytes) :
    decodeFrom offset (terminator.encode ++ rest) = ([⟨offset, terminator⟩], none) := by
  have hcode : terminator.encode ++ rest = Opcode.done.toByte :: rest := rfl
  rw [hcode, decodeFrom]
  exact if_pos (Opcode.ofByte_toByte .done)

theorem decodeFrom_encode {i : Instruction} {kernel : Kernel} (h : i.Calls kernel)
    (offset : Nat) (rest : Bytes) :
    decodeFrom offset (i.encode ++ rest) =
      (⟨offset, i⟩ :: (decodeFrom (offset + 3 + kernel.arity) rest).1,
        (decodeFrom (offset + 3 + kernel.arity) rest).2) := by
  have hcode : i.encode ++ rest =
      i.op.toByte :: i.dst :: i.descriptor :: (i.sources.map Operand.index ++ rest) := by
    unfold encode
    rw [if_neg h.ne_done]
    rfl
  have hlength : ¬(i.sources.map Operand.index ++ rest).length < kernel.arity := by
    rw [List.length_append, List.length_map, h.arity]
    omega
  have hdrop : (i.sources.map Operand.index ++ rest).drop kernel.arity = rest :=
    List.drop_left' (by rw [List.length_map, h.arity])
  have hdecoded := Chunk.decoded_fields h.arity rest
  unfold Chunk.decoded at hdecoded
  rw [hcode, decodeFrom]
  simp only [Opcode.ofByte_toByte, if_neg h.ne_done, h.arity?_eq, h.wired, not_true_eq_false,
    if_false, hlength, hdrop, hdecoded]

theorem Calls.size_eq {i : Instruction} {kernel : Kernel} (h : i.Calls kernel) :
    i.size = 3 + kernel.arity := by
  unfold size
  rw [if_neg h.ne_done, h.arity]

theorem decodeFrom_flatMap_encode {insts : List Instruction}
    (hinsts : forall i, i ∈ insts -> i.Decodable) (hends : insts.any ends = true) (offset : Nat)
    (rest : Bytes) :
    decodeFrom offset (insts.flatMap encode ++ rest) =
      (placeFrom offset (upTo ends insts), none) := by
  induction insts generalizing offset with
  | nil => cases hends
  | cons i insts ih =>
      rw [List.flatMap_cons, List.append_assoc]
      rcases hinsts i List.mem_cons_self with rfl | ⟨kernel, hcalls⟩
      · rw [decodeFrom_terminator, upTo_cons_of_last ends_terminator]
        rfl
      · rw [List.any_cons, hcalls.ends_eq_false, Bool.false_or] at hends
        have hrest := ih (fun j hj => hinsts j (List.mem_cons_of_mem i hj)) hends
          (offset + 3 + kernel.arity)
        rw [decodeFrom_encode hcalls, hrest, upTo_cons hcalls.ends_eq_false, placeFrom,
          hcalls.size_eq, Nat.add_assoc]

/-!
## Emitting
-/

theorem code_foldl_emit (insts : List Instruction) (b : CodeBuilder) :
    (insts.foldl CodeBuilder.emit b).code = b.code ++ insts.flatMap fields := by
  induction insts generalizing b with
  | nil => exact (List.append_nil b.code).symm
  | cons i insts ih =>
      rw [List.foldl_cons, ih, List.flatMap_cons, ← List.append_assoc]
      rfl

theorem bytes_foldl_emit {insts : List Instruction}
    (hinsts : forall i, i ∈ insts -> exists kernel, i.Calls kernel) :
    (insts.foldl CodeBuilder.emit {}).bytes = (insts ++ [terminator]).flatMap encode := by
  have hfields : insts.flatMap fields = insts.flatMap encode := by
    apply List.flatMap_congr
    intro i hi
    rcases hinsts i hi with ⟨kernel, hcalls⟩
    exact (if_neg hcalls.ne_done).symm
  unfold CodeBuilder.bytes
  rw [code_foldl_emit, hfields, List.flatMap_append]
  rfl

theorem calls_of_arity? {i : Instruction} {arity : Nat} (hop : i.op.arity? = some arity)
    (hpositive : 1 ≤ arity) (hsources : i.sources.length = arity)
    (hwired : Operand.wired arity i.descriptor = true) : exists kernel, i.Calls kernel := by
  have hdone : i.op ≠ .done := by
    intro hdone
    rw [hdone] at hop
    cases hop
    cases hpositive
  rcases Opcode.exists_kernel_of_arity? hdone hop with ⟨kernel, hkernel, rfl⟩
  exact ⟨kernel, hkernel, hsources, hwired⟩

theorem decode_bytes_foldl_emit {insts : List Instruction}
    (hinsts : forall i, i ∈ insts -> exists kernel, i.Calls kernel) (rest : Bytes) :
    decode ((insts.foldl CodeBuilder.emit {}).bytes ++ rest) =
      (placeFrom 0 (insts ++ [terminator]), none) := by
  have hdecodable : forall i, i ∈ insts ++ [terminator] -> i.Decodable := by
    intro i hi
    rcases List.mem_append.mp hi with hi | hi
    · exact Or.inr (hinsts i hi)
    · exact Or.inl (List.mem_singleton.mp hi)
  have hnone : insts.any ends = false := by
    rw [List.any_eq_false]
    intro i hi
    rcases hinsts i hi with ⟨kernel, hcalls⟩
    rw [hcalls.ends_eq_false]
    exact Bool.false_ne_true
  have hends : (insts ++ [terminator]).any ends = true := by
    rw [List.any_append, hnone]
    rfl
  have hall : upTo ends (insts ++ [terminator]) = insts ++ [terminator] := by
    rw [upTo_append, hnone]
    rfl
  unfold decode
  rw [bytes_foldl_emit hinsts, decodeFrom_flatMap_encode hdecodable hends, hall]

/-!
## Where decoding stops
-/

/-- Every instruction stands where those in front of it end, and so does an error. -/
theorem decodeFrom_offsets {offset : Nat} {code : Bytes} {placed : List Placed}
    {error : Option DecodeError} (h : decodeFrom offset code = (placed, error)) :
    placed = placeFrom offset (placed.map (·.instruction)) ∧
      forall e, error = some e ->
        e.offset = offset + ((placed.map (·.instruction)).map size).sum := by
  fun_induction decodeFrom offset code generalizing placed with
  | case2 =>
      cases h
      constructor
      · rfl
      · intro e he
        cases he
  | case6 =>
      rename_i offset code op hop arity harity dst descriptor operands hwired hlength sources
        more error hmore ih
      rcases Opcode.exists_kernel_of_arity? hop harity with ⟨kernel, hkernel, rfl⟩
      cases h
      have hwired : Operand.wired kernel.arity descriptor = true := by simpa using hwired
      have hsize := (calls_decoded dst hkernel hwired (Nat.not_lt.mp hlength)).1.size_eq
      have hnext : offset + 3 + kernel.arity =
          offset +
            (Chunk.decoded (Opcode.ofByte code) kernel dst descriptor operands).size := by
        rw [hsize, Nat.add_assoc]
      rcases ih hmore with ⟨hplaced, hoffset⟩
      rw [hnext] at hplaced hoffset
      constructor
      · rw [List.map_cons, placeFrom]
        exact congrArg _ hplaced
      · intro e he
        rw [hoffset e he, List.map_cons, List.map_cons, List.sum_cons, Nat.add_assoc]
        rfl
  | _ =>
      cases h
      constructor
      · rfl
      · intro e he
        cases he
        rfl

theorem offset_suffix_message (e : DecodeError) :
    utf8 " offset " ++ Text.ofNat e.offset <:+ e.message := by
  have hat : utf8 " at offset " = utf8 " at" ++ utf8 " offset " := by decide
  have hafter : utf8 "malformed program: missing terminator after offset " =
      utf8 "malformed program: missing terminator after" ++ utf8 " offset " := by decide
  cases e with
  | missingTerminator o =>
      simp only [DecodeError.message, DecodeError.offset, hafter, List.append_assoc]
      exact List.suffix_append _ _
  | _ =>
      simp only [DecodeError.message, DecodeError.atOffset, DecodeError.offset, hat,
        List.append_assoc]
      simp only [← List.append_assoc _ _ (utf8 " offset " ++ _)]
      exact List.suffix_append _ _

/-- What was emitted is decoded to the same instructions and a terminator, whatever bytes
stand behind it.  What was decoded from any code is encoded to the front of that code, and an
error is about the place where this front ends. -/
theorem decode_encode_inverse :
    (forall insts : List Instruction,
      (forall i, i ∈ insts -> exists arity, i.op.arity? = some arity ∧ 1 ≤ arity ∧
        i.sources.length = arity ∧ Operand.wired arity i.descriptor = true) ->
      forall rest, decode ((insts.foldl CodeBuilder.emit {}).bytes ++ rest) =
        (placeFrom 0 (insts ++ [terminator]), none)) ∧
    (forall code placed error, decode code = (placed, error) ->
      exists insts front, insts = placed.map (·.instruction) ∧
        front = (insts.map size).sum ∧ front ≤ code.length ∧
        insts.flatMap encode = code.take front ∧ placed = placeFrom 0 insts ∧
        forall e, error = some e ->
          e.offset = front ∧ utf8 " offset " ++ Text.ofNat front <:+ e.message) := by
  constructor
  · intro insts hinsts rest
    apply decode_bytes_foldl_emit
    intro i hi
    rcases hinsts i hi with ⟨arity, hop, hpositive, hsources, hwired⟩
    exact calls_of_arity? hop hpositive hsources hwired
  · intro code placed error h
    rcases decodeFrom_shape h with ⟨calls, ends, rest, hinsts, hcode, _, _⟩
    rcases decodeFrom_offsets h with ⟨hplaced, hoffset⟩
    rw [← hinsts] at hcode
    have hlength := length_flatMap_encode (placed.map (·.instruction))
    refine ⟨_, _, rfl, rfl, ?_, ?_, hplaced, ?_⟩
    · rw [hcode, List.length_append, hlength]
      exact Nat.le_add_right _ _
    · rw [hcode]
      exact (List.take_left' hlength).symm
    · intro e he
      have hsize := (hoffset e he).trans (Nat.zero_add _)
      rw [← hsize]
      exact ⟨rfl, offset_suffix_message e⟩

/-- Operands with the highest numbers and more code behind the terminator; and a descriptor
that is not wired behind an instruction that is. -/
theorem decode_encode_inverse_edges :
    decode ((([⟨.mad, 255, [.constant 255, .register 0, .constant 1]⟩,
        ⟨.random, 7, [.register 255]⟩] : List Instruction).foldl CodeBuilder.emit {}).bytes
          ++ [4, 0, 4]) =
      ([⟨0, ⟨.mad, 255, [.constant 255, .register 0, .constant 1]⟩⟩,
        ⟨6, ⟨.random, 7, [.register 255]⟩⟩, ⟨10, terminator⟩], none) ∧
    decode [9, 40, 1, 3, 4, 0, 4, 8, 0] =
      ([⟨0, ⟨.neg, 40, [.constant 3]⟩⟩], some (.unwired .mad 4 4)) ∧
    [Instruction.mk .neg 40 [.constant 3]].flatMap encode =
      [9, 40, 1, 3, 4, 0, 4, 8, 0].take 4 ∧
    utf8 " offset " ++ Text.ofNat 4 <:+ (DecodeError.unwired .mad 4 4).message := by
  have hdecode : decode [9, 40, 1, 3, 4, 0, 4, 8, 0] =
      ([⟨0, ⟨.neg, 40, [.constant 3]⟩⟩], some (.unwired .mad 4 4)) := by cbv
  rcases decode_encode_inverse.2 _ _ _ hdecode with ⟨_, _, rfl, rfl, _, hfront, _, herror⟩
  refine ⟨decode_encode_inverse.1 _ ?_ _, hdecode, hfront, (herror _ rfl).2⟩
  intro i hi
  simp only [List.mem_cons, List.not_mem_nil, or_false] at hi
  rcases hi with rfl | rfl
  · exact ⟨3, by decide⟩
  · exact ⟨1, by decide⟩

end Instruction
end VectorMachine
