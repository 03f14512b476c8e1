import VectorMachine.Instruction.Decode
import VectorMachine.Proofs.DecodedCode
import VectorMachine.Proofs.Executable

/-!
# Decoded code and running code

Decoding walks over code by arities and descriptors, running it by what each
instruction fetches.  Both come upon the same instructions at the same offsets:
where decoding succeeds, a run carries out what was decoded, one instruction
after another, and where decoding stops, so does a strict run that gets there.
-/

namespace VectorMachine

/-!
## Kinds of failure
-/

/-- The kinds of failure that decoding and running have in common. -/
inductive FaultKind where
  | malformed
  | unknownOpcode
  | unwired
deriving DecidableEq

namespace Fault

def kind : Fault -> FaultKind
  | outOfRange _ _ _ => .malformed
  | unknownOpcode _ _ => .unknownOpcode
  | unwired _ _ _ => .unwired

def offset : Fault -> Nat
  | outOfRange _ _ o => o
  | unknownOpcode _ o => o
  | unwired _ _ o => o

end Fault

def DecodeError.kind : DecodeError -> FaultKind
  | missingTerminator _ => .malformed
  | unknownOpcode _ _ => .unknownOpcode
  | truncated _ _ => .malformed
  | unwired _ _ _ => .unwired
  | truncatedOperands _ _ => .malformed

namespace Chunk

/-!
## Frames without overlaps
-/

/-- A chunk of up to 128 lanes in which every register that is bound is an array
of its own with enough lanes. -/
structure Frame.WellBound (f : Frame) (store : Store) : Prop where
  one_le_lanes : 1 ≤ f.lanes
  lanes_le_size : f.lanes ≤ size
  enough : forall s w, f.windows s = some w -> f.lanes ≤ w.size
  inside : forall s w, f.windows s = some w -> w.Inside store
  apart : forall s t w v,
    f.windows s = some w -> f.windows t = some v -> s ≠ t -> w.Disjoint v

namespace Frame.WellBound

variable {f : Frame} {store : Store} (h : f.WellBound store)
include h

theorem laneLocal : f.LaneLocal := by
  intro s t w v i j hs ht hi hj hcell
  by_cases hst : s = t
  · subst hst
    rw [hs] at ht
    cases ht
    exact Window.cell_inj hcell
  · have hi : i < w.size := Nat.lt_of_lt_of_le hi (h.enough s w hs)
    have hj : j < v.size := Nat.lt_of_lt_of_le hj (h.enough t v ht)
    exact absurd hcell (h.apart s t w v hs ht hst i j hi hj)

theorem backed : f.Backed store := by
  intro s w lane hs hlane
  exact (h.inside s w hs).has (Nat.lt_of_lt_of_le hlane (h.enough s w hs))

end Frame.WellBound

/-!
## Carrying out decoded instructions
-/

/-- What an operand holds in a lane: the lane of a register, or a constant. -/
def operand? (f : Frame) (store : Store) (lane : Nat) : Operand -> Option Vec4
  | .register s => (f.windows s).bind fun w => store.get? (w.cell lane)
  | .constant index => f.constants[index.toNat]?

/-- An instruction with the given kernel and destination takes one state to
another: every lane of the destination becomes the kernel of the operands from
left to right, and nothing else changes.  A kernel that draws takes the next
vectors of the stream, lane by lane. -/
structure Carries (f : Frame) (i : Instruction) (kernel : Kernel) (w : Window)
    (s t : State) : Prop where
  arity : i.sources.length = kernel.arity
  result : forall lane, lane < f.lanes ->
    exists operands, i.sources.mapM (operand? f s.store lane) = some operands ∧
      t.store.get? (w.cell lane) = some (kernel.eval (s.generator.vector lane) operands)
  others : forall d, (forall lane, lane < f.lanes -> w.cell lane ≠ d) ->
    t.store.get? d = s.store.get? d
  generator : t.generator = if kernel.draws then s.generator.after f.lanes else s.generator
  dispatched : t.dispatched = i.op :: s.dispatched

/-- A run over instructions: each of them is carried out, up to the first that
cannot be, where the run fails at its offset and leaves the state as it is. -/
inductive Executes (f : Frame) : State -> List Placed -> State -> Option Fault -> Prop where
  | done (s : State) : Executes f s [] s none
  | fail (s : State) (p : Placed) (rest : List Placed) (index length : Nat) :
      ¬Executable f p.instruction ->
      Executes f s (p :: rest) s (some (.outOfRange index length p.offset))
  | step {s t u : State} {p : Placed} {rest : List Placed} {fault? : Option Fault}
      {kernel : Kernel} {w : Window} :
      Executable f p.instruction ->
      p.instruction.op.kernel? = some kernel ->
      f.windows p.instruction.dst = some w ->
      Carries f p.instruction kernel w s t ->
      Executes f t rest u fault? ->
      Executes f s (p :: rest) u fault?

section Reachable

variable {f : Frame}

theorem operand?_eq_some_value {store : Store} {lane : Nat} (hbacked : f.Backed store)
    (hlane : lane < f.lanes) {o : Operand} (h : Reachable f o) :
    operand? f store lane o = some (value f store lane o) := by
  cases o with
  | register s =>
      rcases Option.isSome_iff_exists.mp h.2 with ⟨w, hw⟩
      simp only [operand?, value, hw, Option.bind_some]
      exact Store.get?_eq_some_get (hbacked hw hlane)
  | constant index =>
      have hlt : index.toNat < f.constants.length := h
      simp [operand?, value, List.getElem?_eq_getElem hlt]

theorem mapM_operand?_eq_some {store : Store} {lane : Nat} (hbacked : f.Backed store)
    (hlane : lane < f.lanes) {sources : List Operand}
    (h : forall o, o ∈ sources -> Reachable f o) :
    sources.mapM (operand? f store lane) = some (sources.map (value f store lane)) := by
  induction sources with
  | nil => rfl
  | cons o sources ih =>
      rw [List.mapM_cons, operand?_eq_some_value hbacked hlane (h o List.mem_cons_self),
        ih fun o ho => h o (List.mem_cons_of_mem _ ho)]
      rfl

end Reachable

/-!
## One instruction
-/

section Instruction

variable {f : Frame} {code dst descriptor : UInt8} {operands : Bytes} {kernel : Kernel}
  (hkernel : (Opcode.ofByte code).kernel? = some kernel)
  (hwired : Operand.wired kernel.arity descriptor = true)
  (hlength : kernel.arity ≤ operands.length)

theorem carries_perform {i : Instruction} {w : Window} {s : State} (hlocal : f.LaneLocal)
    (hbacked : f.Backed s.store) (harity : i.sources.length = kernel.arity)
    (hdst : f.windows i.dst = some w) (h : Executable f i) :
    Carries f i kernel w s (((callOf kernel i).perform f s).count i.op) where
  arity := harity
  result := by
    intro lane hlane
    refine ⟨_, mapM_operand?_eq_some hbacked hlane h.2, ?_⟩
    exact Call.perform_get?_dst (c := callOf kernel i) hlocal hbacked hdst hlane
  others := by
    intro d hd
    apply Call.perform_get?_of_ne (c := callOf kernel i)
    intro v lane hv hlane
    have hvw : v = w := Option.some.inj (hv.symm.trans hdst)
    rw [hvw]
    exact hd lane hlane
  generator := Call.perform_generator (c := callOf kernel i) hdst
  dispatched := by
    show i.op :: ((callOf kernel i).perform f s).dispatched = i.op :: s.dispatched
    rw [Call.perform_dispatched]

include hkernel hwired hlength

theorem runFrom_executable (offset : Nat) (s : State)
    (h : Executable f (decoded (Opcode.ofByte code) kernel dst descriptor operands)) :
    runFrom f offset s (code :: dst :: descriptor :: operands) =
      runFrom f (offset + 3 + kernel.arity)
        (((callOf kernel (decoded (Opcode.ofByte code) kernel dst descriptor operands)).perform
          f s).count (Opcode.ofByte code))
        (operands.drop kernel.arity) := by
  have hcount :
      (callOf kernel
        (decoded (Opcode.ofByte code) kernel dst descriptor operands)).sources.length =
          kernel.arity :=
    @arity_decoded (Opcode.ofByte code) kernel dst descriptor operands hlength
  rw [runFrom, fetch_executable rfl hkernel hwired hlength offset h]
  simp only [runCall_eq, ready_of_executable h, if_true, hcount]
  rw [Nat.add_comm 2 kernel.arity]
  rfl

/-- An instruction that cannot be carried out fails at its offset, wherever on
the way from its destination to its last operand that comes out. -/
theorem runFrom_not_executable (offset : Nat) (s : State)
    (h : ¬Executable f (decoded (Opcode.ofByte code) kernel dst descriptor operands)) :
    exists index length,
      runFrom f offset s (code :: dst :: descriptor :: operands) =
        (s, some (.outOfRange index length offset)) := by
  by_cases hrange : dst.toNat < Slot.count ∧
      forall o, o ∈ Operand.ofBytes descriptor (operands.take kernel.arity) -> InRange f o
  · -- every number is in range, so that a register must be unbound
    have hready : (callOf kernel
        (decoded (Opcode.ofByte code) kernel dst descriptor operands)).ready f = false := by
      rw [Bool.eq_false_iff]
      intro hready
      exact h (executable_iff.mpr ⟨hrange, hready⟩)
    refine ⟨0, 0, ?_⟩
    rw [runFrom, fetch_inRange rfl hkernel hwired hlength offset hrange.1 hrange.2]
    simp only [runCall_eq, hready, if_neg Bool.false_ne_true]
  · have hbad : dst.toNat < Slot.count -> exists o,
        o ∈ Operand.ofBytes descriptor (operands.take kernel.arity) ∧ ¬InRange f o := by
      simpa using hrange
    rcases fetch_not_inRange (ne_done_of_kernel? hkernel) hkernel offset hwired
      fun hdst => Or.inr (hbad hdst) with ⟨index, length, hfetch⟩
    refine ⟨index, length, ?_⟩
    rw [runFrom, hfetch]

end Instruction

/-!
## Whole codes
-/

section Decode

variable {f : Frame} {s : State}

theorem executes_cons (hlocal : f.LaneLocal) (hbacked : f.Backed s.store) {kernel : Kernel}
    {p : Placed} {rest : List Placed} {t : State} {fault? : Option Fault}
    (hkernel : p.instruction.op.kernel? = some kernel)
    (harity : p.instruction.sources.length = kernel.arity) (hexec : Executable f p.instruction)
    (hrest : Executes f (((callOf kernel p.instruction).perform f s).count p.instruction.op)
      rest t fault?) :
    Executes f s (p :: rest) t fault? := by
  rcases Option.isSome_iff_exists.mp hexec.1.2 with ⟨w, hdst⟩
  exact Executes.step hexec hkernel hdst (carries_perform hlocal hbacked harity hdst hexec)
    hrest

theorem executes_of_decodeFrom (hlocal : f.LaneLocal) (hbacked : f.Backed s.store)
    {offset : Nat} {code : Bytes} {insts : List Placed}
    (h : Instruction.decodeFrom offset code = (insts, none)) :
    exists body o, insts = body ++ [⟨o, Instruction.terminator⟩] ∧
      Executes f s body (runFrom f offset s code).1 (runFrom f offset s code).2 := by
  fun_induction Instruction.decodeFrom offset code generalizing s insts with
  | case2 =>
      rename_i offset code rest op hop
      cases h
      refine ⟨[], offset, rfl, ?_⟩
      rw [runFrom, fetch_done offset rest hop]
      exact Executes.done s
  | case6 =>
      rename_i offset code op hop arity harity dst descriptor operands hwired hlength sources
        more error hmore ih
      rcases Opcode.exists_kernel_of_arity? hop harity with ⟨kernel, hkernel, rfl⟩
      cases h
      have hwired : Operand.wired kernel.arity descriptor = true := by simpa using hwired
      by_cases hexec :
          Executable f (decoded (Opcode.ofByte code) kernel dst descriptor operands)
      · rw [runFrom_executable hkernel hwired (Nat.not_lt.mp hlength) offset s hexec]
        rcases ih (Call.perform_backed _ hbacked) hmore with ⟨body, o, hbody, hrun⟩
        refine ⟨⟨offset, decoded (Opcode.ofByte code) kernel dst descriptor operands⟩ :: body,
          o, by rw [hbody]; rfl, ?_⟩
        exact executes_cons hlocal hbacked hkernel (arity_decoded (Nat.not_lt.mp hlength)) hexec
          hrun
      · rcases ih hbacked hmore with ⟨body, o, hbody, _⟩
        rcases runFrom_not_executable hkernel hwired (Nat.not_lt.mp hlength) offset s hexec
          with ⟨index, length, hrun⟩
        refine ⟨⟨offset, decoded (Opcode.ofByte code) kernel dst descriptor operands⟩ :: body,
          o, by rw [hbody]; rfl, ?_⟩
        rw [hrun]
        exact Executes.fail s _ body index length hexec
  | _ => cases h

/-!
## Where decoding stops
-/

/-- What a strict run reports where decoding stops.  A destination that is no
register comes out before the descriptor is looked at. -/
def strictKind (code : Bytes) (offset : Nat) (e : DecodeError) : FaultKind :=
  if e.kind = .unwired ∧
      (code[e.offset - offset + 1]?).any (fun dst => Slot.count ≤ dst.toNat) then
    .malformed
  else e.kind

theorem le_offset_of_decodeFrom {offset : Nat} {code : Bytes} {insts : List Placed}
    {e : DecodeError} (h : Instruction.decodeFrom offset code = (insts, some e)) :
    offset ≤ e.offset := by
  fun_induction Instruction.decodeFrom offset code generalizing insts with
  | case6 =>
      rename_i offset code op hop arity harity dst descriptor operands hwired hlength sources
        more error hmore ih
      cases h
      have := ih hmore
      omega
  | _ =>
      cases h
      try exact Nat.le_refl _

/-- An instruction in front moves the place of the error and its byte alike. -/
theorem strictKind_cons {code dst descriptor : UInt8} {operands : Bytes} {offset arity : Nat}
    {e : DecodeError} (hoffset : offset + 3 + arity ≤ e.offset) :
    strictKind (code :: dst :: descriptor :: operands) offset e =
      strictKind (operands.drop arity) (offset + 3 + arity) e := by
  have hindex : e.offset - offset + 1 =
      arity + (e.offset - (offset + 3 + arity) + 1) + 1 + 1 + 1 := by omega
  unfold strictKind
  rw [hindex]
  simp only [List.getElem?_cons_succ, List.getElem?_drop]

theorem runFrom_unwired {code dst descriptor : UInt8} {operands : Bytes} {kernel : Kernel}
    (hkernel : (Opcode.ofByte code).kernel? = some kernel)
    (hwired : Operand.wired kernel.arity descriptor = false) (hstrict : f.policy = .strict)
    (offset : Nat) (s : State) :
    exists fault,
      runFrom f offset s (code :: dst :: descriptor :: operands) = (s, some fault) ∧
        fault.offset = offset ∧
        fault.kind = strictKind (code :: dst :: descriptor :: operands) offset
          (.unwired (Opcode.ofByte code) descriptor offset) := by
  have hop : Opcode.ofByte code ≠ .done := ne_done_of_kernel? hkernel
  by_cases hdst : dst.toNat < Slot.count
  · refine ⟨.unwired (Opcode.ofByte code) descriptor offset, ?_, rfl, ?_⟩
    · rw [runFrom, fetch_unwired hop hkernel offset operands hdst hwired hstrict]
    · simp [strictKind, Fault.kind, DecodeError.kind, DecodeError.offset, hdst]
  · refine ⟨.outOfRange dst.toNat Slot.count offset, ?_, rfl, ?_⟩
    · rw [runFrom, fetch_bad_destination hop hkernel offset (descriptor :: operands) hdst]
    · simp [strictKind, Fault.kind, DecodeError.kind, DecodeError.offset, Nat.not_lt.mp hdst]

theorem executes_of_decodeFrom_error (hlocal : f.LaneLocal) (hbacked : f.Backed s.store)
    (hstrict : f.policy = .strict) {offset : Nat} {code : Bytes} {insts : List Placed}
    {e : DecodeError} (h : Instruction.decodeFrom offset code = (insts, some e))
    (hinsts : forall p, p ∈ insts -> Executable f p.instruction) :
    exists t fault, runFrom f offset s code = (t, some fault) ∧ Executes f s insts t none ∧
      fault.offset = e.offset ∧ fault.kind = strictKind code offset e := by
  fun_induction Instruction.decodeFrom offset code generalizing s insts with
  | case1 =>
      cases h
      exact ⟨s, _, by rw [runFrom], Executes.done s, rfl, rfl⟩
  | case2 => cases h
  | case3 =>
      rename_i offset code rest op hop harity
      cases h
      refine ⟨s, .unknownOpcode code offset, ?_, Executes.done s, rfl, rfl⟩
      rw [runFrom, fetch_unknown offset rest hop (Opcode.kernel?_of_arity?_eq_none harity)]
  | case4 =>
      rename_i offset code op hop arity harity dst descriptor operands hwired
      rcases Opcode.exists_kernel_of_arity? hop harity with ⟨kernel, hkernel, rfl⟩
      cases h
      have hwired : Operand.wired kernel.arity descriptor = false := by simpa using hwired
      rcases runFrom_unwired hkernel hwired hstrict offset s with ⟨fault, hrun, hoffset, hkind⟩
      exact ⟨s, fault, hrun, Executes.done s, hoffset, hkind⟩
  | case5 =>
      rename_i offset code op hop arity harity dst descriptor operands hwired hshort
      rcases Opcode.exists_kernel_of_arity? hop harity with ⟨kernel, hkernel, rfl⟩
      cases h
      have hwired : Operand.wired kernel.arity descriptor = true := by simpa using hwired
      have hfault : exists index length,
          fetch f offset code (dst :: descriptor :: operands) =
            .error (.outOfRange index length offset) :=
        fetch_not_inRange hop hkernel offset hwired fun _ => Or.inl hshort
      rcases hfault with ⟨index, length, hfetch⟩
      refine ⟨s, .outOfRange index length offset, ?_, Executes.done s, rfl, rfl⟩
      rw [runFrom, hfetch]
  | case6 =>
      rename_i offset code op hop arity harity dst descriptor operands hwired hlength sources
        more error hmore ih
      rcases Opcode.exists_kernel_of_arity? hop harity with ⟨kernel, hkernel, rfl⟩
      cases h
      have hwired : Operand.wired kernel.arity descriptor = true := by simpa using hwired
      have hexec : Executable f (decoded (Opcode.ofByte code) kernel dst descriptor operands) :=
        hinsts _ List.mem_cons_self
      rw [runFrom_executable hkernel hwired (Nat.not_lt.mp hlength) offset s hexec]
      rcases ih (Call.perform_backed _ hbacked) hmore
          (fun p hp => hinsts p (List.mem_cons_of_mem _ hp))
        with ⟨t, fault, hrun, hexecutes, hoffset, hkind⟩
      refine ⟨t, fault, hrun, ?_, hoffset, ?_⟩
      · exact executes_cons hlocal hbacked hkernel (arity_decoded (Nat.not_lt.mp hlength)) hexec
          hexecutes
      · rw [hkind, strictKind_cons (le_offset_of_decodeFrom hmore)]
  | case7 =>
      rename_i offset code rest op hop arity harity hrest
      rcases Opcode.exists_kernel_of_arity? hop harity with ⟨kernel, hkernel, rfl⟩
      cases h
      have hshort : rest.length < 2 := by
        rcases rest with _ | ⟨dst, _ | ⟨descriptor, operands⟩⟩
        · simp
        · simp
        · exact absurd rfl (hrest dst descriptor operands)
      rcases fetch_short (f := f) hop hkernel offset hshort with ⟨index, length, hfetch⟩
      refine ⟨s, .outOfRange index length offset, ?_, Executes.done s, rfl, rfl⟩
      rw [runFrom, hfetch]

end Decode

/-- A strict chunk of two lanes with one input, one output and one constant. -/
def pairFrame : Frame where
  policy := .strict
  codeLength := 9
  constants := [Vec4.splat 2]
  windows := fun s =>
    if s = 8 then some ⟨0, 0, 2⟩ else if s = 40 then some ⟨1, 0, 2⟩ else none
  lanes := 2

def pairState : State where
  store := ⟨#[#[Vec4.zero, Vec4.zero], #[Vec4.zero, Vec4.zero]]⟩
  generator := .cycle []

theorem wellBound_pairFrame : pairFrame.WellBound pairState.store where
  one_le_lanes := by decide
  lanes_le_size := by decide
  enough := by
    intro s w h
    simp only [pairFrame] at h
    split at h
    · cases h; decide
    · split at h
      · cases h; decide
      · cases h
  inside := by
    intro s w h
    simp only [pairFrame] at h
    split at h
    · cases h; decide
    · split at h
      · cases h; decide
      · cases h
  apart := by
    intro s t w v hs ht hst i j hi hj hcell
    simp only [pairFrame] at hs ht
    injection hcell with hbuffer
    grind

end Chunk
end VectorMachine
