import VectorMachine.Proofs.AssembledListing

/-!
# What a run writes

A run writes to the lanes of the arrays behind the destinations of its plan, whether
it succeeds, fails or is stopped.  For an assembled program these are the
destinations that its source names up to the first terminator.
-/

namespace VectorMachine

/-!
## Runs
-/

namespace Invocation

/-- Where the lanes cannot be rounded up in 64 bits, there are no chunks. -/
theorem chunkCount_eq_zero {i : Invocation} (hlanes : 0 ≤ i.lanes.toInt) (h : ¬i.Countable) :
    i.chunkCount.toInt.toNat = 0 := by
  have hlow : 2 ^ 63 - 128 < i.lanes.toInt := not_le.mp fun hle => h ⟨hlanes, hle⟩
  have hhigh : i.lanes.toInt < 2 ^ 63 := i.lanes.toInt_lt
  have hsum : (i.lanes + 127).toInt = -(2 ^ 64 - 127 - i.lanes.toInt) := by
    rw [Int64.toInt_add]
    show (i.lanes.toInt + 127).bmod (2 ^ 64) = _
    rw [← Int.sub_bmod_right]
    exact (Int.bmod_eq_of_le (by omega) (by omega)).trans (by omega)
  unfold chunkCount
  rw [Int64.toInt_div_of_ne_right _ _ (by decide), hsum, Int.neg_tdiv]
  have hnonneg : 0 ≤ (2 ^ 64 - 127 - i.lanes.toInt).tdiv 128 :=
    Int.tdiv_nonneg (by omega) (by decide)
  exact Int.toNat_of_nonpos (Int.neg_nonpos_of_nonneg hnonneg)

/-- A chunk that is visited starts within the lanes, and these can be counted. -/
theorem countable_of_chunk {i : Invocation} (hlanes : 0 ≤ i.lanes.toInt) {chunk : Nat}
    (hchunk : chunk < i.chunkCount.toInt.toNat) :
    i.Countable ∧ chunk * Chunk.size ≤ i.laneCount := by
  by_cases hcountable : i.Countable
  · rw [chunkCount_eq hcountable] at hchunk
    unfold Chunk.size
    exact ⟨hcountable, by omega⟩
  · rw [chunkCount_eq_zero hlanes hcountable] at hchunk
    cases hchunk

theorem chunk_end_le {i : Invocation} (hlanes : 0 ≤ i.lanes.toInt) {chunk : Nat}
    (hchunk : chunk < i.chunkCount.toInt.toNat) :
    chunk * Chunk.size + Machine.chunkLanes i.lanes chunk ≤ i.laneCount := by
  rcases countable_of_chunk hlanes hchunk with ⟨hcountable, hstart⟩
  rw [chunkLanes_eq hcountable hstart]
  exact span_end hstart

theorem fits_of_chunk {i : Invocation} (hshape : i.shapeError? = none) {chunk : Nat}
    (hchunk : chunk < i.chunkCount.toInt.toNat) :
    i.Fits chunk (Machine.chunkLanes i.lanes chunk) := by
  rcases countable_of_chunk ((shapeError?_eq_none_iff i).mp hshape).1 hchunk with
    ⟨hcountable, hstart⟩
  rw [chunkLanes_eq hcountable hstart]
  exact fits_of_shape hshape hstart

end Invocation

namespace Machine

def Writes (m : Machine) (i : Invocation) (d : Cell) : Prop :=
  exists c w lane, .call c ∈ (m.plan i).1 ∧ Slot.tempCount ≤ c.dst.toNat ∧
    i.array? c.dst = some w ∧ lane < i.laneCount ∧ w.cell lane = d

section Writes

variable {m : Machine} {i : Invocation} {d : Cell}

/-- A run leaves every other cell alone, and all of them if its arguments do not fit. -/
theorem exec_get?_of_not_writes (h : i.shapeError? = none -> ¬m.Writes i d) (watch : Watch)
    (store : Store) (statistics : Statistics) :
    (m.exec i watch store statistics).store.get? d = store.get? d := by
  apply @exec_keeps m i (fun after => after.get? d = store.get? d)
  · intro hshape k after hk hafter
    rw [← hafter]
    apply runChunk_get?_of_unwritten
    intro c hc w hslot hw lane _ hlane hcell
    have hend := Invocation.chunk_end_le ((Invocation.shapeError?_eq_none_iff i).mp hshape).1 hk
    exact h hshape ⟨c, w, lane, hc, hslot, hw, Nat.lt_of_lt_of_le hlane hend, hcell⟩
  · rfl

end Writes

end Machine

/-!
## Assembled programs
-/

namespace Chunk

open Instruction (ends)

theorem mem_upTo_of_mem_plan {f : Frame} {insts : List Instruction}
    (hinsts : forall i, i ∈ insts -> i.Decodable ∧ i.Names f.constants.length)
    (hends : insts.any ends = true) {offset : Nat} {rest : Bytes} {c : Call}
    (hc : .call c ∈ (plan f offset (insts.flatMap Instruction.encode ++ rest)).1) :
    exists i, i ∈ upTo ends insts ∧ i.ends = false ∧ c.dst = i.dst := by
  induction insts generalizing offset with
  | nil => cases hends
  | cons i insts ih =>
      rcases hinsts i List.mem_cons_self with ⟨rfl | ⟨kernel, hcalls⟩, hdst, hsources⟩
      · rw [List.flatMap_cons, List.append_assoc, plan_terminator] at hc
        cases hc
      · have hrange : forall o, o ∈ i.sources -> InRange f o := by
          intro o ho
          have hnamed := hsources o ho
          cases o with
          | register s => exact hnamed
          | constant index => exact hnamed
        rw [List.flatMap_cons, List.append_assoc,
          plan_encode_eq hcalls.kernel_eq hcalls.arity hcalls.wired hdst hrange] at hc
        rw [List.any_cons, hcalls.ends_eq_false, Bool.false_or] at hends
        rw [upTo_cons hcalls.ends_eq_false]
        split at hc
        · rcases List.mem_cons.mp hc with hhead | htail
          · cases hhead
            exact ⟨i, List.mem_cons_self, hcalls.ends_eq_false, rfl⟩
          · rcases ih (fun j hj => hinsts j (List.mem_cons_of_mem i hj)) hends htail
              with ⟨j, hj, hdst⟩
            exact ⟨j, List.mem_cons_of_mem i hj, hdst⟩
        · cases hc

end Chunk

namespace Assembly

open Listing (listed)

def SourceInstruction.inputWritten? (s : SourceInstruction) : Option Nat :=
  s.operands.head?.bind (·.indexIn .input)

/-- The destination of a line is an output or an input, if it is no temporary. -/
theorem array_of_assembled {defined : List Definition} {s : SourceInstruction} {i : Instruction}
    (h : assembleInstruction defined s = .ok i) (hends : i.ends = false) {call : Invocation}
    {w : Window} (hslot : Slot.tempCount ≤ i.dst.toNat) (hw : call.array? i.dst = some w) :
    w ∈ call.outputs ∨ exists n, s.inputWritten? = some n ∧ call.inputs[n]? = some w := by
  rcases assembleInstruction_eq_ok h with
    rfl | ⟨kernel, first, others, _, _, hoperands, _, hfirst, _⟩
  · cases hends
  · rcases resolve_eq_ok hfirst with ⟨bank, index, text, rfl, hdst, hknown⟩
    cases bank with
    | temp =>
        injection hdst with hdst
        rw [hdst, Slot.toNat_temp hknown] at hslot
        exact absurd hknown (Nat.not_lt.mpr hslot)
    | input =>
        injection hdst with hdst
        rw [hdst, Invocation.array?_input call hknown] at hw
        refine Or.inr ⟨index, ?_, hw⟩
        unfold SourceInstruction.inputWritten?
        rw [hoperands]
        rfl
    | output =>
        injection hdst with hdst
        rw [hdst, Invocation.array?_output call hknown] at hw
        exact Or.inl (List.mem_of_getElem? hw)
    | constant => cases hdst

/-- What an assembled program writes is a lane of an output, or of an input that is a
destination in front of the first terminator. -/
theorem array_of_writes {source : Source} {p : Program} (h : assembleSource source = .ok p)
    {m : Machine} {inputs outputs : List Window} {lanes : Int64} {d : Cell}
    (hd : m.Writes (p.on inputs outputs lanes) d) :
    exists w lane, lane < (p.on inputs outputs lanes).laneCount ∧ w.cell lane = d ∧
      (w ∈ outputs ∨ exists s n, s ∈ (listed source).instructions ∧
        s.inputWritten? = some n ∧ inputs[n]? = some w) := by
  rcases assembleSource_eq_ok_iff.mp h with ⟨defined, insts, hdefined, hassembled, hp⟩
  rcases hd with ⟨c, w, lane, hc, hslot, hw, hlane, hcell⟩
  have hcode : (p.on inputs outputs lanes).code =
      (closed insts).flatMap Instruction.encode ++ [] := by
    rw [hp, List.append_nil, ← codeOf_eq]
    rfl
  have htable : (m.frame (p.on inputs outputs lanes) 0 0 0).constants =
      (tableOf defined).getD [] := by
    rw [hp]
    rfl
  have hinsts := closed_of_assembled (index_lt_of_defineAll hdefined) hassembled
  rw [← htable] at hinsts
  unfold Machine.plan at hc
  rw [hcode] at hc
  rcases Chunk.mem_upTo_of_mem_plan hinsts (any_ends_closed insts) hc with ⟨i, hi, hends, hdst⟩
  -- a terminator that the source does not have calls nothing
  have hi : i ∈ upTo Instruction.ends insts := by
    rw [upTo_closed] at hi
    split at hi
    · exact hi
    next hnone =>
      rw [upTo_eq_of_not_any (Bool.not_eq_true _ ▸ hnone)]
      rcases List.mem_append.mp hi with hi | hi
      · exact hi
      · rw [List.mem_singleton.mp hi] at hends
        cases hends
  rcases exists_of_mem_right (Listing.forall₂_listed hassembled) hi with ⟨s, hs, hassemble⟩
  rw [hdst] at hslot hw
  refine ⟨w, lane, hlane, hcell, ?_⟩
  rcases array_of_assembled hassemble hends hslot hw with houtput | ⟨n, hn, hinput⟩
  · exact Or.inl houtput
  · exact Or.inr ⟨s, n, hs, hn, hinput⟩

/-- A run of an assembled program, whether it succeeds or not, leaves an input as it
was, if no line up to the first terminator has an input as its destination that shares
lanes with it. -/
theorem exec_keeps_input {text : Text} {source : Source} {p : Program}
    (hread : Source.read text = .ok source) (h : assemble text = .ok p) (m : Machine)
    {inputs outputs : List Window}
    (hapart : forall w v, w ∈ inputs -> v ∈ outputs -> w.Disjoint v) (lanes : Int64)
    (watch : Watch) (store : Store) (statistics : Statistics) {w : Window} (hw : w ∈ inputs)
    (hkept : forall s n v, s ∈ (listed source).instructions -> s.inputWritten? = some n ->
      inputs[n]? = some v -> w.Disjoint v) {lane : Nat} (hlane : lane < w.size) :
    (m.exec (p.on inputs outputs lanes) watch store statistics).store.get? (w.cell lane) =
      store.get? (w.cell lane) := by
  unfold assemble at h
  rw [hread, ok_bind] at h
  apply Machine.exec_get?_of_not_writes
  intro hshape hwrites
  rcases array_of_writes h hwrites with ⟨v, other, hother, hcell, hv⟩
  have hdisjoint : w.Disjoint v := by
    rcases hv with hv | ⟨s, n, hs, hn, hv⟩
    · exact hapart w v hw hv
    · exact hkept s n v hs hn hv
  have hmem : v ∈ (p.on inputs outputs lanes).arrays := by
    rcases hv with hv | ⟨s, n, _, _, hv⟩
    · exact List.mem_append_right inputs hv
    · exact List.mem_append_left outputs (List.mem_of_getElem? hv)
  have hsize := ((Invocation.shapeError?_eq_none_iff _).mp hshape).2.2.2.2 v hmem
  have hother : other < v.size := by
    unfold Invocation.laneCount at hother
    omega
  exact hdisjoint lane other hlane hother hcell.symm

/-- The second input is overwritten, and the first one would be behind the terminator. -/
def sparing : Program where
  code := some [9, 9, 0, 8, 1, 40, 0, 9, 8, 0, 9, 8, 0, 9, 0]
  inputs := 2
  outputs := 1

theorem exec_keeps_input_sparing :
    assemble (utf8 "neg i1, i0\nadd o0, i1, i0\ndone\nneg i0, i1\n") = .ok sparing ∧
      forall lane, lane < 2 ->
        (({ } : Machine).exec (sparing.on [⟨0, 0, 2⟩, ⟨0, 2, 2⟩] [⟨1, 0, 2⟩] 2) .always
          ⟨#[Array.replicate 4 (Vec4.splat 1), Array.replicate 2 Vec4.zero]⟩ {}).store.get?
            (Window.cell ⟨0, 0, 2⟩ lane) =
          Store.get? ⟨#[Array.replicate 4 (Vec4.splat 1), Array.replicate 2 Vec4.zero]⟩
            (Window.cell ⟨0, 0, 2⟩ lane) := by
  have hassemble : assemble (utf8 "neg i1, i0\nadd o0, i1, i0\ndone\nneg i0, i1\n") =
      .ok sparing := by decide +kernel
  have hlines : (match Source.read (utf8 "neg i1, i0\nadd o0, i1, i0\ndone\nneg i0, i1\n") with
      | .ok source => (listed source).instructions.all (·.inputWritten? != some 0)
      | .error _ => false) = true := by decide +kernel
  cases hread : Source.read (utf8 "neg i1, i0\nadd o0, i1, i0\ndone\nneg i0, i1\n") with
  | error e =>
      rw [hread] at hlines
      cases hlines
  | ok source =>
      rw [hread] at hlines
      refine ⟨hassemble, fun lane hlane => exec_keeps_input hread hassemble _ ?_ _ _ _ _
        (List.mem_cons_self) ?_ hlane⟩
      · intro w v hw hv i j _ _ hcell
        have hbuffers : forall w, w ∈ [Window.mk 0 0 2, Window.mk 0 2 2] -> w.buffer = 0 := by
          decide
        rw [List.mem_singleton.mp hv] at hcell
        injection hcell with hbuffer
        rw [hbuffers w hw] at hbuffer
        cases hbuffer
      · intro s n v hs hn hv i j hi hj hcell
        have hfirst : s.inputWritten? ≠ some 0 := by
          simpa using List.all_eq_true.mp hlines s hs
        rw [hn] at hfirst
        rcases n with _ | _ | n
        · exact hfirst rfl
        · cases hv
          injection hcell with _ hcells
          have hi : i < 2 := hi
          have hcells : 0 + i = 2 + j := hcells
          omega
        · cases hv

def negated : Program where
  code := some [9, 8, 0, 8, 0]
  inputs := 1

theorem exec_overwrites_input :
    assemble (utf8 "neg i0, i0\n") = .ok negated ∧
      (({ } : Machine).exec (negated.on [⟨0, 0, 1⟩] [] 1) .always
        ⟨#[#[Vec4.splat 1]]⟩ {}).result = .ok () ∧
      (({ } : Machine).exec (negated.on [⟨0, 0, 1⟩] [] 1) .always
        ⟨#[#[Vec4.splat 1]]⟩ {}).store.get? ⟨0, 0⟩ ≠ some (Vec4.splat 1) := by
  have hassemble : assemble (utf8 "neg i0, i0\n") = .ok negated := by decide +kernel
  refine ⟨hassemble, ?_, ?_⟩
  · decide +kernel
  · decide +kernel

end Assembly
end VectorMachine
