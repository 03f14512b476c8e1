import VectorMachine.Proofs.WriteSet

/-!
# The path of a run through the code

A run starts at the first byte of its code and goes on behind every instruction that it carries
out.  Under the legacy policy it also goes on three bytes behind an opcode with a descriptor
that there is no kernel call for.  The lanes that it may change are those of the arrays behind
the destinations on this path.
-/

namespace VectorMachine

namespace Chunk

/-!
## Fetching
-/

/-- An opcode with a kernel, a destination, and a descriptor without a kernel call. -/
def Unwired (code : Bytes) : Prop :=
  exists op dst descriptor rest kernel, code = op :: dst :: descriptor :: rest ∧
    (Opcode.ofByte op).kernel? = some kernel ∧ dst.toNat < Slot.count ∧
      Operand.wired kernel.arity descriptor = false

variable {f : Frame} {offset : Nat}

theorem tail_of_fetch {code : UInt8} {rest : Bytes} {fetched : Fetched} {kernel : Kernel}
    (hop : Opcode.ofByte code ≠ .done) (hkernel : (Opcode.ofByte code).kernel? = some kernel)
    (h : fetch f offset code rest = .ok fetched) :
    exists dst descriptor operands, rest = dst :: descriptor :: operands ∧
      dst.toNat < Slot.count := by
  have hlength : ¬rest.length < 2 := by
    intro hshort
    rcases fetch_short hop hkernel offset hshort with ⟨index, length, hfault⟩
    rw [hfault] at h
    cases h
  match rest, hlength with
  | [], hlength => exact absurd (by decide) hlength
  | [dst], hlength => exact absurd (by simp) hlength
  | dst :: descriptor :: operands, _ =>
      refine ⟨dst, descriptor, operands, rfl, ?_⟩
      by_contra hdst
      rw [fetch_bad_destination hop hkernel offset _ hdst] at h
      cases h

theorem fetch_cases {code : UInt8} {rest : Bytes} {fetched : Fetched}
    (h : fetch f offset code rest = .ok fetched) :
    fetched = .halt ∨
    (exists i kernel, i.Calls kernel ∧ i.encode <+: code :: rest ∧
      (i.dst.toNat < Slot.count ∧ forall o, o ∈ i.sources -> InRange f o) ∧
      fetched = .call (callOf kernel i)) ∨
    (f.policy = .legacy ∧ Unwired (code :: rest) ∧ exists op, fetched = .skip op) := by
  by_cases hop : Opcode.ofByte code = .done
  · rw [fetch_done offset rest hop] at h
    cases h
    exact Or.inl rfl
  cases hkernel : (Opcode.ofByte code).kernel? with
  | none =>
      rw [fetch_unknown offset rest hop hkernel] at h
      cases h
  | some kernel =>
      right
      rcases tail_of_fetch hop hkernel h with ⟨dst, descriptor, operands, rfl, hdst⟩
      cases hwired : Operand.wired kernel.arity descriptor with
      | true =>
          left
          -- a missing operand or one out of range would have been a fault
          have hrange : kernel.arity ≤ operands.length ∧
              forall o,
                o ∈ (decoded (Opcode.ofByte code) kernel dst descriptor operands).sources ->
                  InRange f o := by
            by_contra hnot
            rw [not_and_or, Nat.not_le] at hnot
            push Not at hnot
            rcases fetch_not_inRange hop hkernel offset hwired (fun _ => hnot)
              with ⟨index, length, hfault⟩
            rw [hfault] at h
            cases h
          rcases hrange with ⟨hlength, hrange⟩
          rw [fetch_inRange rfl hkernel hwired hlength offset hdst hrange] at h
          cases h
          rcases Instruction.calls_decoded dst hkernel hwired hlength with ⟨hcalls, hencode⟩
          refine ⟨_, kernel, hcalls, ?_, ⟨hdst, hrange⟩, rfl⟩
          rw [hencode]
          exact ⟨operands.drop kernel.arity, by simp⟩
      | false =>
          right
          cases hpolicy : f.policy with
          | strict =>
              rw [fetch_unwired hop hkernel offset operands hdst hwired hpolicy] at h
              cases h
          | legacy =>
              have hunwired : Unwired (code :: dst :: descriptor :: operands) :=
                ⟨code, dst, descriptor, operands, kernel, rfl, hkernel, hdst, hwired⟩
              rw [fetch_kernel hop hkernel] at h
              simp only [byte, List.getElem?_cons_zero, List.getElem?_cons_succ, ok_bind,
                slot_of_lt offset hdst, hwired, hpolicy] at h
              cases h
              exact ⟨rfl, hunwired, _, rfl⟩

/-!
## The path
-/

inductive Dispatched (f : Frame) (code : Bytes) : Nat -> Prop where
  | start : Dispatched f code 0
  | behind {offset : Nat} {i : Instruction} {kernel : Kernel}
      (before : Dispatched f code offset) (calls : i.Calls kernel)
      (encoded : i.encode <+: code.drop offset)
      (executable : Executable f i) : Dispatched f code (offset + i.size)
  | skipped {offset : Nat} (before : Dispatched f code offset) (policy : f.policy = .legacy)
      (unwired : Unwired (code.drop offset)) : Dispatched f code (offset + 3)

/-- The slot is the destination of an instruction on the path that can be carried out, with a
descriptor that there is a kernel call for. -/
def Targets (f : Frame) (code : Bytes) (s : Slot) : Prop :=
  exists offset i kernel, Dispatched f code offset ∧ i.encode <+: code.drop offset ∧
    Instruction.Calls i kernel ∧ Executable f i ∧ i.dst = s

theorem drop_of_drop_eq_cons {code rest : Bytes} {b : UInt8} (h : code.drop offset = b :: rest)
    (count : Nat) : rest.drop count = code.drop (offset + 1 + count) := by
  rw [← List.drop_drop, ← List.drop_drop, h]
  rfl

/-- The calls in the plan of the rest of the code are on the path of the whole. -/
theorem Dispatched.targets_of_mem_plan {code : Bytes} (hdispatched : Dispatched f code offset)
    {c : Call} (h : .call c ∈ (plan f offset (code.drop offset)).1) : Targets f code c.dst := by
  -- the plan walks down the rest of the code, which is always the whole from the offset on
  generalize hrest : code.drop offset = rest at h
  fun_induction plan f offset rest with
  | case1 => cases h
  | case2 => cases h
  | case3 => cases h
  | case4 offset b rest op hfetch steps fault? hplan ih =>
      rw [hplan] at ih
      have hmore : .call c ∈ steps := by simpa using h
      rcases fetch_cases hfetch with hhalt | ⟨_, _, _, _, _, hcall⟩ | ⟨hpolicy, hunwired, _⟩
      · cases hhalt
      · cases hcall
      · exact ih (hdispatched.skipped hpolicy (hrest ▸ hunwired))
          (drop_of_drop_eq_cons hrest 2).symm hmore
  | case5 offset b rest c' hfetch hready steps fault? hplan ih =>
      rw [hplan] at ih
      rcases fetch_cases hfetch with hhalt | ⟨i, kernel, hcalls, hencode, hrange, hcall⟩ |
        ⟨_, _, _, hskip⟩
      · cases hhalt
      · cases hcall
        have hexecutable : Executable f i := executable_iff.mpr ⟨hrange, hready⟩
        rw [← hrest] at hencode
        rcases List.mem_cons.mp h with hhead | htail
        · cases hhead
          exact ⟨offset, i, kernel, hdispatched, hencode, hcalls, hexecutable, rfl⟩
        · have hnext := hdispatched.behind hcalls hencode hexecutable
          have hoffset : offset + i.size = offset + 3 + (callOf kernel i).sources.length := by
            rw [hcalls.size_eq, ← Nat.add_assoc]
            exact congrArg (offset + 3 + ·) hcalls.arity.symm
          rw [hoffset] at hnext
          refine ih hnext ?_ htail
          rw [drop_of_drop_eq_cons hrest]
          congr 1
          omega
      · cases hskip
  | case6 => cases h

end Chunk

/-!
## The arrays of a run
-/

namespace Window

theorem Disjoint.symm {w v : Window} (h : w.Disjoint v) : v.Disjoint w :=
  fun i j hi hj hcell => h j i hj hi hcell.symm

theorem disjoint_of_end_le {w v : Window} (h : w.start + w.size ≤ v.start) : w.Disjoint v := by
  intro j k hj hk hcell
  injection hcell with _ hlane
  omega

theorem disjoint_of_pairwise {arrays : List Window} (h : arrays.Pairwise Disjoint) {j k : Nat}
    (hne : j ≠ k) {w v : Window} (hw : arrays[j]? = some w) (hv : arrays[k]? = some v) :
    w.Disjoint v := by
  rcases List.getElem?_eq_some_iff.mp hw with ⟨hj, rfl⟩
  rcases List.getElem?_eq_some_iff.mp hv with ⟨hk, rfl⟩
  rcases Nat.lt_or_gt_of_ne hne with hlt | hgt
  · exact List.pairwise_iff_getElem.mp h j k hj hk hlt
  · exact (List.pairwise_iff_getElem.mp h k j hk hj hgt).symm

end Window

namespace Invocation

theorem disjoint_of_array? {i : Invocation} (h : i.arrays.Pairwise Window.Disjoint) {s t : Slot}
    (hne : s ≠ t) (hs : Slot.firstInput ≤ s.toNat) (ht : Slot.firstInput ≤ t.toNat)
    {w v : Window} (hw : i.array? s = some w) (hv : i.array? t = some v) : w.Disjoint v := by
  rcases List.pairwise_append.mp h with ⟨hinputs, houtputs, hacross⟩
  have hne : s.toNat ≠ t.toNat := fun heq => hne (UInt8.toNat_inj.mp heq)
  unfold array? at hw hv
  split at hw <;> split at hv
  · exact Window.disjoint_of_pairwise hinputs (by omega) hw hv
  · exact hacross w (List.mem_of_getElem? hw) v (List.mem_of_getElem? hv)
  · exact (hacross v (List.mem_of_getElem? hv) w (List.mem_of_getElem? hw)).symm
  · exact Window.disjoint_of_pairwise houtputs (by omega) hw hv

end Invocation

namespace Machine

def Targets (m : Machine) (i : Invocation) (s : Slot) : Prop :=
  Chunk.Targets (m.frame i 0 0 0) i.code s

variable {m : Machine} {i : Invocation}

theorem targets_of_writes {d : Cell} (h : m.Writes i d) :
    exists s w lane, m.Targets i s ∧ Slot.firstInput ≤ s.toNat ∧ i.array? s = some w ∧
      lane < i.laneCount ∧ w.cell lane = d := by
  rcases h with ⟨c, w, lane, hc, hslot, hw, hlane, hcell⟩
  exact ⟨c.dst, w, lane, Chunk.Dispatched.start.targets_of_mem_plan hc, hslot, hw, hlane, hcell⟩

/-- However a run ends, it changes a lane of an array only if it was asked for that lane and the
slot of the array is a destination on its path.  Lanes outside the arrays, such as those of a
table of constants, are as they were, and so is everything if the arguments do not fit. -/
theorem exec_write_set (m : Machine) {i : Invocation}
    (hapart : i.arrays.Pairwise Window.Disjoint)
    (watch : Watch) (store : Store) (statistics : Statistics) :
    (forall (s : Slot) (w : Window) (lane : Nat), Slot.firstInput ≤ s.toNat ->
      i.array? s = some w -> lane < w.size ->
      (m.exec i watch store statistics).store.get? (w.cell lane) ≠ store.get? (w.cell lane) ->
        lane < i.laneCount ∧ m.Targets i s) ∧
    (forall table : Window, (forall w, w ∈ i.arrays -> table.Disjoint w) ->
      forall lane, lane < table.size ->
        (m.exec i watch store statistics).store.get? (table.cell lane) =
          store.get? (table.cell lane)) ∧
    (forall e, i.shapeError? = some e ->
      m.exec i watch store statistics = ⟨store, statistics, .error e⟩) := by
  refine ⟨?_, ?_, ?_⟩
  · intro s w lane hslot hw hlane hchanged
    by_contra hnot
    refine hchanged (exec_get?_of_not_writes (fun hshape hwrites => hnot ?_) _ _ _)
    rcases targets_of_writes hwrites with ⟨t, v, other, htargets, htslot, hv, hother, hcell⟩
    by_cases hst : s = t
    · subst hst
      rw [hw] at hv
      cases hv
      rw [← Window.cell_inj hcell]
      exact ⟨hother, htargets⟩
    · have hsize := Invocation.laneCount_le_size hshape (Invocation.mem_arrays_of_array? hv)
      have hdisjoint := Invocation.disjoint_of_array? hapart hst hslot htslot hw hv
      exact absurd hcell.symm (hdisjoint lane other hlane (Nat.lt_of_lt_of_le hother hsize))
  · intro table htable lane hlane
    apply exec_get?_of_not_writes
    intro hshape hwrites
    rcases targets_of_writes hwrites with ⟨_, v, other, _, _, hv, hother, hcell⟩
    have hmem := Invocation.mem_arrays_of_array? hv
    have hsize := Invocation.laneCount_le_size hshape hmem
    exact htable v hmem lane other hlane (Nat.lt_of_lt_of_le hother hsize) hcell.symm
  · intro e he
    unfold exec
    rw [he]

/-- A negation, one into the input that is passed over for its descriptor, and an opcode without
a kernel, on one of the two lanes that there are. -/
def halfWritten : Invocation where
  code := [9, 40, 0, 8, 9, 8, 2, 33]
  constants := [Vec4.splat 5]
  inputs := [⟨0, 0, 2⟩]
  outputs := [⟨0, 2, 2⟩]
  lanes := 1

def halfStore : Store :=
  ⟨#[#[Vec4.splat 1, Vec4.splat 2, Vec4.zero, Vec4.zero, Vec4.splat 5]]⟩

theorem exec_write_set_half :
    (({} : Machine).exec halfWritten .always halfStore {}).result =
      .error (.chunk 0 (.unknownOpcode 33 7)) ∧
    (({} : Machine).exec halfWritten .always halfStore {}).store.get? ⟨0, 2⟩ ≠
      halfStore.get? ⟨0, 2⟩ ∧
    ({} : Machine).Targets halfWritten (Slot.output 0) ∧
    (({} : Machine).exec halfWritten .always halfStore {}).store.get? ⟨0, 3⟩ =
      halfStore.get? ⟨0, 3⟩ ∧
    (({} : Machine).exec halfWritten .always halfStore {}).store.get? ⟨0, 4⟩ =
      halfStore.get? ⟨0, 4⟩ := by
  have hresult : (({} : Machine).exec halfWritten .always halfStore {}).result =
      .error (.chunk 0 (.unknownOpcode 33 7)) := by decide +kernel
  have hchanged : (({} : Machine).exec halfWritten .always halfStore {}).store.get? ⟨0, 2⟩ ≠
      halfStore.get? ⟨0, 2⟩ := by decide +kernel
  have hapart : halfWritten.arrays.Pairwise Window.Disjoint :=
    List.pairwise_pair.mpr (Window.disjoint_of_end_le (by decide))
  rcases exec_write_set {} hapart .always halfStore {} with ⟨hlanes, htable, _⟩
  have houtput : halfWritten.array? (Slot.output 0) = some ⟨0, 2, 2⟩ := by decide
  refine ⟨hresult, hchanged, (hlanes _ _ 0 (by decide) houtput (by decide) hchanged).2, ?_, ?_⟩
  · by_contra hsecond
    have hlane := (hlanes _ _ 1 (by decide) houtput (by decide) hsecond).1
    exact absurd hlane (by decide)
  · refine htable ⟨0, 4, 1⟩
      (fun w hw => (Window.disjoint_of_end_le (v := ⟨0, 4, 1⟩) ?_).symm) 0 (by decide)
    have hends : forall w, w ∈ halfWritten.arrays -> w.start + w.size ≤ 4 := by decide
    exact hends w hw

end Machine
end VectorMachine
