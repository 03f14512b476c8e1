import VectorMachine.Proofs.DecodedExecution
import VectorMachine.Proofs.StaticFailure

/-!
# Where the policies part

The two policies do the same up to the first descriptor without a kernel call, whatever they
come to after it.  A strict run that does not fail at such a descriptor has met none, and so is
the legacy run too, with the same lanes, the same counts and the same end.
-/

namespace VectorMachine

namespace Chunk

/-!
## Fetching
-/

def Frame.under (f : Frame) (policy : Policy) : Frame :=
  { f with policy }

variable {f : Frame}

theorem byte_under (policy : Policy) (offset : Nat) (b : Option UInt8) :
    byte (f.under policy) offset b = byte f offset b := by
  cases b with
  | none => rfl
  | some b => rfl

theorem sources_under (policy : Policy) (offset : Nat) (origins : List Origin) (bytes : Bytes) :
    sources (f.under policy) offset origins bytes = sources f offset origins bytes := by
  induction origins generalizing bytes with
  | nil => rfl
  | cons origin origins ih =>
      simp only [sources, byte_under, ih]
      cases origin with
      | register => rfl
      | constant => rfl

theorem fetch_legacy_of_strict {offset : Nat} {code : UInt8} {rest : Bytes}
    {result : Except Fault Fetched} (hfetch : fetch (f.under .strict) offset code rest = result)
    (h : forall fault, result = .error fault -> fault.kind ≠ .unwired) :
    fetch (f.under .legacy) offset code rest = result := by
  by_cases hop : Opcode.ofByte code = .done
  · rw [fetch_done offset rest hop] at hfetch ⊢
    exact hfetch
  cases hkernel : (Opcode.ofByte code).kernel? with
  | none =>
      rw [fetch_unknown offset rest hop hkernel] at hfetch ⊢
      exact hfetch
  | some kernel =>
      rw [fetch_kernel hop hkernel] at hfetch ⊢
      simp only [byte_under, sources_under] at hfetch ⊢
      cases hdst : byte f offset rest[0]? >>= slot offset with
      | error fault =>
          rw [hdst] at hfetch
          exact hfetch
      | ok dst =>
          cases hdescriptor : byte f offset rest[1]? with
          | error fault =>
              rw [hdst, hdescriptor] at hfetch
              exact hfetch
          | ok descriptor =>
              rw [hdst, hdescriptor] at hfetch
              simp only [ok_bind] at hfetch ⊢
              cases hwired : Operand.wired kernel.arity descriptor with
              | true =>
                  rw [hwired] at hfetch
                  exact hfetch
              | false =>
                  rw [hwired] at hfetch
                  exact absurd rfl (h _ hfetch.symm)

theorem fetch_legacy_of_ok {offset : Nat} {code : UInt8} {rest : Bytes} {fetched : Fetched}
    (h : fetch (f.under .strict) offset code rest = .ok fetched) :
    fetch (f.under .legacy) offset code rest = .ok fetched := by
  apply fetch_legacy_of_strict h
  intro fault hfault
  cases hfault

/-!
## Chunks
-/

/-- A strict run over a chunk that does not fail at a descriptor is the legacy run. -/
theorem runFrom_legacy_of_strict {offset : Nat} {s : State} {code : Bytes}
    (h : forall fault, (runFrom (f.under .strict) offset s code).2 = some fault ->
      fault.kind ≠ .unwired) :
    runFrom (f.under .legacy) offset s code = runFrom (f.under .strict) offset s code := by
  -- carrying out an instruction does not look at the policy
  have hcall : forall offset c s,
      runCall (f.under .legacy) offset c s = runCall (f.under .strict) offset c s :=
    fun _ _ _ => rfl
  fun_induction runFrom (f.under .strict) offset s code with
  | case1 offset s =>
      rw [runFrom]
      rfl
  | case2 offset s code rest fault hfetch =>
      rw [runFrom, fetch_legacy_of_strict hfetch]
      intro fault' hfault
      cases hfault
      exact h fault rfl
  | case3 offset s code rest hfetch => rw [runFrom, fetch_legacy_of_ok hfetch]
  | case4 offset s code rest op hfetch ih =>
      rw [runFrom, fetch_legacy_of_ok hfetch]
      exact ih h
  | case5 offset s code rest c hfetch fault hfault =>
      rw [runFrom, fetch_legacy_of_ok hfetch]
      simp only [hcall, hfault]
  | case6 offset s code rest c hfetch t hrun ih =>
      rw [runFrom, fetch_legacy_of_ok hfetch]
      simp only [hcall, hrun]
      exact ih h

end Chunk

namespace Machine

def under (m : Machine) (policy : Policy) : Machine :=
  { m with policy }

variable {m : Machine} {i : Invocation}

theorem runChunk_legacy_of_strict {chunk lanes : Nat} {store : Store}
    (h : forall fault, ((m.under .strict).runChunk i chunk lanes store).2 = .error fault ->
      fault.kind ≠ .unwired) :
    (m.under .legacy).runChunk i chunk lanes store =
      (m.under .strict).runChunk i chunk lanes store := by
  have hframe : forall policy, (m.under policy).frame i chunk lanes store.buffers.size =
      (m.frame i chunk lanes store.buffers.size).under policy := fun _ => rfl
  have hstart : forall policy, (m.under policy).start chunk store = m.start chunk store :=
    fun _ => rfl
  rw [runChunk_eq_runFrom, hframe, hstart] at h
  rw [runChunk_eq_runFrom, runChunk_eq_runFrom, hframe, hframe, hstart, hstart,
    Chunk.runFrom_legacy_of_strict]
  intro fault hfault
  apply h
  simp only [hfault]

/-!
## Runs
-/

theorem thenChunk_legacy_of_strict {chunk lanes : Nat} {watch : Watch} {store : Store}
    {statistics : Statistics} {next next' : Watch -> Store -> Statistics -> Outcome}
    (h : forall chunk' fault,
      ((m.under .strict).thenChunk i chunk lanes watch store statistics next).result =
        .error (.chunk chunk' fault) -> fault.kind ≠ .unwired)
    (hnext : forall watch store statistics,
      (forall chunk' fault,
        (next watch store statistics).result = .error (.chunk chunk' fault) ->
        fault.kind ≠ .unwired) -> next' watch store statistics = next watch store statistics) :
    (m.under .legacy).thenChunk i chunk lanes watch store statistics next' =
      (m.under .strict).thenChunk i chunk lanes watch store statistics next := by
  unfold thenChunk at h ⊢
  cases hwatch : watch.check with
  | error reason => rfl
  | ok watch =>
      rw [hwatch] at h
      simp only at h ⊢
      rcases hstrict : (m.under .strict).runChunk i chunk lanes store with ⟨after, result⟩
      have hlegacy : (m.under .legacy).runChunk i chunk lanes store = (after, result) := by
        rw [← hstrict]
        apply runChunk_legacy_of_strict
        intro fault hfault
        rw [hstrict] at h hfault
        cases hfault
        exact h chunk fault rfl
      rw [hlegacy]
      rw [hstrict] at h
      cases result with
      | error fault => rfl
      | ok dispatched => exact hnext _ _ _ h

theorem runSerially_legacy_of_strict {left chunk : Nat} {remaining : Int64} {watch : Watch}
    {store : Store} {statistics : Statistics}
    (h : forall chunk' fault,
      ((m.under .strict).runSerially i left chunk remaining watch store statistics).result =
        .error (.chunk chunk' fault) -> fault.kind ≠ .unwired) :
    (m.under .legacy).runSerially i left chunk remaining watch store statistics =
      (m.under .strict).runSerially i left chunk remaining watch store statistics := by
  induction left generalizing chunk remaining watch store statistics with
  | zero => rfl
  | succ left ih =>
      rw [runSerially] at h ⊢
      rw [runSerially]
      exact thenChunk_legacy_of_strict h fun watch store statistics => ih

/-- A strict run that does not fail at a descriptor without a kernel call is the legacy run as
well: it ends in the same way, with the same in every array and the same counts. -/
theorem exec_legacy_eq_strict (m : Machine) (i : Invocation) (watch : Watch) (store : Store)
    (statistics : Statistics)
    (h : forall chunk fault, ((m.under .strict).exec i watch store statistics).result =
      .error (.chunk chunk fault) -> fault.kind ≠ .unwired) :
    (m.under .legacy).exec i watch store statistics =
      (m.under .strict).exec i watch store statistics := by
  unfold exec at h ⊢
  cases hshape : i.shapeError? with
  | some e => rfl
  | none =>
      rw [hshape] at h
      exact runSerially_legacy_of_strict h

/-- A random vector in every lane of the first chunk, and an opcode without a kernel. -/
def drawnThenStopped : Invocation :=
  { stoppedRun 2 200 with code := [37, 40, 0, 8, 33, 0] }

theorem exec_legacy_eq_strict_stopped :
    (((({} : Machine).withSeed 7).under .strict).exec drawnThenStopped .always (stoppedStore 3)
      {}).result = .error (.chunk 0 (.unknownOpcode 33 4)) ∧
    (({} : Machine).withSeed 7 |>.under .legacy).exec drawnThenStopped .always
        (stoppedStore 3) {} =
      (({} : Machine).withSeed 7 |>.under .strict).exec drawnThenStopped .always
        (stoppedStore 3) {} := by
  have hplan : (((({} : Machine).withSeed 7).under .strict).plan drawnThenStopped).2 =
      some (.unknownOpcode 33 4) := by cbv
  have hresult : (((({} : Machine).withSeed 7).under .strict).exec drawnThenStopped .always
      (stoppedStore 3) {}).result = .error (.chunk 0 (.unknownOpcode 33 4)) := by
    rw [exec_result_eq (by decide) (by decide) (by decide), hplan]
  refine ⟨hresult, exec_legacy_eq_strict _ _ _ _ _ ?_⟩
  intro chunk fault hfault
  rw [hresult] at hfault
  cases hfault
  intro hkind
  cases hkind

end Machine
end VectorMachine
