import VectorMachine.Proofs.GroupStore
import VectorMachine.Proofs.WriteSet

/-!
# Runs that are stopped

Whether to go on is asked once before every chunk, and never within one or after the
last.  A run that is stopped after so many questions has therefore run that many
chunks to their end and touched no lane of the others.
-/

namespace VectorMachine
namespace Machine

open Invocation

/-!
## Some of the chunks
-/

section Chunks

variable {m : Machine} {i : Invocation} (hfault : (m.plan i).2 = none)
include hfault

theorem runIndependently_counting (reason : Stop) (passes left chunk : Nat) (store : Store)
    (statistics : Statistics) :
    m.runIndependently i left chunk (.counting passes reason) store statistics =
      ⟨(m.runIndependently i (min passes left) chunk .always store statistics).store,
        (m.runIndependently i (min passes left) chunk .always store statistics).statistics,
        if passes < left then .error (.stopped reason) else .ok ()⟩ := by
  induction left generalizing passes chunk store statistics with
  | zero =>
      rw [Nat.min_zero]
      rfl
  | succ left ih =>
      rw [runIndependently]
      cases passes with
      | zero =>
          rw [Nat.zero_min, runIndependently, if_pos (Nat.succ_pos left)]
          rfl
      | succ passes =>
          have hcheck : (Watch.counting (passes + 1) reason).check =
              .ok (.counting passes reason) := rfl
          rw [Nat.succ_min_succ, runIndependently, thenChunk_always, hfault]
          unfold thenChunk
          rw [hcheck, runChunk_eq, hfault]
          simp only [ih, Nat.succ_lt_succ_iff]

theorem runIndependently_add (first second chunk : Nat) (store : Store)
    (statistics : Statistics) :
    m.runIndependently i (first + second) chunk .always store statistics =
      m.runIndependently i second (chunk + first) .always
        (m.runIndependently i first chunk .always store statistics).store
        (m.runIndependently i first chunk .always store statistics).statistics := by
  induction first generalizing chunk store statistics with
  | zero => rw [Nat.zero_add, Nat.add_zero, runIndependently]
  | succ first ih =>
      rw [Nat.succ_add, runIndependently, runIndependently, thenChunk_always, thenChunk_always,
        hfault]
      simp only [ih]
      rw [Nat.add_right_comm chunk 1 first, Nat.add_assoc]

theorem runIndependently_statistics (hcount : i.Countable) (left chunk : Nat)
    (hlast : chunk + left ≤ (i.laneCount + 127) / 128) (store : Store)
    (statistics : Statistics) :
    (m.runIndependently i left chunk .always store statistics).statistics.chunks =
        statistics.chunks + left ∧
      (m.runIndependently i left chunk .always store statistics).statistics.lanes +
          i.edge chunk =
        statistics.lanes + i.edge (chunk + left) := by
  induction left generalizing chunk store statistics with
  | zero => exact ⟨rfl, rfl⟩
  | succ left ih =>
      have hstart : chunk * Chunk.size ≤ i.laneCount := by
        unfold Chunk.size
        omega
      rw [runIndependently, thenChunk_always, hfault, chunkLanes_eq hcount hstart]
      have hrest := ih (chunk + 1) (by omega) (m.runChunk i chunk (i.span chunk) store).1
        (statistics.record ((m.plan i).1.map Chunk.Step.op).reverse (i.span chunk))
      rw [edge_succ, Nat.add_right_comm chunk 1 left] at hrest
      simp only [Statistics.record] at hrest ⊢
      rw [← Nat.add_assoc chunk left 1]
      omega

end Chunks

theorem runIndependently_has (m : Machine) (i : Invocation) (left chunk : Nat) (watch : Watch)
    (store : Store) (statistics : Statistics) (c : Cell) :
    (m.runIndependently i left chunk watch store statistics).store.Has c ↔ store.Has c := by
  apply @runIndependently_keeps m i (fun after => after.Has c ↔ store.Has c)
  · intro k after _ _ hafter
    exact (m.runChunk_has i k _ after c).trans hafter
  · rfl

/-- Chunks leave the lanes before the first and behind the last of them alone. -/
theorem runIndependently_get?_of_lane {m : Machine} {i : Invocation}
    (hshape : i.shapeError? = none) (hcount : i.Countable) {store : Store}
    (hplaced : i.WellPlaced store) {left chunk : Nat}
    (hlast : chunk + left ≤ (i.laneCount + 127) / 128) {w : Window} (hw : w ∈ i.arrays)
    {lane : Nat} (hsize : lane < w.size)
    (hlane : lane < chunk * Chunk.size ∨ i.edge (chunk + left) ≤ lane) (watch : Watch)
    (statistics : Statistics) :
    (m.runIndependently i left chunk watch store statistics).store.get? (w.cell lane) =
      store.get? (w.cell lane) := by
  apply @runIndependently_keeps m i
    (fun after => after.get? (w.cell lane) = store.get? (w.cell lane))
  · intro k after hlow hhigh hafter
    have hstart : k * Chunk.size ≤ i.laneCount := by
      unfold Chunk.size
      omega
    rw [← hafter, chunkLanes_eq hcount hstart]
    apply runChunk_get?_of_outside
    intro v hv other hfirst hbehind
    have hother := span_end hstart
    have hv' := laneCount_le_size hshape hv
    -- the lanes of chunk `k` lie between the two edges
    have hbefore : chunk * Chunk.size ≤ other :=
      Nat.le_trans (Nat.mul_le_mul_right Chunk.size hlow) hfirst
    have hbelow : other < i.edge (chunk + left) := by
      have hnext : (k + 1) * Chunk.size ≤ (chunk + left) * Chunk.size :=
        Nat.mul_le_mul_right Chunk.size hhigh
      have hspan := i.span_le_size k
      rw [Nat.succ_mul] at hnext
      unfold edge
      omega
    exact hplaced.cell_ne hv hw (by omega) hsize (by omega)
  · rfl

/-!
## Whole runs
-/

/-- Two machines whose random streams are the same, or are not asked for, leave the same. -/
theorem exec_eq_of_draws {m n : Machine} {i : Invocation} {store : Store}
    (hground : Parallel.Grounded i store) (hpolicy : m.policy = n.policy)
    {statistics : Statistics} (hok : (n.exec i .always store statistics).result = .ok ())
    (hdraws : m.generators = n.generators ∨
      (n.exec i .always store statistics).statistics.tally.count .random =
        statistics.tally.count .random) :
    m.exec i .always store statistics = n.exec i .always store statistics := by
  have hplan : m.plan i = n.plan i := plan_eq_of_counts hpolicy rfl rfl rfl rfl
  have hcases := (exec_result hground.shape hground.countable store statistics).mp hok
  have hresult : (m.exec i .always store statistics).result = .ok () :=
    (exec_result hground.shape hground.countable store statistics).mpr (hplan ▸ hcases)
  have hquiet : m.generators = n.generators ∨ Parallel.Group.chunks i = 0 ∨
      .random ∉ (m.plan i).1.map Chunk.Step.op := by
    refine hdraws.imp_right fun hcounted => ?_
    by_cases hzero : i.laneCount = 0
    · left
      unfold Parallel.Group.chunks
      rw [chunkCount_eq hground.countable, hzero]
    · right
      rw [hplan]
      exact not_random_of_count hground.shape hground.countable hzero
        (hcases.resolve_left hzero) hcounted
  exact (Parallel.finished_exec hground hresult).eq hground hpolicy hquiet
    (Parallel.finished_exec hground hok) (hresult.trans hok.symm)

/-- What a run over the lanes leaves when only the first `passes` questions are answered
with yes, beside the same run to its end. -/
structure StoppedAfter (i : Invocation) (passes : Nat) (reason : Stop) (store : Store)
    (statistics : Statistics) (whole stopped : Outcome) : Prop where
  result : stopped.result =
    if passes < (i.laneCount + 127) / 128 then .error (.stopped reason) else .ok ()
  before : forall w, w ∈ i.arrays -> forall lane, lane < w.size -> lane < 128 * passes ->
    stopped.store.get? (w.cell lane) = whole.store.get? (w.cell lane)
  behind : forall w, w ∈ i.arrays -> forall lane, lane < w.size ->
    min (128 * passes) i.laneCount ≤ lane ->
      stopped.store.get? (w.cell lane) = store.get? (w.cell lane)
  chunks : stopped.statistics.chunks =
    statistics.chunks + min passes ((i.laneCount + 127) / 128)
  lanes : stopped.statistics.lanes = statistics.lanes + min (128 * passes) i.laneCount

theorem stoppedAfter_exec {m : Machine} {i : Invocation} (hshape : i.shapeError? = none)
    (hcount : i.Countable) {store : Store} (hplaced : i.WellPlaced store)
    {statistics : Statistics} (hok : (m.exec i .always store statistics).result = .ok ())
    (passes : Nat) (reason : Stop) :
    StoppedAfter i passes reason store statistics (m.exec i .always store statistics)
      (m.exec i (.counting passes reason) store statistics) := by
  have hchunks := chunkCount_eq hcount
  have hcases := (exec_result hshape hcount store statistics).mp hok
  rw [exec_eq_of_shape hshape, exec_eq_of_shape hshape, hchunks]
  by_cases hzero : i.laneCount = 0
  · -- without lanes nothing is asked
    have hnone : (i.laneCount + 127) / 128 = 0 := by rw [hzero]
    rw [hnone]
    refine ⟨?_, fun _ _ _ _ _ => rfl, fun _ _ _ _ _ => rfl, ?_, ?_⟩
    · rw [hnone]
      rfl
    · rw [hnone, Nat.min_zero]
      rfl
    · rw [hzero, Nat.min_zero]
      rfl
  · have hfault := hcases.resolve_left hzero
    rw [runIndependently_counting hfault]
    have hfew : min passes ((i.laneCount + 127) / 128) ≤ (i.laneCount + 127) / 128 :=
      Nat.min_le_right _ _
    have hedge : i.edge (0 + min passes ((i.laneCount + 127) / 128)) =
        min (128 * passes) i.laneCount := by
      unfold edge Chunk.size
      omega
    refine ⟨rfl, ?_, ?_, ?_, ?_⟩
    · intro w hw lane hsize hlane
      -- the whole run goes on with the chunks that were left out
      have hsplit := runIndependently_add hfault (min passes ((i.laneCount + 127) / 128))
        ((i.laneCount + 127) / 128 - min passes ((i.laneCount + 127) / 128)) 0 store statistics
      rw [Nat.add_sub_cancel' hfew] at hsplit
      rw [hsplit]
      refine (runIndependently_get?_of_lane hshape hcount
        (hplaced.of_has_iff (runIndependently_has m i _ 0 .always store statistics)) (by omega)
        hw hsize ?_ .always _).symm
      unfold edge Chunk.size
      omega
    · intro w hw lane hsize hlane
      exact runIndependently_get?_of_lane hshape hcount hplaced (by omega) hw hsize
        (Or.inr (hedge ▸ hlane)) .always statistics
    · exact (runIndependently_statistics hfault hcount _ 0 (by omega) store statistics).1
    · have hlanes := (runIndependently_statistics hfault hcount
        (min passes ((i.laneCount + 127) / 128)) 0 (by omega) store statistics).2
      have hstart : i.edge 0 = 0 := by simp [edge]
      rw [hedge, hstart] at hlanes
      exact hlanes

/-- A run that completes may be stopped between any two chunks.  It returns the reason
exactly when chunks are left, the lanes before the stop are as the whole run leaves them,
all others are as they were, and what ran is counted.  Where the lanes cannot be rounded up
to chunks in 64 bits there are no chunks, and nothing is asked. -/
theorem execParallel_stopped {m n : Machine} (hpolicy : m.policy = n.policy) {workers : Int}
    (hworkers : workers ≤ 1) {i : Invocation} {store : Store} (hplaced : i.WellPlaced store)
    (statistics : Statistics) (hok : (n.exec i .always store statistics).result = .ok ())
    (hdraws : m.generators = n.generators ∨
      (n.exec i .always store statistics).statistics.tally.count .random =
        statistics.tally.count .random) (passes : Nat) (reason : Stop) :
    (i.lanes.toInt ≤ 2 ^ 63 - 128 ->
      StoppedAfter i passes reason store statistics (n.exec i .always store statistics)
        (m.execParallel workers i (.counting passes reason) store statistics)) ∧
    (2 ^ 63 - 128 < i.lanes.toInt ->
      m.execParallel workers i (.counting passes reason) store statistics =
        ⟨store, statistics, .ok ()⟩) := by
  have hshape := shapeError?_of_exec hok
  have hlanes := ((shapeError?_eq_none_iff i).mp hshape).1
  unfold execParallel
  rw [if_pos hworkers]
  constructor
  · intro hhigh
    have hcount : i.Countable := ⟨hlanes, hhigh⟩
    have hsame := exec_eq_of_draws ⟨hshape, hcount, hplaced⟩ hpolicy hok hdraws
    rw [← hsame] at hok ⊢
    exact stoppedAfter_exec hshape hcount hplaced hok passes reason
  · intro hhigh
    have hcount : ¬i.Countable := fun h => absurd h.2 (not_le.mpr hhigh)
    rw [exec_eq_of_shape hshape, chunkCount_eq_zero hlanes hcount, runIndependently]

/-- Seeded draws on a full chunk and part of another, and a stop between the two. -/
theorem execParallel_stopped_drawn :
    ((({} : Machine).withSeed 7).exec Parallel.drawnRun .always (stoppedStore 3) {}).result =
        .ok () ∧
      ((({} : Machine).withSeed 7).execParallel 1 Parallel.drawnRun
        (.counting 1 .deadlineExceeded) (stoppedStore 3) {}).result =
          .error (.stopped .deadlineExceeded) ∧
      ((({} : Machine).withSeed 7).execParallel 1 Parallel.drawnRun
        (.counting 1 .deadlineExceeded) (stoppedStore 3) {}).store.get? ⟨1, 127⟩ =
          ((({} : Machine).withSeed 7).exec Parallel.drawnRun .always
            (stoppedStore 3) {}).store.get? ⟨1, 127⟩ ∧
      ((({} : Machine).withSeed 7).execParallel 1 Parallel.drawnRun
        (.counting 1 .deadlineExceeded) (stoppedStore 3) {}).store.get? ⟨1, 128⟩ =
          some Vec4.zero ∧
      ((({} : Machine).withSeed 7).execParallel 1 Parallel.drawnRun
        (.counting 1 .deadlineExceeded) (stoppedStore 3) {}).statistics.lanes = 128 := by
  have hplaced : Parallel.drawnRun.WellPlaced (stoppedStore 3) :=
    ⟨(wellPlaced_stoppedRun 2 3 200).inside, (wellPlaced_stoppedRun 2 3 200).apart⟩
  have hfault : ((({} : Machine).withSeed 7).plan Parallel.drawnRun).2 = none := by cbv
  have hok : ((({} : Machine).withSeed 7).exec Parallel.drawnRun .always (stoppedStore 3)
      {}).result = .ok () :=
    (exec_result (by decide) (by decide) _ _).mpr (Or.inr hfault)
  have hstopped := (execParallel_stopped rfl (Int.le_refl 1) hplaced {} hok (Or.inl rfl) 1
    .deadlineExceeded).1 (by decide)
  have hmem : (⟨1, 0, 200⟩ : Window) ∈ Parallel.drawnRun.arrays := by decide
  refine ⟨hok, hstopped.result, hstopped.before _ hmem 127 (by decide) (by decide), ?_,
    hstopped.lanes⟩
  refine (hstopped.behind _ hmem 128 (by decide) (by decide)).trans ?_
  simp [Window.cell, Store.get?, stoppedStore]

/-- A terminator alone, over more lanes than can be rounded up to chunks. -/
def boundlessRun : Invocation where
  code := [0]
  constants := []
  inputs := []
  outputs := []
  lanes := 9223372036854775807

theorem execParallel_unasked :
    (({} : Machine).exec boundlessRun .always ⟨#[]⟩ {}).result = .ok () ∧
      0 < (boundlessRun.laneCount + 127) / 128 ∧
      (({} : Machine).execParallel 1 boundlessRun (.counting 0 .deadlineExceeded) ⟨#[]⟩
        {}).result ≠ .error (.stopped .deadlineExceeded) := by
  refine ⟨by decide, by decide, by decide⟩

end Machine
end VectorMachine
