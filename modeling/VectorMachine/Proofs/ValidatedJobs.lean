import VectorMachine.Job.Basic
import VectorMachine.Proofs.BatchRun

/-!
# Jobs that pass their checks

A job is filled in and checked once, when it is read.  What the checks let through meets
every bound that gathering, scattering and running check again for themselves, so that
none of these is what makes the job's batch run fail.
-/

namespace VectorMachine

/-!
## Checking a job
-/

namespace Job

structure Sound (j : Job) : Prop where
  workers : 1 ≤ j.workers
  lanes : 0 ≤ j.lanes
  inputs : forall columns, columns ∈ j.inputs -> 1 ≤ columns.length ∧ columns.length ≤ 4
  outputs : forall out, out ∈ j.outputs.getD [] ->
    (1 ≤ out.components ∧ out.components ≤ 4) ∧ out.name ≠ []
  timeout : exists nanoseconds, timeoutOf j = .ok nanoseconds ∧ 0 ≤ nanoseconds

theorem nonneg_of_timeoutOf {j : Job} {nanoseconds : Int} (h : timeoutOf j = .ok nanoseconds) :
    0 ≤ nanoseconds := by
  unfold timeoutOf at h
  split at h
  · cases h
    exact Int.le_refl 0
  · split at h
    · split at h
      · cases h
      next hnonneg =>
        cases h
        exact Int.not_lt.mp hnonneg
    · cases h

theorem badInput?_eq_none_iff (j : Job) :
    badInput? j = none ↔
      forall columns, columns ∈ j.inputs -> 1 ≤ columns.length ∧ columns.length ≤ 4 := by
  unfold badInput?
  rw [Option.map_eq_none_iff]
  refine (find?_zipIdx_eq_none_iff
    (p := fun columns : List Text => columns.length < 1 ∨ 4 < columns.length)).trans ?_
  simp only [decide_eq_false_iff_not, not_or, Nat.not_lt]

theorem badOutput?_eq_none_iff (j : Job) :
    badOutput? j = none ↔
      forall out, out ∈ j.outputs.getD [] -> 1 ≤ out.components ∧ out.components ≤ 4 := by
  unfold badOutput?
  rw [Option.map_eq_none_iff]
  refine (find?_zipIdx_eq_none_iff
    (p := fun out : Batch.Output => out.components < 1 ∨ 4 < out.components)).trans ?_
  simp only [decide_eq_false_iff_not, not_or, Int.not_lt]

/-- The checks pass exactly those jobs that name their files and keep all bounds. -/
theorem error?_eq_none_iff (j : Job) :
    error? j = none ↔
      j.program ≠ [] ∧ j.input ≠ [] ∧ 0 ≤ j.lanes ∧ 0 ≤ j.workers ∧
        (exists nanoseconds, timeoutOf j = .ok nanoseconds) ∧
        (forall columns, columns ∈ j.inputs -> 1 ≤ columns.length ∧ columns.length ≤ 4) ∧
        forall out, out ∈ j.outputs.getD [] -> 1 ≤ out.components ∧ out.components ≤ 4 := by
  rw [← badInput?_eq_none_iff, ← badOutput?_eq_none_iff]
  unfold error?
  by_cases hprogram : j.program = []
  · simp [hprogram]
  · rw [if_neg hprogram]
    by_cases hinput : j.input = []
    · simp [hinput]
    · rw [if_neg hinput]
      by_cases hlanes : j.lanes < 0
      · simp [hlanes, Int.not_le.mpr hlanes]
      · rw [if_neg hlanes]
        by_cases hworkers : j.workers < 0
        · simp [hworkers, Int.not_le.mpr hworkers]
        · rw [if_neg hworkers]
          cases timeoutOf j with
          | error e => simp
          | ok nanoseconds =>
              simp [hprogram, hinput, Int.not_lt.mp hlanes, Int.not_lt.mp hworkers,
                Option.orElse_eq_orElse, Option.orElse_eq_or]

theorem name_fillOutput_ne_nil (index : Nat) (o : Batch.Output) :
    (fillOutput index o).name ≠ [] := by
  unfold fillOutput
  by_cases h : o.name = []
  · simp [h, utf8]
  · simp [h]

theorem sound_of_check {decoded j : Job} (h : check decoded = .ok j) : j.Sound := by
  have hpassed : error? (withDefaults decoded) = none ∧ j = withDefaults decoded := by
    unfold check at h
    split at h
    · cases h
    next hnone => exact ⟨hnone, (Except.ok.inj h).symm⟩
  rcases hpassed with ⟨hnone, rfl⟩
  rcases (error?_eq_none_iff _).mp hnone with
    ⟨_, _, hlanes, hworkers, ⟨nanoseconds, htimeout⟩, hinputs, houtputs⟩
  refine ⟨?_, hlanes, hinputs, ?_, nanoseconds, htimeout, nonneg_of_timeoutOf htimeout⟩
  · -- a job without workers was given one
    have hne : (withDefaults decoded).workers ≠ 0 := by
      show (if decoded.workers = 0 then 1 else decoded.workers) ≠ 0
      split
      · decide
      next hne => exact hne
    omega
  · intro out hout
    refine ⟨houtputs out hout, ?_⟩
    have hfilled : exists k o, out = fillOutput k o := by
      unfold withDefaults at hout
      cases houtputs : decoded.outputs with
      | none => simp [houtputs] at hout
      | some outputs =>
          simp only [houtputs, Option.map_some, Option.getD_some, List.mem_map] at hout
          rcases hout with ⟨⟨o, k⟩, _, rfl⟩
          exact ⟨k, o, rfl⟩
    rcases hfilled with ⟨k, o, rfl⟩
    exact name_fillOutput_ne_nil k o

end Job

/-!
## Errors of runs
-/

namespace LaneError

/-- A number of columns or components that makes no vector. -/
def isCount : LaneError -> Bool
  | columnCount _ => true
  | componentCount _ => true
  | _ => false

end LaneError

theorem Invocation.lanes_neg_of_shapeError? {i : Invocation} {n : Int}
    (h : i.shapeError? = some (.invalidLaneCount n)) : i.lanes < 0 := by
  have harray : forall side arrays,
      shortArray? side arrays i.lanes ≠ some (.invalidLaneCount n) := by
    intro side arrays hshort
    rcases Option.map_eq_some_iff.mp hshort with ⟨_, _, herror⟩
    cases herror
  unfold shapeError? at h
  split at h
  next hlanes => exact hlanes
  · split at h
    · cases h
    · split at h
      · cases h
      · split at h
        · cases h
        · rw [Option.orElse_eq_orElse, Option.orElse_eq_or, Option.or_eq_some_iff] at h
          rcases h with h | ⟨_, h⟩
          · exact absurd h (harray _ _)
          · exact absurd h (harray _ _)

namespace Machine

variable {m : Machine} {i : Invocation}

/-- Chunks fail or are stopped, but no chunk finds fault with the number of lanes. -/
theorem runIndependently_ne_invalidLaneCount (left chunk : Nat) (watch : Watch) (store : Store)
    (statistics : Statistics) (n : Int) :
    (m.runIndependently i left chunk watch store statistics).result ≠
      .error (.invalidLaneCount n) := by
  induction left generalizing chunk watch store statistics with
  | zero =>
      intro h
      cases h
  | succ left ih =>
      rw [runIndependently, thenChunk]
      split
      · intro h
        cases h
      · split
        · intro h
          cases h
        · exact ih _ _ _ _

theorem lanes_neg_of_exec {watch : Watch} {store : Store} {statistics : Statistics} {n : Int}
    (h : (m.exec i watch store statistics).result = .error (.invalidLaneCount n)) :
    i.lanes < 0 := by
  cases hshape : i.shapeError? with
  | none =>
      rw [exec_eq_of_shape hshape] at h
      exact absurd h (runIndependently_ne_invalidLaneCount _ _ _ _ _ n)
  | some e =>
      unfold exec at h
      rw [hshape] at h
      cases h
      exact Invocation.lanes_neg_of_shapeError? hshape

end Machine

namespace Batch

namespace Error

def isColumnCount : Error -> Bool
  | input _ e => e.isCount
  | output _ e => e.isCount
  | _ => false

def isInvalidLaneCount : Error -> Bool
  | run (.invalidLaneCount _) => true
  | _ => false

end Error

inductive Failure (p : Program) (frame : Option Frame) (o : Options) : Error -> Prop where
  | reads : Failure p frame o (.inputCount p.inputs o.inputs.length)
  | writes (outputs : Nat) : Failure p frame o (.outputCount p.outputs outputs)
  | listSize (count : Int) : Failure p frame o (.outputListSize count)
  | rows (rows : Nat) : Failure p frame o (.laneCount o.lanes rows)
  | gathering {e : Error} (h : gatherFrom frame 0 o.inputs = .error e) : Failure p frame o e
  | running {inputs : List (List Vec4)} {outputs lanes : Nat} {e : Error}
      (hlanes : lanesOf o (rowsOf frame) = .ok lanes)
      (h : runLanes o p inputs outputs lanes = .error e) : Failure p frame o e
  | scattering {outputs : List Output} {results : List (List Vec4)} {e : Error}
      (houtputs : outputsOf o p = .ok outputs)
      (h : scatterAll (outputs.zip results) = .error e) : Failure p frame o e
  | clash : Failure p frame o .clashingColumns

theorem failure_of_run {p : Program} {frame : Option Frame} {o : Options} {e : Error}
    (h : run (some p) frame o = .error e) : Failure p frame o e := by
  rw [run_eq] at h
  split at h
  · cases h
    exact .reads
  · rcases cases_of_bind_eq_error h with houtputs | ⟨outputs, houtputs, h⟩
    · unfold outputsOf at houtputs
      split at houtputs
      · cases houtputs
      · split at houtputs
        · cases houtputs
        · cases houtputs
          exact .listSize p.outputs
    · split at h
      · cases h
        exact .writes outputs.length
      · rcases cases_of_bind_eq_error h with hlanes | ⟨lanes, hlanes, h⟩
        · unfold lanesOf at hlanes
          split at hlanes
          · split at hlanes
            · cases hlanes
              exact .rows _
            · cases hlanes
          · cases hlanes
        · rcases cases_of_bind_eq_error h with hgather | ⟨inputs, _, h⟩
          · exact .gathering hgather
          · split at h
            · cases h
              exact .listSize lanes
            · rcases cases_of_bind_eq_error h with hrun | ⟨results, _, h⟩
              · exact .running hlanes hrun
              · rcases cases_of_bind_eq_error h with hscatter | ⟨columns, _, h⟩
                · exact .scattering houtputs hscatter
                · unfold frameOf at h
                  split at h
                  · cases h
                  · split at h
                    · cases h
                    · cases h
                      exact .clash

/-!
## Each step within its bounds
-/

theorem isCount_of_numbersOfColumn {c : Column} {e : LaneError}
    (h : numbersOfColumn c = .error e) : e.isCount = false := by
  unfold numbersOfColumn at h
  split at h
  · cases h
    rfl
  · rcases exists_of_mapM_eq_error h with ⟨⟨cell, row⟩, _, hcell⟩
    dsimp only at hcell
    cases hnumber : numberOfCell cell with
    | ok x =>
        rw [hnumber] at hcell
        cases hcell
    | error type =>
        rw [hnumber] at hcell
        cases hcell
        rfl

/-- Between one and four columns, gathering fails over the columns themselves only. -/
theorem isCount_of_gather {frame : Option Frame} {columns : List Text} {e : LaneError}
    (hcount : 1 ≤ columns.length ∧ columns.length ≤ 4) (h : gather frame columns = .error e) :
    e.isCount = false := by
  unfold gather at h
  rw [if_neg (by omega)] at h
  rcases cases_of_bind_eq_error h with hnumbers | ⟨_, _, hdone⟩
  · rcases exists_of_mapM_eq_error hnumbers with ⟨name, _, hname⟩
    rcases cases_of_bind_eq_error hname with hfind | ⟨c, _, hcolumn⟩
    · unfold findColumn at hfind
      split at hfind
      · cases hfind
      · cases hfind
        rfl
    · exact isCount_of_numbersOfColumn hcolumn
  · cases hdone

theorem exists_of_gatherFrom_eq_error {frame : Option Frame} {inputs : List (List Text)}
    {index : Nat} {e : Error} (h : gatherFrom frame index inputs = .error e) :
    exists k columns cause, columns ∈ inputs ∧ gather frame columns = .error cause ∧
      e = .input k cause := by
  induction inputs generalizing index with
  | nil => cases h
  | cons columns inputs ih =>
      rw [gatherFrom] at h
      split at h
      next cause hgather =>
        cases h
        exact ⟨index, columns, cause, List.mem_cons_self, hgather, rfl⟩
      · split at h
        next hrest =>
          cases h
          rcases ih hrest with ⟨k, others, cause, hmem, hgather, he⟩
          exact ⟨k, others, cause, List.mem_cons_of_mem columns hmem, hgather, he⟩
        · cases h

theorem cases_of_runLanes_eq_error {o : Options} {p : Program} {inputs : List (List Vec4)}
    {outputs lanes : Nat} {e : Error} (h : runLanes o p inputs outputs lanes = .error e) :
    e = .timedOut ∨ exists cause, e = .run cause ∧
      (outcomeOf o p inputs outputs lanes).result = .error cause := by
  unfold runLanes at h
  dsimp only at h
  split at h
  · cases h
  · cases h
    exact Or.inl rfl
  next cause _ hresult =>
    cases h
    exact Or.inr ⟨cause, rfl, hresult⟩

theorem isInvalidLaneCount_of_runLanes {o : Options} {p : Program} {inputs : List (List Vec4)}
    {outputs lanes : Nat} {e : Error} (hlanes : lanes < 2 ^ 63)
    (h : runLanes o p inputs outputs lanes = .error e) : e.isInvalidLaneCount = false := by
  rcases cases_of_runLanes_eq_error h with rfl | ⟨cause, rfl, hresult⟩
  · rfl
  · unfold outcomeOf at hresult
    rw [Machine.execParallel_eq_exec] at hresult
    cases cause with
    | invalidLaneCount n =>
        have hneg := Machine.lanes_neg_of_exec hresult
        have hvalue : (invocationOf p inputs.length outputs lanes).lanes.toInt = lanes :=
          Int64.toInt_ofNat_of_lt hlanes
        rw [Int64.lt_iff_toInt_lt, hvalue, Int64.toInt_zero] at hneg
        omega
    | _ => rfl

theorem components_of_outputsOf {o : Options} {p : Program} {outputs : List Output}
    (h : outputsOf o p = .ok outputs)
    (hgiven : forall out, out ∈ o.outputs.getD [] -> 1 ≤ out.components ∧ out.components ≤ 4) :
    forall out, out ∈ outputs -> 1 ≤ out.components ∧ out.components ≤ 4 := by
  unfold outputsOf at h
  cases houtputs : o.outputs with
  | some given =>
      rw [houtputs] at h hgiven
      cases h
      exact hgiven
  | none =>
      rw [houtputs] at h
      dsimp only at h
      split at h
      · cases h
        intro out hout
        rcases List.mem_map.mp hout with ⟨k, _, rfl⟩
        exact ⟨Int.le_refl 1, (by decide : (1 : Int) ≤ 4)⟩
      · cases h

theorem scatterAll_ne_error {entries : List (Output × List Vec4)} {e : Error}
    (h : forall entry, entry ∈ entries -> 1 ≤ entry.1.components ∧ entry.1.components ≤ 4) :
    scatterAll entries ≠ .error e := by
  rw [scatterAll_eq_ok_iff.mpr ⟨h, rfl⟩]
  intro herror
  cases herror

/-- A batch run whose inputs and outputs keep their bounds fails for other reasons, if it
does. -/
theorem counts_of_run {p : Program} {frame : Option Frame} {o : Options} {e : Error}
    (hinputs : forall columns, columns ∈ o.inputs -> 1 ≤ columns.length ∧ columns.length ≤ 4)
    (houtputs : forall out, out ∈ o.outputs.getD [] -> 1 ≤ out.components ∧ out.components ≤ 4)
    (h : run (some p) frame o = .error e) :
    e.isColumnCount = false ∧ (rowsOf frame < 2 ^ 63 -> e.isInvalidLaneCount = false) := by
  cases failure_of_run h with
  | reads => exact ⟨rfl, fun _ => rfl⟩
  | writes outputs => exact ⟨rfl, fun _ => rfl⟩
  | listSize count => exact ⟨rfl, fun _ => rfl⟩
  | rows rows => exact ⟨rfl, fun _ => rfl⟩
  | clash => exact ⟨rfl, fun _ => rfl⟩
  | gathering hgather =>
      rcases exists_of_gatherFrom_eq_error hgather with ⟨k, columns, cause, hmem, hcause, rfl⟩
      exact ⟨isCount_of_gather (hinputs columns hmem) hcause, fun _ => rfl⟩
  | running hlanes hrun =>
      constructor
      · rcases cases_of_runLanes_eq_error hrun with rfl | ⟨cause, rfl, _⟩ <;> rfl
      · intro hrows
        have hle := lanes_le_of_lanesOf hlanes
        exact isInvalidLaneCount_of_runLanes (by omega) hrun
  | @scattering outputs results _ houtputs' hscatter =>
      refine absurd hscatter (scatterAll_ne_error ?_)
      intro entry hentry
      exact components_of_outputsOf houtputs' houtputs entry.1 (List.of_mem_zip hentry).1

end Batch

namespace Job

theorem options_located (working path : Text) (j : Job) :
    (located working path j).options = j.options := rfl

/-- Whatever a decoder makes of a content, a job that is read from it is sound, and a batch
run with its options fails neither over a number of columns or components nor over a number
of lanes, be the frame as long as 64 bits can count. -/
theorem parsed_job_within_bounds (decode? : Bytes -> Option Job) {content : Bytes} {j : Job}
    (h : parseWith decode? content = .ok j) :
    j.Sound ∧
      forall working path seed p frame, rowsOf frame < 2 ^ 63 ->
        forall e, Batch.run (some p) frame { (located working path j).options with seed } =
          .error e -> e.isColumnCount = false ∧ e.isInvalidLaneCount = false := by
  have hchecked : exists decoded, check decoded = .ok j := by
    unfold parseWith at h
    split at h
    · cases h
    next decoded _ => exact ⟨decoded, h⟩
  rcases hchecked with ⟨decoded, hcheck⟩
  have hsound := sound_of_check hcheck
  refine ⟨hsound, ?_⟩
  intro working path seed p frame hrows e hrun
  rw [options_located] at hrun
  rcases Batch.counts_of_run hsound.inputs (fun out hout => (hsound.outputs out hout).1) hrun
    with ⟨hcolumns, hlanes⟩
  exact ⟨hcolumns, hlanes hrows⟩

def terseContent : Bytes :=
  ["program = \"p.vasm\"", "input = \"t.csv\"", "timeout = \"1m30s\"", "[[inputs]]",
    "columns = [\"x\", \"y\"]", "[[outputs]]"].flatMap fun line => utf8 line ++ utf8 "\n"

def terseJob : Job where
  program := utf8 "p.vasm"
  input := utf8 "t.csv"
  workers := 1
  timeout := utf8 "1m30s"
  inputs := [[utf8 "x", utf8 "y"]]
  outputs := some [⟨utf8 "out0", 1⟩]

/-- A negation, over a frame without one of the columns. -/
def negating : Program where
  code := some [9, 40, 0, 8, 0]
  inputs := 1
  outputs := 1

def lacking : Frame where
  columns := [⟨utf8 "x", .floats [1, 2]⟩]
  valid := by decide

theorem parsed_job_within_bounds_terse :
    parse terseContent = .ok terseJob ∧ terseJob.Sound ∧
      timeoutOf terseJob = .ok 90000000000 ∧
      Batch.run (some negating) (some lacking) { terseJob.options with seed := some 7 } =
        .error (.input 0 (.columnNotFound (utf8 "y"))) ∧
      (Batch.Error.input 0 (.columnNotFound (utf8 "y"))).isColumnCount = false := by
  have hparse : parse terseContent = .ok terseJob := by decide +kernel
  have hrun :
      Batch.run (some negating) (some lacking) { terseJob.options with seed := some 7 } =
      .error (.input 0 (.columnNotFound (utf8 "y"))) := by decide +kernel
  rcases parsed_job_within_bounds _ hparse with ⟨hsound, hbounds⟩
  exact ⟨hparse, hsound, by decide +kernel, hrun,
    (hbounds [] [] (some 7) negating (some lacking) (by decide) _ hrun).1⟩

end Job
end VectorMachine
