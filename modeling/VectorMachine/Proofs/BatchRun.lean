import VectorMachine.Batch.Basic
import VectorMachine.Container.Basic
import VectorMachine.Proofs.Advance
import VectorMachine.Proofs.AssembledListing

/-!
# Batch runs

What a batch run gathers has a lane for every row, and what it scatters a cell for
every lane, so that its columns make a frame unless two of them have one name.  Together
with the lists that are too long to be made, this is all that can abort it.
-/

namespace VectorMachine

/-!
## The shape of the store
-/

namespace Chunk

theorem follow_size (f : Frame) (s : State) (steps : List Step) :
    (follow f s steps).store.buffers.size = s.store.buffers.size := by
  induction steps generalizing s with
  | nil => rfl
  | cons step steps ih => rw [follow_cons, ih, perform_size]

end Chunk

namespace Machine

theorem runChunk_size (m : Machine) (i : Invocation) (chunk lanes : Nat) (store : Store) :
    (m.runChunk i chunk lanes store).1.buffers.size = store.buffers.size := by
  rw [runChunk_eq]
  show ((m.finish i chunk lanes store).store.buffers.take store.buffers.size).size = _
  unfold finish
  rw [Array.take_eq_extract, Array.size_extract, Chunk.follow_size]
  simp [start]

theorem exec_shape (m : Machine) (i : Invocation) (watch : Watch) (store : Store)
    (statistics : Statistics) :
    (m.exec i watch store statistics).store.buffers.size = store.buffers.size ∧
      forall buffer,
        (m.exec i watch store statistics).store.sizeOf buffer = store.sizeOf buffer := by
  apply @exec_keeps m i (fun after => after.buffers.size = store.buffers.size ∧
    forall buffer, after.sizeOf buffer = store.sizeOf buffer)
  · rintro _ k after _ ⟨hcount, hsizes⟩
    constructor
    · rw [runChunk_size, hcount]
    · intro buffer
      rw [Store.sizeOf_eq_of_has_iff (m.runChunk_has i k _ after), hsizes]
  · exact ⟨rfl, fun _ => rfl⟩

end Machine

namespace Batch

/-!
## Gathering
-/

theorem length_of_gather {frame : Option Frame} {columns : List Text} {lanes : List Vec4}
    (h : gather frame columns = .ok lanes) : lanes.length = rowsOf frame := by
  unfold gather at h
  split at h
  · cases h
  · rcases exists_of_bind_eq_ok h with ⟨numbers, _, hlanes⟩
    cases hlanes
    unfold vectorsOf
    rw [List.length_map, List.length_range]

theorem gatherFrom_eq_ok_iff {frame : Option Frame} {inputs : List (List Text)}
    {arrays : List (List Vec4)} (index : Nat) :
    gatherFrom frame index inputs = .ok arrays ↔
      List.Forall₂ (fun columns lanes => gather frame columns = .ok lanes) inputs arrays := by
  induction inputs generalizing index arrays with
  | nil =>
      rw [gatherFrom, List.forall₂_nil_left_iff]
      exact ⟨fun h => (Except.ok.inj h).symm, fun h => by rw [h]⟩
  | cons columns inputs ih =>
      rw [gatherFrom]
      constructor
      · intro h
        split at h
        · cases h
        next lanes hlanes =>
          split at h
          · cases h
          next others hothers =>
            cases h
            exact .cons hlanes ((ih (index + 1)).mp hothers)
      · intro h
        cases h with
        | cons hlanes hothers =>
            rw [hlanes]
            simp only [(ih (index + 1)).mpr hothers]

theorem lanes_le_of_lanesOf {o : Options} {rows lanes : Nat} (h : lanesOf o rows = .ok lanes) :
    lanes ≤ rows := by
  unfold lanesOf at h
  split at h
  · split at h
    · cases h
    · cases h
      omega
  · cases h
    exact Nat.le_refl _

theorem lanes_le_of_gatherFrom {frame : Option Frame} {o : Options} {lanes : Nat}
    {arrays : List (List Vec4)} (hlanes : lanesOf o (rowsOf frame) = .ok lanes)
    (h : gatherFrom frame 0 o.inputs = .ok arrays) :
    lanes ≤ rowsOf frame ∧ forall a, a ∈ arrays -> lanes ≤ a.length := by
  have hrows := lanes_le_of_lanesOf hlanes
  refine ⟨hrows, ?_⟩
  intro a ha
  rcases exists_of_mem_right ((gatherFrom_eq_ok_iff 0).mp h) ha with ⟨columns, _, hgather⟩
  rw [length_of_gather hgather]
  exact hrows

/-!
## Running
-/

theorem runLanes_eq_ok_iff {o : Options} {p : Program} {inputs : List (List Vec4)}
    {outputs lanes : Nat} {results : List (List Vec4)} :
    runLanes o p inputs outputs lanes = .ok results ↔
      (outcomeOf o p inputs outputs lanes).result = .ok () ∧
        results = ((outcomeOf o p inputs outputs lanes).store.buffers.toList.drop
          inputs.length).map (·.toList) := by
  unfold runLanes
  cases hresult : (outcomeOf o p inputs outputs lanes).result with
  | ok u =>
      simp only [true_and, hresult, Except.ok.injEq]
      exact eq_comm
  | error e =>
      simp only [hresult]
      constructor
      · intro h
        split at h
        next heq => cases heq
        · cases h
        · cases h
      · rintro ⟨h, _⟩
        cases h

theorem get?_of_runLanes {o : Options} {p : Program} {inputs : List (List Vec4)}
    {outputs lanes : Nat} {results : List (List Vec4)}
    (h : runLanes o p inputs outputs lanes = .ok results) {k : Nat} {r : List Vec4}
    (hr : results[k]? = some r) (lane : Nat) :
    r[lane]? = (outcomeOf o p inputs outputs lanes).store.get? ⟨inputs.length + k, lane⟩ := by
  rcases runLanes_eq_ok_iff.mp h with ⟨_, rfl⟩
  rw [List.getElem?_map, List.getElem?_drop, Array.getElem?_toList] at hr
  rcases Option.map_eq_some_iff.mp hr with ⟨buffer, hbuffer, rfl⟩
  unfold Store.get?
  dsimp only
  rw [hbuffer, Array.getElem?_toList]

theorem getElem?_storeOf_output {inputs : List (List Vec4)} {outputs k : Nat} (lanes : Nat)
    (hk : k < outputs) :
    (storeOf inputs outputs lanes).buffers[inputs.length + k]? =
      some (Array.replicate lanes Vec4.zero) := by
  unfold storeOf
  rw [Array.getElem?_append_right (by simp)]
  simp [hk]

theorem shape_of_outcomeOf (o : Options) (p : Program) (inputs : List (List Vec4))
    (outputs lanes : Nat) :
    (outcomeOf o p inputs outputs lanes).store.buffers.size = inputs.length + outputs ∧
      forall k, k < outputs ->
        (outcomeOf o p inputs outputs lanes).store.sizeOf (inputs.length + k) = lanes := by
  unfold outcomeOf
  rw [Machine.execParallel_eq_exec]
  rcases o.machine.exec_shape (invocationOf p inputs.length outputs lanes) o.runWatch
    (storeOf inputs outputs lanes) {} with ⟨hcount, hsizes⟩
  constructor
  · rw [hcount]
    simp [storeOf]
  · intro k hk
    rw [hsizes]
    unfold Store.sizeOf
    rw [getElem?_storeOf_output lanes hk]
    exact Array.size_replicate

/-- There is a result for every output, and in it a vector for every lane. -/
theorem shape_of_runLanes {o : Options} {p : Program} {inputs : List (List Vec4)}
    {outputs lanes : Nat} {results : List (List Vec4)}
    (h : runLanes o p inputs outputs lanes = .ok results) :
    results.length = outputs ∧ forall r, r ∈ results -> r.length = lanes := by
  rcases shape_of_outcomeOf o p inputs outputs lanes with ⟨hcount, hsizes⟩
  rcases runLanes_eq_ok_iff.mp h with ⟨_, rfl⟩
  constructor
  · rw [List.length_map, List.length_drop, Array.length_toList, hcount, Nat.add_sub_cancel_left]
  · intro r hr
    rcases List.mem_map.mp hr with ⟨buffer, hbuffer, rfl⟩
    rcases List.mem_iff_getElem?.mp hbuffer with ⟨k, hk⟩
    rw [List.getElem?_drop, Array.getElem?_toList] at hk
    have hlt := (Array.getElem?_eq_some_iff.mp hk).1
    have hsize := hsizes k (by omega)
    unfold Store.sizeOf at hsize
    rw [hk] at hsize
    exact hsize

/-!
## Scattering
-/

def columnsOf (entry : Output × List Vec4) : List Column :=
  (componentNames entry.1.name entry.1.components.toNat).zipIdx.map fun (name, k) => {
    name
    cells := .floats (entry.2.map fun v => Number.widen (v.toList[k]?.getD 0)) }

theorem scatter_eq (entry : Output × List Vec4) :
    scatter entry.1.name entry.2 entry.1.components =
      if 1 ≤ entry.1.components ∧ entry.1.components ≤ 4 then .ok (columnsOf entry)
      else .error (.componentCount entry.1.components) := rfl

theorem scatterAll_eq_ok_iff {entries : List (Output × List Vec4)} {columns : List Column} :
    scatterAll entries = .ok columns ↔
      (forall entry, entry ∈ entries -> 1 ≤ entry.1.components ∧ entry.1.components ≤ 4) ∧
        columns = entries.flatMap columnsOf := by
  induction entries generalizing columns with
  | nil =>
      rw [scatterAll]
      exact ⟨fun h => ⟨nofun, (Except.ok.inj h).symm⟩, fun h => by rw [h.2]; rfl⟩
  | cons entry entries ih =>
      rw [scatterAll, scatter_eq, List.forall_mem_cons, List.flatMap_cons]
      constructor
      · intro h
        by_cases hentry : 1 ≤ entry.1.components ∧ entry.1.components ≤ 4
        · rw [if_pos hentry] at h
          dsimp only at h
          split at h
          · cases h
          next more hmore =>
            cases h
            rcases ih.mp hmore with ⟨hentries, rfl⟩
            exact ⟨⟨hentry, hentries⟩, rfl⟩
        · rw [if_neg hentry] at h
          cases h
      · rintro ⟨⟨hentry, hentries⟩, rfl⟩
        rw [if_pos hentry]
        simp only [ih.mpr ⟨hentries, rfl⟩]

def columnNames (outputs : List Output) : List Text :=
  outputs.flatMap fun out => componentNames out.name out.components.toNat

theorem names_columnsOf (entry : Output × List Vec4) :
    (columnsOf entry).map (·.name) = componentNames entry.1.name entry.1.components.toNat := by
  unfold columnsOf
  rw [List.map_map]
  exact List.zipIdx_map_fst 0 _

theorem names_flatMap_columnsOf {outputs : List Output} {results : List (List Vec4)}
    (h : results.length = outputs.length) :
    ((outputs.zip results).flatMap columnsOf).map (·.name) = columnNames outputs := by
  unfold columnNames
  conv_rhs => rw [← List.map_fst_zip (Nat.le_of_eq h.symm)]
  rw [List.map_flatMap, List.flatMap_map]
  exact List.flatMap_congr fun entry _ => names_columnsOf entry

theorem size_of_mem_columnsOf {entry : Output × List Vec4} {c : Column}
    (h : c ∈ columnsOf entry) : c.size = entry.2.length := by
  rcases List.mem_map.mp h with ⟨_, _, rfl⟩
  exact List.length_map _

/-- Columns of results of one length make a frame unless two of them have one name. -/
theorem valid_columns_iff {outputs : List Output} {results : List (List Vec4)} {lanes : Nat}
    (hcount : results.length = outputs.length)
    (hlanes : forall r, r ∈ results -> r.length = lanes) :
    Frame.Valid ((outputs.zip results).flatMap columnsOf) ↔ (columnNames outputs).Nodup := by
  have hsize : forall c, c ∈ (outputs.zip results).flatMap columnsOf -> c.size = lanes := by
    intro c hc
    rcases List.mem_flatMap.mp hc with ⟨entry, hentry, hc⟩
    rw [size_of_mem_columnsOf hc, hlanes _ (List.of_mem_zip hentry).2]
  unfold Frame.Valid
  rw [names_flatMap_columnsOf hcount]
  constructor
  · intro h
    exact h.1
  · intro h
    exact ⟨h, fun c hc d hd => (hsize c hc).trans (hsize d hd).symm⟩

theorem nodup_columnNames_defaultOutputs (count : Nat) :
    (columnNames (defaultOutputs count)).Nodup := by
  have hnames : columnNames (defaultOutputs count) =
      (List.range count).map fun n => utf8 "out" ++ Text.ofNat n := by
    unfold columnNames defaultOutputs
    rw [List.flatMap_map, List.map_eq_flatMap]
    rfl
  have hinj : forall n k, utf8 "out" ++ Text.ofNat n = utf8 "out" ++ Text.ofNat k -> n = k := by
    intro n k h
    rw [← Text.valueOf_ofNat n, ← Text.valueOf_ofNat k, List.append_cancel_left h]
  rw [hnames]
  exact List.Nodup.map (fun n k h => hinj n k h) List.nodup_range

/-!
## Aborting
-/

def Aborts {α : Type} (x : Except Error α) : Prop :=
  exists e, x = .error e ∧ e.aborts = true

section Aborts

variable {α β : Type}

theorem aborts_error {e : Error} : Aborts (.error e : Except Error α) ↔ e.aborts = true := by
  constructor
  · rintro ⟨e', h, habort⟩
    cases h
    exact habort
  · intro h
    exact ⟨e, rfl, h⟩

theorem not_aborts_ok (a : α) : ¬Aborts (.ok a : Except Error α) := by
  rintro ⟨e, h, _⟩
  cases h

theorem aborts_bind {x : Except Error α} {g : α -> Except Error β} :
    Aborts (x >>= g) ↔ Aborts x ∨ exists a, x = .ok a ∧ Aborts (g a) := by
  cases x with
  | error e =>
      rw [error_bind, aborts_error, aborts_error]
      constructor
      · exact Or.inl
      · rintro (h | ⟨a, h, _⟩)
        · exact h
        · cases h
  | ok a =>
      rw [ok_bind]
      constructor
      · intro h
        exact Or.inr ⟨a, rfl, h⟩
      · rintro (h | ⟨b, h, habort⟩)
        · exact absurd h (not_aborts_ok a)
        · cases h
          exact habort

end Aborts

theorem aborts_outputsOf (o : Options) (p : Program) :
    Aborts (outputsOf o p) ↔
      o.outputs = none ∧ ¬(0 ≤ p.outputs ∧ p.outputs ≤ outputListLimit) := by
  unfold outputsOf
  cases o.outputs with
  | some outputs => simp [not_aborts_ok]
  | none =>
      by_cases h : 0 ≤ p.outputs ∧ p.outputs ≤ outputListLimit
      · simp [h, not_aborts_ok]
      · rw [if_neg h, aborts_error]
        exact ⟨fun _ => ⟨rfl, h⟩, fun _ => rfl⟩

theorem not_aborts_lanesOf (o : Options) (rows : Nat) : ¬Aborts (lanesOf o rows) := by
  unfold lanesOf
  split
  · split
    · rw [aborts_error]
      nofun
    · exact not_aborts_ok _
  · exact not_aborts_ok _

theorem not_aborts_gatherFrom (frame : Option Frame) (index : Nat) (inputs : List (List Text)) :
    ¬Aborts (gatherFrom frame index inputs) := by
  induction inputs generalizing index with
  | nil => exact not_aborts_ok _
  | cons columns inputs ih =>
      rw [gatherFrom]
      cases gather frame columns with
      | error e =>
          rw [aborts_error]
          nofun
      | ok lanes =>
          have hrest := ih (index + 1)
          cases hgather : gatherFrom frame (index + 1) inputs with
          | error e =>
              rw [hgather, aborts_error] at hrest
              simpa only [aborts_error] using hrest
          | ok arrays => exact not_aborts_ok _

theorem not_aborts_runLanes (o : Options) (p : Program) (inputs : List (List Vec4))
    (outputs lanes : Nat) : ¬Aborts (runLanes o p inputs outputs lanes) := by
  unfold runLanes
  dsimp only
  split
  · exact not_aborts_ok _
  · rw [aborts_error]
    nofun
  · rw [aborts_error]
    nofun

theorem not_aborts_scatterAll (entries : List (Output × List Vec4)) :
    ¬Aborts (scatterAll entries) := by
  induction entries with
  | nil => exact not_aborts_ok _
  | cons entry entries ih =>
      rw [scatterAll]
      cases scatter entry.1.name entry.2 entry.1.components with
      | error e =>
          rw [aborts_error]
          nofun
      | ok columns =>
          cases hrest : scatterAll entries with
          | error e =>
              rw [hrest, aborts_error] at ih
              simpa only [aborts_error] using ih
          | ok more => exact not_aborts_ok _

theorem aborts_frameOf (columns : List Column) :
    Aborts (frameOf columns) ↔ ¬Frame.Valid columns := by
  unfold frameOf Frame.ofColumns?
  cases columns with
  | nil => simp [not_aborts_ok, Frame.Valid]
  | cons c columns =>
      by_cases h : Frame.Valid (c :: columns)
      · simp [h, not_aborts_ok]
      · rw [dif_neg h]
        exact ⟨fun _ => h, fun _ => ⟨.clashingColumns, rfl, rfl⟩⟩

theorem run_eq (p : Program) (frame : Option Frame) (o : Options) :
    run (some p) frame o =
      if (o.inputs.length : Int) < p.inputs then .error (.inputCount p.inputs o.inputs.length)
      else
        outputsOf o p >>= fun outputs =>
          if (outputs.length : Int) < p.outputs then
            .error (.outputCount p.outputs outputs.length)
          else
            lanesOf o (rowsOf frame) >>= fun lanes =>
              gatherFrom frame 0 o.inputs >>= fun inputs =>
                if outputs ≠ [] ∧ laneListLimit < (lanes : Int) then
                  .error (.outputListSize lanes)
                else
                  runLanes o p (inputs.map (·.take lanes)) outputs.length lanes >>=
                    fun results => scatterAll (outputs.zip results) >>= frameOf := by
  unfold run
  dsimp only
  split
  · rfl
  · apply bind_congr
    intro outputs
    split
    · rfl
    · apply bind_congr
      intro lanes
      apply bind_congr
      intro inputs
      split <;> rfl

/-- What the steps of a run come to when none of them fails. -/
structure Stages (p : Program) (frame : Option Frame) (o : Options) (outputs : List Output)
    (lanes : Nat) (inputs results : List (List Vec4)) (columns : List Column) : Prop where
  reads : p.inputs ≤ o.inputs.length
  outputs_eq : outputsOf o p = .ok outputs
  writes : p.outputs ≤ outputs.length
  lanes_eq : lanesOf o (rowsOf frame) = .ok lanes
  gathered : gatherFrom frame 0 o.inputs = .ok inputs
  limit : ¬(outputs ≠ [] ∧ laneListLimit < (lanes : Int))
  ran : runLanes o p (inputs.map (·.take lanes)) outputs.length lanes = .ok results
  scattered : scatterAll (outputs.zip results) = .ok columns

theorem run_eq_ok_iff {p : Program} {frame : Option Frame} {o : Options}
    {result : Option Frame} :
    run (some p) frame o = .ok result ↔
      exists outputs lanes inputs results columns,
        Stages p frame o outputs lanes inputs results columns ∧
          frameOf columns = .ok result := by
  rw [run_eq]
  constructor
  · intro h
    split at h
    · cases h
    next hreads =>
      rcases exists_of_bind_eq_ok h with ⟨outputs, houtputs, h⟩
      split at h
      · cases h
      next hwrites =>
        rcases exists_of_bind_eq_ok h with ⟨lanes, hlanes, h⟩
        rcases exists_of_bind_eq_ok h with ⟨inputs, hinputs, h⟩
        split at h
        · cases h
        next hlimit =>
          rcases exists_of_bind_eq_ok h with ⟨results, hresults, h⟩
          rcases exists_of_bind_eq_ok h with ⟨columns, hcolumns, h⟩
          exact ⟨outputs, lanes, inputs, results, columns, ⟨Int.not_lt.mp hreads, houtputs,
            Int.not_lt.mp hwrites, hlanes, hinputs, hlimit, hresults, hcolumns⟩, h⟩
  · rintro ⟨outputs, lanes, inputs, results, columns, h, hframe⟩
    rw [if_neg (Int.not_lt.mpr h.reads), h.outputs_eq, ok_bind,
      if_neg (Int.not_lt.mpr h.writes), h.lanes_eq, ok_bind, h.gathered, ok_bind,
      if_neg h.limit, h.ran, ok_bind, h.scattered, ok_bind, hframe]

theorem aborts_runLanes_bind (o : Options) (p : Program) (inputs : List (List Vec4))
    (outputs : List Output) (lanes : Nat) :
    Aborts (runLanes o p inputs outputs.length lanes >>= fun results =>
        scatterAll (outputs.zip results) >>= frameOf) ↔
      (exists results, runLanes o p inputs outputs.length lanes = .ok results) ∧
        (forall out, out ∈ outputs -> 1 ≤ out.components ∧ out.components ≤ 4) ∧
          ¬(columnNames outputs).Nodup := by
  rw [aborts_bind]
  simp only [not_aborts_runLanes, false_or]
  constructor
  · rintro ⟨results, hresults, habort⟩
    rcases shape_of_runLanes hresults with ⟨hcount, hlanes⟩
    rcases (aborts_bind.mp habort).resolve_left (not_aborts_scatterAll _)
      with ⟨columns, hcolumns, hframe⟩
    rcases scatterAll_eq_ok_iff.mp hcolumns with ⟨hcomponents, rfl⟩
    rw [aborts_frameOf, valid_columns_iff hcount hlanes] at hframe
    refine ⟨⟨results, hresults⟩, ?_, hframe⟩
    intro out hout
    rw [← List.map_fst_zip (Nat.le_of_eq hcount.symm)] at hout
    rcases List.mem_map.mp hout with ⟨entry, hentry, rfl⟩
    exact hcomponents entry hentry
  · rintro ⟨⟨results, hresults⟩, hcomponents, hnames⟩
    rcases shape_of_runLanes hresults with ⟨hcount, hlanes⟩
    refine ⟨results, hresults,
      aborts_bind.mpr (Or.inr ⟨_, scatterAll_eq_ok_iff.mpr ⟨?_, rfl⟩, ?_⟩)⟩
    · intro entry hentry
      exact hcomponents entry.1 (List.of_mem_zip hentry).1
    · rw [aborts_frameOf, valid_columns_iff hcount hlanes]
      exact hnames

theorem aborts_lanesOf_bind (o : Options) (p : Program) (frame : Option Frame)
    (outputs : List Output) :
    Aborts (lanesOf o (rowsOf frame) >>= fun lanes =>
        gatherFrom frame 0 o.inputs >>= fun inputs =>
          if outputs ≠ [] ∧ laneListLimit < (lanes : Int) then .error (.outputListSize lanes)
          else
            runLanes o p (inputs.map (·.take lanes)) outputs.length lanes >>= fun results =>
              scatterAll (outputs.zip results) >>= frameOf) ↔
      exists lanes inputs, lanesOf o (rowsOf frame) = .ok lanes ∧
        gatherFrom frame 0 o.inputs = .ok inputs ∧
        ((outputs ≠ [] ∧ laneListLimit < (lanes : Int)) ∨
          ((exists results, runLanes o p (inputs.map (·.take lanes)) outputs.length lanes =
              .ok results) ∧
            (forall out, out ∈ outputs -> 1 ≤ out.components ∧ out.components ≤ 4) ∧
              ¬(columnNames outputs).Nodup)) := by
  constructor
  · intro h
    rcases (aborts_bind.mp h).resolve_left (not_aborts_lanesOf o _) with ⟨lanes, hlanes, h⟩
    rcases (aborts_bind.mp h).resolve_left (not_aborts_gatherFrom frame 0 _)
      with ⟨inputs, hinputs, h⟩
    refine ⟨lanes, inputs, hlanes, hinputs, ?_⟩
    by_cases hlimit : outputs ≠ [] ∧ laneListLimit < (lanes : Int)
    · exact Or.inl hlimit
    · rw [if_neg hlimit, aborts_runLanes_bind] at h
      exact Or.inr h
  · rintro ⟨lanes, inputs, hlanes, hinputs, h⟩
    refine aborts_bind.mpr (Or.inr ⟨lanes, hlanes, ?_⟩)
    refine aborts_bind.mpr (Or.inr ⟨inputs, hinputs, ?_⟩)
    by_cases hlimit : outputs ≠ [] ∧ laneListLimit < (lanes : Int)
    · rw [if_pos hlimit, aborts_error]
      rfl
    · rw [if_neg hlimit, aborts_runLanes_bind]
      exact h.resolve_left hlimit

theorem outputs_of_clash {o : Options} {p : Program} {outputs : List Output}
    (h : outputsOf o p = .ok outputs) (hclash : ¬(columnNames outputs).Nodup) :
    o.outputs = some outputs := by
  unfold outputsOf at h
  cases houtputs : o.outputs with
  | some given =>
      rw [houtputs] at h
      cases h
      rfl
  | none =>
      rw [houtputs] at h
      dsimp only at h
      split at h
      · cases h
        exact absurd (nodup_columnNames_defaultOutputs _) hclash
      · cases h

theorem outputs_of_assemble {text : Text} {p : Program} (h : Assembly.assemble text = .ok p) :
    0 ≤ p.outputs ∧ p.outputs ≤ Slot.outputLimit := by
  rcases Assembly.assemble_eq_ok h with ⟨source, defined, instructions, _, hassembled, rfl⟩
  exact ⟨Int.natCast_nonneg _,
    Int.ofNat_le.mpr (Assembly.usage_le_of_assembled hassembled nofun)⟩

/-- A run aborts exactly where the number of outputs that a program declares makes no
list, where an output has more lanes than make a list, and where all goes well but for two
output columns of one name, which the caller has given.  The arrays that are gathered are
never shorter than they are cut, and an assembled program declares no more outputs than
there are registers. -/
theorem run_aborts_iff (p : Program) (frame : Option Frame) (o : Options) :
    (Aborts (run (some p) frame o) ↔
      p.inputs ≤ o.inputs.length ∧
        ((o.outputs = none ∧ ¬(0 ≤ p.outputs ∧ p.outputs ≤ outputListLimit)) ∨
          exists outputs lanes inputs, outputsOf o p = .ok outputs ∧
            p.outputs ≤ outputs.length ∧ lanesOf o (rowsOf frame) = .ok lanes ∧
            gatherFrom frame 0 o.inputs = .ok inputs ∧
            ((outputs ≠ [] ∧ laneListLimit < (lanes : Int)) ∨
              (o.outputs = some outputs ∧ ¬(columnNames outputs).Nodup ∧
                (forall out, out ∈ outputs -> 1 ≤ out.components ∧ out.components ≤ 4) ∧
                exists results, runLanes o p (inputs.map (·.take lanes)) outputs.length lanes =
                  .ok results)))) ∧
    (forall lanes inputs, lanesOf o (rowsOf frame) = .ok lanes ->
      gatherFrom frame 0 o.inputs = .ok inputs -> forall a, a ∈ inputs -> lanes ≤ a.length) ∧
    (forall text, Assembly.assemble text = .ok p ->
      0 ≤ p.outputs ∧ p.outputs ≤ outputListLimit) := by
  refine ⟨?_, fun lanes inputs hlanes hinputs => (lanes_le_of_gatherFrom hlanes hinputs).2, ?_⟩
  · rw [run_eq]
    by_cases hcount : (o.inputs.length : Int) < p.inputs
    · rw [if_pos hcount, aborts_error]
      constructor
      · nofun
      · rintro ⟨h, _⟩
        exact absurd hcount (Int.not_lt.mpr h)
    · rw [if_neg hcount, aborts_bind, aborts_outputsOf]
      constructor
      · rintro (h | ⟨outputs, houtputs, h⟩)
        · exact ⟨Int.not_lt.mp hcount, Or.inl h⟩
        · refine ⟨Int.not_lt.mp hcount, Or.inr ?_⟩
          by_cases hwrites : (outputs.length : Int) < p.outputs
          · rw [if_pos hwrites, aborts_error] at h
            cases h
          · rw [if_neg hwrites, aborts_lanesOf_bind] at h
            rcases h with
              ⟨lanes, inputs, hlanes, hinputs, hlimit | ⟨hresults, hcomponents, hclash⟩⟩
            · exact ⟨outputs, lanes, inputs, houtputs, Int.not_lt.mp hwrites, hlanes, hinputs,
                Or.inl hlimit⟩
            · exact ⟨outputs, lanes, inputs, houtputs, Int.not_lt.mp hwrites, hlanes, hinputs,
                Or.inr ⟨outputs_of_clash houtputs hclash, hclash, hcomponents, hresults⟩⟩
      · rintro ⟨_, h | ⟨outputs, lanes, inputs, houtputs, hwrites, hlanes, hinputs, h⟩⟩
        · exact Or.inl h
        · refine Or.inr ⟨outputs, houtputs, ?_⟩
          rw [if_neg (Int.not_lt.mpr hwrites), aborts_lanesOf_bind]
          refine ⟨lanes, inputs, hlanes, hinputs, ?_⟩
          rcases h with hlimit | ⟨_, hclash, hcomponents, hresults⟩
          · exact Or.inl hlimit
          · exact Or.inr ⟨hresults, hcomponents, hclash⟩
  · intro text h
    rcases outputs_of_assemble h with ⟨hlow, hhigh⟩
    exact ⟨hlow, Int.le_trans hhigh (by decide)⟩

def twofold : Program where
  code := some [9, 40, 0, 8, 9, 41, 0, 8, 0]
  inputs := 1
  outputs := 2

def pair : Frame where
  columns := [⟨utf8 "a", .floats [1, 2]⟩]
  valid := by decide

def namesakes : Options where
  inputs := [[utf8 "a"]]
  outputs := some [⟨utf8 "x", 1⟩, ⟨utf8 "x", 1⟩]

theorem run_aborts_namesakes :
    Assembly.assemble (utf8 "neg o0, i0\nneg o1, i0\n") = .ok twofold ∧
      Aborts (run (some twofold) (some pair) namesakes) ∧
      2 ≤ [Vec4.ofList [1], Vec4.ofList [2]].length ∧
      0 ≤ twofold.outputs ∧ twofold.outputs ≤ outputListLimit := by
  have hassemble : Assembly.assemble (utf8 "neg o0, i0\nneg o1, i0\n") = .ok twofold := by
    decide +kernel
  have hgather : gatherFrom (some pair) 0 namesakes.inputs =
      .ok [[Vec4.ofList [1], Vec4.ofList [2]]] := by decide +kernel
  rcases run_aborts_iff twofold (some pair) namesakes with ⟨habort, hcut, hassembled⟩
  refine ⟨hassemble, habort.mpr ⟨by decide, Or.inr ?_⟩,
    hcut 2 _ rfl hgather _ List.mem_cons_self, hassembled _ hassemble⟩
  refine ⟨_, 2, _, rfl, by decide, rfl, hgather, Or.inr ⟨rfl, by decide, by decide, ?_⟩⟩
  exact ⟨[[Vec4.ofList [-1, -0, -0, -0], Vec4.ofList [-2, -0, -0, -0]],
    [Vec4.ofList [-1, -0, -0, -0], Vec4.ofList [-2, -0, -0, -0]]], by decide +kernel⟩

def deficient : Program where
  code := some [0]
  outputs := -1

theorem run_aborts_deficient :
    Container.deserialize
          [86, 86, 66, 67, 1, 0, 10, 0, 0, 0, 164, 1, 65, 0, 2, 246, 3, 0, 4, 32] =
        .ok deficient ∧
      Aborts (run (some deficient) none {}) := by
  refine ⟨by decide +kernel, .outputListSize (-1), ?_, rfl⟩
  decide +kernel

end Batch
end VectorMachine
