import VectorMachine.Proofs.BatchRun
import VectorMachine.Proofs.LaneIndependence

/-!
# Rows of a batch run

A batch run that draws no random number treats every row on its own: run over a block
of rows, it gives the block of what it gives over all of them.
-/

namespace VectorMachine

/-!
## Blocks
-/

section Block

variable {α β : Type}

def block (start count : Nat) (xs : List α) : List α :=
  (xs.drop start).take count

theorem length_block {start count : Nat} {xs : List α} (h : start + count ≤ xs.length) :
    (block start count xs).length = count := by
  unfold block
  rw [List.length_take, List.length_drop]
  omega

theorem getElem?_block {count k : Nat} (hk : k < count) (start : Nat) (xs : List α) :
    (block start count xs)[k]? = xs[start + k]? := by
  unfold block
  rw [List.getElem?_take_of_lt hk, List.getElem?_drop]

theorem map_block (g : α -> β) (start count : Nat) (xs : List α) :
    (block start count xs).map g = block start count (xs.map g) := by
  unfold block
  rw [List.map_take, List.map_drop]

theorem take_block (start count : Nat) (xs : List α) :
    (block start count xs).take count = block start count xs := by
  unfold block
  rw [List.take_take, Nat.min_self]

theorem block_range {start count rows : Nat} (h : start + count ≤ rows) :
    block start count (List.range rows) = (List.range count).map (start + ·) := by
  apply List.ext_getElem?
  intro k
  by_cases hk : k < count
  · rw [getElem?_block hk, List.getElem?_map, List.getElem?_range (by omega),
      List.getElem?_range hk]
    rfl
  · have hlength : (block start count (List.range rows)).length = count :=
      length_block (by rwa [List.length_range])
    rw [List.getElem?_eq_none (by omega), List.getElem?_eq_none (by simpa using hk)]

theorem forall₂_block {r : α -> β -> Prop} {xs : List α} {ys : List β}
    (h : List.Forall₂ r xs ys) (start count : Nat) :
    List.Forall₂ r (block start count xs) (block start count ys) :=
  List.forall₂_take count (List.forall₂_drop start h)

end Block

namespace Cells

def block (start count : Nat) : Cells -> Cells
  | floats xs => floats (VectorMachine.block start count xs)
  | integers ns => integers (VectorMachine.block start count ns)
  | texts ts => texts (VectorMachine.block start count ts)
  | times ts => times (VectorMachine.block start count ts)
  | mixed vs => mixed (VectorMachine.block start count vs)

theorem size_block (start count : Nat) (c : Cells) :
    (c.block start count).size = min count (c.size - start) := by
  cases c <;> simp [block, size, VectorMachine.block]

theorem values_block (start count : Nat) (c : Cells) :
    (c.block start count).values = VectorMachine.block start count c.values := by
  cases c <;> exact map_block _ start count _

end Cells

def Column.block (start count : Nat) (c : Column) : Column :=
  { c with cells := c.cells.block start count }

namespace Frame

theorem Valid.block {columns : List Column} (h : Valid columns) (start count : Nat) :
    Valid (columns.map (·.block start count)) := by
  rcases h with ⟨hnames, hsizes⟩
  constructor
  · rw [List.map_map]
    exact hnames
  · intro a ha b hb
    rcases List.mem_map.mp ha with ⟨c, hc, rfl⟩
    rcases List.mem_map.mp hb with ⟨d, hd, rfl⟩
    have hsize : c.cells.size = d.cells.size := hsizes c hc d hd
    show (c.cells.block start count).size = (d.cells.block start count).size
    rw [Cells.size_block, Cells.size_block, hsize]

def block (start count : Nat) (f : Frame) : Frame where
  columns := f.columns.map (·.block start count)
  valid := f.valid.block start count

theorem rows_block {start count : Nat} {f : Frame} (hcount : 1 ≤ count)
    (h : start + count ≤ f.rows) : (f.block start count).rows = count := by
  rcases f with ⟨columns, valid⟩
  cases columns with
  | nil =>
      have h : start + count ≤ 0 := h
      omega
  | cons c columns =>
      have h : start + count ≤ c.cells.size := h
      show (c.cells.block start count).size = count
      rw [Cells.size_block]
      omega

theorem column?_block (start count : Nat) (f : Frame) (name : Text) :
    (f.block start count).column? name = (f.column? name).map (·.block start count) := by
  unfold column? block
  rw [List.find?_map]
  rfl

end Frame

/-!
## Gathering
-/

theorem mapError_eq_ok_iff {ε ε' α : Type} {g : ε -> ε'} {x : Except ε α} {a : α} :
    x.mapError g = .ok a ↔ x = .ok a := by
  cases x with
  | ok b =>
      constructor
      · intro h
        cases h
        rfl
      · intro h
        cases h
        rfl
  | error e =>
      constructor
      · intro h
        cases h
      · intro h
        cases h

theorem numbersOfColumn_eq_ok_iff {c : Column} {numbers : List Float32} :
    numbersOfColumn c = .ok numbers ↔
      (forall ts, c.cells ≠ .texts ts) ∧
        List.Forall₂ (fun cell x => numberOfCell cell = .ok x) c.cells.values numbers := by
  unfold numbersOfColumn
  split
  next ts hts =>
    constructor
    · intro h
      cases h
    · rintro ⟨hkind, _⟩
      exact absurd hts (hkind ts)
  next hkind =>
    have hcells :
        List.Forall₂ (fun cell x => numberOfCell cell = .ok x) c.cells.values numbers ↔
        List.Forall₂ (fun (entry : Option Value × Nat) x => (numberOfCell entry.1).mapError
          (fun type => LaneError.nonNumericCell c.name entry.2 type) = .ok x)
            c.cells.values.zipIdx numbers := by
      conv_lhs => rw [← List.zipIdx_map_fst 0 c.cells.values, List.forall₂_map_left_iff]
      simp only [mapError_eq_ok_iff]
    rw [hcells]
    constructor
    · intro h
      exact ⟨hkind, forall₂_of_mapM_eq_ok h⟩
    · rintro ⟨_, h⟩
      exact mapM_eq_ok_of_forall₂ h

theorem numbersOfColumn_block {c : Column} {numbers : List Float32}
    (h : numbersOfColumn c = .ok numbers) (start count : Nat) :
    numbersOfColumn (c.block start count) = .ok (block start count numbers) := by
  rw [numbersOfColumn_eq_ok_iff] at h ⊢
  rcases h with ⟨hkind, hcells⟩
  constructor
  · intro ts hts
    cases hc : c.cells with
    | texts ts => exact hkind ts hc
    | _ =>
        have hts : c.cells.block start count = .texts ts := hts
        rw [hc] at hts
        cases hts
  · show List.Forall₂ _ (c.cells.block start count).values _
    rw [Cells.values_block]
    exact forall₂_block hcells start count

theorem vectorsOf_block {start count rows : Nat} (h : start + count ≤ rows)
    (columns : List (List Float32)) :
    vectorsOf count (columns.map (block start count)) =
      block start count (vectorsOf rows columns) := by
  unfold vectorsOf
  rw [← map_block, block_range h, List.map_map]
  apply List.map_congr_left
  intro row hrow
  have hrow : row < count := List.mem_range.mp hrow
  simp only [Function.comp_apply, List.map_map]
  congr 1
  apply List.map_congr_left
  intro column _
  rw [Function.comp_apply, getElem?_block hrow]

theorem gather_block {f : Frame} {columns : List Text} {lanes : List Vec4} {start count : Nat}
    (hcount : 1 ≤ count) (hend : start + count ≤ f.rows)
    (h : gather (some f) columns = .ok lanes) :
    gather (some (f.block start count)) columns = .ok (block start count lanes) := by
  unfold gather at h ⊢
  split at h
  · cases h
  next hlength =>
    rw [if_neg hlength]
    rcases exists_of_bind_eq_ok h with ⟨numbers, hnumbers, hlanes⟩
    cases hlanes
    have hblocks : columns.mapM (fun name => do
        numbersOfColumn (← findColumn (some (f.block start count)) name)) =
          .ok (numbers.map (block start count)) := by
      apply mapM_eq_ok_of_forall₂
      rw [List.forall₂_map_right_iff]
      apply List.Forall₂.imp _ (forall₂_of_mapM_eq_ok hnumbers)
      intro name column hcolumn
      rcases exists_of_bind_eq_ok hcolumn with ⟨c, hc, hcolumn⟩
      have hfound : findColumn (some (f.block start count)) name =
          .ok (c.block start count) := by
        unfold findColumn at hc ⊢
        rw [Option.bind_some, Frame.column?_block]
        rw [Option.bind_some] at hc
        cases hfind : f.column? name with
        | none =>
            rw [hfind] at hc
            cases hc
        | some d =>
            rw [hfind] at hc
            cases hc
            rfl
      rw [hfound]
      exact numbersOfColumn_block hcolumn start count
    rw [hblocks, ok_bind]
    show Except.ok (vectorsOf (f.block start count).rows _) = _
    rw [Frame.rows_block hcount hend, vectorsOf_block hend]
    rfl

namespace Batch

open Invocation

theorem gatherFrom_block {f : Frame} {inputs : List (List Text)} {arrays : List (List Vec4)}
    {start count : Nat} (hcount : 1 ≤ count) (hend : start + count ≤ f.rows)
    (h : gatherFrom (some f) 0 inputs = .ok arrays) :
    gatherFrom (some (f.block start count)) 0 inputs =
      .ok (arrays.map (block start count)) := by
  rw [gatherFrom_eq_ok_iff] at h ⊢
  rw [List.forall₂_map_right_iff]
  exact List.Forall₂.imp (fun _ _ => gather_block hcount hend) h

/-!
## The arrays of a run
-/

section Arrays

variable (p : Program) (inputs outputs lanes : Nat)

theorem arrays_invocationOf :
    (invocationOf p inputs outputs lanes).arrays = windowsFrom 0 (inputs + outputs) lanes := by
  unfold arrays invocationOf windowsFrom
  simp only [List.range_add, List.map_append, List.map_map, Nat.zero_add]
  rfl

theorem mem_windowsFrom {first count : Nat} {w : Window} :
    w ∈ windowsFrom first count lanes ↔ exists k, k < count ∧ w = ⟨first + k, 0, lanes⟩ := by
  unfold windowsFrom
  rw [List.mem_map]
  constructor
  · rintro ⟨k, hk, rfl⟩
    exact ⟨k, List.mem_range.mp hk, rfl⟩
  · rintro ⟨k, hk, rfl⟩
    exact ⟨k, List.mem_range.mpr hk, rfl⟩

theorem single_invocationOf {k : Nat} (hk : k < inputs + outputs) :
    (invocationOf p inputs outputs lanes).single ⟨k, 0, lanes⟩ = ⟨k, 0, 1⟩ := by
  have hnodup : (windowsFrom 0 (inputs + outputs) lanes).Nodup := by
    apply List.Nodup.map _ List.nodup_range
    intro a b hab
    injection hab with hbuffer
    omega
  have hlength : k < (windowsFrom 0 (inputs + outputs) lanes).length := by
    unfold windowsFrom
    rwa [List.length_map, List.length_range]
  have hget : (windowsFrom 0 (inputs + outputs) lanes)[k] = ⟨k, 0, lanes⟩ := by
    simp [windowsFrom]
  unfold single
  rw [arrays_invocationOf, ← hget, hnodup.idxOf_getElem k hlength]

theorem oneLane_invocationOf :
    (invocationOf p inputs outputs lanes).oneLane = invocationOf p inputs outputs 1 := by
  have hmap : forall first count, first + count ≤ inputs + outputs ->
      (windowsFrom first count lanes).map (invocationOf p inputs outputs lanes).single =
        windowsFrom first count 1 := by
    intro first count hle
    unfold windowsFrom
    rw [List.map_map]
    apply List.map_congr_left
    intro k hk
    have hk := List.mem_range.mp hk
    exact single_invocationOf p inputs outputs lanes (by omega)
  unfold oneLane
  show Invocation.mk _ _ ((windowsFrom 0 inputs lanes).map _)
    ((windowsFrom inputs outputs lanes).map _) _ = _
  rw [hmap 0 inputs (by omega), hmap inputs outputs (Nat.le_refl _)]
  rfl

theorem plan_invocationOf (m : Machine) (count : Nat) :
    m.plan (invocationOf p inputs outputs count) =
      m.plan (invocationOf p inputs outputs lanes) := by
  rw [← m.plan_oneLane (invocationOf p inputs outputs count),
    ← m.plan_oneLane (invocationOf p inputs outputs lanes), oneLane_invocationOf,
    oneLane_invocationOf]

variable {lanes}

theorem lanes_invocationOf (h : lanes ≤ 2 ^ 63 - 128) :
    (invocationOf p inputs outputs lanes).lanes.toInt = lanes :=
  Int64.toInt_ofNat_of_lt (by omega)

theorem countable_invocationOf (h : lanes ≤ 2 ^ 63 - 128) :
    (invocationOf p inputs outputs lanes).Countable := by
  unfold Invocation.Countable
  rw [lanes_invocationOf p inputs outputs h]
  omega

theorem laneCount_invocationOf (h : lanes ≤ 2 ^ 63 - 128) :
    (invocationOf p inputs outputs lanes).laneCount = lanes := by
  unfold laneCount
  rw [lanes_invocationOf p inputs outputs h, Int.toNat_natCast]

theorem shapeError?_invocationOf {count : Nat} (hcount : count ≤ 2 ^ 63 - 128)
    (h : (invocationOf p inputs outputs lanes).shapeError? = none) :
    (invocationOf p inputs outputs count).shapeError? = none := by
  rw [shapeError?_eq_none_iff, arrays_invocationOf] at h ⊢
  rw [lanes_invocationOf p inputs outputs hcount]
  rcases h with ⟨_, hinputs, houtputs, hconstants, _⟩
  refine ⟨Int.natCast_nonneg count, ?_, ?_, hconstants, ?_⟩
  · simpa [invocationOf, windowsFrom] using hinputs
  · simpa [invocationOf, windowsFrom] using houtputs
  · intro w hw
    rcases (mem_windowsFrom count).mp hw with ⟨k, _, rfl⟩
    exact Int.le_refl _

end Arrays

theorem get?_storeOf_input {inputs : List (List Vec4)} {k : Nat} (hk : k < inputs.length)
    (outputs lanes lane : Nat) :
    (storeOf inputs outputs lanes).get? ⟨k, lane⟩ = (inputs[k])[lane]? := by
  unfold storeOf Store.get?
  simp [Array.getElem?_append_left, hk]

theorem get?_storeOf_output {inputs : List (List Vec4)} {outputs k : Nat} (hk : k < outputs)
    {lanes lane : Nat} (hlane : lane < lanes) :
    (storeOf inputs outputs lanes).get? ⟨inputs.length + k, lane⟩ = some Vec4.zero := by
  unfold Store.get?
  dsimp only
  rw [getElem?_storeOf_output lanes hk]
  simp [hlane]

theorem wellPlaced_storeOf (p : Program) {inputs : List (List Vec4)} {lanes : Nat}
    (h : forall a, a ∈ inputs -> lanes ≤ a.length) (outputs : Nat) :
    (invocationOf p inputs.length outputs lanes).WellPlaced (storeOf inputs outputs lanes) where
  inside := by
    intro w hw
    rw [arrays_invocationOf, mem_windowsFrom] at hw
    rcases hw with ⟨k, hk, rfl⟩
    show 0 + lanes ≤ (storeOf inputs outputs lanes).sizeOf (0 + k)
    rw [Nat.zero_add, Nat.zero_add]
    unfold Store.sizeOf
    by_cases hinput : k < inputs.length
    · have hbuffer : (storeOf inputs outputs lanes).buffers[k]? = some (inputs[k]).toArray := by
        simp [storeOf, Array.getElem?_append_left, hinput]
      rw [hbuffer]
      exact h _ (List.getElem_mem hinput)
    · have houtput :=
        @getElem?_storeOf_output inputs outputs (k - inputs.length) lanes (by omega)
      rw [Nat.add_sub_cancel' (Nat.not_lt.mp hinput)] at houtput
      rw [houtput]
      simp
  apart := by
    intro w v hw hv
    rw [arrays_invocationOf, mem_windowsFrom] at hw hv
    rcases hw with ⟨a, _, rfl⟩
    rcases hv with ⟨b, _, rfl⟩
    by_cases hab : a = b
    · exact Or.inl (by rw [hab])
    · right
      intro i j _ _ hcell
      have hbuffer : 0 + a = 0 + b := congrArg Cell.buffer hcell
      omega

theorem get?_storeOf_block {inputs : List (List Vec4)} {start count lanes lane : Nat}
    (hend : start + count ≤ lanes) (hlane : lane < count) {outputs k : Nat}
    (hk : k < inputs.length + outputs) :
    (storeOf (inputs.map (block start count)) outputs count).get? ⟨k, lane⟩ =
      (storeOf inputs outputs lanes).get? ⟨k, start + lane⟩ := by
  by_cases hinput : k < inputs.length
  · have hblock : k < (inputs.map (block start count)).length := by rwa [List.length_map]
    rw [get?_storeOf_input hblock, get?_storeOf_input hinput, List.getElem_map,
      getElem?_block hlane]
  · have hout : k - inputs.length < outputs := by omega
    have hsplit : k = inputs.length + (k - inputs.length) := by omega
    have hwhole := @get?_storeOf_output inputs outputs _ hout lanes (start + lane) (by omega)
    have hblock := @get?_storeOf_output (inputs.map (block start count)) outputs _ hout count
      lane hlane
    rw [List.length_map] at hblock
    rw [hsplit, hwhole, hblock]

theorem laneStore_block (p : Program) {inputs : List (List Vec4)} {start count lanes lane : Nat}
    (hend : start + count ≤ lanes) (hlane : lane < count) (outputs : Nat) :
    (invocationOf p inputs.length outputs count).laneStore
        (storeOf (inputs.map (block start count)) outputs count) lane =
      (invocationOf p inputs.length outputs lanes).laneStore (storeOf inputs outputs lanes)
        (start + lane) := by
  unfold laneStore
  rw [arrays_invocationOf, arrays_invocationOf]
  unfold windowsFrom
  rw [List.map_map, List.map_map]
  congr 2
  apply List.map_congr_left
  intro k hk
  have hcell := @get?_storeOf_block inputs start count lanes lane hend hlane outputs k
    (List.mem_range.mp hk)
  simp only [Function.comp_apply, Window.cell, Nat.zero_add, Store.get, hcell]

/-!
## Running
-/

theorem outcomeOf_eq {o : Options} (hwatch : o.runWatch.passes = none) (p : Program)
    (inputs : List (List Vec4)) (outputs lanes : Nat) :
    outcomeOf o p inputs outputs lanes =
      o.machine.exec (invocationOf p inputs.length outputs lanes) .always
        (storeOf inputs outputs lanes) {} := by
  unfold outcomeOf
  rw [Machine.execParallel_eq_exec, Machine.exec_of_passes hwatch]

/-- Where nothing is drawn, a lane of the arrays comes to what the code makes of its
vectors alone. -/
theorem exec_get?_invocationOf {m : Machine} {p : Program} {inputs : List (List Vec4)}
    {outputs lanes : Nat} (hlanes : lanes ≤ 2 ^ 63 - 128)
    (hlengths : forall a, a ∈ inputs -> lanes ≤ a.length)
    (hshape : (invocationOf p inputs.length outputs lanes).shapeError? = none)
    (hfault : (m.plan (invocationOf p inputs.length outputs lanes)).2 = none)
    (hdraws : .random ∉
      (m.plan (invocationOf p inputs.length outputs lanes)).1.map Chunk.Step.op)
    {k lane : Nat} (hk : k < inputs.length + outputs) (hlane : lane < lanes) :
    (m.exec (invocationOf p inputs.length outputs lanes) .always (storeOf inputs outputs lanes)
        {}).store.get? ⟨k, lane⟩ =
      (m.runChunk (invocationOf p inputs.length outputs 1) 0 1
        ((invocationOf p inputs.length outputs lanes).laneStore (storeOf inputs outputs lanes)
          lane)).1.get? ⟨k, 0⟩ := by
  have hrun := Machine.exec_lanewise hshape (countable_invocationOf p _ outputs hlanes) hfault
    hdraws (wellPlaced_storeOf p hlengths outputs) {}
  have hmem : Window.mk k 0 lanes ∈ (invocationOf p inputs.length outputs lanes).arrays := by
    rw [arrays_invocationOf, mem_windowsFrom]
    exact ⟨k, hk, by rw [Nat.zero_add]⟩
  have hlast : lane < (invocationOf p inputs.length outputs lanes).laneCount := by
    rwa [laneCount_invocationOf p _ outputs hlanes]
  have hcell := hrun.inside _ hmem lane (Nat.zero_le lane) hlast
  unfold Machine.laneAfter at hcell
  rw [single_invocationOf p _ _ _ hk, oneLane_invocationOf] at hcell
  simpa only [Window.cell, Nat.zero_add] using hcell

section Run

variable {o : Options} (hwatch : o.runWatch.passes = none) {p : Program}
  {inputs : List (List Vec4)} {outputs lanes : Nat}
include hwatch

/-- A run over a block comes to the lanes that a run over the whole comes to. -/
theorem outcomeOf_block (hlanes : lanes ≤ 2 ^ 63 - 128)
    (hlengths : forall a, a ∈ inputs -> a.length = lanes)
    (hok : (outcomeOf o p inputs outputs lanes).result = .ok ())
    (hrandom : (outcomeOf o p inputs outputs lanes).statistics.tally.count .random = 0)
    {start count : Nat} (hcount : 1 ≤ count) (hend : start + count ≤ lanes) :
    (outcomeOf o p (inputs.map (block start count)) outputs count).result = .ok () ∧
      forall k lane, k < inputs.length + outputs -> lane < count ->
        (outcomeOf o p (inputs.map (block start count)) outputs count).store.get? ⟨k, lane⟩ =
          (outcomeOf o p inputs outputs lanes).store.get? ⟨k, start + lane⟩ := by
  have hlength : (inputs.map (block start count)).length = inputs.length := List.length_map _
  have hcount' : count ≤ 2 ^ 63 - 128 := by omega
  have hblocks : forall a, a ∈ inputs.map (block start count) -> count ≤ a.length := by
    intro b hb
    rcases List.mem_map.mp hb with ⟨a, ha, rfl⟩
    rw [length_block (by rw [hlengths a ha]; exact hend)]
  rw [outcomeOf_eq hwatch] at hok hrandom
  rw [outcomeOf_eq hwatch, outcomeOf_eq hwatch]
  have hsome : (invocationOf p inputs.length outputs lanes).laneCount ≠ 0 := by
    rw [laneCount_invocationOf p _ outputs hlanes]
    omega
  have hcountable := countable_invocationOf p inputs.length outputs hlanes
  have hshape := Machine.shapeError?_of_exec hok
  have hfault := ((Machine.exec_result hshape hcountable _ _).mp hok).resolve_left hsome
  have hdraws := Machine.not_random_of_count hshape hcountable hsome hfault hrandom
  -- the plan does not depend on the number of lanes, so that the block has the same one
  have hshape' := shapeError?_invocationOf p inputs.length outputs hcount' hshape
  have hplan := plan_invocationOf p inputs.length outputs lanes o.machine count
  have hfault' := hplan.symm ▸ hfault
  have hdraws' := hplan.symm ▸ hdraws
  rw [← hlength] at hshape' hfault' hdraws'
  constructor
  · exact (Machine.exec_result hshape' (countable_invocationOf p _ outputs hcount') _ _).mpr
      (Or.inr hfault')
  · intro k lane hk hlane
    rw [exec_get?_invocationOf hcount' hblocks hshape' hfault' hdraws' (by rwa [hlength]) hlane,
      exec_get?_invocationOf hlanes (fun a ha => Nat.le_of_eq (hlengths a ha).symm) hshape
        hfault hdraws hk (by omega), hlength, laneStore_block p hend hlane]

theorem runLanes_block (hlanes : lanes ≤ 2 ^ 63 - 128)
    (hlengths : forall a, a ∈ inputs -> a.length = lanes) {results : List (List Vec4)}
    (h : runLanes o p inputs outputs lanes = .ok results)
    (hrandom : (outcomeOf o p inputs outputs lanes).statistics.tally.count .random = 0)
    {start count : Nat} (hcount : 1 ≤ count) (hend : start + count ≤ lanes) :
    runLanes o p (inputs.map (block start count)) outputs count =
      .ok (results.map (block start count)) := by
  rcases outcomeOf_block hwatch hlanes hlengths (runLanes_eq_ok_iff.mp h).1 hrandom hcount hend
    with ⟨hok, hcells⟩
  have hresults : exists results', runLanes o p (inputs.map (block start count)) outputs count =
      .ok results' := ⟨_, runLanes_eq_ok_iff.mpr ⟨hok, rfl⟩⟩
  rcases hresults with ⟨results', hresults⟩
  rcases shape_of_runLanes h with ⟨hlength, hsizes⟩
  rcases shape_of_runLanes hresults with ⟨hlength', hsizes'⟩
  rw [hresults]
  congr 1
  apply List.ext_getElem
  · rw [List.length_map, hlength, hlength']
  · intro k hk hk'
    rw [List.length_map] at hk'
    rw [List.getElem_map]
    apply List.ext_getElem?
    intro lane
    by_cases hlane : lane < count
    · rw [getElem?_block hlane, get?_of_runLanes hresults (List.getElem?_eq_getElem hk),
        get?_of_runLanes h (List.getElem?_eq_getElem hk'), List.length_map]
      exact hcells _ _ (by omega) hlane
    · have hsize := hsizes _ (List.getElem_mem hk')
      have hsize' := hsizes' _ (List.getElem_mem hk)
      have hblock := @length_block _ start count results[k] (by omega)
      rw [List.getElem?_eq_none (by omega), List.getElem?_eq_none (by omega)]

end Run

/-!
## Scattering
-/

theorem columnsOf_block (out : Output) (start count : Nat) (lanes : List Vec4) :
    columnsOf (out, block start count lanes) =
      (columnsOf (out, lanes)).map (·.block start count) := by
  unfold columnsOf
  rw [List.map_map]
  apply List.map_congr_left
  intro entry _
  show Column.mk _ (.floats ((block start count lanes).map _)) = _
  rw [map_block]
  rfl

theorem scatterAll_block {outputs : List Output} {results : List (List Vec4)}
    {columns : List Column} (h : scatterAll (outputs.zip results) = .ok columns)
    (start count : Nat) :
    scatterAll (outputs.zip (results.map (block start count))) =
      .ok (columns.map (·.block start count)) := by
  rw [scatterAll_eq_ok_iff] at h ⊢
  rcases h with ⟨hcomponents, rfl⟩
  rw [List.zip_map_right]
  constructor
  · intro entry hentry
    rcases List.mem_map.mp hentry with ⟨pair, hpair, rfl⟩
    exact hcomponents pair hpair
  · rw [List.map_flatMap, List.flatMap_map]
    apply List.flatMap_congr
    intro pair _
    exact (columnsOf_block pair.1 start count pair.2).symm

theorem frameOf_block {columns : List Column} {result : Frame}
    (h : frameOf columns = .ok (some result)) (start count : Nat) :
    frameOf (columns.map (·.block start count)) = .ok (some (result.block start count)) := by
  unfold frameOf Frame.ofColumns? at h ⊢
  rw [List.isEmpty_map]
  split at h
  · cases h
  next hsome =>
    rw [if_neg hsome]
    split at h
    next f hf =>
      cases h
      split at hf
      next hvalid =>
        cases hf
        rw [dif_pos (hvalid.block start count)]
        rfl
      next => cases hf
    next => cases h

/-!
## Row locality
-/

/-- What the machine counts of the opcodes that it dispatches in a batch run. -/
def tallyOf (p : Program) (frame : Option Frame) (o : Options) : Tally :=
  match outputsOf o p, lanesOf o (rowsOf frame), gatherFrom frame 0 o.inputs with
  | .ok outputs, .ok lanes, .ok inputs =>
      (outcomeOf o p (inputs.map (·.take lanes)) outputs.length lanes).statistics.tally
  | _, _, _ => []

/-- The stages of a run over some of the lanes that a run over all rows has. -/
theorem Stages.block {p : Program} {frame frame' : Option Frame} {o : Options}
    {outputs : List Output} {inputs inputs' results : List (List Vec4)} {columns : List Column}
    (h : Stages p frame o outputs (rowsOf frame) inputs results columns)
    (houtputs : outputs ≠ []) (hwatch : o.runWatch.passes = none)
    (hrandom : (tallyOf p frame o).count .random = 0) {start count : Nat} (hcount : 1 ≤ count)
    (hend : start + count ≤ rowsOf frame) {limit : Int}
    (hlanes : lanesOf { o with lanes := limit } (rowsOf frame') = .ok count)
    (hgathered : gatherFrom frame' 0 o.inputs = .ok inputs')
    (hcut : inputs'.map (·.take count) = inputs.map (VectorMachine.block start count)) :
    Stages p frame' { o with lanes := limit } outputs count inputs'
      (results.map (VectorMachine.block start count)) (columns.map (·.block start count)) := by
  have hrows : rowsOf frame ≤ 2 ^ 63 - 128 := by
    have hvalue : laneListLimit = 2 ^ 44 := by decide
    have hlimit : ¬laneListLimit < (rowsOf frame : Int) := fun hlt => h.limit ⟨houtputs, hlt⟩
    omega
  have hlengths : forall a, a ∈ inputs -> a.length = rowsOf frame := by
    intro a ha
    rcases exists_of_mem_right ((gatherFrom_eq_ok_iff 0).mp h.gathered) ha with
      ⟨names, _, hgather⟩
    exact length_of_gather hgather
  have hwhole : inputs.map (·.take (rowsOf frame)) = inputs := by
    apply (List.map_congr_left _).trans (List.map_id inputs)
    intro a ha
    exact List.take_of_length_le (Nat.le_of_eq (hlengths a ha))
  have hran := h.ran
  -- over all rows nothing is cut off the arrays, which makes the block one of what was run
  unfold tallyOf at hrandom
  rw [h.outputs_eq, h.lanes_eq, h.gathered] at hrandom
  simp only [hwhole] at hran hrandom
  constructor
  · exact h.reads
  · exact h.outputs_eq
  · exact h.writes
  · exact hlanes
  · exact hgathered
  · rintro ⟨_, hlt⟩
    exact h.limit ⟨houtputs, by omega⟩
  · rw [hcut]
    exact runLanes_block hwatch hrows hlengths hran hrandom hcount hend
  · exact scatterAll_block h.scattered start count

theorem outputs_ne_nil_of_frameOf {outputs : List Output} {results : List (List Vec4)}
    {columns : List Column} (h : scatterAll (outputs.zip results) = .ok columns)
    {result : Frame} (hframe : frameOf columns = .ok (some result)) : outputs ≠ [] := by
  rintro rfl
  cases h
  cases hframe

/-- Where a batch run over all rows gives a frame and no random number is drawn, a run
over a block of the rows gives the same block of that frame, and a run over the first
lanes its first rows. -/
theorem run_row_local {p : Program} {frame : Option Frame} {o : Options} {result : Frame}
    (hall : o.lanes ≤ 0) (hwatch : o.runWatch.passes = none)
    (hrandom : (tallyOf p frame o).count .random = 0)
    (h : run (some p) frame o = .ok (some result)) :
    (forall start count, 1 ≤ count -> start + count ≤ rowsOf frame ->
      run (some p) (frame.map (·.block start count)) o =
        .ok (some (result.block start count))) ∧
    (forall count : Nat, 1 ≤ count -> count ≤ rowsOf frame ->
      run (some p) frame { o with lanes := count } = .ok (some (result.block 0 count))) := by
  rcases run_eq_ok_iff.mp h with ⟨outputs, lanes, inputs, results, columns, hstages, hframe⟩
  have hrows : forall rows, lanesOf o rows = .ok rows :=
    fun rows => if_neg (Int.not_lt.mpr hall)
  have hlanes : lanes = rowsOf frame := Except.ok.inj (hstages.lanes_eq.symm.trans (hrows _))
  subst hlanes
  have houtputs := outputs_ne_nil_of_frameOf hstages.scattered hframe
  constructor
  · intro start count hcount hend
    cases frame with
    | none =>
        have hend : start + count ≤ 0 := hend
        omega
    | some f =>
        have hcut : (inputs.map (block start count)).map (·.take count) =
            inputs.map (block start count) := by
          rw [List.map_map]
          exact List.map_congr_left fun a _ => take_block start count a
        have hblock : lanesOf o (rowsOf (some (f.block start count))) = .ok count :=
          (hrows _).trans (congrArg _ (Frame.rows_block hcount hend))
        exact run_eq_ok_iff.mpr ⟨_, _, _, _, _,
          hstages.block houtputs hwatch hrandom hcount hend hblock
            (gatherFrom_block hcount hend hstages.gathered) hcut,
          frameOf_block hframe start count⟩
  · intro count hcount hend
    have hfirst : lanesOf { o with lanes := count } (rowsOf frame) = .ok count := by
      have hpositive : 0 < (count : Int) := by omega
      have henough : ¬(rowsOf frame : Int) < (count : Int) := by omega
      exact (if_pos hpositive).trans (if_neg henough)
    exact run_eq_ok_iff.mpr ⟨_, _, _, _, _, hstages.block houtputs hwatch hrandom hcount
      (by omega) hfirst hstages.gathered rfl, frameOf_block hframe 0 count⟩

def summing : Program where
  code := some [1, 40, 0, 8, 9, 0]
  inputs := 2
  outputs := 1

def gapped : Frame where
  columns := [⟨utf8 "x", .floats [1, 2, 0.5]⟩,
    ⟨utf8 "y", .integers [some 4, none, some 6]⟩,
    ⟨utf8 "z", .mixed [some (.bool true), none, some (.float32 3)]⟩]
  valid := by decide

def sums : Frame where
  columns := [⟨utf8 "s.x", .floats [5, 2, 6.5]⟩, ⟨utf8 "s.y", .floats [1, 0, 3]⟩]
  valid := by decide

def pairing : Options where
  inputs := [[utf8 "x"], [utf8 "y", utf8 "z"]]
  outputs := some [⟨utf8 "s", 2⟩]
  workers := 3

theorem run_row_local_summing :
    run (some summing) (some gapped) pairing = .ok (some sums) ∧
      run (some summing) (some (gapped.block 1 2)) pairing = .ok (some (sums.block 1 2)) ∧
      run (some summing) (some gapped) { pairing with lanes := 2 } =
        .ok (some (sums.block 0 2)) := by
  have hrun : run (some summing) (some gapped) pairing = .ok (some sums) := by decide +kernel
  have hrandom : (tallyOf summing (some gapped) pairing).count .random = 0 := by decide +kernel
  rcases run_row_local (by decide) rfl hrandom hrun with ⟨hblock, hfirst⟩
  exact ⟨hrun, hblock 1 2 (by decide) (by decide), hfirst 2 (by decide) (by decide)⟩

end Batch
end VectorMachine
