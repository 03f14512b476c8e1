import VectorMachine.Proofs.SingleLane

/-!
# Lanes do not see each other

A run takes each of its lanes, on its own, to what the code makes of it.  How the
lanes are divided into chunks, or into runs one after another, cannot be seen in
what is left behind.
-/

namespace VectorMachine

namespace Invocation

def edge (i : Invocation) (chunk : Nat) : Nat :=
  min i.laneCount (chunk * Chunk.size)

theorem edge_succ (i : Invocation) (chunk : Nat) :
    i.edge (chunk + 1) = i.edge chunk + i.span chunk := by
  unfold edge span
  rw [Nat.succ_mul]
  omega

theorem WellPlaced.of_has_iff {i : Invocation} {S T : Store} (h : i.WellPlaced S)
    (hcells : forall c, T.Has c ↔ S.Has c) : i.WellPlaced T where
  inside := by
    intro w hw
    unfold Window.Inside
    rw [Store.sizeOf_eq_of_has_iff hcells]
    exact h.inside w hw
  apart := h.apart

theorem WellPlaced.cell_ne {i : Invocation} {store : Store} (h : i.WellPlaced store)
    {w v : Window} (hw : w ∈ i.arrays) (hv : v ∈ i.arrays) {a b : Nat} (ha : a < w.size)
    (hb : b < v.size) (hne : a ≠ b) : w.cell a ≠ v.cell b := by
  rcases h.apart w v hw hv with rfl | hdisjoint
  · intro hcell
    exact hne (Window.cell_inj hcell)
  · exact hdisjoint a b ha hb

end Invocation

namespace Machine

open Invocation

/-- From one store to the other, the lanes from `low` up to `high` of the arrays
each went through the code on its own, and no other cell changed. -/
structure Lanewise (m : Machine) (i : Invocation) (low high : Nat) (S T : Store) : Prop where
  cells : forall c, T.Has c ↔ S.Has c
  inside : forall w, w ∈ i.arrays -> forall lane, low ≤ lane -> lane < high ->
    T.get? (w.cell lane) = (m.laneAfter i S lane).get? ((i.single w).cell 0)
  outside : forall c, (forall w, w ∈ i.arrays -> forall lane, low ≤ lane -> lane < high ->
    w.cell lane ≠ c) -> T.get? c = S.get? c

namespace Lanewise

theorem refl (m : Machine) (i : Invocation) (edge : Nat) (S : Store) :
    m.Lanewise i edge edge S S where
  cells := fun _ => Iff.rfl
  inside := by
    intro w _ lane hlow hhigh
    omega
  outside := fun _ _ => rfl

variable {m : Machine} {i : Invocation} {low middle high : Nat} {S T U : Store}

/-- A lane of an array that is not among those that went through the code. -/
theorem get?_of_lane (h : m.Lanewise i low high S T) (hplaced : i.WellPlaced S)
    (hhigh : forall w, w ∈ i.arrays -> high ≤ w.size) {w : Window} (hw : w ∈ i.arrays)
    {lane : Nat} (hsize : lane < w.size) (hlane : lane < low ∨ high ≤ lane) :
    T.get? (w.cell lane) = S.get? (w.cell lane) := by
  apply h.outside
  intro v hv other hotherlow hotherhigh
  have hsize' := hhigh v hv
  exact hplaced.cell_ne hv hw (by omega) hsize (by omega)

theorem trans (hfirst : m.Lanewise i low middle S T) (hsecond : m.Lanewise i middle high T U)
    (hplaced : i.WellPlaced S) (hlow : low ≤ middle) (hmiddle : middle ≤ high)
    (hhigh : forall w, w ∈ i.arrays -> high ≤ w.size) : m.Lanewise i low high S U where
  cells := fun c => (hsecond.cells c).trans (hfirst.cells c)
  inside := by
    have hplaced' : i.WellPlaced T := hplaced.of_has_iff hfirst.cells
    intro w hw lane hlanelow hlanehigh
    have hsize := hhigh w hw
    by_cases hlane : lane < middle
    · rw [hsecond.get?_of_lane hplaced' hhigh hw (by omega) (Or.inl hlane)]
      exact hfirst.inside w hw lane hlanelow hlane
    · -- the first part has left the lane as it was
      have hsame : i.laneStore T lane = i.laneStore S lane := by
        apply laneStore_congr
        intro v hv
        have hvsize := hhigh v hv
        exact hfirst.get?_of_lane hplaced (fun u hu => Nat.le_trans hmiddle (hhigh u hu)) hv
          (by omega) (Or.inr (by omega))
      rw [hsecond.inside w hw lane (by omega) hlanehigh]
      unfold laneAfter
      rw [hsame]
  outside := by
    intro c hc
    rw [hsecond.outside c fun w hw lane hl hh => hc w hw lane (by omega) hh,
      hfirst.outside c fun w hw lane hl hh => hc w hw lane hl (by omega)]

end Lanewise

/-!
## Chunk after chunk
-/

section Chunks

variable {m : Machine} {i : Invocation}

theorem runChunk_lanewise (hshape : i.shapeError? = none)
    (hdraws : .random ∉ (m.plan i).1.map Chunk.Step.op) {chunk lanes : Nat} {store : Store}
    (hplaced : i.WellPlaced store) (hfits : i.Fits chunk lanes) :
    m.Lanewise i (chunk * Chunk.size) (chunk * Chunk.size + lanes) store
      (m.runChunk i chunk lanes store).1 where
  cells := m.runChunk_has i chunk lanes store
  inside := by
    intro w hw lane hlow hhigh
    have hlane : lane = chunk * Chunk.size + (lane - chunk * Chunk.size) := by omega
    rw [hlane]
    exact runChunk_get?_lane hplaced hfits (by omega) hshape hdraws hw
  outside := fun _ => runChunk_get?_of_outside

theorem runIndependently_lanewise (hshape : i.shapeError? = none) (hcount : i.Countable)
    (hfault : (m.plan i).2 = none) (hdraws : .random ∉ (m.plan i).1.map Chunk.Step.op)
    (left chunk : Nat) (store : Store) (statistics : Statistics) (hplaced : i.WellPlaced store)
    (hchunks : forall c, c < chunk + left -> c * Chunk.size ≤ i.laneCount) :
    m.Lanewise i (i.edge chunk) (i.edge (chunk + left)) store
      (m.runIndependently i left chunk .always store statistics).store := by
  induction left generalizing chunk store statistics with
  | zero => exact Lanewise.refl m i _ store
  | succ left ih =>
      have hchunk : chunk * Chunk.size ≤ i.laneCount := hchunks chunk (by omega)
      have hfirst := runChunk_lanewise hshape hdraws hplaced (fits_of_shape hshape hchunk)
      have hlow : i.edge chunk = chunk * Chunk.size := Nat.min_eq_right hchunk
      have hmiddle : i.edge (chunk + 1) = chunk * Chunk.size + i.span chunk := by
        unfold edge span
        rw [Nat.succ_mul]
        omega
      rw [← hmiddle, ← hlow] at hfirst
      rw [runIndependently, thenChunk_always, hfault, chunkLanes_eq hcount hchunk]
      have hrest := ih (chunk + 1) (m.runChunk i chunk (i.span chunk) store).1
        (statistics.record ((m.plan i).1.map Chunk.Step.op).reverse (i.span chunk))
        (hplaced.of_has_iff hfirst.cells) (fun c hc => hchunks c (by omega))
      rw [show chunk + (left + 1) = chunk + 1 + left by omega]
      apply hfirst.trans hrest hplaced
      · unfold edge
        rw [Nat.succ_mul]
        omega
      · unfold edge
        have := Nat.mul_le_mul_right Chunk.size (Nat.le_add_right (chunk + 1) left)
        omega
      · intro w hw
        exact Nat.le_trans (Nat.min_le_left _ _) (laneCount_le_size hshape hw)

end Chunks

/-!
## Whole runs
-/

section Exec

variable {m : Machine} {i : Invocation} (hshape : i.shapeError? = none) (hcount : i.Countable)
include hshape hcount

theorem exec_result (store : Store) (statistics : Statistics) :
    (m.exec i .always store statistics).result = .ok () ↔
      i.laneCount = 0 ∨ (m.plan i).2 = none := by
  rw [exec_eq_of_shape hshape, runIndependently_result, chunkCount_eq hcount]
  have hzero : (i.laneCount + 127) / 128 = 0 ↔ i.laneCount = 0 := by omega
  rw [hzero]

theorem exec_lanewise (hfault : (m.plan i).2 = none)
    (hdraws : .random ∉ (m.plan i).1.map Chunk.Step.op) {store : Store}
    (hplaced : i.WellPlaced store) (statistics : Statistics) :
    m.Lanewise i 0 i.laneCount store (m.exec i .always store statistics).store := by
  have hchunks : forall c, c < 0 + i.chunkCount.toInt.toNat ->
      c * Chunk.size ≤ i.laneCount := by
    intro c hc
    rw [chunkCount_eq hcount] at hc
    unfold Chunk.size
    omega
  have hrun := runIndependently_lanewise hshape hcount hfault hdraws _ 0 store statistics
    hplaced hchunks
  have hstart : i.edge 0 = 0 := by simp [edge]
  have hend : i.edge (0 + i.chunkCount.toInt.toNat) = i.laneCount := by
    rw [chunkCount_eq hcount]
    unfold edge Chunk.size
    omega
  rw [hstart, hend] at hrun
  rw [exec_eq_of_shape hshape]
  exact hrun

theorem not_random_of_count (hlanes : i.laneCount ≠ 0) (hfault : (m.plan i).2 = none)
    {store : Store} {statistics : Statistics}
    (h : (m.exec i .always store statistics).statistics.tally.count .random =
      statistics.tally.count .random) :
    .random ∉ (m.plan i).1.map Chunk.Step.op := by
  rw [exec_eq_of_shape hshape, runIndependently_count hfault, chunkCount_eq hcount] at h
  have hpositive : 0 < (i.laneCount + 127) / 128 := by omega
  have hproduct :
      (i.laneCount + 127) / 128 * ((m.plan i).1.map Chunk.Step.op).count .random = 0 := by
    omega
  rcases Nat.mul_eq_zero.mp hproduct with hzero | hzero
  · omega
  · exact List.count_eq_zero.mp hzero

end Exec

theorem exec_oneLane_store {m : Machine} {i : Invocation} (hshape : i.shapeError? = none)
    (store : Store) (lane : Nat) (statistics : Statistics) :
    (m.exec i.oneLane .always (i.laneStore store lane) statistics).store =
      m.laneAfter i store lane := by
  have hone : i.oneLane.chunkCount.toInt.toNat = 1 := by
    have hcount : i.oneLane.laneCount = 1 := rfl
    rw [chunkCount_eq (countable_oneLane i), hcount]
  have hlanes : chunkLanes i.oneLane.lanes 0 = 1 :=
    chunkLanes_eq (countable_oneLane i) (Nat.zero_le _)
  rw [exec_eq_of_shape (shapeError?_oneLane hshape), hone, runIndependently, thenChunk_always,
    hlanes]
  cases (m.plan i.oneLane).2 with
  | some fault => rfl
  | none => rfl

end Machine

/-!
## Consecutive runs
-/

namespace Invocation

def part (i : Invocation) (base count : Nat) : Invocation where
  code := i.code
  constants := i.constants
  inputs := i.inputs.map (·.drop base)
  outputs := i.outputs.map (·.drop base)
  lanes := Int64.ofNat count

theorem arrays_part (i : Invocation) (base count : Nat) :
    (i.part base count).arrays = i.arrays.map (·.drop base) := by
  simp [arrays, part]

theorem array?_part (i : Invocation) (base count : Nat) (s : Slot) :
    (i.part base count).array? s = (i.array? s).map (·.drop base) := by
  unfold array? part
  split
  · exact List.getElem?_map
  · exact List.getElem?_map

theorem laneCount_part {i : Invocation} (base : Nat) {count : Nat} (h : count < 2 ^ 63) :
    (i.part base count).laneCount = count := by
  show (Int64.ofNat count).toInt.toNat = count
  rw [Int64.toInt_ofNat_of_lt h]
  exact Int.toNat_natCast count

theorem countable_part {i : Invocation} (base : Nat) {count : Nat} (h : count ≤ 2 ^ 63 - 128) :
    (i.part base count).Countable := by
  have hlanes : (i.part base count).lanes.toInt = count := Int64.toInt_ofNat_of_lt (by omega)
  unfold Countable
  rw [hlanes]
  omega

section Part

variable {i : Invocation} {base count : Nat}
  (hbase : forall w, w ∈ i.arrays -> base + count ≤ w.size)
include hbase

theorem drop_inj {w v : Window} (hw : w ∈ i.arrays) (hv : v ∈ i.arrays)
    (h : w.drop base = v.drop base) : w = v := by
  have hwsize := hbase w hw
  have hvsize := hbase v hv
  rcases w with ⟨b, s, n⟩
  rcases v with ⟨b', s', n'⟩
  simp only [Window.drop, Window.mk.injEq] at h hwsize hvsize ⊢
  omega

theorem idxOf_drop {w : Window} (hw : w ∈ i.arrays) :
    (i.arrays.map (·.drop base)).idxOf (w.drop base) = i.arrays.idxOf w := by
  have hinj : forall v, v ∈ i.arrays -> (v.drop base = w.drop base ↔ v = w) := by
    intro v hv
    exact ⟨drop_inj hbase hv hw, fun h => by rw [h]⟩
  clear hw
  generalize i.arrays = arrays at hinj
  induction arrays with
  | nil => rfl
  | cons v arrays ih =>
      have hhead := hinj v List.mem_cons_self
      have htail := ih fun u hu => hinj u (List.mem_cons_of_mem v hu)
      by_cases h : v = w
      · simp [h]
      · have hdrop : v.drop base ≠ w.drop base := fun heq => h (hhead.mp heq)
        rw [List.map_cons, List.idxOf_cons_ne _ hdrop, List.idxOf_cons_ne _ h, htail]

theorem single_part {w : Window} (hw : w ∈ i.arrays) :
    (i.part base count).single (w.drop base) = i.single w := by
  unfold single
  rw [arrays_part, idxOf_drop hbase hw]

theorem oneLane_part : (i.part base count).oneLane = i.oneLane := by
  have hmap : forall side : List Window, (forall w, w ∈ side -> w ∈ i.arrays) ->
      (side.map (·.drop base)).map (i.part base count).single = side.map i.single := by
    intro side hside
    rw [List.map_map]
    apply List.map_congr_left
    intro w hw
    exact single_part hbase (hside w hw)
  have hinputs := hmap i.inputs fun w hw => List.mem_append_left i.outputs hw
  have houtputs := hmap i.outputs fun w hw => List.mem_append_right i.inputs hw
  unfold oneLane
  rw [← hinputs, ← houtputs]
  rfl

theorem shapeError?_part (hcount : count ≤ 2 ^ 63 - 128) (h : i.shapeError? = none) :
    (i.part base count).shapeError? = none := by
  rw [shapeError?_eq_none_iff] at h ⊢
  rcases h with ⟨_, hinputs, houtputs, hconstants, _⟩
  have hlanes : (i.part base count).lanes.toInt = count := Int64.toInt_ofNat_of_lt (by omega)
  rw [hlanes, arrays_part]
  refine ⟨Int.natCast_nonneg count, ?_, ?_, hconstants, ?_⟩
  · simpa [part] using hinputs
  · simpa [part] using houtputs
  · intro u hu
    rcases List.mem_map.mp hu with ⟨w, hw, rfl⟩
    have := hbase w hw
    simp only [Window.drop]
    omega

theorem WellPlaced.part {store : Store} (h : i.WellPlaced store) :
    (i.part base count).WellPlaced store where
  inside := by
    rw [arrays_part]
    intro u hu
    rcases List.mem_map.mp hu with ⟨w, hw, rfl⟩
    have hinside := h.inside w hw
    have hsize := hbase w hw
    unfold Window.Inside at hinside ⊢
    simp only [Window.drop]
    omega
  apart := by
    rw [arrays_part]
    intro u u' hu hu'
    rcases List.mem_map.mp hu with ⟨w, hw, rfl⟩
    rcases List.mem_map.mp hu' with ⟨v, hv, rfl⟩
    rcases h.apart w v hw hv with rfl | hdisjoint
    · exact Or.inl rfl
    · right
      intro a b ha hb
      rw [Window.cell_drop, Window.cell_drop]
      simp only [Window.drop] at ha hb
      exact hdisjoint _ _ (by omega) (by omega)

end Part

end Invocation

namespace Machine

open Invocation

theorem plan_part (m : Machine) (i : Invocation) (base count : Nat) :
    m.plan (i.part base count) = m.plan i := by
  apply Chunk.plan_congr
  refine ⟨rfl, rfl, rfl, ?_⟩
  intro s
  show (windows (i.part base count) 0 _ s).isSome = (windows i 0 _ s).isSome
  rw [windows_eq, windows_eq, array?_part]
  split
  · rfl
  · rw [Option.isSome_map, Option.isSome_map, Option.isSome_map]

/-- What a part of the lanes goes through is what they go through in the whole. -/
theorem Lanewise.of_part {m : Machine} {i : Invocation} {base count : Nat} {S T : Store}
    (hbase : forall w, w ∈ i.arrays -> base + count ≤ w.size)
    (h : m.Lanewise (i.part base count) 0 count S T) :
    m.Lanewise i base (base + count) S T where
  cells := h.cells
  inside := by
    intro w hw lane hlow hhigh
    have hmem : w.drop base ∈ (i.part base count).arrays := by
      rw [arrays_part]
      exact List.mem_map.mpr ⟨w, hw, rfl⟩
    have hpart := h.inside (w.drop base) hmem (lane - base) (Nat.zero_le _) (by omega)
    have hstore : (i.part base count).laneStore S (lane - base) = i.laneStore S lane := by
      unfold laneStore
      rw [arrays_part, List.map_map]
      simp only [Function.comp_def, Window.cell_drop, Nat.add_sub_cancel' hlow]
    rw [Window.cell_drop, Nat.add_sub_cancel' hlow, single_part hbase hw] at hpart
    unfold laneAfter at hpart ⊢
    rw [oneLane_part hbase, hstore] at hpart
    exact hpart
  outside := by
    intro c hc
    apply h.outside c
    intro u hu lane _ hlane
    rw [arrays_part] at hu
    rcases List.mem_map.mp hu with ⟨w, hw, rfl⟩
    rw [Window.cell_drop]
    exact hc w hw _ (by omega) (by omega)

/-- Run one part of the lanes after another, each in a run of its own, until one
fails. -/
def execParts (m : Machine) (i : Invocation) :
    List Nat -> Nat -> Store -> Statistics -> Outcome
  | [], _, store, statistics => ⟨store, statistics, .ok ()⟩
  | count :: counts, base, store, statistics =>
      let outcome := m.exec (i.part base count) .always store statistics
      match outcome.result with
      | .error _ => outcome
      | .ok () => execParts m i counts (base + count) outcome.store outcome.statistics

theorem execParts_lanewise {m : Machine} {i : Invocation} (hshape : i.shapeError? = none)
    (hcount : i.Countable) (hfault : (m.plan i).2 = none)
    (hdraws : .random ∉ (m.plan i).1.map Chunk.Step.op) (counts : List Nat) (base : Nat)
    (store : Store) (statistics : Statistics) (hplaced : i.WellPlaced store)
    (hsum : base + counts.sum = i.laneCount) :
    (m.execParts i counts base store statistics).result = .ok () ∧
      m.Lanewise i base i.laneCount store
        (m.execParts i counts base store statistics).store := by
  have hsizes : forall w, w ∈ i.arrays -> i.laneCount ≤ w.size :=
    fun w hw => laneCount_le_size hshape hw
  induction counts generalizing base store statistics with
  | nil =>
      have hbase : base = i.laneCount := by simpa using hsum
      rw [hbase]
      exact ⟨rfl, Lanewise.refl m i _ store⟩
  | cons count counts ih =>
      rw [List.sum_cons] at hsum
      have hmost : i.laneCount ≤ 2 ^ 63 - 128 := by
        have := hcount.2
        unfold laneCount
        omega
      have hbase : forall w, w ∈ i.arrays -> base + count ≤ w.size := by
        intro w hw
        have := hsizes w hw
        omega
      have hpartShape := shapeError?_part hbase (by omega) hshape
      have hpartCount : (i.part base count).Countable := countable_part base (by omega)
      have hfault' : (m.plan (i.part base count)).2 = none := by rw [plan_part, hfault]
      have hresult : (m.exec (i.part base count) .always store statistics).result = .ok () :=
        (exec_result hpartShape hpartCount store statistics).mpr (Or.inr hfault')
      have hfirst := exec_lanewise hpartShape hpartCount hfault'
        (by rw [plan_part]; exact hdraws) (hplaced.part hbase) statistics
      rw [laneCount_part base (by omega)] at hfirst
      have hfirst := Lanewise.of_part hbase hfirst
      have hrest := ih (base + count) _
        (m.exec (i.part base count) .always store statistics).statistics
        (hplaced.of_has_iff hfirst.cells) (by omega)
      rw [execParts]
      simp only [hresult]
      exact ⟨hrest.1, hfirst.trans hrest.2 hplaced (by omega) (by omega) hsizes⟩

/-!
## Lane independence
-/

/-- A run succeeds exactly when it does on any one of its lanes.  Where it succeeds
and draws no random number, every lane ends as it does on its own, the lanes past
the last one stay as they are, and consecutive runs of whatever lengths leave the
same. -/
theorem exec_lane_independent (m : Machine) {i : Invocation} {store : Store}
    (statistics alone : Statistics) (hshape : i.shapeError? = none)
    (hlow : 1 ≤ i.lanes.toInt) (hhigh : i.lanes.toInt ≤ 2 ^ 63 - 128)
    (hplaced : i.WellPlaced store) :
    (forall lane, lane < i.laneCount ->
      ((m.exec i .always store statistics).result = .ok () ↔
        (m.exec i.oneLane .always (i.laneStore store lane) alone).result = .ok ())) ∧
    ((m.exec i .always store statistics).result = .ok () ->
      (m.exec i .always store statistics).statistics.tally.count .random =
        statistics.tally.count .random ->
      (forall w, w ∈ i.arrays ->
        (forall lane, lane < i.laneCount ->
          (m.exec i .always store statistics).store.get? (w.cell lane) =
            (m.exec i.oneLane .always (i.laneStore store lane) alone).store.get?
              ((i.single w).cell 0)) ∧
        (forall lane, i.laneCount ≤ lane -> lane < w.size ->
          (m.exec i .always store statistics).store.get? (w.cell lane) =
            store.get? (w.cell lane))) ∧
      (forall counts : List Nat, counts.sum = i.laneCount ->
        (m.execParts i counts 0 store alone).result = .ok () ∧
        forall w, w ∈ i.arrays -> forall lane, lane < w.size ->
          (m.execParts i counts 0 store alone).store.get? (w.cell lane) =
            (m.exec i .always store statistics).store.get? (w.cell lane))) := by
  have hcount : i.Countable := ⟨by omega, hhigh⟩
  have hlanes : i.laneCount ≠ 0 := by
    unfold laneCount
    omega
  have hsizes : forall w, w ∈ i.arrays -> i.laneCount ≤ w.size := by
    intro w hw
    have hsize := ((shapeError?_eq_none_iff i).mp hshape).2.2.2.2 w hw
    unfold laneCount
    omega
  constructor
  · intro lane _
    have hone : i.oneLane.laneCount ≠ 0 := Nat.one_ne_zero
    rw [exec_result hshape hcount,
      exec_result (shapeError?_oneLane hshape) (countable_oneLane i), plan_oneLane]
    simp [hlanes, hone]
  · intro hok hrandom
    have hfault : (m.plan i).2 = none :=
      ((exec_result hshape hcount store statistics).mp hok).resolve_left hlanes
    have hdraws := not_random_of_count hshape hcount hlanes hfault hrandom
    have hrun := exec_lanewise hshape hcount hfault hdraws hplaced statistics
    refine ⟨?_, ?_⟩
    · intro w hw
      constructor
      · intro lane hlane
        rw [exec_oneLane_store hshape]
        exact hrun.inside w hw lane (Nat.zero_le lane) hlane
      · intro lane hlane hsize
        exact hrun.get?_of_lane hplaced hsizes hw hsize (Or.inr hlane)
    · intro counts hsum
      rcases execParts_lanewise hshape hcount hfault hdraws counts 0 store alone hplaced
        ((Nat.zero_add _).trans hsum) with ⟨hresult, hparts⟩
      refine ⟨hresult, ?_⟩
      intro w hw lane hsize
      by_cases hlane : lane < i.laneCount
      · rw [hparts.inside w hw lane (Nat.zero_le lane) hlane,
          hrun.inside w hw lane (Nat.zero_le lane) hlane]
      · rw [hparts.get?_of_lane hplaced hsizes hw hsize (Or.inr (Nat.le_of_not_lt hlane)),
          hrun.get?_of_lane hplaced hsizes hw hsize (Or.inr (Nat.le_of_not_lt hlane))]

/-- A full chunk and a lane more, on an input that is the second output too:
twice the input into a temporary, its sum with the input into the first output, its
square into the second. -/
def sharedRun : Invocation where
  code := [3, 0, 2, 8, 0, 1, 40, 0, 0, 8, 3, 41, 0, 0, 0, 0]
  constants := [Vec4.splat 2]
  inputs := [⟨0, 0, 130⟩]
  outputs := [⟨1, 0, 130⟩, ⟨0, 0, 130⟩]
  lanes := 129

def sharedStore : Store :=
  ⟨#[Array.replicate 130 (Vec4.splat 3), Array.replicate 130 Vec4.zero]⟩

theorem wellPlaced_sharedRun : sharedRun.WellPlaced sharedStore where
  inside := by
    simp [arrays, sharedRun, Window.Inside, Store.sizeOf, sharedStore]
  apart := by
    intro w v hw hv
    by_cases hsame : w = v
    · exact Or.inl hsame
    · right
      intro a b _ _ hcell
      have hbuffer : w.buffer = v.buffer := congrArg Cell.buffer hcell
      simp only [arrays, sharedRun, List.cons_append, List.nil_append, List.mem_cons,
        List.not_mem_nil, or_false] at hw hv
      rcases hw with rfl | rfl | rfl <;> rcases hv with rfl | rfl | rfl <;> simp_all

theorem exec_lane_independent_shared :
    (({} : Machine).exec sharedRun .always sharedStore {}).result = .ok () ∧
      (({} : Machine).exec sharedRun .always sharedStore {}).store.get? ⟨1, 128⟩ =
        (({} : Machine).exec sharedRun.oneLane .always (sharedRun.laneStore sharedStore 128)
          {}).store.get? ⟨1, 0⟩ ∧
      (({} : Machine).exec sharedRun .always sharedStore {}).store.get? ⟨1, 129⟩ =
        some Vec4.zero ∧
      (({} : Machine).execParts sharedRun [64, 65] 0 sharedStore {}).store.get? ⟨1, 128⟩ =
        (({} : Machine).exec sharedRun .always sharedStore {}).store.get? ⟨1, 128⟩ := by
  have hshape : sharedRun.shapeError? = none := by decide
  have hcount : sharedRun.Countable := by decide
  have hfault : (({} : Machine).plan sharedRun).2 = none := by cbv
  have hops : (({} : Machine).plan sharedRun).1.map Chunk.Step.op = [.mul, .add, .mul] := by cbv
  have hok : (({} : Machine).exec sharedRun .always sharedStore {}).result = .ok () :=
    (exec_result hshape hcount _ _).mpr (Or.inr hfault)
  have hrandom : (({} : Machine).exec sharedRun .always sharedStore {}).statistics.tally.count
      .random = Tally.count [] .random := by
    rw [exec_eq_of_shape hshape, runIndependently_count hfault, hops]
    rfl
  rcases (exec_lane_independent {} {} {} hshape (by decide) (by decide)
    wellPlaced_sharedRun).2 hok hrandom with ⟨hlanes, hparts⟩
  have hmem : (⟨1, 0, 130⟩ : Window) ∈ sharedRun.arrays := by decide
  refine ⟨hok, ?_, ?_, ?_⟩
  · exact (hlanes ⟨1, 0, 130⟩ hmem).1 128 (by decide)
  · rw [show (⟨1, 129⟩ : Cell) = (⟨1, 0, 130⟩ : Window).cell 129 from rfl,
      (hlanes ⟨1, 0, 130⟩ hmem).2 129 (by decide) (by decide)]
    simp [Window.cell, Store.get?, sharedStore]
  · exact (hparts [64, 65] (by decide)).2 ⟨1, 0, 130⟩ hmem 128 (by decide)

end Machine
end VectorMachine
