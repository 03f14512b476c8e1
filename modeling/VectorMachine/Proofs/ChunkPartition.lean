import VectorMachine.Proofs.LaneIndependence
import VectorMachine.Proofs.WriteSet

/-!
# How chunks divide the lanes

One loop over the chunks takes each of them from the lanes that remain, the other
counts from the first lane.  They visit the same chunks with the same lanes, and where
the lanes can be rounded up to chunks in 64 bits, every lane falls to one visit and
every array reaches to the end of each.
-/

namespace VectorMachine

namespace Invocation

theorem sum_span (i : Invocation) (count : Nat) :
    ((List.range count).map i.span).sum = i.edge count := by
  induction count with
  | zero => simp [edge]
  | succ count ih =>
      rw [List.range_succ, List.map_append, List.sum_append, ih, edge_succ, List.map_singleton,
        List.sum_singleton]

end Invocation

namespace Machine

open Invocation

/-!
## Visits
-/

/-- A chunk that a run comes to, and how many lanes it runs there. -/
structure Visit where
  chunk : Nat
  lanes : Nat
deriving DecidableEq

namespace Visit

def start (v : Visit) : Nat :=
  v.chunk * Chunk.size

def Holds (v : Visit) (lane : Nat) : Prop :=
  v.start ≤ lane ∧ lane < v.start + v.lanes

end Visit

def countedDown : Nat -> Nat -> Int64 -> List Visit
  | 0, _, _ => []
  | left + 1, chunk, remaining =>
      ⟨chunk, (min remaining 128).toInt.toNat⟩ :: countedDown left (chunk + 1) (remaining - 128)

/-- The visits of a loop that counts every chunk from the first lane. -/
def countedUp (lanes : Int64) : Nat -> Nat -> List Visit
  | 0, _ => []
  | left + 1, chunk => ⟨chunk, chunkLanes lanes chunk⟩ :: countedUp lanes left (chunk + 1)

def visitAll (m : Machine) (i : Invocation) :
    List Visit -> Watch -> Store -> Statistics -> Outcome
  | [], _, store, statistics => ⟨store, statistics, .ok ()⟩
  | v :: rest, watch, store, statistics =>
      m.thenChunk i v.chunk v.lanes watch store statistics (visitAll m i rest)

theorem runSerially_eq_visitAll (m : Machine) (i : Invocation) (left chunk : Nat)
    (remaining : Int64) :
    m.runSerially i left chunk remaining = m.visitAll i (countedDown left chunk remaining) := by
  induction left generalizing chunk remaining with
  | zero => rfl
  | succ left ih =>
      funext watch store statistics
      rw [runSerially, countedDown, visitAll, ih]

theorem runIndependently_eq_visitAll (m : Machine) (i : Invocation) (left chunk : Nat) :
    m.runIndependently i left chunk = m.visitAll i (countedUp i.lanes left chunk) := by
  induction left generalizing chunk with
  | zero => rfl
  | succ left ih =>
      funext watch store statistics
      rw [runIndependently, countedUp, visitAll, ih]

theorem countedDown_eq_countedUp (lanes : Int64) (left chunk : Nat) :
    countedDown left chunk (lanes - Int64.ofNat chunk * 128) = countedUp lanes left chunk := by
  induction left generalizing chunk with
  | zero => rfl
  | succ left ih =>
      rw [countedDown, countedUp, remaining_succ, ih]
      rfl

theorem countedUp_eq_map (lanes : Int64) (left chunk : Nat) :
    countedUp lanes left chunk =
      (List.range' chunk left).map fun k => ⟨k, chunkLanes lanes k⟩ := by
  induction left generalizing chunk with
  | zero => rfl
  | succ left ih => rw [countedUp, ih, List.range'_succ, List.map_cons]

/-- The chunks that a run over an invocation visits one after another. -/
def serialVisits (i : Invocation) : List Visit :=
  countedDown i.chunkCount.toInt.toNat 0 i.lanes

def parallelVisits (i : Invocation) : List Visit :=
  countedUp i.lanes i.chunkCount.toInt.toNat 0

theorem serialVisits_eq_parallelVisits (i : Invocation) :
    serialVisits i = parallelVisits i := by
  have hzero : i.lanes = i.lanes - Int64.ofNat 0 * 128 := by
    simp
  unfold serialVisits parallelVisits
  rw [← countedDown_eq_countedUp, ← hzero]

/-!
## Lanes
-/

structure Partition (i : Invocation) (visits : List Visit) : Prop where
  /-- There are as many as the lanes make when they are rounded up to chunks. -/
  count : visits.length = i.laneCount ⌈/⌉ 128
  /-- The visits start 128 lanes apart, also where they are counted in 64 bits. -/
  starts : forall k v, visits[k]? = some v ->
    v.chunk = k ∧ v.start = 128 * k ∧ (Int64.ofNat v.chunk * 128).toInt = v.start
  lanes : forall v, v ∈ visits -> 1 ≤ v.lanes ∧ v.lanes ≤ 128
  sum : (visits.map (·.lanes)).sum = i.laneCount
  holds : forall lane, lane < i.laneCount -> ∃! v, v ∈ visits ∧ v.Holds lane
  within : forall v, v ∈ visits -> v.start + v.lanes ≤ i.laneCount
  /-- The stretch of an array from a visit on is there and long enough for it. -/
  arrays : forall v, v ∈ visits -> forall w, w ∈ i.arrays ->
    v.start ≤ w.size ∧ v.lanes ≤ (w.drop v.start).size
  /-- So is whatever the registers of the chunk are bound to. -/
  registers : forall v, v ∈ visits -> forall bank s w, windows i bank v.start s = some w ->
    v.lanes ≤ w.size

section Countable

variable {i : Invocation} (hcount : i.Countable)
include hcount

theorem parallelVisits_eq :
    parallelVisits i = (List.range ((i.laneCount + 127) / 128)).map fun k => ⟨k, i.span k⟩ := by
  unfold parallelVisits
  rw [countedUp_eq_map, chunkCount_eq hcount, ← List.range_eq_range']
  apply List.map_congr_left
  intro k hk
  have hk := List.mem_range.mp hk
  have hstart : k * Chunk.size ≤ i.laneCount := by
    unfold Chunk.size
    omega
  rw [chunkLanes_eq hcount hstart]

/-- A visit starts before the last lane and runs what falls to its chunk. -/
theorem visit_of_mem {v : Visit} (h : v ∈ parallelVisits i) :
    v.start < i.laneCount ∧ v.lanes = i.span v.chunk := by
  rw [parallelVisits_eq hcount] at h
  rcases List.mem_map.mp h with ⟨k, hk, rfl⟩
  have hk := List.mem_range.mp hk
  refine ⟨?_, rfl⟩
  show k * 128 < i.laneCount
  omega

theorem start_in_64_bits {v : Visit} (h : v ∈ parallelVisits i) :
    (Int64.ofNat v.chunk * 128).toInt = v.start := by
  have hstart : v.chunk * 128 < i.laneCount := (visit_of_mem hcount h).1
  have hlanes : (i.laneCount : Int) ≤ 2 ^ 63 - 128 := by
    unfold laneCount
    rw [Int.toNat_of_nonneg hcount.1]
    exact hcount.2
  rw [Int64.toInt_mul, Int64.toInt_ofNat_of_lt (by omega)]
  exact Int.bmod_eq_of_le (by simp; omega) (by simp; omega)

theorem existsUnique_holds {lane : Nat} (h : lane < i.laneCount) :
    ∃! v, v ∈ parallelVisits i ∧ v.Holds lane := by
  refine ⟨⟨lane / 128, i.span (lane / 128)⟩, ⟨?_, ?_⟩, ?_⟩
  · rw [parallelVisits_eq hcount]
    exact List.mem_map.mpr ⟨lane / 128, List.mem_range.mpr (by omega), rfl⟩
  · show lane / 128 * 128 ≤ lane ∧
      lane < lane / 128 * 128 + min (i.laneCount - lane / 128 * 128) 128
    omega
  · rintro v ⟨hmem, hlow, hhigh⟩
    have hlanes := (visit_of_mem hcount hmem).2
    have hspan : i.span v.chunk ≤ 128 := i.span_le_size v.chunk
    have hlow : v.chunk * 128 ≤ lane := hlow
    have hhigh : lane < v.chunk * 128 + v.lanes := hhigh
    have hchunk : v.chunk = lane / 128 := by omega
    rw [← hchunk, ← hlanes]

theorem partition_of_countable (hshape : i.shapeError? = none) :
    Partition i (parallelVisits i) where
  count := by
    rw [parallelVisits_eq hcount, List.length_map, List.length_range,
      Nat.ceilDiv_eq_add_pred_div]
    rfl
  starts := by
    intro k v hv
    have hmem := start_in_64_bits hcount (List.mem_of_getElem? hv)
    rw [parallelVisits_eq hcount, List.getElem?_map] at hv
    rcases Option.map_eq_some_iff.mp hv with ⟨j, hj, rfl⟩
    rcases List.getElem?_eq_some_iff.mp hj with ⟨_, hjk⟩
    rw [List.getElem_range] at hjk
    subst hjk
    exact ⟨rfl, Nat.mul_comm k 128, hmem⟩
  lanes := by
    intro v hv
    rcases visit_of_mem hcount hv with ⟨hstart, hlanes⟩
    have hstart : v.chunk * 128 < i.laneCount := hstart
    rw [hlanes]
    show 1 ≤ min (i.laneCount - v.chunk * 128) 128 ∧ min (i.laneCount - v.chunk * 128) 128 ≤ 128
    omega
  sum := by
    rw [parallelVisits_eq hcount, List.map_map]
    refine (i.sum_span ((i.laneCount + 127) / 128)).trans ?_
    unfold edge Chunk.size
    omega
  holds := fun lane => existsUnique_holds hcount
  within := by
    intro v hv
    rcases visit_of_mem hcount hv with ⟨hstart, hlanes⟩
    rw [hlanes]
    exact span_end (Nat.le_of_lt hstart)
  arrays := by
    intro v hv w hw
    rcases visit_of_mem hcount hv with ⟨hstart, hlanes⟩
    have hend := (fits_of_shape hshape (Nat.le_of_lt hstart)).within w hw
    rw [hlanes]
    refine ⟨Nat.le_trans (Nat.le_add_right _ _) hend, ?_⟩
    show i.span v.chunk ≤ w.size - v.start
    exact Nat.le_sub_of_add_le' hend
  registers := by
    intro v hv bank s w hw
    rcases visit_of_mem hcount hv with ⟨hstart, hlanes⟩
    have hfits := fits_of_shape hshape (Nat.le_of_lt hstart)
    rw [windows_eq] at hw
    rw [hlanes]
    split at hw
    · cases hw
      exact hfits.lanes_le
    · rcases Option.map_eq_some_iff.mp hw with ⟨array, harray, rfl⟩
      exact Nat.le_sub_of_add_le' (hfits.within array (mem_arrays_of_array? harray))

end Countable

/-- Runs over an invocation that fits its arrays visit the same chunks with one worker
and with several.  The visits divide the lanes among them where these can be rounded up to
chunks in 64 bits; where they cannot, no chunk is visited. -/
theorem visits_partition_lanes {i : Invocation} (hshape : i.shapeError? = none) :
    (forall m watch store statistics,
      exec m i watch store statistics = m.visitAll i (serialVisits i) watch store statistics) ∧
    (forall m workers, 1 < workers -> forall watch store statistics,
      execParallel m workers i watch store statistics =
        m.visitAll i (parallelVisits i) watch store statistics) ∧
    serialVisits i = parallelVisits i ∧
    (i.lanes.toInt ≤ 2 ^ 63 - 128 -> Partition i (serialVisits i)) ∧
    (2 ^ 63 - 128 < i.lanes.toInt -> serialVisits i = []) := by
  have hlanes := ((shapeError?_eq_none_iff i).mp hshape).1
  have hsame := serialVisits_eq_parallelVisits i
  refine ⟨?_, ?_, hsame, ?_, ?_⟩
  · intro m watch store statistics
    unfold exec
    rw [hshape]
    simp only [runSerially_eq_visitAll]
    rfl
  · intro m workers hworkers watch store statistics
    unfold execParallel
    rw [if_neg (Int.not_le.mpr hworkers), hshape]
    simp only [runIndependently_eq_visitAll]
    rfl
  · intro hhigh
    rw [hsame]
    exact partition_of_countable ⟨hlanes, hhigh⟩ hshape
  · intro hhigh
    have hcount : ¬i.Countable := fun h => absurd h.2 (not_le.mpr hhigh)
    unfold serialVisits
    rw [chunkCount_eq_zero hlanes hcount, countedDown]

/-- Two full chunks and a part of one, over arrays that are longer than that. -/
def raggedRun : Invocation where
  code := [0]
  constants := []
  inputs := [⟨0, 0, 300⟩, ⟨1, 5, 301⟩]
  outputs := [⟨2, 0, 1000⟩]
  lanes := 300

theorem visits_partition_lanes_ragged :
    raggedRun.shapeError? = none ∧ serialVisits raggedRun = [⟨0, 128⟩, ⟨1, 128⟩, ⟨2, 44⟩] ∧
      ((Window.mk 0 0 300).drop 256).size = 44 ∧ Partition raggedRun (serialVisits raggedRun) ∧
      execParallel {} 3 raggedRun .always ⟨#[]⟩ {} =
        visitAll {} raggedRun [⟨0, 128⟩, ⟨1, 128⟩, ⟨2, 44⟩] .always ⟨#[]⟩ {} := by
  have hshape : raggedRun.shapeError? = none := by decide
  have hvisits : serialVisits raggedRun = [⟨0, 128⟩, ⟨1, 128⟩, ⟨2, 44⟩] := by decide
  rcases visits_partition_lanes hshape with ⟨_, hparallel, hsame, hdivided, _⟩
  refine ⟨hshape, hvisits, rfl, hdivided (by decide), ?_⟩
  rw [hparallel _ 3 (by decide), ← hsame, hvisits]

/-- A terminator alone, over the fewest lanes that cannot be rounded up to chunks. -/
def unroundableRun : Invocation where
  code := [0]
  constants := []
  inputs := []
  outputs := []
  lanes := 9223372036854775681

theorem visits_of_unroundable :
    unroundableRun.shapeError? = none ∧ unroundableRun.laneCount = 2 ^ 63 - 127 ∧
      (serialVisits unroundableRun).length ≠ unroundableRun.laneCount ⌈/⌉ 128 ∧
      (parallelVisits unroundableRun).length ≠ unroundableRun.laneCount ⌈/⌉ 128 ∧
      ((serialVisits unroundableRun).map (·.lanes)).sum ≠ unroundableRun.laneCount := by
  refine ⟨by decide, by decide, by decide, by decide, by decide⟩

end Machine
end VectorMachine
