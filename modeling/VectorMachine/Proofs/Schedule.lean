import VectorMachine.Proofs.ChunkRun

/-!
# The chunks of a run

A run goes through its chunks in order.  As long as the lanes and a chunk more can
be counted in 64 bits, chunk `c` starts at lane `128 * c`, every chunk but the last
is full, and together they are all of the lanes.
-/

namespace VectorMachine

namespace Invocation

def laneCount (i : Invocation) : Nat :=
  i.lanes.toInt.toNat

def span (i : Invocation) (chunk : Nat) : Nat :=
  min (i.laneCount - chunk * Chunk.size) Chunk.size

/-- A number of lanes that can be divided into chunks without overflow. -/
def Countable (i : Invocation) : Prop :=
  0 ≤ i.lanes.toInt ∧ i.lanes.toInt ≤ 2 ^ 63 - 128

instance (i : Invocation) : Decidable i.Countable :=
  inferInstanceAs (Decidable (_ ∧ _))

/-!
## Shape
-/

theorem shortArray?_eq_none_iff (side : Side) (arrays : List Window) (lanes : Int64) :
    shortArray? side arrays lanes = none ↔
      forall w, w ∈ arrays -> lanes.toInt ≤ (w.size : Int) := by
  unfold shortArray?
  rw [Option.map_eq_none_iff]
  refine (find?_zipIdx_eq_none_iff
    (p := fun w : Window => (w.size : Int) < lanes.toInt)).trans ?_
  simp only [decide_eq_false_iff_not, Int.not_lt]

theorem shapeError?_eq_none_iff (i : Invocation) :
    i.shapeError? = none ↔
      0 ≤ i.lanes.toInt ∧ i.inputs.length ≤ Slot.inputLimit ∧
        i.outputs.length ≤ Slot.outputLimit ∧
        i.constants.length ≤ Program.constantLimit ∧
        forall w, w ∈ i.arrays -> i.lanes.toInt ≤ (w.size : Int) := by
  have hnegative : i.lanes < 0 ↔ ¬0 ≤ i.lanes.toInt := by
    rw [Int64.lt_iff_toInt_lt, Int64.toInt_zero]
    omega
  have harrays : (shortArray? .input i.inputs i.lanes <|> shortArray? .output i.outputs i.lanes)
      = none ↔ forall w, w ∈ i.arrays -> i.lanes.toInt ≤ (w.size : Int) := by
    rw [Option.orElse_eq_orElse, Option.orElse_eq_or, Option.or_eq_none_iff,
      shortArray?_eq_none_iff, shortArray?_eq_none_iff]
    simp only [arrays, List.mem_append]
    constructor
    · rintro ⟨hin, hout⟩ w (hw | hw)
      · exact hin w hw
      · exact hout w hw
    · intro h
      exact ⟨fun w hw => h w (Or.inl hw), fun w hw => h w (Or.inr hw)⟩
  unfold shapeError?
  by_cases hlanes : 0 ≤ i.lanes.toInt
  · rw [if_neg (by rw [hnegative]; exact not_not.mpr hlanes)]
    split
    · simp only [reduceCtorEq, false_iff]
      omega
    · split
      · simp only [reduceCtorEq, false_iff]
        omega
      · split
        · simp only [reduceCtorEq, false_iff]
          omega
        · rw [harrays]
          constructor
          · intro h
            exact ⟨hlanes, by omega, by omega, by omega, h⟩
          · intro h
            exact h.2.2.2.2
  · rw [if_pos (hnegative.mpr hlanes)]
    simp [hlanes]

theorem laneCount_le_size {i : Invocation} (hshape : i.shapeError? = none) {w : Window}
    (hw : w ∈ i.arrays) : i.laneCount ≤ w.size := by
  have hsize := ((shapeError?_eq_none_iff i).mp hshape).2.2.2.2 w hw
  unfold laneCount
  omega

/-!
## Counting in 64 bits
-/

section Countable

variable {i : Invocation} (h : i.Countable)
include h

theorem chunkCount_eq : i.chunkCount.toInt.toNat = (i.laneCount + 127) / 128 := by
  rcases h with ⟨hlow, hhigh⟩
  have hsum : (i.lanes + 127).toInt = i.lanes.toInt + 127 := by
    rw [Int64.toInt_add]
    exact Int.bmod_eq_of_le (by simp; omega) (by simp; omega)
  unfold chunkCount laneCount
  rw [Int64.toInt_div_of_ne_right _ _ (by decide), hsum]
  rw [Int.tdiv_eq_ediv_of_nonneg (by omega)]
  show ((i.lanes.toInt + 127) / 128).toNat = _
  omega

theorem chunkLanes_eq {chunk : Nat} (hchunk : chunk * Chunk.size ≤ i.laneCount) :
    Machine.chunkLanes i.lanes chunk = i.span chunk := by
  rcases h with ⟨hlow, hhigh⟩
  unfold laneCount Chunk.size at hchunk
  have hproduct : (Int64.ofNat chunk * 128).toInt = (chunk : Int) * 128 := by
    rw [Int64.toInt_mul, Int64.toInt_ofNat_of_lt (by omega)]
    exact Int.bmod_eq_of_le (by simp; omega) (by simp; omega)
  have hrest : (i.lanes - Int64.ofNat chunk * 128).toInt = i.lanes.toInt - chunk * 128 := by
    rw [Int64.toInt_sub, hproduct]
    exact Int.bmod_eq_of_le (by omega) (by omega)
  unfold Machine.chunkLanes span laneCount Chunk.size
  show (if i.lanes - Int64.ofNat chunk * 128 ≤ 128 then _ else _ : Int64).toInt.toNat = _
  have h128 : (128 : Int64).toInt = 128 := rfl
  split
  next hle =>
    rw [Int64.le_iff_toInt_le, hrest, h128] at hle
    rw [hrest]
    omega
  next hle =>
    rw [Int64.le_iff_toInt_le, hrest, h128] at hle
    rw [h128]
    omega

end Countable

theorem span_le_size (i : Invocation) (chunk : Nat) : i.span chunk ≤ Chunk.size :=
  Nat.min_le_right _ _

theorem span_end {i : Invocation} {chunk : Nat} (h : chunk * Chunk.size ≤ i.laneCount) :
    chunk * Chunk.size + i.span chunk ≤ i.laneCount := by
  unfold span
  omega

theorem fits_of_shape {i : Invocation} (hshape : i.shapeError? = none) {chunk : Nat}
    (h : chunk * Chunk.size ≤ i.laneCount) : i.Fits chunk (i.span chunk) where
  lanes_le := i.span_le_size chunk
  within := by
    intro w hw
    exact Nat.le_trans (span_end h) (laneCount_le_size hshape hw)

end Invocation

/-!
## Counting what was dispatched
-/

namespace Tally

theorem count_add (t : Tally) (op op' : Opcode) :
    (t.add op').count op = t.count op + if op' = op then 1 else 0 := by
  induction t with
  | nil =>
      by_cases h : op' = op
      · simp [add, count, List.lookup, h]
      · have hne : (op == op') = false := beq_eq_false_iff_ne.mpr (Ne.symm h)
        simp [add, count, List.lookup, h, hne]
  | cons entry rest ih =>
      rcases entry with ⟨key, n⟩
      unfold count at ih ⊢
      by_cases hkey : op = key
      · subst hkey
        by_cases h : op' = op
        · subst h
          simp [add, List.lookup]
        · simp [add, List.lookup, h, Ne.symm h]
      · have hne : (op == key) = false := beq_eq_false_iff_ne.mpr hkey
        by_cases h : key = op'
        · subst h
          simp [add, List.lookup, hne, Ne.symm hkey]
        · simp [add, List.lookup, hne, h, ih]

theorem count_foldl_add (t : Tally) (ops : List Opcode) (op : Opcode) :
    (ops.foldl add t).count op = t.count op + ops.count op := by
  induction ops generalizing t with
  | nil => rfl
  | cons head ops ih =>
      rw [List.foldl_cons, ih, count_add, List.count_cons]
      simp only [beq_iff_eq]
      omega

end Tally

namespace Machine

/-!
## Chunks in order
-/

theorem remaining_succ (lanes : Int64) (chunk : Nat) :
    lanes - Int64.ofNat chunk * 128 - 128 = lanes - Int64.ofNat (chunk + 1) * 128 := by
  rw [Int64.sub_sub, Int64.ofNat_add, Int64.add_mul]
  rfl

/-- Taking a chunk from what is left is the same as counting from the start. -/
theorem runSerially_eq_runIndependently (m : Machine) (i : Invocation) (left chunk : Nat) :
    m.runSerially i left chunk (i.lanes - Int64.ofNat chunk * 128) =
      m.runIndependently i left chunk := by
  induction left generalizing chunk with
  | zero => rfl
  | succ left ih =>
      funext watch store statistics
      rw [runSerially, runIndependently, remaining_succ, ih]
      rfl

theorem exec_eq_of_shape {m : Machine} {i : Invocation} (hshape : i.shapeError? = none)
    (watch : Watch) (store : Store) (statistics : Statistics) :
    m.exec i watch store statistics =
      m.runIndependently i i.chunkCount.toInt.toNat 0 watch store statistics := by
  have hzero : i.lanes = i.lanes - Int64.ofNat 0 * 128 := by
    simp
  unfold exec
  rw [hshape]
  simp only
  conv_lhs => rw [hzero]
  rw [runSerially_eq_runIndependently]

theorem shapeError?_of_exec {m : Machine} {i : Invocation} {watch : Watch} {store : Store}
    {statistics : Statistics} (h : (m.exec i watch store statistics).result = .ok ()) :
    i.shapeError? = none := by
  unfold exec at h
  cases hshape : i.shapeError? with
  | none => rfl
  | some e =>
      rw [hshape] at h
      cases h

theorem execParallel_eq_exec (m : Machine) (workers : Int) (i : Invocation) (watch : Watch)
    (store : Store) (statistics : Statistics) :
    m.execParallel workers i watch store statistics = m.exec i watch store statistics := by
  unfold execParallel
  split
  · rfl
  · cases hshape : i.shapeError? with
    | some e =>
        unfold exec
        rw [hshape]
    | none => rw [exec_eq_of_shape hshape]

/-!
## What every chunk keeps
-/

section Keeps

variable {m : Machine} {i : Invocation} {P : Store -> Prop}

theorem thenChunk_keeps {chunk lanes : Nat} {store : Store}
    {next : Watch -> Store -> Statistics -> Outcome} (hstore : P store)
    (hchunk : P (m.runChunk i chunk lanes store).1)
    (hnext : forall watch statistics,
      P (next watch (m.runChunk i chunk lanes store).1 statistics).store)
    (watch : Watch) (statistics : Statistics) :
    P (m.thenChunk i chunk lanes watch store statistics next).store := by
  unfold thenChunk
  cases watch.check with
  | error reason => exact hstore
  | ok watch =>
      rcases hrun : m.runChunk i chunk lanes store with ⟨after, result⟩
      rw [hrun] at hchunk hnext
      cases result with
      | error fault => exact hchunk
      | ok dispatched => exact hnext watch _

theorem runIndependently_keeps {left chunk : Nat}
    (hstep : forall k store, chunk ≤ k -> k < chunk + left -> P store ->
      P (m.runChunk i k (chunkLanes i.lanes k) store).1)
    {store : Store} (hstore : P store) (watch : Watch) (statistics : Statistics) :
    P (m.runIndependently i left chunk watch store statistics).store := by
  induction left generalizing chunk store watch statistics with
  | zero => exact hstore
  | succ left ih =>
      have hchunk := hstep chunk store (Nat.le_refl chunk) (by omega) hstore
      rw [runIndependently]
      apply thenChunk_keeps hstore hchunk
      exact ih (fun k after hlow hhigh => hstep k after (by omega) (by omega)) hchunk

theorem exec_keeps
    (hstep : i.shapeError? = none -> forall k store, k < i.chunkCount.toInt.toNat -> P store ->
      P (m.runChunk i k (chunkLanes i.lanes k) store).1)
    {store : Store} (hstore : P store) (watch : Watch) (statistics : Statistics) :
    P (m.exec i watch store statistics).store := by
  cases hshape : i.shapeError? with
  | some e =>
      unfold exec
      rw [hshape]
      exact hstore
  | none =>
      rw [exec_eq_of_shape hshape]
      apply runIndependently_keeps _ hstore
      intro k after _ hk
      rw [Nat.zero_add] at hk
      exact hstep hshape k after hk

end Keeps

/-!
## Runs that are not stopped
-/

section Always

variable {m : Machine} {i : Invocation}

/-- Without a stop, a chunk fails or is recorded and the next one follows. -/
theorem thenChunk_always (m : Machine) (i : Invocation) (chunk lanes : Nat) (store : Store)
    (statistics : Statistics) (next : Watch -> Store -> Statistics -> Outcome) :
    m.thenChunk i chunk lanes .always store statistics next =
      match (m.plan i).2 with
      | some fault =>
          ⟨(m.runChunk i chunk lanes store).1, statistics, .error (.chunk chunk fault)⟩
      | none => next .always (m.runChunk i chunk lanes store).1
          (statistics.record ((m.plan i).1.map Chunk.Step.op).reverse lanes) := by
  have hcheck : Watch.always.check = .ok .always := rfl
  unfold thenChunk
  rw [hcheck, runChunk_eq]
  cases (m.plan i).2 with
  | some fault => rfl
  | none => rfl

theorem runIndependently_result (left chunk : Nat) (store : Store) (statistics : Statistics) :
    (m.runIndependently i left chunk .always store statistics).result = .ok () ↔
      left = 0 ∨ (m.plan i).2 = none := by
  induction left generalizing chunk store statistics with
  | zero => simp [runIndependently]
  | succ left ih =>
      rw [runIndependently, thenChunk_always]
      cases hfault : (m.plan i).2 with
      | some fault => simp
      | none => simp [ih, hfault]

theorem runIndependently_count (hfault : (m.plan i).2 = none) (left chunk : Nat) (store : Store)
    (statistics : Statistics) (op : Opcode) :
    (m.runIndependently i left chunk .always store statistics).statistics.tally.count op =
      statistics.tally.count op + left * ((m.plan i).1.map Chunk.Step.op).count op := by
  induction left generalizing chunk store statistics with
  | zero => simp [runIndependently]
  | succ left ih =>
      rw [runIndependently, thenChunk_always, hfault]
      simp only [ih, Statistics.record, Tally.count_foldl_add, List.count_reverse]
      rw [Nat.succ_mul]
      omega

theorem exec_of_passes {watch : Watch} (h : watch.passes = none) (store : Store)
    (statistics : Statistics) :
    m.exec i watch store statistics = m.exec i .always store statistics := by
  have hcheck : watch.check = .ok watch := by
    unfold Watch.check
    rw [h]
  have hruns : forall left chunk store statistics,
      m.runIndependently i left chunk watch store statistics =
        m.runIndependently i left chunk .always store statistics := by
    intro left
    induction left with
    | zero =>
        intro chunk store statistics
        rfl
    | succ left ih =>
        intro chunk store statistics
        rw [runIndependently, runIndependently, thenChunk_always]
        unfold thenChunk
        rw [hcheck, runChunk_eq]
        cases (m.plan i).2 with
        | some fault => rfl
        | none => exact ih (chunk + 1) _ _
  cases hshape : i.shapeError? with
  | some e =>
      unfold exec
      rw [hshape]
  | none => rw [exec_eq_of_shape hshape, exec_eq_of_shape hshape, hruns]

end Always

end Machine
end VectorMachine
