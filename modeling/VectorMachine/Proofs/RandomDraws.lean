import VectorMachine.Proofs.DispatchedPath
import VectorMachine.Proofs.LaneIndependence
import VectorMachine.Proofs.StaticFailure

/-!
# Random draws

The stream of a chunk is read in one direction.  Every random instruction that is carried out
takes four draws for each lane of the chunk, lane after lane, and goes on where the one before
it has stopped.  Nothing else moves the stream.
-/

namespace VectorMachine

/-!
## Positions in a stream
-/

namespace Generator

def skip (g : Generator) : Nat -> Generator
  | 0 => g
  | n + 1 => (g.skip n).next.2

/-- The draw with the given number, counted from zero. -/
def draw (g : Generator) (n : Nat) : Float32 :=
  (g.skip n).next.1

/-- Each component times a draw of its own, from the given number on. -/
def scaled (g : Generator) (n : Nat) (v : Vec4) : Vec4 where
  x := g.draw n * v.x
  y := g.draw (n + 1) * v.y
  z := g.draw (n + 2) * v.z
  w := g.draw (n + 3) * v.w

theorem skip_skip (g : Generator) (a b : Nat) : (g.skip a).skip b = g.skip (a + b) := by
  induction b with
  | zero => rfl
  | succ b ih =>
      rw [skip, ih]
      rfl

theorem scaled_skip (g : Generator) (a b : Nat) (v : Vec4) :
    (g.skip a).scaled b v = g.scaled (a + b) v := by
  unfold scaled draw
  simp only [skip_skip, Nat.add_assoc]

theorem after_eq_skip (g : Generator) (n : Nat) : g.after n = g.skip (4 * n) := by
  induction n with
  | zero => rfl
  | succ n ih =>
      rw [after, ih, Nat.mul_succ]
      rfl

theorem random_vector (g : Generator) (n : Nat) (v : Vec4) :
    Kernel.random (g.vector n) v = g.scaled (4 * n) v := by
  unfold vector
  rw [after_eq_skip]
  rfl

end Generator

namespace Chunk

/-!
## Draws of one instruction
-/

/-- A random instruction that is carried out, not one that is passed over. -/
def Step.isRandom : Step -> Bool
  | skip _ => false
  | call c => c.op = .random

def randomCount (steps : List Step) : Nat :=
  steps.countP Step.isRandom

theorem arity_of_mem_plan {f : Frame} {offset : Nat} {code : Bytes} {c : Call}
    (h : .call c ∈ (plan f offset code).1) : c.sources.length = c.kernel.arity := by
  rcases fetched_of_mem_plan h with ⟨⟨_, _, _, hfetch⟩, _⟩
  rcases fetch_cases hfetch with hhalt | ⟨i, kernel, hcalls, _, _, hcall⟩ | ⟨_, _, op, hskip⟩
  · cases hhalt
  · cases hcall
    exact hcalls.arity
  · cases hskip

section Plan

variable {f : Frame} {offset : Nat} {code : Bytes}

theorem random_of_plan {before after : List Step} {c : Call}
    (hplan : (plan f offset code).1 = before ++ .call c :: after) (hop : c.op = .random) :
    c.kernel = .drawing Kernel.random ∧ (exists operand, c.sources = [operand]) ∧
      exists w, f.windows c.dst = some w := by
  have hc : .call c ∈ (plan f offset code).1 := by
    rw [hplan]
    exact List.mem_append_right _ List.mem_cons_self
  rcases call_of_mem_plan hc with ⟨hkernel, hready⟩
  rw [hop] at hkernel
  have hdrawing : c.kernel = .drawing Kernel.random := (Option.some.inj hkernel).symm
  have harity := arity_of_mem_plan hc
  rw [hdrawing] at harity
  refine ⟨hdrawing, List.length_eq_one_iff.mp harity, Option.isSome_iff_exists.mp ?_⟩
  exact (Bool.and_eq_true_iff.mp hready).1

theorem perform_generator_of_mem {step : Step} (hstep : step ∈ (plan f offset code).1)
    (s : State) :
    (step.perform f s).generator =
      s.generator.skip (4 * (f.lanes * if step.isRandom then 1 else 0)) := by
  cases step with
  | skip op => rfl
  | call c =>
      rcases call_of_mem_plan hstep with ⟨hkernel, hready⟩
      rcases Option.isSome_iff_exists.mp (Bool.and_eq_true_iff.mp hready).1 with ⟨w, hdst⟩
      have hrandom : (Step.call c).isRandom = c.kernel.draws := by
        rw [Bool.eq_iff_iff, Opcode.draws_iff_of_kernel? hkernel]
        exact decide_eq_true_iff
      show (c.perform f s).generator = _
      rw [Call.perform_generator hdst, hrandom]
      cases c.kernel.draws with
      | false => rfl
      | true =>
          rw [if_pos rfl, if_pos rfl, Nat.mul_one]
          exact s.generator.after_eq_skip f.lanes

/-- The stream has moved by four draws for each lane of every random instruction. -/
theorem follow_generator {steps : List Step}
    (hsteps : forall step, step ∈ steps -> step ∈ (plan f offset code).1) (s : State) :
    (follow f s steps).generator = s.generator.skip (4 * (f.lanes * randomCount steps)) := by
  induction steps generalizing s with
  | nil => rfl
  | cons step steps ih =>
      rw [follow_cons, ih fun t ht => hsteps t (List.mem_cons_of_mem step ht),
        perform_generator_of_mem (hsteps step List.mem_cons_self), Generator.skip_skip,
        ← Nat.mul_add, ← Nat.mul_add, Nat.add_comm]
      unfold randomCount
      rw [List.countP_cons]

end Plan

/-!
## Draws of a chunk
-/

/-- The steps take their draws from the stream one after another.  A random instruction puts
them into the lanes of its destination, each times what the operand holds when the lane is
reached. -/
structure DrawsInOrder (f : Frame) (g : Generator) (s : State) (steps : List Step) : Prop where
  position : forall before after, steps = before ++ after ->
    (follow f s before).generator = g.skip (4 * (f.lanes * randomCount before))
  written : forall before c after, steps = before ++ .call c :: after -> c.op = .random ->
    exists operand w, c.sources = [operand] ∧ f.windows c.dst = some w ∧
      c.perform f (follow f s before) = runLanes f c w (follow f s before) f.lanes ∧
      forall lane, lane < f.lanes ->
        let t := runLanes f c w (follow f s before) lane
        (runLane f c w t lane).store = t.store.set (w.cell lane)
          (g.scaled (4 * (f.lanes * randomCount before + lane)) (value f t.store lane operand))

/-- After a random instruction its destination holds the draws times what the operand held
before. -/
def HoldsDraws (f : Frame) (g : Generator) (s : State) (steps : List Step) : Prop :=
  forall before c after operand w lane, steps = before ++ .call c :: after -> c.op = .random ->
    c.sources = [operand] -> f.windows c.dst = some w -> lane < f.lanes ->
      (c.perform f (follow f s before)).store.get? (w.cell lane) =
        some (g.scaled (4 * (f.lanes * randomCount before + lane))
          (value f (follow f s before).store lane operand))

theorem follow_backed {f : Frame} {s : State} (steps : List Step) (h : f.Backed s.store) :
    f.Backed (follow f s steps).store := by
  intro slot w lane hslot hlane
  exact (follow_has f s steps (w.cell lane)).mpr (h hslot hlane)

section Chunk

variable {f : Frame} {offset : Nat} {code : Bytes} {s : State}

theorem position_of_plan {before after : List Step}
    (hplan : (plan f offset code).1 = before ++ after) :
    (follow f s before).generator = s.generator.skip (4 * (f.lanes * randomCount before)) := by
  apply follow_generator
  intro step hstep
  rw [hplan]
  exact List.mem_append_left after hstep

/-- What a random instruction makes of the operand in a lane, by its place among the steps. -/
theorem eval_random {before after : List Step} {c : Call}
    (hplan : (plan f offset code).1 = before ++ .call c :: after) (hop : c.op = .random)
    (lane : Nat) (v : Vec4) :
    c.kernel.eval ((follow f s before).generator.vector lane) [v] =
      s.generator.scaled (4 * (f.lanes * randomCount before + lane)) v := by
  rw [(random_of_plan hplan hop).1, position_of_plan hplan, Nat.mul_add,
    ← Generator.scaled_skip, ← Generator.random_vector]
  rfl

theorem drawsInOrder_plan (f : Frame) (offset : Nat) (code : Bytes) (s : State) :
    DrawsInOrder f s.generator s (plan f offset code).1 where
  position := fun before after => position_of_plan
  written := by
    intro before c after hplan hop
    rcases random_of_plan hplan hop with ⟨hkernel, ⟨operand, hsources⟩, w, hdst⟩
    refine ⟨operand, w, hsources, hdst, by rw [Call.perform, hdst], ?_⟩
    intro lane _ t
    -- the lanes before this one have taken their draws
    have hdraws : c.kernel.draws = true := by rw [hkernel]; rfl
    have ht : t.generator = (follow f s before).generator.after lane := by
      rw [runLanes_generator, hdraws, if_pos rfl]
    rw [← eval_random hplan hop]
    unfold runLane
    rw [hdraws, if_pos rfl, hsources, ht]
    rfl

theorem holdsDraws_plan (hlocal : f.LaneLocal) (hbacked : f.Backed s.store) :
    HoldsDraws f s.generator s (plan f offset code).1 := by
  intro before c after operand w lane hplan hop hsources hdst hlane
  rw [Call.perform_get?_dst hlocal (follow_backed before hbacked) hdst hlane,
    ← eval_random hplan hop]
  unfold Call.result
  rw [hsources]
  rfl

end Chunk

end Chunk

namespace Machine

/-!
## Draws of a run
-/

def storeBefore (m : Machine) (i : Invocation) (store : Store) : Nat -> Store
  | 0 => store
  | chunk + 1 =>
      (m.runChunk i chunk (chunkLanes i.lanes chunk) (m.storeBefore i store chunk)).1

theorem storeBefore_has (m : Machine) (i : Invocation) (store : Store) (chunk : Nat)
    (c : Cell) :
    (m.storeBefore i store chunk).Has c ↔ store.Has c := by
  induction chunk with
  | zero => rfl
  | succ chunk ih => rw [storeBefore, runChunk_has, ih]

/-- A chunk that a run goes on behind has not been stopped and has no fault. -/
theorem thenChunk_of_ok {m : Machine} {i : Invocation} {chunk lanes : Nat} {watch : Watch}
    {store : Store} {statistics : Statistics} {next : Watch -> Store -> Statistics -> Outcome}
    (h : (m.thenChunk i chunk lanes watch store statistics next).result = .ok ()) :
    (m.plan i).2 = none ∧
      exists watch' statistics', m.thenChunk i chunk lanes watch store statistics next =
        next watch' (m.runChunk i chunk lanes store).1 statistics' := by
  unfold thenChunk at h ⊢
  cases hcheck : watch.check with
  | error reason =>
      rw [hcheck] at h
      cases h
  | ok watch' =>
      rw [hcheck, runChunk_eq] at h
      rw [runChunk_eq]
      cases hfault : (m.plan i).2 with
      | some fault =>
          rw [hfault] at h
          cases h
      | none => exact ⟨rfl, watch', _, rfl⟩

theorem runIndependently_of_ok {m : Machine} {i : Invocation} {left chunk : Nat} {watch : Watch}
    {store : Store} {statistics : Statistics}
    (h : (m.runIndependently i left chunk watch (m.storeBefore i store chunk)
      statistics).result = .ok ()) :
    (m.runIndependently i left chunk watch (m.storeBefore i store chunk) statistics).store =
        m.storeBefore i store (chunk + left) ∧
      (0 < left -> (m.plan i).2 = none) := by
  induction left generalizing chunk watch statistics with
  | zero => exact ⟨rfl, fun hleft => absurd hleft (Nat.lt_irrefl 0)⟩
  | succ left ih =>
      rw [runIndependently] at h ⊢
      rcases thenChunk_of_ok h with ⟨hfault, watch', statistics', hnext⟩
      rw [hnext] at h ⊢
      refine ⟨?_, fun _ => hfault⟩
      rw [Nat.add_comm left 1, ← Nat.add_assoc]
      exact (ih h).1

/-- In a run of a seeded machine that completes, every chunk reads the stream of the seed and
its own number from the start.  The random instruction that `j` others have been carried out
before takes the draws from `4 * n * j` on, where `n` is the number of lanes of the chunk, four
for each lane. -/
theorem execParallel_draws_in_order (m : Machine) (seed : UInt64) {i : Invocation}
    {workers : Int} {watch : Watch} {store : Store} {statistics : Statistics}
    (hok : ((m.withSeed seed).execParallel workers i watch store statistics).result = .ok ()) :
    let v := m.withSeed seed
    (v.execParallel workers i watch store statistics).store =
        v.storeBefore i store i.chunkCount.toInt.toNat ∧
      forall chunk, chunk < i.chunkCount.toInt.toNat ->
        let found := v.storeBefore i store chunk
        let f := v.frame i chunk (chunkLanes i.lanes chunk) found.buffers.size
        let s := v.start chunk found
        Chunk.runFrom f 0 s i.code = (Chunk.follow f s (v.plan i).1, none) ∧
          Chunk.DrawsInOrder f (Generator.seeded seed chunk) s (v.plan i).1 ∧
          (i.WellPlaced store ->
            Chunk.HoldsDraws f (Generator.seeded seed chunk) s (v.plan i).1) := by
  intro v
  rw [execParallel_eq_exec] at hok ⊢
  have hshape := shapeError?_of_exec hok
  rw [exec_eq_of_shape hshape] at hok ⊢
  rcases runIndependently_of_ok hok with ⟨hstore, hfault⟩
  rw [Nat.zero_add] at hstore
  refine ⟨hstore, ?_⟩
  intro chunk hchunk found f s
  have hplan : Chunk.plan f 0 i.code = v.plan i := plan_frame v i chunk _ _
  rw [← hplan]
  refine ⟨?_, Chunk.drawsInOrder_plan f 0 i.code s, ?_⟩
  · rw [Chunk.runFrom_eq_plan, hplan, hfault (Nat.zero_lt_of_lt hchunk)]
  · intro hplaced
    have hfound : i.WellPlaced found := hplaced.of_has_iff (v.storeBefore_has i store chunk)
    have hfits := Invocation.fits_of_chunk hshape hchunk
    exact Chunk.holdsDraws_plan (frame_laneLocal hfound hfits) (frame_backed hfound hfits)

/-- A random vector from a constant, one with a descriptor that there is no call for, and one
from an input. -/
def drawingRun : Invocation :=
  { stoppedRun 2 200 with code := [37, 40, 1, 0, 37, 40, 2, 37, 40, 0, 8, 0] }

def drawFrom (source : Operand) : Chunk.Call :=
  ⟨.random, .drawing Kernel.random, Slot.output 0, [source]⟩

theorem execParallel_draws_in_order_twice :
    let v := ({} : Machine).withSeed 7
    let before := [.call (drawFrom (.constant 0)), .skip .random]
    let found := v.storeBefore drawingRun (stoppedStore 3) 1
    let f := v.frame drawingRun 1 72 found.buffers.size
    let reached := Chunk.follow f (v.start 1 found) before
    let last := drawFrom (.register (Slot.input 0))
    (v.execParallel 2 drawingRun .always (stoppedStore 3) {}).result = .ok () ∧
      v.plan drawingRun = (before ++ [.call last], none) ∧
      reached.generator = (Generator.seeded 7 1).skip 288 ∧
      (last.perform f reached).store.get? ⟨1, 133⟩ =
        some ((Generator.seeded 7 1).scaled 308
          (Chunk.value f reached.store 5 (.register (Slot.input 0)))) := by
  intro v before found f reached last
  have hplan : v.plan drawingRun = (before ++ [.call last], none) := by cbv
  have hplaced : drawingRun.WellPlaced (stoppedStore 3) :=
    ⟨(wellPlaced_stoppedRun 2 3 200).inside, (wellPlaced_stoppedRun 2 3 200).apart⟩
  have hok : (v.execParallel 2 drawingRun .always (stoppedStore 3) {}).result = .ok () := by
    rw [execParallel_eq_exec]
    exact (exec_result (by decide) (by decide) _ _).mpr (Or.inr (congrArg Prod.snd hplan))
  have hlanes : chunkLanes drawingRun.lanes 1 = 72 := by decide
  have hwindow : f.windows (Slot.output 0) = some ⟨1, 128, 72⟩ :=
    frame_window_array v (by decide) (w := ⟨1, 0, 200⟩) (by decide) 1 72 _
  have hchunk := (execParallel_draws_in_order {} 7 hok).2 1 (by decide)
  rw [hlanes] at hchunk
  rcases hchunk with ⟨_, hdraws, hholds⟩
  have hsteps := congrArg Prod.fst hplan
  have hposition := hdraws.position before [.call last] hsteps
  have hlast := hholds hplaced before _ [] _ _ 5 hsteps rfl rfl hwindow (by decide)
  have hnumber : 4 * (f.lanes * Chunk.randomCount before + 5) = 308 := by decide
  have hcell : (⟨1, 128, 72⟩ : Window).cell 5 = ⟨1, 133⟩ := rfl
  rw [hnumber, hcell] at hlast
  exact ⟨hok, hplan, hposition, hlast⟩

end Machine
end VectorMachine
