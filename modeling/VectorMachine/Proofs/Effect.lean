import VectorMachine.Machine.Chunk
import VectorMachine.Proofs.Store

/-!
# The effect of an instruction

An instruction goes through the lanes of a chunk one after another, reading and
writing as it goes.  As long as registers only share equal lanes, no lane sees
what an earlier one has written, so that the instruction comes to the same as
one step on all lanes at once.
-/

namespace VectorMachine

/-!
## Draws
-/

namespace Generator

def after (g : Generator) : Nat -> Generator
  | 0 => g
  | n + 1 => (g.after n).nextVector.2

def vector (g : Generator) (n : Nat) : Vec4 :=
  (g.after n).nextVector.1

end Generator

namespace Kernel

theorem eval_eq_of_not_draws {kernel : Kernel} (h : kernel.draws = false) (d e : Vec4)
    (operands : List Vec4) : kernel.eval d operands = kernel.eval e operands := by
  cases kernel with
  | drawing f => cases h
  | _ => rcases operands with _ | ⟨_, _ | ⟨_, _ | ⟨_, _ | ⟨_, _⟩⟩⟩⟩ <;> rfl

end Kernel

namespace Chunk

/-!
## Frames
-/

namespace Frame

/-- Two registers share a cell only where it is the same lane of both. -/
def LaneLocal (f : Frame) : Prop :=
  forall ⦃s t : Slot⦄ ⦃w v : Window⦄ ⦃i j : Nat⦄,
    f.windows s = some w -> f.windows t = some v ->
      i < f.lanes -> j < f.lanes -> w.cell i = v.cell j -> i = j

def Backed (f : Frame) (store : Store) : Prop :=
  forall ⦃s : Slot⦄ ⦃w : Window⦄ ⦃lane : Nat⦄,
    f.windows s = some w -> lane < f.lanes -> store.Has (w.cell lane)

end Frame

/-!
## One lane after another
-/

def Call.result (f : Frame) (c : Call) (s : State) (lane : Nat) : Vec4 :=
  c.kernel.eval (s.generator.vector lane) (c.sources.map (value f s.store lane))

def runLanes (f : Frame) (c : Call) (w : Window) (s : State) (count : Nat) : State :=
  (List.range count).foldl (runLane f c w) s

theorem runLanes_zero (f : Frame) (c : Call) (w : Window) (s : State) :
    runLanes f c w s 0 = s := rfl

theorem runLanes_succ (f : Frame) (c : Call) (w : Window) (s : State) (count : Nat) :
    runLanes f c w s (count + 1) = runLane f c w (runLanes f c w s count) count := by
  unfold runLanes
  rw [List.range_succ, List.foldl_append]
  rfl

theorem runLane_store (f : Frame) (c : Call) (w : Window) (s : State) (lane : Nat) :
    exists v, (runLane f c w s lane).store = s.store.set (w.cell lane) v := by
  exact ⟨_, rfl⟩

theorem runLanes_dispatched (f : Frame) (c : Call) (w : Window) (s : State) (count : Nat) :
    (runLanes f c w s count).dispatched = s.dispatched := by
  induction count with
  | zero => rfl
  | succ count ih =>
      rw [runLanes_succ]
      exact ih

theorem runLanes_generator (f : Frame) (c : Call) (w : Window) (s : State) (count : Nat) :
    (runLanes f c w s count).generator =
      if c.kernel.draws then s.generator.after count else s.generator := by
  induction count with
  | zero => simp [runLanes_zero, Generator.after]
  | succ count ih =>
      rw [runLanes_succ]
      unfold runLane
      cases hdraws : c.kernel.draws with
      | false => simpa [hdraws] using ih
      | true =>
          rw [hdraws, if_pos rfl] at ih
          simp [ih, Generator.after]

theorem runLanes_has (f : Frame) (c : Call) (w : Window) (s : State) (count : Nat) (d : Cell) :
    (runLanes f c w s count).store.Has d ↔ s.store.Has d := by
  induction count with
  | zero => rfl
  | succ count ih =>
      rw [runLanes_succ]
      rcases runLane_store f c w (runLanes f c w s count) count with ⟨v, hstore⟩
      rw [hstore, Store.has_set, ih]

theorem runLanes_get?_of_ne {f : Frame} {c : Call} {w : Window} {s : State} {count : Nat}
    {d : Cell} (h : forall lane, lane < count -> w.cell lane ≠ d) :
    (runLanes f c w s count).store.get? d = s.store.get? d := by
  induction count with
  | zero => rfl
  | succ count ih =>
      rw [runLanes_succ]
      rcases runLane_store f c w (runLanes f c w s count) count with ⟨v, hstore⟩
      rw [hstore, Store.get?_set_of_ne v (h count (Nat.lt_succ_self count))]
      exact ih fun lane hlane => h lane (Nat.lt_succ_of_lt hlane)

section Local

variable {f : Frame} {c : Call} {w : Window} {s : State}

theorem value_runLanes (hlocal : f.LaneLocal) (hdst : f.windows c.dst = some w)
    {count lane : Nat} (hcount : count ≤ lane) (hlane : lane < f.lanes) (o : Operand) :
    value f (runLanes f c w s count).store lane o = value f s.store lane o := by
  cases o with
  | constant index => rfl
  | register slot =>
      cases hslot : f.windows slot with
      | none => simp only [value, hslot]
      | some v =>
          have hunwritten : forall earlier, earlier < count ->
              w.cell earlier ≠ v.cell lane := by
            intro earlier hearlier hcell
            have hsame : earlier = lane := hlocal hdst hslot (by omega) hlane hcell
            omega
          simp only [value, hslot, Store.get, runLanes_get?_of_ne hunwritten]

theorem runLane_value (hlocal : f.LaneLocal) (hdst : f.windows c.dst = some w)
    {lane : Nat} (hlane : lane < f.lanes) :
    (runLane f c w (runLanes f c w s lane) lane).store =
      (runLanes f c w s lane).store.set (w.cell lane) (c.result f s lane) := by
  have hoperands :
      c.sources.map (value f (runLanes f c w s lane).store lane) =
        c.sources.map (value f s.store lane) := by
    apply List.map_congr_left
    intro o _
    exact value_runLanes hlocal hdst (Nat.le_refl lane) hlane o
  unfold runLane Call.result
  rw [hoperands]
  cases hdraws : c.kernel.draws with
  | false =>
      simp only [Bool.false_eq_true, if_false]
      rw [Kernel.eval_eq_of_not_draws hdraws]
  | true =>
      have hgenerator : (runLanes f c w s lane).generator = s.generator.after lane := by
        rw [runLanes_generator, hdraws, if_pos rfl]
      simp only [if_true, hgenerator]
      rfl

/-- A lane of the destination gets its result, computed from what the operands
held before the instruction. -/
theorem runLanes_get?_dst (hlocal : f.LaneLocal) (hbacked : f.Backed s.store)
    (hdst : f.windows c.dst = some w) {count lane : Nat} (hcount : count ≤ f.lanes)
    (hlane : lane < count) :
    (runLanes f c w s count).store.get? (w.cell lane) = some (c.result f s lane) := by
  induction count with
  | zero => exact absurd hlane (Nat.not_lt_zero lane)
  | succ count ih =>
      rw [runLanes_succ, runLane_value hlocal hdst (by omega)]
      by_cases hlast : lane = count
      · subst hlast
        apply Store.get?_set_self
        rw [runLanes_has]
        exact hbacked hdst (by omega)
      · have hne : w.cell count ≠ w.cell lane := by
          intro hcell
          exact hlast (Window.cell_inj hcell).symm
        rw [Store.get?_set_of_ne _ hne]
        exact ih (by omega) (by omega)

end Local

/-!
## Whole instructions
-/

def Call.ready (f : Frame) (c : Call) : Bool :=
  (f.windows c.dst).isSome && c.sources.all (bound f)

def Call.perform (f : Frame) (c : Call) (s : State) : State :=
  match f.windows c.dst with
  | some w => runLanes f c w s f.lanes
  | none => s

theorem runCall_eq (f : Frame) (offset : Nat) (c : Call) (s : State) :
    runCall f offset c s =
      if c.ready f then .ok (c.perform f s) else .error (.outOfRange 0 0 offset) := by
  unfold runCall Call.ready Call.perform runLanes
  cases f.windows c.dst with
  | none => rfl
  | some w => simp

namespace Call

variable (f : Frame) (c : Call) (s : State)

theorem perform_dispatched : (c.perform f s).dispatched = s.dispatched := by
  unfold perform
  cases f.windows c.dst with
  | none => rfl
  | some w => exact runLanes_dispatched f c w s f.lanes

theorem perform_has (d : Cell) : (c.perform f s).store.Has d ↔ s.store.Has d := by
  unfold perform
  cases f.windows c.dst with
  | none => rfl
  | some w => exact runLanes_has f c w s f.lanes d

variable {f c s}

theorem perform_backed (op : Opcode) (h : f.Backed s.store) :
    f.Backed ((c.perform f s).count op).store := by
  intro slot w lane hslot hlane
  exact (c.perform_has f s (w.cell lane)).mpr (h hslot hlane)

theorem perform_generator {w : Window} (hdst : f.windows c.dst = some w) :
    (c.perform f s).generator =
      if c.kernel.draws then s.generator.after f.lanes else s.generator := by
  unfold perform
  rw [hdst]
  exact runLanes_generator f c w s f.lanes

theorem perform_get?_of_ne {d : Cell}
    (h : forall w lane, f.windows c.dst = some w -> lane < f.lanes -> w.cell lane ≠ d) :
    (c.perform f s).store.get? d = s.store.get? d := by
  unfold perform
  cases hdst : f.windows c.dst with
  | none => rfl
  | some w => exact runLanes_get?_of_ne fun lane hlane => h w lane hdst hlane

theorem perform_get?_dst (hlocal : f.LaneLocal) (hbacked : f.Backed s.store) {w : Window}
    (hdst : f.windows c.dst = some w) {lane : Nat} (hlane : lane < f.lanes) :
    (c.perform f s).store.get? (w.cell lane) = some (c.result f s lane) := by
  unfold perform
  rw [hdst]
  exact runLanes_get?_dst hlocal hbacked hdst (Nat.le_refl f.lanes) hlane

end Call
end Chunk
end VectorMachine
