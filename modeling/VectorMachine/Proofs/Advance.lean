import VectorMachine.Proofs.LaneSimulation

/-!
# One instruction at a time

A run over a chunk can be broken off after every instruction and taken up again
later.  It reads and writes nothing but the lanes of its registers, so whatever
happens to other cells in between makes no difference to it.
-/

namespace VectorMachine
namespace Chunk

/-!
## The next instruction
-/

/-- How a run stands once the next instruction has been looked at. -/
inductive Progress where
  /-- It was carried out or passed over, and the run goes on behind it. -/
  | going (offset : Nat) (rest : Bytes) (s : State)
  | halted
  | failed (fault : Fault)

def advance (f : Frame) (offset : Nat) (s : State) : Bytes -> Progress
  | [] => .failed (.outOfRange f.codeLength f.codeLength offset)
  | code :: rest =>
      match fetch f offset code rest with
      | .error fault => .failed fault
      | .ok .halt => .halted
      | .ok (.skip op) => .going (offset + 3) (rest.drop 2) (s.count op)
      | .ok (.call c) =>
          match runCall f offset c s with
          | .error fault => .failed fault
          | .ok s =>
              .going (offset + 3 + c.sources.length) (rest.drop (2 + c.sources.length))
                (s.count c.op)

theorem runFrom_eq_advance (f : Frame) (offset : Nat) (s : State) (code : Bytes) :
    runFrom f offset s code =
      match advance f offset s code with
      | .going offset rest s => runFrom f offset s rest
      | .halted => (s, none)
      | .failed fault => (s, some fault) := by
  cases code with
  | nil => rw [runFrom, advance]
  | cons code rest =>
      rw [runFrom, advance]
      cases fetch f offset code rest with
      | error fault => rfl
      | ok fetched =>
          cases fetched with
          | halt => rfl
          | skip op => rfl
          | call c =>
              simp only
              cases runCall f offset c s <;> rfl

theorem advance_eq_plan (f : Frame) (offset : Nat) (s : State) (code : Bytes) :
    (exists step offset' rest,
      advance f offset s code = .going offset' rest (step.perform f s) ∧
        rest.length < code.length ∧
        plan f offset code = (step :: (plan f offset' rest).1, (plan f offset' rest).2)) ∨
    (advance f offset s code = .halted ∧ plan f offset code = ([], none)) ∨
    (exists fault, advance f offset s code = .failed fault ∧
      plan f offset code = ([], some fault)) := by
  cases code with
  | nil => exact Or.inr (Or.inr ⟨_, by rw [advance], by rw [plan]⟩)
  | cons code rest =>
      cases hfetch : fetch f offset code rest with
      | error fault =>
          exact Or.inr (Or.inr ⟨fault, by rw [advance, hfetch], by rw [plan, hfetch]⟩)
      | ok fetched =>
          cases fetched with
          | halt => exact Or.inr (Or.inl ⟨by rw [advance, hfetch], by rw [plan, hfetch]⟩)
          | skip op =>
              left
              refine ⟨.skip op, offset + 3, rest.drop 2, ?_, ?_, ?_⟩
              · rw [advance, hfetch]
                rfl
              · rw [List.length_drop, List.length_cons]
                omega
              · rw [plan, hfetch]
          | call c =>
              cases hready : c.ready f with
              | true =>
                  left
                  refine ⟨.call c, offset + 3 + c.sources.length,
                    rest.drop (2 + c.sources.length), ?_, ?_, ?_⟩
                  · rw [advance, hfetch]
                    simp only [runCall_eq, hready, if_true]
                    rfl
                  · rw [List.length_drop, List.length_cons]
                    omega
                  · rw [plan, hfetch]
                    simp only [hready, if_true]
              | false =>
                  refine Or.inr (Or.inr ⟨.outOfRange 0 0 offset, ?_, ?_⟩)
                  · rw [advance, hfetch]
                    simp only [runCall_eq, hready, Bool.false_eq_true, if_false]
                  · rw [plan, hfetch]
                    simp only [hready, Bool.false_eq_true, if_false]

section Inversion

variable {f : Frame} {offset : Nat} {s : State} {code : Bytes}

theorem plan_of_going {offset' : Nat} {rest : Bytes} {t : State}
    (h : advance f offset s code = .going offset' rest t) :
    exists step, t = step.perform f s ∧ rest.length < code.length ∧
      plan f offset code = (step :: (plan f offset' rest).1, (plan f offset' rest).2) := by
  rcases advance_eq_plan f offset s code with
    ⟨step, _, _, hgoing, hshorter, hplan⟩ | ⟨hhalted, _⟩ | ⟨_, hfailed, _⟩
  · rw [hgoing] at h
    cases h
    exact ⟨step, rfl, hshorter, hplan⟩
  · rw [hhalted] at h
    cases h
  · rw [hfailed] at h
    cases h

theorem plan_of_halted (h : advance f offset s code = .halted) :
    plan f offset code = ([], none) := by
  rcases advance_eq_plan f offset s code with
    ⟨_, _, _, hgoing, _⟩ | ⟨_, hplan⟩ | ⟨_, hfailed, _⟩
  · rw [hgoing] at h
    cases h
  · exact hplan
  · rw [hfailed] at h
    cases h

theorem plan_of_failed {fault : Fault} (h : advance f offset s code = .failed fault) :
    plan f offset code = ([], some fault) := by
  rcases advance_eq_plan f offset s code with
    ⟨_, _, _, hgoing, _⟩ | ⟨hhalted, _⟩ | ⟨_, hfailed, hplan⟩
  · rw [hgoing] at h
    cases h
  · rw [hhalted] at h
    cases h
  · rw [hfailed] at h
    cases h
    exact hplan

end Inversion

/-!
## What a run can see
-/

namespace Frame

def Sees (f : Frame) (c : Cell) : Prop :=
  exists s w lane, f.windows s = some w ∧ lane < f.lanes ∧ w.cell lane = c

def Agree (f : Frame) (S T : Store) : Prop :=
  forall c, f.Sees c -> S.get? c = T.get? c

end Frame

variable {f : Frame}

theorem laneMatch_self {lane : Nat} (h : lane < f.lanes) : LaneMatch f f lane lane where
  left_lt := h
  right_lt := h
  alike := ⟨rfl, rfl, rfl, fun _ => rfl⟩
  constants := rfl
  shares := by
    intro s t w v w' v' hs ht hs' ht'
    rw [Option.some.inj (hs.symm.trans hs'), Option.some.inj (ht.symm.trans ht')]

theorem agree_iff_sameLane {S T : Store} :
    f.Agree S T ↔ forall lane, lane < f.lanes -> SameLane f f lane lane S T := by
  constructor
  · intro h lane hlane s w w' hs hs'
    rw [Option.some.inj (hs'.symm.trans hs)]
    exact h _ ⟨s, w, lane, hs, hlane, rfl⟩
  · rintro h c ⟨s, w, lane, hs, hlane, rfl⟩
    exact h lane hlane hs hs

/-- The steps draw nothing, or they draw from the same stream. -/
def SameDraws (steps : List Step) (s t : State) : Prop :=
  (forall c, .call c ∈ steps -> c.kernel.draws = false) ∨ s.generator = t.generator

theorem perform_generator_congr (c : Call) {s t : State} (h : s.generator = t.generator) :
    (c.perform f s).generator = (c.perform f t).generator := by
  cases hdst : f.windows c.dst with
  | none => simp only [Call.perform, hdst, h]
  | some w => rw [Call.perform_generator hdst, Call.perform_generator hdst, h]

theorem agree_follow (hlocal : f.LaneLocal) {steps : List Step} {s t : State}
    (hs : f.Backed s.store) (ht : f.Backed t.store) (hdraws : SameDraws steps s t)
    (h : f.Agree s.store t.store) :
    f.Agree (follow f s steps).store (follow f t steps).store := by
  induction steps generalizing s t with
  | nil => exact h
  | cons step steps ih =>
      rw [follow_cons, follow_cons]
      cases step with
      | skip op =>
          have hrest : SameDraws steps (s.count op) (t.count op) :=
            hdraws.imp_left fun hquiet c hc => hquiet c (List.mem_cons_of_mem _ hc)
          exact ih (s := s.count op) (t := t.count op) hs ht hrest h
      | call c =>
          have hrest : SameDraws steps ((c.perform f s).count c.op)
              ((c.perform f t).count c.op) :=
            hdraws.imp (fun hquiet c hc => hquiet c (List.mem_cons_of_mem _ hc))
              (perform_generator_congr c)
          apply ih (Call.perform_backed c.op hs) (Call.perform_backed c.op ht) hrest
          rw [agree_iff_sameLane] at h ⊢
          intro lane hlane
          refine sameLane_perform (laneMatch_self hlane) hlocal hlocal ?_ hs ht (h lane hlane)
          intro hdrawn
          rcases hdraws with hquiet | hsame
          · rw [hquiet c List.mem_cons_self] at hdrawn
            cases hdrawn
          · rw [hsame]

theorem perform_get?_of_unseen {s : State} {step : Step} {c : Cell} (h : ¬f.Sees c) :
    (step.perform f s).store.get? c = s.store.get? c := by
  have hfollow : (follow f s [step]).store.get? c = s.store.get? c :=
    follow_get?_of_unwritten fun c _ w lane hdst hlane hcell =>
      h ⟨c.dst, w, lane, hdst, hlane, hcell⟩
  exact hfollow

theorem perform_backed {s : State} (step : Step) (h : f.Backed s.store) :
    f.Backed (step.perform f s).store := by
  cases step with
  | skip op => exact h
  | call c => exact Call.perform_backed c.op h

theorem perform_size (s : State) (step : Step) :
    (step.perform f s).store.buffers.size = s.store.buffers.size := by
  have hlanes : forall (c : Call) (w : Window) (count : Nat),
      (runLanes f c w s count).store.buffers.size = s.store.buffers.size := by
    intro c w count
    induction count with
    | zero => rfl
    | succ count ih =>
        rw [runLanes_succ]
        rcases runLane_store f c w (runLanes f c w s count) count with ⟨v, hstore⟩
        rw [hstore, ← ih]
        exact Array.size_modify
  cases step with
  | skip op => rfl
  | call c =>
      show (c.perform f s).store.buffers.size = _
      unfold Call.perform
      cases f.windows c.dst with
      | none => rfl
      | some w => exact hlanes c w f.lanes

end Chunk
end VectorMachine
