import VectorMachine.Proofs.Plan

/-!
# Lanes on their own

A lane of a chunk takes part in nothing but itself.  So one lane of one chunk and
one lane of another, with as many registers bound, the same ones shared, and equal
values in them, stay equal while the two chunks follow the same steps.
-/

namespace VectorMachine
namespace Chunk

/-- A lane of one frame and a lane of another that differ only in where their
cells are. -/
structure LaneMatch (f g : Frame) (l j : Nat) : Prop where
  left_lt : l < f.lanes
  right_lt : j < g.lanes
  alike : f.Alike g
  constants : f.constants = g.constants
  shares : forall ⦃s t : Slot⦄ ⦃w v w' v' : Window⦄,
    f.windows s = some w -> f.windows t = some v ->
      g.windows s = some w' -> g.windows t = some v' ->
        (w.cell l = v.cell l ↔ w'.cell j = v'.cell j)

def SameLane (f g : Frame) (l j : Nat) (S T : Store) : Prop :=
  forall ⦃s : Slot⦄ ⦃w w' : Window⦄, f.windows s = some w -> g.windows s = some w' ->
    S.get? (w.cell l) = T.get? (w'.cell j)

variable {f g : Frame} {l j : Nat}

theorem LaneMatch.window_right (hmatch : LaneMatch f g l j) {s : Slot} {w : Window}
    (h : f.windows s = some w) : exists w', g.windows s = some w' := by
  have hsome : (g.windows s).isSome = true := by
    rw [← hmatch.alike.windows s, h]
    rfl
  exact Option.isSome_iff_exists.mp hsome

theorem LaneMatch.window_none (hmatch : LaneMatch f g l j) {s : Slot}
    (h : f.windows s = none) : g.windows s = none := by
  have hnone : (g.windows s).isSome = false := by
    rw [← hmatch.alike.windows s, h]
    rfl
  exact Option.not_isSome_iff_eq_none.mp (by rw [hnone]; exact Bool.false_ne_true)

theorem value_eq_of_sameLane (hmatch : LaneMatch f g l j) {S T : Store}
    (h : SameLane f g l j S T) (o : Operand) : value f S l o = value g T j o := by
  cases o with
  | constant index => simp only [value, hmatch.constants]
  | register s =>
      cases hs : f.windows s with
      | none => simp only [value, hs, hmatch.window_none hs]
      | some w =>
          rcases hmatch.window_right hs with ⟨w', hs'⟩
          simp only [value, hs, hs', Store.get, h hs hs']

theorem result_eq_of_sameLane (hmatch : LaneMatch f g l j) {c : Call} {s t : State}
    (hdrawn : c.kernel.draws = true -> s.generator.vector l = t.generator.vector j)
    (h : SameLane f g l j s.store t.store) : c.result f s l = c.result g t j := by
  have hoperands :
      c.sources.map (value f s.store l) = c.sources.map (value g t.store j) := by
    apply List.map_congr_left
    intro o _
    exact value_eq_of_sameLane hmatch h o
  unfold Call.result
  rw [hoperands]
  cases hdraws : c.kernel.draws with
  | false => exact Kernel.eval_eq_of_not_draws hdraws _ _ _
  | true => rw [hdrawn hdraws]

/-- A register is written in a lane exactly when it is the destination there. -/
theorem perform_get?_of_lane_ne {c : Call} {s : State} {d w : Window} {slot : Slot}
    (hlocal : f.LaneLocal) (hdst : f.windows c.dst = some d) (hslot : f.windows slot = some w)
    (hl : l < f.lanes) (hne : d.cell l ≠ w.cell l) :
    (c.perform f s).store.get? (w.cell l) = s.store.get? (w.cell l) := by
  apply Call.perform_get?_of_ne
  intro v lane hv hlane hcell
  have hvd : v = d := Option.some.inj (hv.symm.trans hdst)
  subst hvd
  have hsame : lane = l := hlocal hdst hslot hlane hl hcell
  subst hsame
  exact hne hcell

theorem sameLane_perform (hmatch : LaneMatch f g l j) (hf : f.LaneLocal) (hg : g.LaneLocal)
    {c : Call} {s t : State}
    (hdrawn : c.kernel.draws = true -> s.generator.vector l = t.generator.vector j)
    (hbf : f.Backed s.store) (hbg : g.Backed t.store) (h : SameLane f g l j s.store t.store) :
    SameLane f g l j (c.perform f s).store (c.perform g t).store := by
  intro slot w w' hw hw'
  cases hdst : f.windows c.dst with
  | none =>
      simp only [Call.perform, hdst, hmatch.window_none hdst]
      exact h hw hw'
  | some d =>
      rcases hmatch.window_right hdst with ⟨d', hdst'⟩
      have hiff := hmatch.shares hdst hw hdst' hw'
      by_cases hcell : d.cell l = w.cell l
      · rw [← hcell, ← hiff.mp hcell, Call.perform_get?_dst hf hbf hdst hmatch.left_lt,
          Call.perform_get?_dst hg hbg hdst' hmatch.right_lt,
          result_eq_of_sameLane hmatch hdrawn h]
      · have hcell' : d'.cell j ≠ w'.cell j := fun heq => hcell (hiff.mpr heq)
        rw [perform_get?_of_lane_ne hf hdst hw hmatch.left_lt hcell,
          perform_get?_of_lane_ne hg hdst' hw' hmatch.right_lt hcell']
        exact h hw hw'

theorem sameLane_follow (hmatch : LaneMatch f g l j) (hf : f.LaneLocal) (hg : g.LaneLocal)
    {steps : List Step} (hdraws : forall c, .call c ∈ steps -> c.kernel.draws = false)
    {s t : State} (hbf : f.Backed s.store) (hbg : g.Backed t.store)
    (h : SameLane f g l j s.store t.store) :
    SameLane f g l j (follow f s steps).store (follow g t steps).store := by
  induction steps generalizing s t with
  | nil => exact h
  | cons step steps ih =>
      rw [follow_cons, follow_cons]
      have hrest : forall c, .call c ∈ steps -> c.kernel.draws = false := by
        intro c hc
        exact hdraws c (List.mem_cons_of_mem step hc)
      cases step with
      | skip op => exact ih hrest hbf hbg h
      | call c =>
          have hquiet : c.kernel.draws = false := hdraws c List.mem_cons_self
          apply ih hrest (Call.perform_backed c.op hbf) (Call.perform_backed c.op hbg)
          exact sameLane_perform hmatch hf hg (fun hdrawn => absurd hdrawn (by simp [hquiet]))
            hbf hbg h

end Chunk
end VectorMachine
