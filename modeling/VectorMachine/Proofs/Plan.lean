import VectorMachine.Proofs.Effect
import VectorMachine.Proofs.Fetch

/-!
# Plans

Which instructions a chunk carries out, and where it fails, is settled before any
lane is read: by the code, the policy, the number of constants and the registers
that are bound.  A plan is what is settled, and a run is its plan carried out.
-/

namespace VectorMachine

namespace Opcode

theorem draws_iff_of_kernel? {op : Opcode} {kernel : Kernel} (h : op.kernel? = some kernel) :
    kernel.draws = true ↔ op = .random := by
  cases op <;> cases h <;> simp [Kernel.draws]

end Opcode

namespace Chunk

/-- A place of the code that is passed without a fault. -/
inductive Step where
  | skip (op : Opcode)
  | call (c : Call)

namespace Step

def op : Step -> Opcode
  | skip op => op
  | call c => c.op

def perform (f : Frame) (s : State) : Step -> State
  | skip op => s.count op
  | call c => (c.perform f s).count c.op

end Step

/-- The steps up to the terminator or the first fault, and that fault. -/
def plan (f : Frame) (offset : Nat) : Bytes -> List Step × Option Fault
  | [] => ([], some (.outOfRange f.codeLength f.codeLength offset))
  | code :: rest =>
      match fetch f offset code rest with
      | .error fault => ([], some fault)
      | .ok .halt => ([], none)
      | .ok (.skip op) =>
          let (steps, fault?) := plan f (offset + 3) (rest.drop 2)
          (.skip op :: steps, fault?)
      | .ok (.call c) =>
          if c.ready f then
            let (steps, fault?) :=
              plan f (offset + 3 + c.sources.length) (rest.drop (2 + c.sources.length))
            (.call c :: steps, fault?)
          else ([], some (.outOfRange 0 0 offset))
termination_by code => code.length
decreasing_by all_goals (simp only [List.length_cons, List.length_drop]; omega)

def follow (f : Frame) (s : State) (steps : List Step) : State :=
  steps.foldl (Step.perform f) s

theorem follow_nil (f : Frame) (s : State) : follow f s [] = s := rfl

theorem follow_cons (f : Frame) (s : State) (step : Step) (steps : List Step) :
    follow f s (step :: steps) = follow f (step.perform f s) steps := rfl

theorem runFrom_eq_plan (f : Frame) (offset : Nat) (s : State) (code : Bytes) :
    runFrom f offset s code = (follow f s (plan f offset code).1, (plan f offset code).2) := by
  fun_induction plan f offset code generalizing s with
  | case1 offset => rw [runFrom, follow_nil]
  | case2 offset code rest fault hfetch => rw [runFrom, hfetch, follow_nil]
  | case3 offset code rest hfetch => rw [runFrom, hfetch, follow_nil]
  | case4 offset code rest op hfetch steps fault? hplan ih =>
      rw [runFrom, hfetch]
      simp only [ih, hplan]
      rfl
  | case5 offset code rest c hfetch hready steps fault? hplan ih =>
      rw [runFrom, hfetch]
      simp only [runCall_eq, hready, if_true, ih, hplan]
      rfl
  | case6 offset code rest c hfetch hready =>
      rw [runFrom, hfetch]
      simp only [runCall_eq, hready, Bool.false_eq_true, if_false]
      rfl

/-!
## What plans depend on
-/

/-- Two frames that differ in nothing a plan depends on. -/
structure Frame.Alike (f g : Frame) : Prop where
  policy : f.policy = g.policy
  codeLength : f.codeLength = g.codeLength
  constants : f.constants.length = g.constants.length
  windows : forall s, (f.windows s).isSome = (g.windows s).isSome

section Alike

variable {f g : Frame} (h : f.Alike g)
include h

theorem byte_congr (offset : Nat) (b : Option UInt8) : byte f offset b = byte g offset b := by
  cases b with
  | none => simp only [byte, h.codeLength]
  | some b => rfl

theorem source_congr (offset : Nat) (b : UInt8) (origin : Origin) :
    source f offset b origin = source g offset b origin := by
  cases origin with
  | register => rfl
  | constant => simp only [source, h.constants]

theorem sources_congr (offset : Nat) (origins : List Origin) (bytes : Bytes) :
    sources f offset origins bytes = sources g offset origins bytes := by
  induction origins generalizing bytes with
  | nil => rfl
  | cons origin origins ih => simp only [sources, byte_congr h, source_congr h, ih]

theorem fetch_congr (offset : Nat) (code : UInt8) (rest : Bytes) :
    fetch f offset code rest = fetch g offset code rest := by
  simp only [fetch, byte_congr h, sources_congr h, h.policy]

theorem bound_congr (o : Operand) : bound f o = bound g o := by
  cases o with
  | register s => exact h.windows s
  | constant index => rfl

theorem ready_congr (c : Call) : c.ready f = c.ready g := by
  have hsources : c.sources.all (bound f) = c.sources.all (bound g) := by
    congr 1
    funext o
    exact bound_congr h o
  simp only [Call.ready, h.windows, hsources]

theorem plan_congr (offset : Nat) (code : Bytes) : plan f offset code = plan g offset code := by
  fun_induction plan f offset code with
  | case1 offset => rw [plan, h.codeLength]
  | case2 offset code rest fault hfetch => rw [plan, ← fetch_congr h, hfetch]
  | case3 offset code rest hfetch => rw [plan, ← fetch_congr h, hfetch]
  | case4 offset code rest op hfetch steps fault? hplan ih =>
      rw [plan, ← fetch_congr h, hfetch]
      simp only [← ih, hplan]
  | case5 offset code rest c hfetch hready steps fault? hplan ih =>
      rw [plan, ← fetch_congr h, hfetch]
      simp only [← ready_congr h, hready, if_true, ← ih, hplan]
  | case6 offset code rest c hfetch hready =>
      rw [plan, ← fetch_congr h, hfetch]
      simp only [← ready_congr h, hready, Bool.false_eq_true, if_false]

end Alike

/-!
## What plans consist of
-/

/-- Every call of a plan was fetched somewhere in the code, and its registers are bound. -/
theorem fetched_of_mem_plan {f : Frame} {offset : Nat} {code : Bytes} {c : Call}
    (h : .call c ∈ (plan f offset code).1) :
    (exists offset' code' rest, fetch f offset' code' rest = .ok (.call c)) ∧
      c.ready f = true := by
  fun_induction plan f offset code with
  | case1 => cases h
  | case2 => cases h
  | case3 => cases h
  | case4 offset code rest op hfetch steps fault? hplan ih =>
      rw [hplan] at ih
      simp only [List.mem_cons, reduceCtorEq, false_or] at h
      exact ih h
  | case5 offset code rest c' hfetch hready steps fault? hplan ih =>
      rw [hplan] at ih
      rcases List.mem_cons.mp h with hhead | htail
      · cases hhead
        exact ⟨⟨offset, code, rest, hfetch⟩, hready⟩
      · exact ih htail
  | case6 => cases h

theorem call_of_mem_plan {f : Frame} {offset : Nat} {code : Bytes} {c : Call}
    (h : .call c ∈ (plan f offset code).1) :
    c.op.kernel? = some c.kernel ∧ c.ready f = true := by
  rcases fetched_of_mem_plan h with ⟨⟨_, _, _, hfetch⟩, hready⟩
  exact ⟨kernel?_of_fetch hfetch, hready⟩

/-!
## What following a plan leaves alone
-/

theorem follow_dispatched (f : Frame) (s : State) (steps : List Step) :
    (follow f s steps).dispatched = (steps.map Step.op).reverse ++ s.dispatched := by
  induction steps generalizing s with
  | nil => rfl
  | cons step steps ih =>
      have hstep : (step.perform f s).dispatched = step.op :: s.dispatched := by
        cases step with
        | skip op => rfl
        | call c =>
            show c.op :: (c.perform f s).dispatched = c.op :: s.dispatched
            rw [c.perform_dispatched]
      rw [follow_cons, ih, hstep]
      simp

theorem perform_has (f : Frame) (s : State) (step : Step) (d : Cell) :
    (step.perform f s).store.Has d ↔ s.store.Has d := by
  cases step with
  | skip op => rfl
  | call c => exact c.perform_has f s d

theorem follow_has (f : Frame) (s : State) (steps : List Step) (d : Cell) :
    (follow f s steps).store.Has d ↔ s.store.Has d := by
  induction steps generalizing s with
  | nil => rfl
  | cons step steps ih => rw [follow_cons, ih, perform_has]

theorem follow_get?_of_unwritten {f : Frame} {s : State} {steps : List Step} {d : Cell}
    (h : forall c, .call c ∈ steps -> forall w lane, f.windows c.dst = some w ->
      lane < f.lanes -> w.cell lane ≠ d) :
    (follow f s steps).store.get? d = s.store.get? d := by
  induction steps generalizing s with
  | nil => rfl
  | cons step steps ih =>
      rw [follow_cons, ih fun c hc => h c (List.mem_cons_of_mem step hc)]
      cases step with
      | skip op => rfl
      | call c => exact Call.perform_get?_of_ne (h c List.mem_cons_self)

end Chunk
end VectorMachine
