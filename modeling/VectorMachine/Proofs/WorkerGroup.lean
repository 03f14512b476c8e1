import VectorMachine.Proofs.Advance
import VectorMachine.Proofs.Schedule

/-!
# Workers on chunks

With more than one worker, a loop hands the chunks out one after another, and no
more of them are under way at a time than there are workers.  A worker looks whether
to begin at all, takes a bank of temporaries, clears it, and goes through the code;
what the others do comes in between its instructions in any order.  The group keeps
the first error that it is told of and then stops what has not begun.  A stop of the
caller may come at any moment, and is passed on to the group at any moment after.
-/

namespace VectorMachine

/-!
## Banks
-/

/-- Temporaries that any worker may have used before. -/
structure Bank where
  registers : Array (Array Vec4)
  count : registers.size = Slot.tempCount
  lanes : forall register, register ∈ registers -> register.size = Chunk.size

namespace Bank

def fresh : Bank where
  registers := Machine.freshBank
  count := Array.size_replicate
  lanes := by
    intro register hregister
    rw [(Array.mem_replicate.mp hregister).2]
    exact Array.size_replicate

def clear (b : Bank) : Array (Array Vec4) :=
  b.registers.map fun register => register.map fun _ => Vec4.zero

theorem clear_eq_freshBank (b : Bank) : b.clear = Machine.freshBank := by
  unfold clear Machine.freshBank
  rw [Array.eq_replicate_iff]
  refine ⟨by rw [Array.size_map, b.count], ?_⟩
  intro register hregister
  rcases Array.mem_map.mp hregister with ⟨before, hbefore, rfl⟩
  rw [Array.eq_replicate_iff]
  refine ⟨by rw [Array.size_map, b.lanes before hbefore], ?_⟩
  intro lane hlane
  rcases Array.mem_map.mp hlane with ⟨_, _, rfl⟩
  rfl

end Bank

namespace Parallel

/-!
## Workers
-/

structure Running where
  bank : Array (Array Vec4)
  generator : Generator
  dispatched : List Opcode
  offset : Nat
  rest : Bytes

namespace Running

/-- What the worker works on: the store that all of them share, and its own bank. -/
def state (r : Running) (store : Store) : Chunk.State where
  store := ⟨store.buffers ++ r.bank⟩
  generator := r.generator
  dispatched := r.dispatched

def start (m : Machine) (i : Invocation) (chunk : Nat) (bank : Bank) : Running where
  bank := bank.clear
  generator := m.generators chunk
  dispatched := []
  offset := 0
  rest := i.code

/-- The worker after an instruction, where the shared part of the store has so many
buffers. -/
def next (shared offset : Nat) (rest : Bytes) (s : Chunk.State) : Running where
  bank := s.store.buffers.drop shared
  generator := s.generator
  dispatched := s.dispatched
  offset := offset
  rest := rest

/-- However the bank was left, a worker starts as a run of its own would. -/
theorem state_start (m : Machine) (i : Invocation) (chunk : Nat) (bank : Bank) (store : Store) :
    (start m i chunk bank).state store = m.start chunk store := by
  unfold state start Machine.start
  rw [bank.clear_eq_freshBank]

/-- What is put back into the store and what stays in the bank are the whole state. -/
theorem state_next (shared offset : Nat) (rest : Bytes) (t : Chunk.State) :
    (next shared offset rest t).state ⟨t.store.buffers.take shared⟩ = t := by
  have hbuffers : t.store.buffers.take shared ++ t.store.buffers.drop shared =
      t.store.buffers := by
    simp [Array.take_eq_extract, Array.drop_eq_extract]
  simp only [state, next, hbuffers]

theorem size_take_perform (r : Running) (store : Store) (f : Chunk.Frame) (step : Chunk.Step) :
    ((step.perform f (r.state store)).store.buffers.take store.buffers.size).size =
      store.buffers.size := by
  rw [Array.take_eq_extract, Array.size_extract, Chunk.perform_size]
  simp [state]

end Running

inductive Phase where
  /-- The chunk has been handed out, and the worker has not looked whether to begin. -/
  | called
  | running (r : Running)
  /-- The worker has an error, and the group has not been told. -/
  | returned (e : RunError)
  /-- The error is the one that the group keeps, and the group has not been stopped. -/
  | kept
  | completed
  | left

def Phase.over : Phase -> Bool
  | completed => true
  | left => true
  | _ => false

def Phase.isCompleted : Phase -> Bool
  | completed => true
  | _ => false

structure Worker where
  chunk : Nat
  phase : Phase

structure Shared where
  store : Store
  statistics : Statistics
  /-- The first error that the group was told of. -/
  error? : Option RunError := none
  caller : Option Stop := none
  group : Option Stop := none

def frameOf (m : Machine) (i : Invocation) (chunk : Nat) (store : Store) : Chunk.Frame :=
  m.frame i chunk (Machine.chunkLanes i.lanes chunk) store.buffers.size

inductive Moves (m : Machine) (i : Invocation) (chunk : Nat) :
    Phase -> Shared -> Phase -> Shared -> Prop where
  /-- A worker that finds the group stopped does not begin. -/
  | refuse {s : Shared} {reason : Stop} : s.group = some reason ->
      Moves m i chunk .called s (.returned (.stopped reason)) s
  | enter {s : Shared} (bank : Bank) : s.group = none ->
      Moves m i chunk .called s (.running (.start m i chunk bank)) s
  | work {s : Shared} {r : Running} {offset : Nat} {rest : Bytes} {t : Chunk.State} :
      Chunk.advance (frameOf m i chunk s.store) r.offset (r.state s.store) r.rest =
        .going offset rest t ->
      Moves m i chunk (.running r) s (.running (.next s.store.buffers.size offset rest t))
        { s with store := ⟨t.store.buffers.take s.store.buffers.size⟩ }
  | complete {s : Shared} {r : Running} :
      Chunk.advance (frameOf m i chunk s.store) r.offset (r.state s.store) r.rest = .halted ->
      Moves m i chunk (.running r) s .completed
        { s with
          statistics := s.statistics.record r.dispatched (Machine.chunkLanes i.lanes chunk) }
  | fail {s : Shared} {r : Running} {fault : Fault} :
      Chunk.advance (frameOf m i chunk s.store) r.offset (r.state s.store) r.rest =
        .failed fault ->
      Moves m i chunk (.running r) s (.returned (.chunk chunk fault)) s
  | keep {s : Shared} {e : RunError} : s.error? = none ->
      Moves m i chunk (.returned e) s .kept { s with error? := some e }
  /-- Only once its error is kept does a worker stop the group. -/
  | stopGroup {s : Shared} :
      Moves m i chunk .kept s .left { s with group := s.group <|> some .canceled }
  | leave {s : Shared} {e : RunError} : s.error? ≠ none ->
      Moves m i chunk (.returned e) s .left s

/-!
## The group
-/

inductive Stage where
  | looking (chunk : Nat)
  | calling (chunk : Nat)
  /-- It waits for all workers to be gone, with chunks left over or not. -/
  | waiting (skipped : Bool)
  | returned (result : Except RunError Unit)

structure Group where
  stage : Stage
  workers : List Worker
  shared : Shared

/-- What is returned once all workers are gone.  Where chunks were left over and no
error was kept, the caller is asked for the reason. -/
def Shared.verdict (s : Shared) (skipped : Bool) : Except RunError Unit :=
  match s.error? with
  | some e => .error e
  | none =>
      if skipped then
        match s.caller with
        | some reason => .error (.stopped reason)
        | none => .ok ()
      else .ok ()

namespace Group

def chunks (i : Invocation) : Nat :=
  i.chunkCount.toInt.toNat

def active (workers : List Worker) : Nat :=
  workers.countP fun w => !w.phase.over

def completed (g : Group) : List Nat :=
  (g.workers.filter (·.phase.isCompleted)).map (·.chunk)

def outcome? (g : Group) : Option Machine.Outcome :=
  match g.stage with
  | .returned result => some ⟨g.shared.store, g.shared.statistics, result⟩
  | _ => none

theorem stage_of_outcome? {g : Group} {o : Machine.Outcome} (h : g.outcome? = some o) :
    g.stage = .returned o.result := by
  unfold outcome? at h
  split at h
  next result hstage =>
    cases h
    exact hstage
  next => cases h

/-- The group at its start; the caller may have stopped it before. -/
def start (caller : Option Stop) (store : Store) (statistics : Statistics) : Group where
  stage := .looking 0
  workers := []
  shared := { store, statistics, caller }

inductive Step (m : Machine) (i : Invocation) (limit : Nat) : Group -> Group -> Prop where
  | worker {stage : Stage} {before after : List Worker} {chunk : Nat} {p q : Phase}
      {s t : Shared} : Moves m i chunk p s q t ->
      Step m i limit ⟨stage, before ++ ⟨chunk, p⟩ :: after, s⟩
        ⟨stage, before ++ ⟨chunk, q⟩ :: after, t⟩
  | stopCaller {stage : Stage} {workers : List Worker} {s : Shared} (reason : Stop) :
      s.caller = none ->
      Step m i limit ⟨stage, workers, s⟩ ⟨stage, workers, { s with caller := some reason }⟩
  | passOn {stage : Stage} {workers : List Worker} {s : Shared} {reason : Stop} :
      s.caller = some reason -> s.group = none ->
      Step m i limit ⟨stage, workers, s⟩ ⟨stage, workers, { s with group := some reason }⟩
  | look {chunk : Nat} {workers : List Worker} {s : Shared} :
      chunk < chunks i -> s.group = none ->
      Step m i limit ⟨.looking chunk, workers, s⟩ ⟨.calling chunk, workers, s⟩
  | skip {chunk : Nat} {workers : List Worker} {s : Shared} :
      chunk < chunks i -> s.group ≠ none ->
      Step m i limit ⟨.looking chunk, workers, s⟩ ⟨.waiting true, workers, s⟩
  | finish {chunk : Nat} {workers : List Worker} {s : Shared} : chunks i ≤ chunk ->
      Step m i limit ⟨.looking chunk, workers, s⟩ ⟨.waiting false, workers, s⟩
  | call {chunk : Nat} {workers : List Worker} {s : Shared} : active workers < limit ->
      Step m i limit ⟨.calling chunk, workers, s⟩
        ⟨.looking (chunk + 1), workers ++ [⟨chunk, .called⟩], s⟩
  | result {skipped : Bool} {workers : List Worker} {s : Shared} :
      (forall w, w ∈ workers -> w.phase.over = true) ->
      Step m i limit ⟨.waiting skipped, workers, s⟩
        ⟨.returned (s.verdict skipped), workers, s⟩

def Reaches (m : Machine) (i : Invocation) (limit : Nat) : Group -> Group -> Prop :=
  Relation.ReflTransGen (Step m i limit)

/-!
## Every run returns
-/

end Group

/-- A bound on the steps that a worker may still take. -/
def Phase.weight (length : Nat) : Phase -> Nat
  | called => length + 4
  | running r => r.rest.length + 3
  | returned _ => 2
  | kept => 1
  | completed => 0
  | left => 0

/-- A bound on the steps of the loop and of the workers it may still call. -/
def Stage.weight (chunks length : Nat) : Stage -> Nat
  | looking chunk => (chunks - chunk) * (length + 10) + 3
  | calling chunk => (chunks - (chunk + 1)) * (length + 10) + length + 10
  | waiting _ => 1
  | returned _ => 0

def Shared.weight (s : Shared) : Nat :=
  (if s.caller.isNone then 1 else 0) + (if s.group.isNone then 1 else 0)

namespace Group

def weight (i : Invocation) (g : Group) : Nat :=
  g.stage.weight (chunks i) i.code.length
    + (g.workers.map fun w => w.phase.weight i.code.length).sum + g.shared.weight

variable {m : Machine} {i : Invocation} {limit : Nat}

theorem weight_of_moves {chunk : Nat} {p q : Phase} {s t : Shared}
    (h : Moves m i chunk p s q t) :
    q.weight i.code.length + t.weight < p.weight i.code.length + s.weight := by
  cases h with
  | refuse => simp [Phase.weight]
  | enter => simp [Phase.weight, Running.start]
  | work hadvance =>
      rcases Chunk.plan_of_going hadvance with ⟨_, _, hshorter, _⟩
      simp only [Phase.weight, Running.next, Shared.weight]
      omega
  | complete =>
      simp only [Phase.weight, Shared.weight]
      omega
  | fail =>
      simp only [Phase.weight]
      omega
  | keep => simp [Phase.weight, Shared.weight]
  | stopGroup =>
      cases hgroup : s.group <;> simp [Phase.weight, Shared.weight, hgroup]
      omega
  | leave => simp [Phase.weight]

theorem weight_of_step {g h : Group} (hstep : Step m i limit g h) :
    h.weight i < g.weight i := by
  cases hstep with
  | worker hmoves =>
      have := weight_of_moves hmoves
      simp only [weight, List.map_append, List.map_cons, List.sum_append, List.sum_cons]
      omega
  | stopCaller reason hcaller => simp [weight, Shared.weight, hcaller]
  | passOn hcaller hgroup => simp [weight, Shared.weight, hgroup]
  | @look chunk workers s hchunk hgroup =>
      have hrest : chunks i - chunk = chunks i - (chunk + 1) + 1 := by omega
      simp only [weight, Stage.weight]
      rw [hrest, Nat.succ_mul]
      omega
  | skip hchunk hgroup =>
      simp only [weight, Stage.weight]
      omega
  | finish hchunk =>
      simp only [weight, Stage.weight]
      omega
  | call hactive =>
      simp only [weight, Stage.weight, Phase.weight, List.map_append, List.map_cons,
        List.map_nil, List.sum_append, List.sum_cons, List.sum_nil]
      omega
  | result hover => simp [weight, Stage.weight]

theorem wellFounded_step (m : Machine) (i : Invocation) (limit : Nat) :
    WellFounded fun h g => Step m i limit g h :=
  Subrelation.wf (fun hstep => weight_of_step hstep) (measure (weight i)).wf

theorem exists_moves (m : Machine) (i : Invocation) (chunk : Nat) {p : Phase}
    (hover : p.over = false) (s : Shared) :
    exists q t, Moves m i chunk p s q t ∧ t.caller = s.caller := by
  cases p with
  | called =>
      cases hgroup : s.group with
      | none => exact ⟨_, _, .enter .fresh hgroup, rfl⟩
      | some reason => exact ⟨_, _, .refuse hgroup, rfl⟩
  | running r =>
      cases hadvance :
          Chunk.advance (frameOf m i chunk s.store) r.offset (r.state s.store) r.rest with
      | going offset rest t => exact ⟨_, _, .work hadvance, rfl⟩
      | halted => exact ⟨_, _, .complete hadvance, rfl⟩
      | failed fault => exact ⟨_, _, .fail hadvance, rfl⟩
  | returned e =>
      cases herror : s.error? with
      | none => exact ⟨_, _, .keep herror, rfl⟩
      | some first => exact ⟨_, _, .leave (by simp [herror]), rfl⟩
  | kept => exact ⟨_, _, .stopGroup, rfl⟩
  | completed => cases hover
  | left => cases hover

/-- Where a worker is not gone, the group can take a step of that worker. -/
theorem exists_step_of_worker {stage : Stage} {workers : List Worker} {s : Shared} {w : Worker}
    (hw : w ∈ workers) (hover : w.phase.over = false) :
    exists h, Step m i limit ⟨stage, workers, s⟩ h ∧ h.shared.caller = s.caller := by
  rcases List.append_of_mem hw with ⟨before, after, rfl⟩
  rcases exists_moves m i w.chunk hover s with ⟨q, t, hmoves, hcaller⟩
  exact ⟨_, .worker hmoves, hcaller⟩

theorem exists_step (hlimit : 1 ≤ limit) (g : Group) :
    (exists result, g.stage = .returned result) ∨
      exists h, Step m i limit g h ∧ h.shared.caller = g.shared.caller := by
  rcases g with ⟨stage, workers, s⟩
  cases stage with
  | looking chunk =>
      right
      by_cases hchunk : chunk < chunks i
      · by_cases hgroup : s.group = none
        · exact ⟨_, .look hchunk hgroup, rfl⟩
        · exact ⟨_, .skip hchunk hgroup, rfl⟩
      · exact ⟨_, .finish (Nat.not_lt.mp hchunk), rfl⟩
  | calling chunk =>
      right
      by_cases hactive : active workers < limit
      · exact ⟨_, .call hactive, rfl⟩
      · -- someone is at work, and that worker can go on
        have hsome : 0 < active workers := by omega
        rcases List.countP_pos_iff.mp hsome with ⟨w, hw, hover⟩
        exact exists_step_of_worker hw (by simpa using hover)
  | waiting skipped =>
      right
      by_cases hover : forall w, w ∈ workers -> w.phase.over = true
      · exact ⟨_, .result hover, rfl⟩
      · have hsome : exists w, w ∈ workers ∧ w.phase.over = false := by simpa using hover
        rcases hsome with ⟨w, hw, hrunning⟩
        exact exists_step_of_worker hw hrunning
  | returned result => exact Or.inl ⟨result, rfl⟩

theorem exists_returned (hlimit : 1 ≤ limit) (g : Group) :
    exists h, Reaches m i limit g h ∧ h.shared.caller = g.shared.caller ∧
      exists result, h.stage = .returned result := by
  induction g using (wellFounded_step m i limit).induction with
  | _ g ih =>
      rcases exists_step (m := m) (i := i) hlimit g with hreturned | ⟨next, hstep, hcaller⟩
      · exact ⟨g, Relation.ReflTransGen.refl, rfl, hreturned⟩
      · rcases ih next hstep with ⟨last, hreaches, hlast, hreturned⟩
        exact ⟨last, hreaches.head hstep, hlast.trans hcaller, hreturned⟩

end Group
end Parallel
end VectorMachine
