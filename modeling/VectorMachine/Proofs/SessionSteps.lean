import VectorMachine.Proofs.Reports
import VectorMachine.Proofs.StoppedRun

/-!
# Sessions step by step

A machine is called again and again, and its statistics go on counting.  A session follows the
calls that it is given instruction by instruction, and keeps a record of its own of the chunks
that reach the terminator.  Every step keeps the record to the chunks of the calls before and of
the current one, and the report to what the record adds up to.
-/

namespace VectorMachine

namespace Chunk

/-- An instruction that a run goes on behind is counted under the opcode that stands there. -/
theorem dispatched_of_going {f : Frame} {offset offset' : Nat} {code : UInt8}
    {rest rest' : Bytes} {s t : State}
    (h : advance f offset s (code :: rest) = .going offset' rest' t) :
    t.dispatched = Opcode.ofByte code :: s.dispatched ∧ 0 < code ∧ code < 39 := by
  rw [advance] at h
  cases hfetch : fetch f offset code rest with
  | error fault =>
      rw [hfetch] at h
      cases h
  | ok fetched =>
      rw [hfetch] at h
      rcases fetched_op hfetch with rfl | ⟨kernel, hkernel, rfl | ⟨dst, sources, rfl⟩⟩
      · cases h
      · cases h
        exact ⟨rfl, Opcode.code_of_kernel? hkernel⟩
      · simp only [runCall_eq] at h
        split at h
        · cases h
        next hrun =>
          cases h
          split at hrun
          · cases hrun
            refine ⟨?_, Opcode.code_of_kernel? hkernel⟩
            exact congrArg (Opcode.ofByte code :: ·) (Call.perform_dispatched f _ s)
          · cases hrun

end Chunk

namespace Watch

theorem passes_of_stop {w : Watch} {reason : Stop} (h : w.check = .error reason) :
    w.passes = some 0 := by
  unfold check at h
  split at h
  · cases h
  · assumption
  · cases h

theorem passes_of_pass {w w' : Watch} (h : w.check = .ok w') :
    w.passes = w'.passes.map (· + 1) := by
  unfold check at h
  split at h
  next hpasses =>
    cases h
    rw [hpasses]
    rfl
  next => cases h
  next passes hpasses =>
    cases h
    rw [hpasses]
    rfl

end Watch

namespace Session

/-!
## Calls
-/

/-- The ways to call a machine that go through the chunks in order. -/
inductive Entry where
  | exec
  | execParallel (workers : Int) (serial : workers ≤ 1) (watch : Watch)

structure Request where
  generators : Nat -> Generator
  invocation : Invocation
  store : Store
  entry : Entry

/-- A chunk that has reached the terminator, and the opcodes on its way there. -/
structure Completed where
  lanes : Nat
  opcodes : Bytes

namespace Request

def machine (policy : Policy) (r : Request) : Machine where
  policy := policy
  generators := r.generators

def watch (r : Request) : Watch :=
  match r.entry with
  | .exec => .always
  | .execParallel _ _ watch => watch

def outcome (policy : Policy) (r : Request) (statistics : Statistics) : Machine.Outcome :=
  match r.entry with
  | .exec => (r.machine policy).exec r.invocation .always r.store statistics
  | .execParallel workers _ watch =>
      (r.machine policy).execParallel workers r.invocation watch r.store statistics

def chunkCount (r : Request) : Nat :=
  r.invocation.chunkCount.toInt.toNat

/-- What goes wrong in the code, in the first chunk if there is one. -/
def fault? (policy : Policy) (r : Request) : Option Fault :=
  ((r.machine policy).plan r.invocation).2

/-- The opcodes that stand at the instructions of the code, up to the terminator. -/
def opcodes (policy : Policy) (r : Request) : Bytes :=
  ((r.machine policy).plan r.invocation).1.map fun step => step.op.toByte

def chunk (policy : Policy) (r : Request) (index : Nat) : Completed where
  lanes := Machine.chunkLanes r.invocation.lanes index
  opcodes := r.opcodes policy

def allowed (r : Request) : Nat :=
  match r.watch.passes with
  | none => r.chunkCount
  | some passes => min passes r.chunkCount

/-- How many chunks the call completes, which is none if it has the wrong shape or its code has
a fault. -/
def completedCount (policy : Policy) (r : Request) : Nat :=
  if r.invocation.shapeError? = none ∧ r.fault? policy = none then r.allowed else 0

def chunks (policy : Policy) (r : Request) (count : Nat) : List Completed :=
  (List.range count).map (r.chunk policy)

def completed (policy : Policy) (r : Request) : List Completed :=
  r.chunks policy (r.completedCount policy)

theorem outcome_eq_watched (policy : Policy) (r : Request) (statistics : Statistics) :
    r.outcome policy statistics =
      (r.machine policy).exec r.invocation r.watch r.store statistics := by
  unfold outcome watch
  cases r.entry with
  | exec => rfl
  | execParallel workers serial watch => exact Machine.execParallel_eq_exec _ _ _ _ _ _

end Request

def statisticsAfter (policy : Policy) (requests : List Request) : Statistics :=
  requests.foldl (fun statistics r => (r.outcome policy statistics).statistics) {}

def lastAfter (policy : Policy) (requests : List Request) :
    Option (Store × Except RunError Unit) :=
  requests.getLast?.map fun r =>
    let o := r.outcome policy (statisticsAfter policy requests.dropLast)
    (o.store, o.result)

/-!
## Steps
-/

/-- A call that is under way: its next chunk, how many are left behind that, and what is left of
its watch. -/
structure Pending where
  request : Request
  left : Nat
  chunk : Nat
  watch : Watch

namespace Pending

def lanes (p : Pending) : Nat :=
  Machine.chunkLanes p.request.invocation.lanes p.chunk

def frame (policy : Policy) (p : Pending) (bank : Nat) : Chunk.Frame :=
  (p.request.machine policy).frame p.request.invocation p.chunk p.lanes bank

end Pending

inductive Activity where
  | idle (last : Option (Store × Except RunError Unit))
  | between (p : Pending) (store : Store)
  /-- The rest of the code is to be run on a chunk.  The opcodes stand at the instructions that
  have been gone through. -/
  | within (p : Pending) (bank offset : Nat) (rest : Bytes) (s : Chunk.State) (opcodes : Bytes)

namespace Activity

def opcodes : Activity -> Bytes
  | .within _ _ _ _ _ opcodes => opcodes
  | _ => []

def current : Activity -> List Request
  | .idle _ => []
  | .between p _ => [p.request]
  | .within p _ _ _ _ _ => [p.request]

def completed (policy : Policy) : Activity -> List Completed
  | .idle _ => []
  | .between p _ => p.request.chunks policy p.chunk
  | .within p _ _ _ _ _ => p.request.chunks policy p.chunk

end Activity

end Session

structure Session where
  statistics : Statistics
  history : List Session.Completed
  finished : List Session.Request
  activity : Session.Activity
  requests : List Session.Request

namespace Session

def start (requests : List Request) : Session where
  statistics := {}
  history := []
  finished := []
  activity := .idle none
  requests := requests

def conclude (x : Session) (r : Request) (store : Store) (result : Except RunError Unit) :
    Session :=
  { x with finished := x.finished ++ [r], activity := .idle (some (store, result)) }

/-- What the machine does next: begin the next call, begin a chunk or return, or carry out an
instruction. -/
def next (policy : Policy) (x : Session) : Session :=
  match x.activity with
  | .idle _ =>
      match x.requests with
      | [] => x
      | r :: requests =>
          match r.invocation.shapeError? with
          | some e => { x with requests }.conclude r r.store (.error e)
          | none =>
              { x with requests, activity := .between ⟨r, r.chunkCount, 0, r.watch⟩ r.store }
  | .between p store =>
      match p.left with
      | 0 => x.conclude p.request store (.ok ())
      | left + 1 =>
          match p.watch.check with
          | .error reason => x.conclude p.request store (.error (.stopped reason))
          | .ok watch =>
              { x with
                activity :=
                  .within { p with left, watch } store.buffers.size 0
                    p.request.invocation.code
                    ((p.request.machine policy).start p.chunk store) [] }
  | .within p bank offset rest s opcodes =>
      match Chunk.advance (p.frame policy bank) offset s rest with
      | .going offset' rest' s' =>
          { x with activity := .within p bank offset' rest' s' (opcodes ++ rest.take 1) }
      | .failed fault =>
          x.conclude p.request ⟨s.store.buffers.take bank⟩ (.error (.chunk p.chunk fault))
      | .halted =>
          { x with
            statistics := x.statistics.record s.dispatched p.lanes
            history := x.history ++ [⟨p.lanes, opcodes⟩]
            activity := .between { p with chunk := p.chunk + 1 } ⟨s.store.buffers.take bank⟩ }

def point (policy : Policy) (requests : List Request) (n : Nat) : Session :=
  (next policy)^[n] (start requests)

/-!
## Counting
-/

/-- The report of a machine that has completed the chunks of a history, and nothing else. -/
structure Reported (history : List Completed) (r : Report) : Prop where
  chunks : Shows r.chunks history.length
  lanes : Shows r.lanes (history.map (·.lanes)).sum
  mnemonics : (r.counts.map (·.1)).Nodup
  counts : forall mnemonic, Shows (r.count mnemonic)
    ((history.flatMap (·.opcodes)).countP fun code => (Opcode.ofByte code).mnemonic = mnemonic)
  instructions : Shows r.instructions (history.flatMap (·.opcodes)).length
  total : r.instructions = (r.counts.map (·.2)).foldl (· + ·) 0

structure Counting (history : List Completed) (s : Statistics) : Prop where
  reported : Reported history s.report
  proper : s.tally.Proper
  total : s.instructions = (s.tally.map (·.2)).sum

theorem counting_nil : Counting [] {} where
  reported := ⟨.ofNat 0, .ofNat 0, List.nodup_nil, fun _ => .ofNat 0, .ofNat 0, rfl⟩
  proper := ⟨List.nodup_nil, fun _ hop => absurd hop List.not_mem_nil⟩
  total := rfl

theorem Counting.record {history : List Completed} {s : Statistics} (h : Counting history s)
    {c : Completed} (hopcodes : forall code, code ∈ c.opcodes -> code < 39)
    {dispatched : List Opcode}
    (hdispatched : dispatched = (c.opcodes.map Opcode.ofByte).reverse) :
    Counting (history ++ [c]) (s.record dispatched c.lanes) := by
  have hknown : forall op, op ∈ dispatched -> op ∈ Opcode.all := by
    intro op hop
    rw [hdispatched, List.mem_reverse] at hop
    rcases List.mem_map.mp hop with ⟨code, hcode, rfl⟩
    exact Opcode.ofByte_mem_all (hopcodes code hcode)
  have hcodes : (history ++ [c]).flatMap (·.opcodes) =
      history.flatMap (·.opcodes) ++ c.opcodes := by
    rw [List.flatMap_append, List.flatMap_singleton]
  have hlength : dispatched.length = c.opcodes.length := by
    rw [hdispatched, List.length_reverse, List.length_map]
  have hcount : forall mnemonic, dispatched.countP (fun op => op.mnemonic = mnemonic) =
      c.opcodes.countP fun code => (Opcode.ofByte code).mnemonic = mnemonic := by
    intro mnemonic
    rw [hdispatched, List.countP_reverse, List.countP_map]
    rfl
  have hproper : (s.record dispatched c.lanes).tally.Proper := h.proper.foldl_add hknown
  have htotal : (s.record dispatched c.lanes).instructions =
      ((s.record dispatched c.lanes).tally.map (·.2)).sum := by
    show s.instructions + dispatched.length =
      ((dispatched.foldl Tally.add s.tally).map (·.2)).sum
    rw [Tally.sum_foldl_add, h.total]
  refine ⟨⟨?_, ?_, Statistics.nodup_counts_report hproper, ?_, ?_, ?_⟩, hproper, htotal⟩
  · rw [Statistics.chunks_report_record, List.length_append]
    exact h.reported.chunks.add 1
  · rw [Statistics.lanes_report_record, List.map_append, List.sum_append]
    exact h.reported.lanes.add c.lanes
  · intro mnemonic
    rw [s.count_report_record _ _ h.proper hknown, hcodes, List.countP_append, hcount]
    exact (h.reported.counts mnemonic).add _
  · rw [Statistics.instructions_report_record, hcodes, List.length_append, hlength]
    exact h.reported.instructions.add _
  · rw [Statistics.sum_counts_report, ← htotal]
    rfl

/-!
## What every step preserves
-/

structure Pending.Stands (policy : Policy) (p : Pending) (asked : Nat) : Prop where
  shape : p.request.invocation.shapeError? = none
  left : p.left + asked = p.request.chunkCount
  watch : p.request.watch.passes = p.watch.passes.map (· + asked)
  faultless : p.chunk = 0 ∨ p.request.fault? policy = none

structure Underway (policy : Policy) (p : Pending) (bank offset : Nat) (rest : Bytes)
    (s : Chunk.State) (opcodes : Bytes) : Prop where
  stands : p.Stands policy (p.chunk + 1)
  tracks : s.dispatched = (opcodes.map Opcode.ofByte).reverse
  planned : p.request.opcodes policy =
    opcodes ++ (Chunk.plan (p.frame policy bank) offset rest).1.map fun step => step.op.toByte
  fault : p.request.fault? policy = (Chunk.plan (p.frame policy bank) offset rest).2

def Activity.Follows (policy : Policy) : Activity -> Prop
  | .idle _ => True
  | .between p _ => p.Stands policy p.chunk
  | .within p bank offset rest s opcodes => Underway policy p bank offset rest s opcodes

/-- What a machine that has been given some calls has done at a point. -/
structure Accurate (policy : Policy) (requests : List Request) (x : Session) : Prop where
  calls : requests = x.finished ++ x.activity.current ++ x.requests
  history : x.history =
    x.finished.flatMap (·.completed policy) ++ x.activity.completed policy
  report : Reported x.history x.statistics.report
  opcodes : forall code, code ∈ x.history.flatMap (·.opcodes) ++ x.activity.opcodes ->
    0 < code ∧ code < 39

structure Sound (policy : Policy) (requests : List Request) (x : Session) : Prop where
  accurate : Accurate policy requests x
  counting : Counting x.history x.statistics
  follows : x.activity.Follows policy

theorem sound_start (policy : Policy) (requests : List Request) :
    Sound policy requests (start requests) where
  accurate := ⟨rfl, rfl, counting_nil.reported, fun _ hcode => absurd hcode List.not_mem_nil⟩
  counting := counting_nil
  follows := trivial

section Ends

variable {policy : Policy}

theorem Request.completedCount_eq {r : Request} {n : Nat}
    (hshape : r.invocation.shapeError? = none)
    (hfault : n = 0 ∨ r.fault? policy = none) (hallowed : r.allowed = n) :
    r.completedCount policy = n := by
  unfold completedCount
  split
  next => exact hallowed
  next hbad =>
    rcases hfault with rfl | hfault
    · rfl
    · exact absurd ⟨hshape, hfault⟩ hbad

theorem Request.completed_of_shapeError {r : Request} {e : RunError}
    (h : r.invocation.shapeError? = some e) : r.completed policy = [] := by
  have hcount : r.completedCount policy = 0 := by
    unfold completedCount
    rw [h, if_neg]
    rintro ⟨hnone, _⟩
    cases hnone
  rw [completed, hcount]
  rfl

theorem Request.completedCount_of_fault {r : Request} {fault : Fault}
    (h : r.fault? policy = some fault) : r.completedCount policy = 0 := by
  unfold completedCount
  rw [h, if_neg]
  rintro ⟨_, hnone⟩
  cases hnone

variable {p : Pending} {asked : Nat}

theorem Pending.Stands.allowed_of_last (h : p.Stands policy asked) (hleft : p.left = 0) :
    p.request.allowed = asked := by
  have hall := h.left
  unfold Request.allowed
  rw [h.watch]
  cases p.watch.passes with
  | none =>
      show p.request.chunkCount = asked
      omega
  | some passes =>
      show min (passes + asked) p.request.chunkCount = asked
      omega

theorem Pending.Stands.allowed_of_stopped {reason : Stop} (h : p.Stands policy asked)
    (hcheck : p.watch.check = .error reason) : p.request.allowed = asked := by
  have hall := h.left
  unfold Request.allowed
  rw [h.watch, Watch.passes_of_stop hcheck]
  show min (0 + asked) p.request.chunkCount = asked
  omega

theorem Pending.Stands.passes_of_pass {watch : Watch} (h : p.Stands policy asked)
    (hcheck : p.watch.check = .ok watch) :
    p.request.watch.passes = watch.passes.map (· + (asked + 1)) := by
  rw [h.watch, Watch.passes_of_pass hcheck, Option.map_map]
  congr 1
  funext passes
  show passes + 1 + asked = passes + (asked + 1)
  omega

end Ends

section Steps

variable {policy : Policy} {all : List Request} {x : Session}

/-- Going on within the calls completes nothing, so that only new opcodes have to be known. -/
theorem Accurate.move {activity : Activity} {requests : List Request}
    (h : Accurate policy all x)
    (hcalls : activity.current ++ requests = x.activity.current ++ x.requests)
    (hcompleted : activity.completed policy = x.activity.completed policy)
    (hopcodes : forall code, code ∈ activity.opcodes ->
      code ∈ x.activity.opcodes ∨ 0 < code ∧ code < 39) :
    Accurate policy all { x with activity, requests } where
  calls := by rw [h.calls, List.append_assoc, List.append_assoc, hcalls]
  history := by rw [h.history, hcompleted]
  report := h.report
  opcodes := by
    intro code hcode
    rcases List.mem_append.mp hcode with hcode | hcode
    · exact h.opcodes code (List.mem_append_left _ hcode)
    · rcases hopcodes code hcode with hcode | hcode
      · exact h.opcodes code (List.mem_append_right _ hcode)
      · exact hcode

theorem Sound.stands {p : Pending} {store : Store} (h : Sound policy all x)
    (hactivity : x.activity = .between p store) : p.Stands policy p.chunk := by
  have hfollows := h.follows
  rwa [hactivity] at hfollows

theorem Sound.underway {p : Pending} {bank offset : Nat} {rest opcodes : Bytes}
    {s : Chunk.State} (h : Sound policy all x)
    (hactivity : x.activity = .within p bank offset rest s opcodes) :
    Underway policy p bank offset rest s opcodes := by
  have hfollows := h.follows
  rwa [hactivity] at hfollows

theorem Sound.refuse {r : Request} {requests : List Request} {e : RunError}
    {last : Option (Store × Except RunError Unit)} (h : Sound policy all x)
    (hactivity : x.activity = .idle last) (hrequests : x.requests = r :: requests)
    (hshape : r.invocation.shapeError? = some e) :
    Sound policy all ({ x with requests }.conclude r r.store (.error e)) := by
  refine ⟨⟨?_, ?_, h.accurate.report, ?_⟩, h.counting, trivial⟩
  · rw [h.accurate.calls, hactivity, hrequests]
    simp [conclude, Activity.current]
  · rw [h.accurate.history, hactivity]
    simp [conclude, Activity.completed, Request.completed_of_shapeError hshape]
  · intro code hcode
    apply h.accurate.opcodes code
    rw [hactivity]
    exact hcode

theorem Sound.begin {r : Request} {requests : List Request}
    {last : Option (Store × Except RunError Unit)} (h : Sound policy all x)
    (hactivity : x.activity = .idle last) (hrequests : x.requests = r :: requests)
    (hshape : r.invocation.shapeError? = none) :
    Sound policy all
      { x with requests, activity := .between ⟨r, r.chunkCount, 0, r.watch⟩ r.store } := by
  refine ⟨h.accurate.move ?_ ?_ ?_, h.counting, hshape, rfl, ?_, Or.inl rfl⟩
  · rw [hactivity, hrequests]
    rfl
  · rw [hactivity]
    rfl
  · exact fun code hcode => absurd hcode List.not_mem_nil
  · show r.watch.passes = r.watch.passes.map id
    rw [Option.map_id_fun]
    rfl

theorem Sound.conclude {r : Request} (h : Sound policy all x)
    (hcurrent : x.activity.current = [r])
    (hcompleted : x.activity.completed policy = r.completed policy) (store : Store)
    (result : Except RunError Unit) : Sound policy all (x.conclude r store result) := by
  refine ⟨⟨?_, ?_, h.accurate.report, ?_⟩, h.counting, trivial⟩
  · rw [h.accurate.calls, hcurrent]
    simp [Session.conclude, Activity.current]
  · show x.history = _
    rw [h.accurate.history, hcompleted]
    simp [Session.conclude, Activity.completed]
  · intro code hcode
    apply h.accurate.opcodes code
    rw [show (x.conclude r store result).activity.opcodes = [] from rfl,
      List.append_nil] at hcode
    exact List.mem_append_left _ hcode

theorem Sound.finish {p : Pending} {store : Store} (h : Sound policy all x)
    (hactivity : x.activity = .between p store) (hallowed : p.request.allowed = p.chunk)
    (result : Except RunError Unit) :
    Sound policy all (x.conclude p.request store result) := by
  have hstands := h.stands hactivity
  apply h.conclude (by rw [hactivity]; rfl)
  rw [hactivity, Request.completed,
    Request.completedCount_eq hstands.shape hstands.faultless hallowed]
  rfl

theorem Sound.enter {p : Pending} {store : Store} {left : Nat} {watch : Watch}
    (h : Sound policy all x) (hactivity : x.activity = .between p store)
    (hleft : p.left = left + 1) (hcheck : p.watch.check = .ok watch) :
    Sound policy all
      { x with
        activity := .within { p with left, watch } store.buffers.size 0
          p.request.invocation.code ((p.request.machine policy).start p.chunk store) [] } := by
  have hstands := h.stands hactivity
  have hplan : Chunk.plan (Pending.frame policy { p with left, watch } store.buffers.size) 0
      p.request.invocation.code = (p.request.machine policy).plan p.request.invocation :=
    Machine.plan_frame _ _ _ _ _
  refine ⟨h.accurate.move ?_ ?_ ?_, h.counting, ?_⟩
  · rw [hactivity]
    rfl
  · rw [hactivity]
    rfl
  · exact fun code hcode => absurd hcode List.not_mem_nil
  · refine ⟨⟨hstands.shape, ?_, hstands.passes_of_pass hcheck, hstands.faultless⟩, rfl, ?_, ?_⟩
    · have hall := hstands.left
      show left + (p.chunk + 1) = p.request.chunkCount
      omega
    · rw [hplan]
      rfl
    · rw [hplan]
      rfl

theorem Sound.dispatch {p : Pending} {bank offset offset' : Nat} {rest rest' opcodes : Bytes}
    {s s' : Chunk.State} (h : Sound policy all x)
    (hactivity : x.activity = .within p bank offset rest s opcodes)
    (hgoing : Chunk.advance (p.frame policy bank) offset s rest = .going offset' rest' s') :
    Sound policy all
      { x with activity := .within p bank offset' rest' s' (opcodes ++ rest.take 1) } := by
  have hunderway := h.underway hactivity
  cases rest with
  | nil => cases hgoing
  | cons code tail =>
      rcases Chunk.dispatched_of_going hgoing with ⟨hdispatched, hcode⟩
      rcases Chunk.plan_of_going hgoing with ⟨step, hperform, _, hplan⟩
      have hop : step.op = Opcode.ofByte code := by
        have hfollow := Chunk.follow_dispatched (p.frame policy bank) s [step]
        rw [Chunk.follow_cons, Chunk.follow_nil, ← hperform, hdispatched] at hfollow
        exact (List.cons.inj hfollow).1.symm
      refine ⟨h.accurate.move ?_ ?_ ?_, h.counting, hunderway.stands, ?_, ?_, ?_⟩
      · rw [hactivity]
        rfl
      · rw [hactivity]
        rfl
      · intro b hb
        rw [hactivity]
        rcases List.mem_append.mp hb with hb | hb
        · exact Or.inl hb
        · rw [List.mem_singleton.mp hb]
          exact Or.inr hcode
      · rw [hdispatched, hunderway.tracks]
        simp
      · rw [hunderway.planned, hplan]
        simp [hop, Opcode.toByte_ofByte]
      · rw [hunderway.fault, hplan]

theorem Sound.complete {p : Pending} {bank offset : Nat} {rest opcodes : Bytes}
    {s : Chunk.State} (h : Sound policy all x)
    (hactivity : x.activity = .within p bank offset rest s opcodes)
    (hhalted : Chunk.advance (p.frame policy bank) offset s rest = .halted) (store : Store) :
    Sound policy all
      { x with
        statistics := x.statistics.record s.dispatched p.lanes
        history := x.history ++ [⟨p.lanes, opcodes⟩]
        activity := .between { p with chunk := p.chunk + 1 } store } := by
  have hunderway := h.underway hactivity
  have hplan := Chunk.plan_of_halted hhalted
  have hopcodes : p.request.opcodes policy = opcodes := by
    rw [hunderway.planned, hplan]
    exact List.append_nil opcodes
  have hcodes := h.accurate.opcodes
  rw [hactivity] at hcodes
  have hcounting : Counting (x.history ++ [⟨p.lanes, opcodes⟩])
      (x.statistics.record s.dispatched p.lanes) :=
    h.counting.record (c := ⟨p.lanes, opcodes⟩)
      (fun code hcode => (hcodes code (List.mem_append_right _ hcode)).2) hunderway.tracks
  refine ⟨⟨?_, ?_, hcounting.reported, ?_⟩, hcounting, hunderway.stands.shape,
    hunderway.stands.left, hunderway.stands.watch, Or.inr ?_⟩
  · rw [h.accurate.calls, hactivity]
    rfl
  · rw [h.accurate.history, hactivity, List.append_assoc]
    show _ ++ (p.request.chunks policy p.chunk ++ _) =
      _ ++ p.request.chunks policy (p.chunk + 1)
    unfold Request.chunks
    rw [List.range_succ, List.map_append, List.map_singleton, Request.chunk, hopcodes]
    rfl
  · intro code hcode
    rw [show Activity.opcodes (.between { p with chunk := p.chunk + 1 } store) = [] from rfl,
      List.append_nil, List.flatMap_append, List.flatMap_singleton] at hcode
    exact hcodes code hcode
  · rw [show p.request.fault? policy = _ from hunderway.fault, hplan]

/-- Every step completes a chunk of the current call or none, and counts it. -/
theorem Sound.next (h : Sound policy all x) : Sound policy all (next policy x) := by
  fun_cases Session.next policy x with
  | case1 last hactivity hrequests => exact h
  | case2 last hactivity r requests hrequests e hshape =>
      exact h.refuse hactivity hrequests hshape
  | case3 last hactivity r requests hrequests hshape => exact h.begin hactivity hrequests hshape
  | case4 p store hactivity hleft =>
      exact h.finish hactivity ((h.stands hactivity).allowed_of_last hleft) _
  | case5 p store hactivity left hleft reason hcheck =>
      exact h.finish hactivity ((h.stands hactivity).allowed_of_stopped hcheck) _
  | case6 p store hactivity left hleft watch hcheck => exact h.enter hactivity hleft hcheck
  | case7 p bank offset rest s opcodes hactivity offset' rest' s' hgoing =>
      exact h.dispatch hactivity hgoing
  | case8 p bank offset rest s opcodes hactivity fault hfailed =>
      have hunderway := h.underway hactivity
      have hfault : p.request.fault? policy = some fault := by
        rw [hunderway.fault, Chunk.plan_of_failed hfailed]
      -- the code is the same for every chunk, so the chunk that fails is the first
      have hfirst : p.chunk = 0 := by
        rcases hunderway.stands.faultless with hfirst | hnone
        · exact hfirst
        · rw [hfault] at hnone
          cases hnone
      apply h.conclude (by rw [hactivity]; rfl)
      rw [hactivity, Request.completed, Request.completedCount_of_fault hfault, ← hfirst]
      rfl
  | case9 p bank offset rest s opcodes hactivity hhalted => exact h.complete hactivity hhalted _

end Steps

theorem sound_point (policy : Policy) (requests : List Request) (n : Nat) :
    Sound policy requests (point policy requests n) := by
  unfold point
  induction n with
  | zero => exact sound_start policy requests
  | succ n ih =>
      rw [Function.iterate_succ_apply']
      exact ih.next

end Session
end VectorMachine
