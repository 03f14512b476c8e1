import VectorMachine.Proofs.SessionSteps

/-!
# Sessions

The calls of a machine, one after another, are the steps of a session, and each of them ends as
the chunks that it completes say.  At every point the machine reports the chunks that have
reached the terminator, and nothing else.
-/

namespace VectorMachine

namespace RunError

def AboutShape : RunError -> Prop
  | .chunk _ _ => False
  | .stopped _ => False
  | _ => True

theorem aboutShape {i : Invocation} {e : RunError} (h : i.shapeError? = some e) :
    e.AboutShape := by
  have hshort : forall {side arrays},
      shortArray? side arrays i.lanes = some e -> e.AboutShape := by
    intro side arrays h
    rcases Option.map_eq_some_iff.mp h with ⟨_, _, rfl⟩
    exact trivial
  unfold Invocation.shapeError? at h
  repeat (split at h; · cases h; exact trivial)
  rw [Option.orElse_eq_orElse, Option.orElse_eq_or, Option.or_eq_some_iff] at h
  rcases h with h | ⟨_, h⟩
  · exact hshort h
  · exact hshort h

end RunError

namespace Session

/-!
## Calls are sessions
-/

def Leads (policy : Policy) (x y : Session) : Prop :=
  exists n, (next policy)^[n] x = y

section Leads

variable {policy : Policy} {x y z : Session}

theorem Leads.refl (x : Session) : Leads policy x x :=
  ⟨0, rfl⟩

theorem Leads.single (h : next policy x = y) : Leads policy x y :=
  ⟨1, h⟩

theorem Leads.trans (hxy : Leads policy x y) (hyz : Leads policy y z) : Leads policy x z := by
  rcases hxy with ⟨n, rfl⟩
  rcases hyz with ⟨m, rfl⟩
  exact ⟨m + n, Function.iterate_add_apply _ m n x⟩

end Leads

section Calls

variable (policy : Policy)

/-- A chunk goes through its instructions up to the terminator or the first fault. -/
theorem leads_dispatches (x : Session) (p : Pending) (bank offset : Nat) (s : Chunk.State)
    (code opcodes : Bytes) :
    exists offset' rest opcodes',
      Leads policy { x with activity := .within p bank offset code s opcodes }
        { x with
          activity := .within p bank offset' rest
            (Chunk.runFrom (p.frame policy bank) offset s code).1 opcodes' } ∧
      Chunk.advance (p.frame policy bank) offset'
          (Chunk.runFrom (p.frame policy bank) offset s code).1 rest =
        match (Chunk.runFrom (p.frame policy bank) offset s code).2 with
        | none => .halted
        | some fault => .failed fault := by
  rw [Chunk.runFrom_eq_advance]
  cases hadvance : Chunk.advance (p.frame policy bank) offset s code with
  | halted => exact ⟨offset, code, opcodes, .refl _, hadvance⟩
  | failed fault => exact ⟨offset, code, opcodes, .refl _, hadvance⟩
  | going offset' rest t =>
      rcases Chunk.plan_of_going hadvance with ⟨_, _, hshorter, _⟩
      rcases leads_dispatches x p bank offset' t rest (opcodes ++ code.take 1) with
        ⟨last, rest', opcodes', hleads, hend⟩
      refine ⟨last, rest', opcodes', Leads.trans (.single ?_) hleads, hend⟩
      simp only [next, hadvance]
termination_by code.length
decreasing_by exact hshorter

theorem leads_chunk (x : Session) {p : Pending} {left : Nat} {watch : Watch}
    (hleft : p.left = left + 1) (hcheck : p.watch.check = .ok watch) (store : Store) :
    let chunk := (p.request.machine policy).runChunk p.request.invocation p.chunk p.lanes store
    (forall after fault, chunk = (after, .error fault) ->
      Leads policy { x with activity := .between p store }
        (x.conclude p.request after (.error (.chunk p.chunk fault)))) ∧
    (forall after dispatched, chunk = (after, .ok dispatched) ->
      exists history, Leads policy { x with activity := .between p store }
        { x with
          statistics := x.statistics.record dispatched p.lanes
          history
          activity := .between { p with left, watch, chunk := p.chunk + 1 } after }) := by
  rcases leads_dispatches policy x { p with left, watch } store.buffers.size 0
    ((p.request.machine policy).start p.chunk store) p.request.invocation.code [] with
    ⟨offset, rest, opcodes, hleads, hend⟩
  have hwithin := Leads.trans (x := { x with activity := .between p store })
    (.single (by simp only [next, hleft, hcheck])) hleads
  -- neither the watch nor the chunks to come are part of the frame
  have hframe : Pending.frame policy { p with left, watch } store.buffers.size =
      (p.request.machine policy).frame p.request.invocation p.chunk p.lanes
        store.buffers.size :=
    rfl
  dsimp only
  rw [Machine.runChunk_eq_runFrom, ← hframe]
  generalize Chunk.runFrom _ _ _ _ = run at hwithin hend
  rcases run with ⟨final, fault?⟩
  cases fault? with
  | some fault =>
      constructor
      · intro after fault' heq
        cases heq
        refine hwithin.trans (.single ?_)
        simp only [next, hend]
        rfl
      · intro after dispatched heq
        cases heq
  | none =>
      constructor
      · intro after fault heq
        cases heq
      · intro after dispatched heq
        cases heq
        refine ⟨x.history ++ [⟨p.lanes, opcodes⟩], hwithin.trans (.single ?_)⟩
        simp only [next, hend]
        rfl

theorem leads_runIndependently (left : Nat) (x : Session) (p : Pending) (hleft : p.left = left)
    (store : Store) :
    let o := (p.request.machine policy).runIndependently p.request.invocation left p.chunk
      p.watch store x.statistics
    exists history, Leads policy { x with activity := .between p store }
      ({ x with statistics := o.statistics, history }.conclude p.request o.store o.result) := by
  -- the call goes on from whatever the chunk before has left, so all but the count is general
  induction left generalizing p store x with
  | zero =>
      refine ⟨x.history, .single ?_⟩
      simp only [next, hleft]
      rfl
  | succ left ih =>
      rw [Machine.runIndependently]
      unfold Machine.thenChunk
      cases hcheck : p.watch.check with
      | error reason =>
          refine ⟨x.history, .single ?_⟩
          simp only [next, hleft, hcheck]
          rfl
      | ok watch =>
          rcases leads_chunk policy x hleft hcheck store with ⟨hfailed, hcompleted⟩
          have hlanes : Machine.chunkLanes p.request.invocation.lanes p.chunk = p.lanes := rfl
          rw [hlanes]
          rcases hchunk : (p.request.machine policy).runChunk p.request.invocation p.chunk
            p.lanes store with ⟨after, fault | dispatched⟩
          · exact ⟨x.history, hfailed after fault hchunk⟩
          · rcases hcompleted after dispatched hchunk with ⟨history, hfirst⟩
            rcases ih { x with statistics := x.statistics.record dispatched p.lanes, history }
              { p with left, watch, chunk := p.chunk + 1 } rfl after with ⟨history', hrest⟩
            exact ⟨history', hfirst.trans hrest⟩

/-- A call is a part of the session, and leaves and returns what the machine does. -/
theorem leads_request (x : Session) (last : Option (Store × Except RunError Unit)) (r : Request)
    (requests : List Request) :
    let o := r.outcome policy x.statistics
    exists history, Leads policy { x with activity := .idle last, requests := r :: requests }
      ({ x with statistics := o.statistics, history, requests }.conclude r o.store
        o.result) := by
  rw [r.outcome_eq_watched]
  cases hshape : r.invocation.shapeError? with
  | some e =>
      refine ⟨x.history, .single ?_⟩
      unfold Machine.exec
      simp only [next, hshape]
      rfl
  | none =>
      rw [Machine.exec_eq_of_shape hshape]
      rcases leads_runIndependently policy r.chunkCount { x with requests }
        ⟨r, r.chunkCount, 0, r.watch⟩ rfl r.store with ⟨history, hcall⟩
      refine ⟨history, Leads.trans (.single ?_) hcall⟩
      simp only [next, hshape]

theorem leads_requests (done rest : List Request) :
    exists history, Leads policy (start (done ++ rest))
      { statistics := statisticsAfter policy done
        history
        finished := done
        activity := .idle (lastAfter policy done)
        requests := rest } := by
  induction done using List.reverseRecOn generalizing rest with
  | nil => exact ⟨[], .refl _⟩
  | append_singleton done r ih =>
      rcases ih (r :: rest) with ⟨history, hleads⟩
      rcases leads_request policy ⟨statisticsAfter policy done, history, done, .idle none, []⟩
        (lastAfter policy done) r rest with ⟨history', hcall⟩
      have hlast : lastAfter policy (done ++ [r]) =
          some ((r.outcome policy (statisticsAfter policy done)).store,
            (r.outcome policy (statisticsAfter policy done)).result) := by
        simp [lastAfter]
      have hstatistics : statisticsAfter policy (done ++ [r]) =
          (r.outcome policy (statisticsAfter policy done)).statistics := by
        simp [statisticsAfter]
      rw [List.append_assoc, hlast, hstatistics]
      exact ⟨history', hleads.trans hcall⟩

end Calls

/-!
## How calls end
-/

section Results

variable {m : Machine} {i : Invocation}

/-- A call ends with its last chunk, with a fault in the first, or where its watch says. -/
theorem runIndependently_ends (left chunk : Nat) (watch : Watch) (store : Store)
    (statistics : Statistics) :
    let o := m.runIndependently i left chunk watch store statistics
    (o.result = .ok () -> left = 0 ∨
      ((m.plan i).2 = none ∧ forall passes, watch.passes = some passes -> left ≤ passes)) ∧
    (forall index fault, o.result = .error (.chunk index fault) ->
      index = chunk ∧ (m.plan i).2 = some fault) ∧
    (forall reason, o.result = .error (.stopped reason) -> exists passes,
      watch.passes = some passes ∧ passes < left ∧ (passes = 0 ∨ (m.plan i).2 = none)) := by
  induction left generalizing chunk watch store statistics with
  | zero =>
      refine ⟨fun _ => Or.inl rfl, ?_, ?_⟩
      · intro index fault hresult
        cases hresult
      · intro reason hresult
        cases hresult
  | succ left ih =>
      rw [Machine.runIndependently]
      unfold Machine.thenChunk
      cases hcheck : watch.check with
      | error reason =>
          refine ⟨?_, ?_, fun _ _ =>
            ⟨0, Watch.passes_of_stop hcheck, left.succ_pos, Or.inl rfl⟩⟩
          · intro hresult
            cases hresult
          · intro index fault hresult
            cases hresult
      | ok watch' =>
          have hpasses := Watch.passes_of_pass hcheck
          rw [Machine.runChunk_eq]
          cases hfault : (m.plan i).2 with
          | some fault =>
              refine ⟨?_, ?_, ?_⟩
              · intro hresult
                cases hresult
              · intro index fault' hresult
                cases hresult
                exact ⟨rfl, rfl⟩
              · intro reason hresult
                cases hresult
          | none =>
              rcases ih (chunk + 1) watch' _ _ with ⟨hok, hchunk, hstop⟩
              refine ⟨?_, ?_, ?_⟩
              · intro hresult
                refine Or.inr ⟨rfl, ?_⟩
                intro passes hsome
                rw [hpasses] at hsome
                rcases Option.map_eq_some_iff.mp hsome with ⟨n, hn, rfl⟩
                rcases hok hresult with rfl | ⟨_, hle⟩
                · omega
                · exact Nat.succ_le_succ (hle n hn)
              · intro index fault hresult
                have hsome := (hchunk index fault hresult).2
                rw [hfault] at hsome
                cases hsome
              · intro reason hresult
                rcases hstop reason hresult with ⟨n, hn, hlt, _⟩
                exact ⟨n + 1, by rw [hpasses, hn]; rfl, Nat.succ_lt_succ hlt, Or.inr rfl⟩

end Results

section Outcomes

variable {policy : Policy} {r : Request} {statistics : Statistics}

theorem completedCount_of_ok (h : (r.outcome policy statistics).result = .ok ()) :
    r.completedCount policy = r.chunkCount := by
  rw [r.outcome_eq_watched] at h
  have hshape := Machine.shapeError?_of_exec h
  rw [Machine.exec_eq_of_shape hshape] at h
  have hends := (runIndependently_ends _ _ _ _ _).1 h
  have hallowed : r.allowed = r.chunkCount := by
    unfold Request.allowed
    cases hpasses : r.watch.passes with
    | none => rfl
    | some passes =>
        show min passes r.chunkCount = r.chunkCount
        rcases hends with hzero | ⟨_, hle⟩
        · have hzero : r.chunkCount = 0 := hzero
          omega
        · exact Nat.min_eq_right (hle passes hpasses)
  exact Request.completedCount_eq hshape (hends.imp_right And.left) hallowed

theorem runIndependently_of_error {e : RunError}
    (h : (r.outcome policy statistics).result = .error e) (he : ¬e.AboutShape) :
    r.invocation.shapeError? = none ∧
      ((r.machine policy).runIndependently r.invocation r.chunkCount 0 r.watch r.store
        statistics).result = .error e := by
  rw [r.outcome_eq_watched] at h
  cases hshape : r.invocation.shapeError? with
  | none =>
      rw [Machine.exec_eq_of_shape hshape] at h
      exact ⟨rfl, h⟩
  | some e' =>
      unfold Machine.exec at h
      rw [hshape] at h
      cases h
      exact absurd (RunError.aboutShape hshape) he

theorem completedCount_of_chunk {index : Nat} {fault : Fault}
    (h : (r.outcome policy statistics).result = .error (.chunk index fault)) :
    r.completedCount policy = index := by
  have hresult := (runIndependently_of_error h not_false).2
  rcases (runIndependently_ends _ _ _ _ _).2.1 index fault hresult with ⟨rfl, hfault⟩
  exact Request.completedCount_of_fault hfault

/-- A call that is stopped has completed a chunk for every time that it was let pass. -/
theorem passes_of_stopped {reason : Stop}
    (h : (r.outcome policy statistics).result = .error (.stopped reason)) :
    r.watch.passes = some (r.completedCount policy) := by
  rcases runIndependently_of_error h not_false with ⟨hshape, hresult⟩
  rcases (runIndependently_ends _ _ _ _ _).2.2 reason hresult with
    ⟨passes, hpasses, hlt, hfault⟩
  have hallowed : r.allowed = passes := by
    unfold Request.allowed
    rw [hpasses]
    exact Nat.min_eq_left (Nat.le_of_lt hlt)
  rw [hpasses, Request.completedCount_eq hshape hfault hallowed]

end Outcomes

theorem length_completed (policy : Policy) (r : Request) :
    (r.completed policy).length = r.completedCount policy := by
  rw [Request.completed, Request.chunks, List.length_map, List.length_range]

theorem sum_lanes_chunks {r : Request} (policy : Policy) (hcount : r.invocation.Countable)
    {count : Nat} (hchunks : count ≤ (r.invocation.laneCount + 127) / 128) :
    ((r.chunks policy count).map (·.lanes)).sum = r.invocation.edge count := by
  induction count with
  | zero => simp [Request.chunks, Invocation.edge]
  | succ count ih =>
      have hstart : count * Chunk.size ≤ r.invocation.laneCount := by
        unfold Chunk.size
        omega
      have hlast :
          r.chunks policy (count + 1) = r.chunks policy count ++ [r.chunk policy count] := by
        rw [Request.chunks, List.range_succ, List.map_append]
        rfl
      rw [hlast, List.map_append, List.sum_append, ih (Nat.le_of_succ_le hchunks)]
      simp only [List.map_cons, List.map_nil, List.sum_singleton, Request.chunk]
      rw [Invocation.chunkLanes_eq hcount hstart]
      unfold Invocation.edge Invocation.span
      rw [Nat.succ_mul]
      omega

/-- At every point of every session the machine has completed the chunks of the calls before it
and those of the current one up to the chunk that it is at, and reports what they add up to.
When a call has returned, the statistics are those that the calls up to then give.  A call that
succeeds completes chunks for all of its lanes if these can be rounded up to chunks in 64 bits,
and none otherwise.  One that fails in a chunk completes those before it, and one that is
stopped as many as it was let pass. -/
theorem statistics_of_completed_chunks (policy : Policy) :
    (forall requests n, Accurate policy requests (point policy requests n)) ∧
    (forall done rest, exists n, point policy (done ++ rest) n =
      { statistics := statisticsAfter policy done
        history := done.flatMap (·.completed policy)
        finished := done
        activity := .idle (lastAfter policy done)
        requests := rest }) ∧
    (forall (r : Request) (statistics : Statistics),
      let result := (r.outcome policy statistics).result
      (result = .ok () -> r.invocation.lanes.toInt ≤ 2 ^ 63 - 128 ->
        (r.completed policy).length = (r.invocation.laneCount + 127) / 128 ∧
          ((r.completed policy).map (·.lanes)).sum = r.invocation.laneCount) ∧
      (result = .ok () -> 2 ^ 63 - 128 < r.invocation.lanes.toInt -> r.completed policy = []) ∧
      (forall chunk fault, result = .error (.chunk chunk fault) ->
        (r.completed policy).length = chunk) ∧
      (forall reason, result = .error (.stopped reason) ->
        r.watch.passes = some (r.completed policy).length)) := by
  refine ⟨fun requests n => (sound_point policy requests n).accurate, ?_, ?_⟩
  · intro done rest
    rcases leads_requests policy done rest with ⟨history, n, hpoint⟩
    have hhistory := (sound_point policy (done ++ rest) n).accurate.history
    refine ⟨n, hpoint.trans ?_⟩
    rw [point, hpoint] at hhistory
    have hhistory : history = done.flatMap (·.completed policy) ++ [] := hhistory
    rw [hhistory, List.append_nil]
  · intro r statistics result
    have hshape : result = .ok () -> 0 ≤ r.invocation.lanes.toInt := by
      intro hok
      have hok : (r.outcome policy statistics).result = .ok () := hok
      rw [r.outcome_eq_watched] at hok
      exact ((Invocation.shapeError?_eq_none_iff _).mp (Machine.shapeError?_of_exec hok)).1
    rw [length_completed]
    refine ⟨?_, ?_, fun _ _ => completedCount_of_chunk, fun _ => passes_of_stopped⟩
    · intro hok hhigh
      have hcount : r.invocation.Countable := ⟨hshape hok, hhigh⟩
      have hall : r.completedCount policy = (r.invocation.laneCount + 127) / 128 :=
        (completedCount_of_ok hok).trans (Invocation.chunkCount_eq hcount)
      refine ⟨hall, ?_⟩
      rw [Request.completed, hall, sum_lanes_chunks policy hcount (Nat.le_refl _)]
      unfold Invocation.edge Chunk.size
      omega
    · intro hok hhigh
      have hcount : ¬r.invocation.Countable := fun h => absurd h.2 (not_le.mpr hhigh)
      have hnone : r.completedCount policy = 0 :=
        (completedCount_of_ok hok).trans (Invocation.chunkCount_eq_zero (hshape hok) hcount)
      rw [Request.completed, hnone]
      rfl

def drawnRequest : Request where
  generators := Generator.seeded 7
  invocation := Parallel.drawnRun
  store := Machine.stoppedStore 3
  entry := .exec

def failingRequest : Request where
  generators := Generator.seeded 7
  invocation := Machine.stoppedRun 2 200
  store := Machine.stoppedStore 3
  entry := .execParallel 1 (Int.le_refl 1) .always

theorem drawnRequest_result (statistics : Statistics) :
    (drawnRequest.outcome .legacy statistics).result = .ok () := by
  unfold drawnRequest Request.outcome
  exact (Machine.exec_result (by decide) (by decide) _ _).mpr (Or.inr (by cbv))

theorem failingRequest_result (statistics : Statistics) :
    (failingRequest.outcome .legacy statistics).result =
      .error (.chunk 0 (.unknownOpcode 33 8)) := by
  have hplan : (Machine.plan ⟨.legacy, Generator.seeded 7⟩ (Machine.stoppedRun 2 200)).2 =
      some (.unknownOpcode 33 8) := by cbv
  rw [Request.outcome_eq_watched]
  show ((Machine.mk .legacy (Generator.seeded 7)).exec (Machine.stoppedRun 2 200) .always _
    statistics).result = _
  rw [Machine.exec_result_eq (by decide) (by decide) (by decide), hplan]

theorem statistics_of_completed_chunks_drawn :
    (statisticsAfter .legacy [drawnRequest, failingRequest]).report.chunks.toInt = 2 ∧
      (statisticsAfter .legacy [drawnRequest, failingRequest]).report.lanes.toInt = 200 := by
  rcases statistics_of_completed_chunks .legacy with ⟨haccurate, hreturned, hcalls⟩
  rcases hreturned [drawnRequest, failingRequest] [] with ⟨n, hpoint⟩
  have hreport := (haccurate ([drawnRequest, failingRequest] ++ []) n).report
  rcases (hcalls drawnRequest {}).1 (drawnRequest_result {}) (by decide) with ⟨hchunks, hlanes⟩
  have hnone : failingRequest.completed .legacy = [] :=
    List.length_eq_zero_iff.mp ((hcalls failingRequest {}).2.2.1 0 _ (failingRequest_result {}))
  rw [hpoint, List.flatMap_cons, List.flatMap_cons, hnone, List.nil_append, List.flatMap_nil,
    List.append_nil] at hreport
  have htwo : (drawnRequest.completed .legacy).length = 2 := hchunks.trans (by decide)
  have hall : ((drawnRequest.completed .legacy).map (·.lanes)).sum = 200 :=
    hlanes.trans (by decide)
  have hcounted := hreport.chunks
  have hadded := hreport.lanes
  rw [htwo] at hcounted
  rw [hall] at hadded
  exact ⟨hcounted.fits (by decide), hadded.fits (by decide)⟩

theorem lanes_of_boundless_call :
    (({} : Machine).exec Machine.boundlessRun .always ⟨#[]⟩ {}).result = .ok () ∧
      (({} : Machine).exec Machine.boundlessRun .always ⟨#[]⟩ {}).statistics.report.lanes ≠
        Machine.boundlessRun.lanes := by
  decide

end Session
end VectorMachine
