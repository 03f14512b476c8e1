import VectorMachine.Proofs.StaticFailure
import VectorMachine.Proofs.WorkerGroup

/-!
# What a group of workers returns

A group is done without an error if and only if every chunk ran to its end, once.
If the caller does not stop it, all that can keep a chunk from that is the code
itself: the error is then the fault of the program in one of the chunks, and never a
stop.
-/

namespace VectorMachine
namespace Parallel

/-!
## The order of the runner

Each chunk is run to its end before the next one is handed out.
-/

def Phase.ended (chunk : Nat) : Option Fault -> Phase
  | none => completed
  | some fault => returned (.chunk chunk fault)

def Shared.ended (s : Shared) (lanes : Nat) (t : Chunk.State) (fault? : Option Fault) :
    Shared :=
  { s with
    store := ⟨t.store.buffers.take s.store.buffers.size⟩
    statistics :=
      if fault?.isNone then s.statistics.record t.dispatched lanes else s.statistics }

namespace Group

variable {m : Machine} {i : Invocation} {limit : Nat}

theorem reaches_ended (stage : Stage) (before after : List Worker) (chunk : Nat) (s : Shared)
    (r : Running) {t : Chunk.State} {fault? : Option Fault}
    (hrun : Chunk.runFrom (frameOf m i chunk s.store) r.offset (r.state s.store) r.rest =
      (t, fault?)) :
    Reaches m i limit ⟨stage, before ++ ⟨chunk, .running r⟩ :: after, s⟩
      ⟨stage, before ++ ⟨chunk, .ended chunk fault?⟩ :: after,
        s.ended (Machine.chunkLanes i.lanes chunk) t fault?⟩ := by
  induction hlength : r.rest.length using Nat.strongRecOn generalizing s r with
  | _ length ih =>
      have hsame : (⟨(r.state s.store).store.buffers.take s.store.buffers.size⟩ : Store) =
          s.store := by
        simp [Running.state, Array.take_eq_extract, Array.extract_append]
      rw [Chunk.runFrom_eq_advance] at hrun
      cases hadvance :
          Chunk.advance (frameOf m i chunk s.store) r.offset (r.state s.store) r.rest with
      | halted =>
          rw [hadvance] at hrun
          cases hrun
          unfold Shared.ended
          rw [hsame]
          exact Relation.ReflTransGen.single (.worker (.complete hadvance))
      | failed fault =>
          rw [hadvance] at hrun
          cases hrun
          unfold Shared.ended
          rw [hsame]
          exact Relation.ReflTransGen.single (.worker (.fail hadvance))
      | going offset rest u =>
          rw [hadvance] at hrun
          rcases Chunk.plan_of_going hadvance with ⟨step, hperform, hshorter, _⟩
          have hsize : (u.store.buffers.take s.store.buffers.size).size =
              s.store.buffers.size := by
            rw [hperform, r.size_take_perform]
          -- the shared store keeps its number of buffers, so the frame stays the same
          have hrest := ih rest.length (hlength ▸ hshorter)
            { s with store := ⟨u.store.buffers.take s.store.buffers.size⟩ }
            (.next s.store.buffers.size offset rest u)
            (by
              rw [Running.state_next]
              unfold frameOf at hrun ⊢
              rw [hsize]
              exact hrun)
            rfl
          unfold Shared.ended at hrest ⊢
          simp only [hsize] at hrest
          exact Relation.ReflTransGen.head (.worker (.work hadvance)) hrest

theorem reaches_runChunk (hlimit : 1 ≤ limit) {chunk : Nat} {workers : List Worker} {s : Shared}
    (hchunk : chunk < chunks i) (hgroup : s.group = none)
    (hover : forall w, w ∈ workers -> w.phase.over = true) :
    Reaches m i limit ⟨.looking chunk, workers, s⟩
      ⟨.looking (chunk + 1), workers ++ [⟨chunk, .ended chunk (m.plan i).2⟩],
        s.ended (Machine.chunkLanes i.lanes chunk)
          (m.finish i chunk (Machine.chunkLanes i.lanes chunk) s.store) (m.plan i).2⟩ := by
  have hactive : active workers < limit := by
    have hnone : active workers = 0 := by
      rw [active, List.countP_eq_zero]
      intro w hw
      simp [hover w hw]
    omega
  have hrun : Chunk.runFrom (frameOf m i chunk s.store) 0 (m.start chunk s.store) i.code =
      (m.finish i chunk (Machine.chunkLanes i.lanes chunk) s.store, (m.plan i).2) := by
    unfold frameOf
    rw [Chunk.runFrom_eq_plan, Machine.plan_frame]
    rfl
  rw [← Running.state_start m i chunk .fresh] at hrun
  refine Relation.ReflTransGen.head (.look hchunk hgroup) ?_
  refine Relation.ReflTransGen.head (.call hactive) ?_
  refine Relation.ReflTransGen.head (.worker (.enter .fresh hgroup)) ?_
  exact reaches_ended _ workers [] chunk s (.start m i chunk .fresh) hrun

/-- A group whose only worker that is not gone has an error returns that error. -/
theorem reaches_error (m : Machine) (i : Invocation) (limit : Nat) (e : RunError)
    (next chunk : Nat) {workers : List Worker} {s : Shared}
    (herror : s.error? = none) (hover : forall w, w ∈ workers -> w.phase.over = true) :
    exists g, Reaches m i limit ⟨.looking next, workers ++ [⟨chunk, .returned e⟩], s⟩ g ∧
      g.outcome? = some ⟨s.store, s.statistics, .error e⟩ := by
  let kept : Shared := { s with error? := some e }
  let stopped : Shared := { kept with group := s.group <|> some .canceled }
  let gone : List Worker := workers ++ [⟨chunk, .left⟩]
  have hgone : forall w, w ∈ gone -> w.phase.over = true :=
    List.forall_mem_append.mpr ⟨hover, by simp [Phase.over]⟩
  have hstopped : Reaches m i limit ⟨.looking next, workers ++ [⟨chunk, .returned e⟩], s⟩
      ⟨.looking next, gone, stopped⟩ :=
    Relation.ReflTransGen.head (.worker (.keep herror))
      (Relation.ReflTransGen.single (.worker .stopGroup))
  have hgroup : stopped.group ≠ none := by
    show (s.group <|> some .canceled) ≠ none
    cases s.group <;> simp
  refine ⟨⟨.returned (.error e), gone, stopped⟩, hstopped.trans ?_, rfl⟩
  by_cases hnext : next < chunks i
  · exact Relation.ReflTransGen.head (.skip hnext hgroup)
      (Relation.ReflTransGen.single (.result hgone))
  · exact Relation.ReflTransGen.head (.finish (Nat.not_lt.mp hnext))
      (Relation.ReflTransGen.single (.result hgone))

theorem reaches_runIndependently (hlimit : 1 ≤ limit) (left chunk : Nat)
    (hleft : left + chunk = chunks i) (watch : Watch) (workers : List Worker) (s : Shared)
    (herror : s.error? = none) (hcaller : s.caller = none) (hgroup : s.group = none)
    (hover : forall w, w ∈ workers -> w.phase.over = true) :
    exists g, Reaches m i limit ⟨.looking chunk, workers, s⟩ g ∧
      g.outcome? = some (m.runIndependently i left chunk watch s.store s.statistics) := by
  induction left generalizing chunk watch workers s with
  | zero =>
      refine ⟨⟨.returned (.ok ()), workers, s⟩, ?_, rfl⟩
      have hverdict : s.verdict false = .ok () := by simp [Shared.verdict, herror]
      rw [← hverdict]
      exact Relation.ReflTransGen.head (.finish (by omega))
        (Relation.ReflTransGen.single (.result hover))
  | succ left ih =>
      have hchunk : chunk < chunks i := by omega
      rw [Machine.runIndependently, Machine.thenChunk]
      cases watch.check with
      | error reason =>
          -- the caller stops before the chunk is handed out
          let stopped : Shared := { s with caller := some reason, group := some reason }
          have hverdict : stopped.verdict true = .error (.stopped reason) := by
            simp [stopped, Shared.verdict, herror]
          refine ⟨⟨.returned (stopped.verdict true), workers, stopped⟩, ?_, ?_⟩
          · refine Relation.ReflTransGen.head (.stopCaller reason hcaller) ?_
            refine Relation.ReflTransGen.head (.passOn rfl hgroup) ?_
            exact Relation.ReflTransGen.head (.skip hchunk (by simp))
              (Relation.ReflTransGen.single (.result hover))
          · rw [hverdict]
            rfl
      | ok watch =>
          have hrun := reaches_runChunk (m := m) hlimit hchunk hgroup hover
          simp only [Machine.runChunk_eq]
          cases hfault : (m.plan i).2 with
          | some fault =>
              rw [hfault] at hrun
              rcases reaches_error m i limit (.chunk chunk fault) (chunk + 1) chunk
                (s := s.ended _ (m.finish i chunk _ s.store) (some fault)) herror hover with
                ⟨g, hreaches, houtcome⟩
              exact ⟨g, hrun.trans hreaches, houtcome⟩
          | none =>
              rw [hfault] at hrun
              have hover' : forall w, w ∈ workers ++ [⟨chunk, .ended chunk none⟩] ->
                  w.phase.over = true :=
                List.forall_mem_append.mpr ⟨hover, by simp [Phase.ended, Phase.over]⟩
              rcases ih (chunk + 1) (by omega) watch _
                (s.ended _ (m.finish i chunk _ s.store) none) herror hcaller hgroup hover' with
                ⟨g, hreaches, houtcome⟩
              refine ⟨g, hrun.trans hreaches, ?_⟩
              rw [houtcome]
              simp only [Shared.ended, Machine.finish_dispatched, Option.isNone_none, if_true]

end Group

/-!
## What accounts for an error
-/

def OfProgram (m : Machine) (i : Invocation) (e : RunError) : Prop :=
  exists chunk fault, chunk < Group.chunks i ∧ e = .chunk chunk fault ∧
    (m.plan i).2 = some fault

/-- The group is stopped only after the caller was or an error was kept, and an error
that is kept without a stop of the caller is of the program. -/
structure Shared.Accounted (m : Machine) (i : Invocation) (s : Shared) : Prop where
  stop : s.group ≠ none -> s.caller ≠ none ∨ s.error? ≠ none
  error : forall e, s.error? = some e -> OfProgram m i e ∨ s.caller ≠ none

def Phase.Accounted (m : Machine) (i : Invocation) (s : Shared) : Phase -> Prop
  | called => True
  | running r => (Chunk.plan (m.frame i 0 0 0) r.offset r.rest).2 = (m.plan i).2
  | returned e => OfProgram m i e ∨ s.caller ≠ none ∨ s.error? ≠ none
  | kept => s.error? ≠ none
  | completed => (m.plan i).2 = none
  | left => s.error? ≠ none

def Phase.told : Phase -> Bool
  | kept => true
  | left => true
  | _ => false

theorem Phase.Accounted.mono {m : Machine} {i : Invocation} {s t : Shared} {p : Phase}
    (h : p.Accounted m i s) (hcaller : s.caller ≠ none -> t.caller ≠ none)
    (herror : s.error? ≠ none -> t.error? ≠ none) : p.Accounted m i t := by
  cases p with
  | called => exact h
  | running r => exact h
  | returned e => exact h.imp_right (Or.imp hcaller herror)
  | kept => exact herror h
  | completed => exact h
  | left => exact herror h

section Moves

variable {m : Machine} {i : Invocation} {chunk : Nat} {p q : Phase} {s t : Shared}

theorem plan_frameOf (m : Machine) (i : Invocation) (chunk : Nat) (store : Store) (offset : Nat)
    (code : Bytes) : Chunk.plan (frameOf m i chunk store) offset code =
      Chunk.plan (m.frame i 0 0 0) offset code :=
  Chunk.plan_congr (Machine.frame_alike m i chunk _ _ 0 0 0) offset code

/-- Workers do not stop the caller, and neither a kept error nor a stop of the group
is taken back. -/
theorem Moves.keeps (h : Moves m i chunk p s q t) :
    t.caller = s.caller ∧ (s.group ≠ none -> t.group ≠ none) ∧
      (s.error? ≠ none -> t.error? ≠ none) ∧
      (t.error? ≠ none -> s.error? ≠ none ∨ q.told = true) ∧
      (p.told = true -> q.told = true) := by
  cases h with
  | refuse => exact ⟨rfl, id, id, Or.inl, nofun⟩
  | enter => exact ⟨rfl, id, id, Or.inl, nofun⟩
  | work => exact ⟨rfl, id, id, Or.inl, nofun⟩
  | complete => exact ⟨rfl, id, id, Or.inl, nofun⟩
  | fail => exact ⟨rfl, id, id, Or.inl, nofun⟩
  | keep => exact ⟨rfl, id, fun _ => by simp, fun _ => Or.inr rfl, fun _ => rfl⟩
  | stopGroup =>
      refine ⟨rfl, fun _ => ?_, id, Or.inl, fun _ => rfl⟩
      cases s.group <;> simp
  | leave => exact ⟨rfl, id, id, Or.inl, fun _ => rfl⟩

theorem Moves.accounted (h : Moves m i chunk p s q t) (hchunk : chunk < Group.chunks i)
    (hs : s.Accounted m i) (hp : p.Accounted m i s) : t.Accounted m i ∧ q.Accounted m i t := by
  cases h with
  | refuse hgroup => exact ⟨hs, Or.inr (hs.stop (by simp [hgroup]))⟩
  | enter bank hgroup => exact ⟨hs, rfl⟩
  | work hadvance =>
      rcases Chunk.plan_of_going hadvance with ⟨step, _, _, hplan⟩
      refine ⟨⟨hs.stop, hs.error⟩, ?_⟩
      rw [plan_frameOf, plan_frameOf] at hplan
      have hrest := congrArg Prod.snd hplan
      exact hrest.symm.trans hp
  | complete hadvance =>
      have hplan := Chunk.plan_of_halted hadvance
      rw [plan_frameOf] at hplan
      refine ⟨⟨hs.stop, hs.error⟩, ?_⟩
      exact hp.symm.trans (congrArg Prod.snd hplan)
  | @fail _ _ fault hadvance =>
      have hplan := Chunk.plan_of_failed hadvance
      rw [plan_frameOf] at hplan
      refine ⟨hs, Or.inl ⟨chunk, fault, hchunk, rfl, ?_⟩⟩
      exact hp.symm.trans (congrArg Prod.snd hplan)
  | keep herror =>
      refine ⟨⟨fun _ => Or.inr (by simp), ?_⟩, by simp [Phase.Accounted]⟩
      intro e he
      cases he
      rcases hp with hprogram | hcaller | hkept
      · exact Or.inl hprogram
      · exact Or.inr hcaller
      · exact absurd herror hkept
  | stopGroup => exact ⟨⟨fun _ => Or.inr hp, hs.error⟩, hp⟩
  | leave herror => exact ⟨hs, herror⟩

end Moves

/-!
## What holds throughout
-/

def Stage.Covers (chunks count : Nat) : Stage -> Prop
  | looking chunk => chunk = count
  | calling chunk => chunk = count ∧ count < chunks
  | waiting skipped => skipped = true ↔ count < chunks
  | returned _ => True

namespace Group

/-- Every chunk up to some point has been handed out once, and every error has
something that accounts for it. -/
structure Accounted (m : Machine) (i : Invocation) (g : Group) : Prop where
  handedOut : exists count, count ≤ chunks i ∧ g.workers.map (·.chunk) = List.range count ∧
    g.stage.Covers (chunks i) count
  shared : g.shared.Accounted m i
  workers : forall w, w ∈ g.workers -> w.phase.Accounted m i g.shared
  told : g.shared.error? ≠ none -> exists w, w ∈ g.workers ∧ w.phase.told = true
  skipped : g.stage = .waiting true -> g.shared.group ≠ none
  /-- Nothing but this is left of the state in which the run returned. -/
  result : forall result, g.stage = .returned result ->
    (forall w, w ∈ g.workers -> w.phase.over = true) ∧
    (result = .ok () ↔ g.completed.Perm (List.range (chunks i))) ∧
    (g.shared.caller = none -> forall e, result = .error e -> OfProgram m i e)

variable {m : Machine} {i : Invocation} {limit : Nat}

theorem accounted_start (m : Machine) (i : Invocation) (caller : Option Stop) (store : Store)
    (statistics : Statistics) : (start caller store statistics).Accounted m i where
  handedOut := ⟨0, Nat.zero_le _, rfl, rfl⟩
  shared := ⟨fun h => absurd rfl h, nofun⟩
  workers := nofun
  told := fun h => absurd rfl h
  skipped := nofun
  result := nofun

section Result

variable {skipped : Bool} {workers : List Worker} {s : Shared}

theorem verdict_eq_ok (h : s.verdict skipped = .ok ()) :
    s.error? = none ∧ (skipped = true -> s.caller = none) := by
  unfold Shared.verdict at h
  cases herror : s.error? with
  | some e => simp [herror] at h
  | none =>
      refine ⟨rfl, ?_⟩
      rintro rfl
      cases hcaller : s.caller with
      | some reason => simp [herror, hcaller] at h
      | none => rfl

/-- If every chunk ran to its end, every worker did, and no chunk was left over. -/
theorem forall_completed_of_perm {count chunks : Nat} {g : Group}
    (hworkers : g.workers.map (·.chunk) = List.range count) (hcount : count ≤ chunks)
    (hperm : g.completed.Perm (List.range chunks)) :
    count = chunks ∧ forall w, w ∈ g.workers -> w.phase.isCompleted = true := by
  have hlength : g.workers.length = count := by
    rw [← List.length_range (n := count), ← hworkers, List.length_map]
  have hcompleted : (g.workers.filter (·.phase.isCompleted)).length = chunks := by
    rw [← List.length_range (n := chunks), ← hperm.length_eq, completed, List.length_map]
  have hle := List.length_filter_le (·.phase.isCompleted) g.workers
  have heq : count = chunks := by omega
  refine ⟨heq, List.length_filter_eq_length_iff.mp ?_⟩
  omega

/-- What is returned says whether every chunk ran to its end, and why not. -/
theorem Accounted.verdict (h : Accounted m i ⟨.waiting skipped, workers, s⟩)
    (hover : forall w, w ∈ workers -> w.phase.over = true) (stage : Stage) :
    (s.verdict skipped = .ok () ↔
      (completed ⟨stage, workers, s⟩).Perm (List.range (chunks i))) ∧
    (s.caller = none -> forall e, s.verdict skipped = .error e -> OfProgram m i e) := by
  rcases h.handedOut with ⟨count, hcount, hworkers, hcovers⟩
  refine ⟨⟨?_, ?_⟩, ?_⟩
  · intro hok
    rcases verdict_eq_ok hok with ⟨herror, hcaller⟩
    have hfull : skipped = false := by
      rw [Bool.eq_false_iff]
      rintro rfl
      rcases h.shared.stop (h.skipped rfl) with hstop | hkept
      · exact hstop (hcaller rfl)
      · exact hkept herror
    have hall : forall w, w ∈ workers -> w.phase.isCompleted = true := by
      intro w hw
      have haccounted := h.workers w hw
      have hgone := hover w hw
      cases hphase : w.phase with
      | completed => rfl
      | left =>
          rw [hphase] at haccounted
          exact absurd herror haccounted
      | called => simp [hphase, Phase.over] at hgone
      | running r => simp [hphase, Phase.over] at hgone
      | returned e => simp [hphase, Phase.over] at hgone
      | kept => simp [hphase, Phase.over] at hgone
    have hlast : count = chunks i := by
      have hnot : ¬count < chunks i := fun hlt => Bool.false_ne_true (hfull ▸ hcovers.mpr hlt)
      omega
    show ((workers.filter _).map _).Perm _
    rw [List.filter_eq_self.mpr hall, hworkers, hlast]
  · intro hperm
    rcases forall_completed_of_perm hworkers hcount hperm with ⟨hlast, hall⟩
    have hfull : skipped = false := by
      rw [Bool.eq_false_iff]
      intro hskipped
      exact absurd (hcovers.mp hskipped) (by omega)
    have herror : s.error? = none := by
      by_contra hkept
      rcases h.told hkept with ⟨w, hw, htold⟩
      have hdone := hall w hw
      cases hphase : w.phase <;> simp [hphase, Phase.told, Phase.isCompleted] at htold hdone
    simp [Shared.verdict, herror, hfull]
  · intro hcaller e he
    unfold Shared.verdict at he
    cases herror : s.error? with
    | some first =>
        rw [herror] at he
        cases he
        exact (h.shared.error e herror).resolve_right (absurd hcaller)
    | none => cases hskipped : skipped <;> simp [herror, hcaller, hskipped] at he

end Result

theorem Accounted.chunk_lt {g : Group} (h : g.Accounted m i) {w : Worker} (hw : w ∈ g.workers) :
    w.chunk < chunks i := by
  rcases h.handedOut with ⟨count, hcount, hworkers, _⟩
  have hrange : w.chunk ∈ List.range count := by
    rw [← hworkers]
    exact List.mem_map_of_mem hw
  exact Nat.lt_of_lt_of_le (List.mem_range.mp hrange) hcount

theorem Accounted.nodup {g : Group} (h : g.Accounted m i) :
    (g.workers.map (·.chunk)).Nodup := by
  rcases h.handedOut with ⟨count, _, hworkers, _⟩
  rw [hworkers]
  exact List.nodup_range

theorem Accounted.step {g h : Group} (hg : g.Accounted m i) (hstep : Step m i limit g h) :
    h.Accounted m i := by
  cases hstep with
  | @worker stage before after chunk p q s t hmoves =>
      have hmem : (⟨chunk, p⟩ : Worker) ∈ before ++ ⟨chunk, p⟩ :: after := by simp
      rcases hg.handedOut with ⟨count, hcount, hworkers, hcovers⟩
      have hchunk : chunk < chunks i := hg.chunk_lt hmem
      rcases hmoves.keeps with ⟨hcaller, hgroup, herror, hnew, htold⟩
      rcases hmoves.accounted hchunk hg.shared (hg.workers _ hmem) with ⟨hshared, hphase⟩
      have hothers : forall w, w ∈ before ∨ w ∈ after -> w.phase.Accounted m i t := by
        intro w hw
        refine (hg.workers w ?_).mono (by simp [hcaller]) herror
        rcases hw with hw | hw <;> simp [hw]
      refine ⟨⟨count, hcount, by simpa using hworkers, hcovers⟩, hshared, ?_, ?_, ?_, ?_⟩
      · intro w hw
        rcases List.mem_append.mp hw with hw | hw
        · exact hothers w (Or.inl hw)
        · rcases List.mem_cons.mp hw with rfl | hw
          · exact hphase
          · exact hothers w (Or.inr hw)
      · intro hkept
        rcases hnew hkept with hbefore | hnow
        · rcases hg.told hbefore with ⟨w, hw, hwtold⟩
          rcases List.mem_append.mp hw with hw | hw
          · exact ⟨w, by simp [hw], hwtold⟩
          · rcases List.mem_cons.mp hw with rfl | hw
            · exact ⟨⟨chunk, q⟩, by simp, htold hwtold⟩
            · exact ⟨w, by simp [hw], hwtold⟩
        · exact ⟨⟨chunk, q⟩, by simp, hnow⟩
      · intro hstage
        exact hgroup (hg.skipped hstage)
      · -- where the run has returned no worker can move
        intro result hresult
        have hover := (hg.result result hresult).1 _ hmem
        cases hmoves <;> cases hover
  | stopCaller reason hcaller =>
      refine ⟨hg.handedOut, ⟨fun _ => Or.inl (by simp), fun _ _ => Or.inr (by simp)⟩, ?_,
        hg.told, hg.skipped, ?_⟩
      · intro w hw
        exact (hg.workers w hw).mono (fun _ => by simp) id
      · intro result hresult
        rcases hg.result result hresult with ⟨hover, hok, _⟩
        exact ⟨hover, hok, nofun⟩
  | passOn hcaller hgroup =>
      refine ⟨hg.handedOut, ⟨fun _ => Or.inl (by simp [hcaller]), hg.shared.error⟩, ?_, hg.told,
        fun _ => by simp, hg.result⟩
      intro w hw
      exact (hg.workers w hw).mono id id
  | look hchunk hgroup =>
      rcases hg.handedOut with ⟨count, hcount, hworkers, hcovers⟩
      exact ⟨⟨count, hcount, hworkers, hcovers, hcovers ▸ hchunk⟩, hg.shared, hg.workers,
        hg.told, nofun, nofun⟩
  | skip hchunk hgroup =>
      rcases hg.handedOut with ⟨count, hcount, hworkers, rfl⟩
      exact ⟨⟨_, hcount, hworkers, fun _ => hchunk, fun _ => rfl⟩, hg.shared, hg.workers,
        hg.told, fun _ => hgroup, nofun⟩
  | finish hchunk =>
      rcases hg.handedOut with ⟨count, hcount, hworkers, rfl⟩
      refine ⟨⟨_, hcount, hworkers, ?_⟩, hg.shared, hg.workers, hg.told,
        nofun, nofun⟩
      exact ⟨nofun, fun h => absurd h (Nat.not_lt.mpr hchunk)⟩
  | @call chunk workers s hactive =>
      rcases hg.handedOut with ⟨count, hcount, hworkers, rfl, hlt⟩
      refine ⟨⟨chunk + 1, hlt, ?_, rfl⟩, hg.shared, ?_, ?_, nofun, nofun⟩
      · rw [List.range_succ, ← hworkers]
        simp
      · exact List.forall_mem_append.mpr ⟨hg.workers, by simp [Phase.Accounted]⟩
      · intro hkept
        rcases hg.told hkept with ⟨w, hw, htold⟩
        exact ⟨w, List.mem_append_left _ hw, htold⟩
  | result hover =>
      refine ⟨?_, hg.shared, hg.workers, hg.told, nofun, ?_⟩
      · rcases hg.handedOut with ⟨count, hcount, hworkers, _⟩
        exact ⟨count, hcount, hworkers, trivial⟩
      · intro result hresult
        cases hresult
        exact ⟨hover, hg.verdict hover _⟩

theorem accounted_of_reaches {g h : Group} (hg : g.Accounted m i)
    (hreaches : Reaches m i limit g h) : h.Accounted m i := by
  induction hreaches with
  | refl => exact hg
  | tail _ hstep ih => exact ih.step hstep

/-!
## Against the serial run
-/

theorem exec_error_iff (hshape : i.shapeError? = none) (store : Store) (statistics : Statistics)
    (e : RunError) :
    (m.exec i .always store statistics).result = .error e ↔
      exists fault, 0 < chunks i ∧ (m.plan i).2 = some fault ∧ e = .chunk 0 fault := by
  rw [Machine.exec_eq_of_shape hshape]
  unfold chunks
  cases i.chunkCount.toInt.toNat with
  | zero => simp [Machine.runIndependently]
  | succ left =>
      rw [Machine.runIndependently, Machine.thenChunk_always]
      cases hfault : (m.plan i).2 with
      | some fault => simp [eq_comm]
      | none =>
          have hok := (Machine.runIndependently_result (m := m) (i := i) left 1
            (m.runChunk i 0 (Machine.chunkLanes i.lanes 0) store).1
            (statistics.record ((m.plan i).1.map Chunk.Step.op).reverse
              (Machine.chunkLanes i.lanes 0))).mpr (Or.inr hfault)
          simp [hok]

/-- With two workers or more, every run of the group comes to return, and in order is
one way to run.  No error is returned if and only if each of the chunks ran to its end
exactly once.  If the caller has not stopped the run, an error is returned if and only
if the serial run ends in one; it is the fault that the serial run comes to, with the
same offset, in one of the chunks. -/
theorem result_of_chunks {workers : Int} (hworkers : 2 ≤ workers)
    (hshape : i.shapeError? = none) (store : Store) (statistics : Statistics) :
    (forall watch, exists g, Reaches m i workers.toNat (start none store statistics) g ∧
      g.outcome? = some (m.execParallel workers i watch store statistics)) ∧
    forall caller g, Reaches m i workers.toNat (start caller store statistics) g ->
      (Acc (fun h g => Step m i workers.toNat g h) g ∧
        ((exists result, g.stage = .returned result) ∨
          exists h, Step m i workers.toNat g h ∧ h.shared.caller = g.shared.caller)) ∧
      forall result, g.stage = .returned result ->
        (result = .ok () ↔ g.completed.Perm (List.range (chunks i))) ∧
        (g.shared.caller = none ->
          ((exists e, result = .error e) ↔
            exists e, (m.exec i .always store statistics).result = .error e) ∧
          forall e, result = .error e -> exists chunk fault, chunk < chunks i ∧
            e = .chunk chunk fault ∧
            (m.exec i .always store statistics).result = .error (.chunk 0 fault)) := by
  have hlimit : 1 ≤ workers.toNat := by omega
  constructor
  · intro watch
    have hparallel : m.execParallel workers i watch store statistics =
        m.runIndependently i (chunks i) 0 watch store statistics := by
      unfold Machine.execParallel
      rw [if_neg (by omega), hshape]
      rfl
    rw [hparallel]
    exact reaches_runIndependently hlimit (chunks i) 0 (Nat.add_zero _) watch []
      { store, statistics } rfl rfl rfl nofun
  · intro caller g hreaches
    have haccounted :=
      accounted_of_reaches (accounted_start m i caller store statistics) hreaches
    refine ⟨⟨(wellFounded_step m i workers.toNat).apply g, exists_step hlimit g⟩, ?_⟩
    intro result hresult
    rcases haccounted.result result hresult with ⟨_, hok, hprogram⟩
    refine ⟨hok, ?_⟩
    intro hcaller
    have hsame : forall e, result = .error e -> exists chunk fault, chunk < chunks i ∧
        e = .chunk chunk fault ∧
        (m.exec i .always store statistics).result = .error (.chunk 0 fault) := by
      intro e he
      rcases hprogram hcaller e he with ⟨chunk, fault, hchunk, heq, hfault⟩
      exact ⟨chunk, fault, hchunk, heq,
        (exec_error_iff hshape store statistics _).mpr ⟨fault, by omega, hfault, rfl⟩⟩
    refine ⟨⟨?_, ?_⟩, hsame⟩
    · rintro ⟨e, he⟩
      rcases hsame e he with ⟨_, fault, _, _, hserial⟩
      exact ⟨_, hserial⟩
    · rintro ⟨e, he⟩
      rcases (exec_error_iff hshape store statistics e).mp he with ⟨fault, hsome, hfault, _⟩
      cases hres : result with
      | error e => exact ⟨e, rfl⟩
      | ok _ =>
          -- a chunk that ran to its end would show that the program has no fault
          have hzero : 0 ∈ g.completed := (hok.mp hres).mem_iff.mpr (List.mem_range.mpr hsome)
          rcases List.mem_map.mp hzero with ⟨w, hw, _⟩
          rcases List.mem_filter.mp hw with ⟨hw, hdone⟩
          have hphase := haccounted.workers w hw
          cases hp : w.phase <;> simp [hp, Phase.isCompleted] at hdone
          rw [hp, Phase.Accounted, hfault] at hphase
          cases hphase

/-- Two chunks for two workers, and code that both of them stop at. -/
theorem result_of_chunks_stopped :
    exists g chunk, Reaches {} (Machine.stoppedRun 2 200) 2
        (start none (Machine.stoppedStore 3) {}) g ∧
      g.stage = .returned (.error (.chunk chunk (.unknownOpcode 33 8))) ∧ chunk < 2 ∧
      ¬g.completed.Perm (List.range 2) := by
  have hplan : (({} : Machine).plan (Machine.stoppedRun 2 200)).2 =
      some (.unknownOpcode 33 8) := by
    cbv
  have hshape : (Machine.stoppedRun 2 200).shapeError? = none := by decide
  have hchunks : chunks (Machine.stoppedRun 2 200) = 2 := by decide
  have hserial : (({} : Machine).exec (Machine.stoppedRun 2 200) .always
      (Machine.stoppedStore 3) {}).result = .error (.chunk 0 (.unknownOpcode 33 8)) :=
    (exec_error_iff hshape _ _ _).mpr ⟨_, by omega, hplan, rfl⟩
  rcases exists_returned (m := {}) (i := Machine.stoppedRun 2 200) (Nat.le_succ 1)
    (start none (Machine.stoppedStore 3) {}) with ⟨g, hreaches, hcaller, result, hresult⟩
  rcases (result_of_chunks (m := {}) (Int.le_refl 2) hshape (Machine.stoppedStore 3) {}).2
    none g hreaches with ⟨_, hreturned⟩
  rcases hreturned result hresult with ⟨hok, hnone⟩
  rcases hnone hcaller with ⟨hiff, hsame⟩
  rcases hiff.mpr ⟨_, hserial⟩ with ⟨e, rfl⟩
  rcases hsame e rfl with ⟨chunk, fault, hchunk, rfl, hfault⟩
  rw [hserial] at hfault
  cases hfault
  rw [hchunks] at hok hchunk
  exact ⟨g, chunk, hreaches, hresult, hchunk, fun hperm => by cases hok.mpr hperm⟩

end Group
end Parallel
end VectorMachine
