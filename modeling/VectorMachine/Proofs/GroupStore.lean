import VectorMachine.Proofs.GroupResult

/-!
# What a group of workers leaves behind

The arrays are divided among the chunks: each chunk has lanes of its own, and no
worker reads or writes those of another.  So however the workers take turns, a chunk
that ran to its end has left in its lanes what it would have left on its own, and
all runs without an error end in the same store and with the same counts.
-/

namespace VectorMachine

namespace Store

/-- Stores with the same number of buffers are told apart by their cells. -/
theorem eq_of_get?_eq {S T : Store} (hsize : S.buffers.size = T.buffers.size)
    (h : forall c, S.get? c = T.get? c) : S = T := by
  rcases S with ⟨left⟩
  rcases T with ⟨right⟩
  congr 1
  refine Array.ext hsize ?_
  intro n hleft hright
  refine Array.ext_getElem? ?_
  intro lane
  have hcell := h ⟨n, lane⟩
  simpa [get?, hleft, hright] using hcell

theorem get?_append_right {S T : Store} (hsize : S.buffers.size = T.buffers.size)
    (more : Array (Array Vec4)) {c : Cell} (h : S.buffers.size ≤ c.buffer) :
    Store.get? ⟨S.buffers ++ more⟩ c = Store.get? ⟨T.buffers ++ more⟩ c := by
  unfold get?
  simp only
  rw [Array.getElem?_append_right h, Array.getElem?_append_right (hsize ▸ h), hsize]

theorem get?_eq_none_of_le {S : Store} {c : Cell} (h : S.buffers.size ≤ c.buffer) :
    S.get? c = none :=
  get?_eq_none_of_not_has fun hhas => absurd (buffer_lt_of_has hhas) (Nat.not_lt.mpr h)

end Store

namespace Statistics

theorem record_comm (s : Statistics) (dispatched : List Opcode) (a b : Nat) :
    (s.record dispatched a).record dispatched b =
      (s.record dispatched b).record dispatched a := by
  simp only [record, Nat.add_right_comm s.lanes a b]

end Statistics

namespace Parallel

open Invocation

/-!
## The lanes of a chunk
-/

def Owns (i : Invocation) (chunk : Nat) (c : Cell) : Prop :=
  exists w lane, w ∈ i.arrays ∧ chunk * Chunk.size ≤ lane ∧
    lane < chunk * Chunk.size + i.span chunk ∧ w.cell lane = c

/-- What a run starts from: arrays in the store that are long enough and do not
overlap, and lanes that can be counted. -/
structure Grounded (i : Invocation) (store : Store) : Prop where
  shape : i.shapeError? = none
  countable : i.Countable
  placed : i.WellPlaced store

def ownFrame (m : Machine) (i : Invocation) (store : Store) (chunk : Nat) : Chunk.Frame :=
  m.frame i chunk (i.span chunk) store.buffers.size

def ownFinish (m : Machine) (i : Invocation) (store : Store) (chunk : Nat) : Chunk.State :=
  m.finish i chunk (i.span chunk) store

section Owns

variable {m : Machine} {i : Invocation} {store : Store} (hground : Grounded i store)
  {chunk : Nat} (hchunk : chunk < Group.chunks i)
include hground hchunk

theorem chunk_start_le : chunk * Chunk.size ≤ i.laneCount := by
  unfold Group.chunks at hchunk
  rw [chunkCount_eq hground.countable] at hchunk
  unfold Chunk.size
  omega

theorem Grounded.fits : i.Fits chunk (i.span chunk) :=
  fits_of_shape hground.shape (chunk_start_le hground hchunk)

theorem Grounded.laneLocal : (ownFrame m i store chunk).LaneLocal :=
  Machine.frame_laneLocal hground.placed (hground.fits hchunk)

theorem chunkLanes_eq_span : Machine.chunkLanes i.lanes chunk = i.span chunk :=
  chunkLanes_eq hground.countable (chunk_start_le hground hchunk)

theorem frameOf_eq {S : Store} (hsize : S.buffers.size = store.buffers.size) :
    frameOf m i chunk S = ownFrame m i store chunk := by
  unfold frameOf ownFrame
  rw [chunkLanes_eq_span hground hchunk, hsize]

theorem owns_unique {other : Nat} (hother : other < Group.chunks i) {c : Cell}
    (h : Owns i chunk c) (h' : Owns i other c) : chunk = other := by
  rcases h with ⟨w, a, hw, halow, hahigh, hacell⟩
  rcases h' with ⟨v, b, hv, hblow, hbhigh, hbcell⟩
  have hwsize := (hground.fits hchunk).within w hw
  have hvsize := (hground.fits hother).within v hv
  have hspan := i.span_le_size chunk
  have hspan' := i.span_le_size other
  have hlane : a = b := by
    by_contra hne
    exact hground.placed.cell_ne hw hv (by omega) (by omega) hne (hacell.trans hbcell.symm)
  unfold Chunk.size at *
  omega

omit hchunk in
theorem sees_iff_owns {c : Cell} (hbuffer : c.buffer < store.buffers.size) :
    (ownFrame m i store chunk).Sees c ↔ Owns i chunk c := by
  constructor
  · rintro ⟨s, w, lane, hs, hlane, rfl⟩
    have hlane : lane < i.span chunk := hlane
    rcases Machine.frame_window_cases hs with ⟨_, rfl⟩ | ⟨_, v, hv, rfl⟩
    · have hbank : store.buffers.size + s.toNat < store.buffers.size := hbuffer
      omega
    · refine ⟨v, chunk * Chunk.size + lane, mem_arrays_of_array? hv, by omega, by omega, ?_⟩
      rw [Window.cell_drop]
  · rintro ⟨w, lane, hw, hlow, hhigh, rfl⟩
    rcases (shapeError?_eq_none_iff i).mp hground.shape with ⟨_, hinputs, houtputs, _, _⟩
    rcases exists_array?_of_mem hinputs houtputs hw with ⟨s, hslot, hs⟩
    refine ⟨s, _, lane - chunk * Chunk.size, Machine.frame_window_array m hslot hs _ _ _,
      ?_, ?_⟩
    · show lane - chunk * Chunk.size < i.span chunk
      omega
    · rw [Window.cell_drop, Nat.add_sub_cancel' hlow]

theorem buffer_lt_of_owns {c : Cell} (h : Owns i chunk c) : c.buffer < store.buffers.size := by
  rcases h with ⟨w, lane, hw, _, hhigh, rfl⟩
  have hwithin := (hground.fits hchunk).within w hw
  exact Machine.buffer_lt_of_mem hground.placed hw (by omega)

omit hchunk in
theorem agree_state {S T : Store} (hS : S.buffers.size = store.buffers.size)
    (hT : T.buffers.size = store.buffers.size)
    (h : forall c, Owns i chunk c -> S.get? c = T.get? c) (r : Running) :
    (ownFrame m i store chunk).Agree (r.state S).store (r.state T).store := by
  intro c hsees
  by_cases hbuffer : c.buffer < store.buffers.size
  · have hcell := h c ((sees_iff_owns hground hbuffer).mp hsees)
    unfold Running.state
    rw [Store.get?_append_left (hS ▸ hbuffer), Store.get?_append_left (hT ▸ hbuffer), hcell]
  · exact Store.get?_append_right (hS.trans hT.symm) r.bank (by omega)

end Owns

/-!
## Turns of the workers
-/

/-- What is left of the code takes a chunk from this state to its end. -/
structure OnTrack (m : Machine) (i : Invocation) (store : Store) (chunk : Nat) (u : Chunk.State)
    (offset : Nat) (rest : Bytes) : Prop where
  backed : (ownFrame m i store chunk).Backed u.store
  agree : (ownFrame m i store chunk).Agree
    (Chunk.follow (ownFrame m i store chunk) u
      (Chunk.plan (ownFrame m i store chunk) offset rest).1).store
    (ownFinish m i store chunk).store
  dispatched : (Chunk.follow (ownFrame m i store chunk) u
    (Chunk.plan (ownFrame m i store chunk) offset rest).1).dispatched =
      (ownFinish m i store chunk).dispatched

/-- What the shared store has in the lanes of a chunk, by how far its worker is. -/
def Phase.Holds (m : Machine) (i : Invocation) (store : Store) (chunk : Nat) (S : Store) :
    Phase -> Prop
  | called => forall c, Owns i chunk c -> S.get? c = store.get? c
  | running r => OnTrack m i store chunk (r.state S) r.offset r.rest
  | completed => forall c, Owns i chunk c -> S.get? c = (ownFinish m i store chunk).store.get? c
  | _ => True

section Moves

variable {m : Machine} {i : Invocation} {store : Store} (hground : Grounded i store)
  {chunk : Nat} (hchunk : chunk < Group.chunks i) {p q : Phase} {s t : Shared}
include hground hchunk

theorem Phase.Holds.congr {S T : Store} (h : p.Holds m i store chunk S)
    (hS : S.buffers.size = store.buffers.size) (hT : T.buffers.size = store.buffers.size)
    (hsame : forall c, Owns i chunk c -> T.get? c = S.get? c) : p.Holds m i store chunk T := by
  cases p with
  | called => exact fun c hc => (hsame c hc).trans (h c hc)
  | running r =>
      have hstate := agree_state (m := m) hground hT hS hsame r
      have hbacked : (ownFrame m i store chunk).Backed (r.state T).store := by
        intro slot w lane hslot hlane
        unfold Store.Has
        rw [hstate _ ⟨slot, w, lane, hslot, hlane, rfl⟩]
        exact h.backed hslot hlane
      refine ⟨hbacked, fun c hc => ?_, ?_⟩
      · rw [← h.agree c hc]
        exact Chunk.agree_follow (hground.laneLocal hchunk) hbacked h.backed (Or.inr rfl) hstate
          c hc
      · rw [← h.dispatched, Chunk.follow_dispatched, Chunk.follow_dispatched]
        rfl
  | completed => exact fun c hc => (hsame c hc).trans (h c hc)
  | returned e => trivial
  | kept => trivial
  | left => trivial

theorem Moves.elsewhere (h : Moves m i chunk p s q t)
    (hsize : s.store.buffers.size = store.buffers.size) :
    t.store.buffers.size = store.buffers.size ∧
      forall c, ¬Owns i chunk c -> t.store.get? c = s.store.get? c := by
  cases h with
  | @work _ r offset rest u hadvance =>
      rcases Chunk.plan_of_going hadvance with ⟨step, rfl, _, _⟩
      have hsize' := r.size_take_perform s.store (frameOf m i chunk s.store) step
      refine ⟨hsize'.trans hsize, ?_⟩
      intro c hc
      by_cases hbuffer : c.buffer < s.store.buffers.size
      · rw [Store.get?_take hbuffer, frameOf_eq hground hchunk hsize,
          Chunk.perform_get?_of_unseen (by
            rw [sees_iff_owns hground (hsize ▸ hbuffer)]
            exact hc)]
        exact Store.get?_append_left hbuffer
      · rw [Store.get?_eq_none_of_le (Nat.not_lt.mp hbuffer), Store.get?_eq_none_of_le]
        exact Nat.le_trans (Nat.le_of_eq hsize') (Nat.not_lt.mp hbuffer)
  | refuse => exact ⟨hsize, fun _ _ => rfl⟩
  | enter => exact ⟨hsize, fun _ _ => rfl⟩
  | complete => exact ⟨hsize, fun _ _ => rfl⟩
  | fail => exact ⟨hsize, fun _ _ => rfl⟩
  | keep => exact ⟨hsize, fun _ _ => rfl⟩
  | stopGroup => exact ⟨hsize, fun _ _ => rfl⟩
  | leave => exact ⟨hsize, fun _ _ => rfl⟩

theorem onTrack_start : OnTrack m i store chunk (m.start chunk store) 0 i.code := by
  have hplan : Chunk.plan (ownFrame m i store chunk) 0 i.code = m.plan i :=
    Machine.plan_frame ..
  refine ⟨Machine.frame_backed hground.placed (hground.fits hchunk), ?_, ?_⟩
  · rw [hplan]
    exact fun _ _ => rfl
  · rw [hplan]
    rfl

theorem Moves.holds (h : Moves m i chunk p s q t)
    (hsize : s.store.buffers.size = store.buffers.size) (hp : p.Holds m i store chunk s.store) :
    q.Holds m i store chunk t.store := by
  cases h with
  | refuse hgroup => trivial
  | enter bank hgroup =>
      have hstart : (Phase.running (.start m i chunk bank)).Holds m i store chunk store := by
        show OnTrack _ _ _ _ (Running.state _ _) _ _
        rw [Running.state_start]
        exact onTrack_start hground hchunk
      exact hstart.congr hground hchunk rfl hsize hp
  | @work _ r offset rest u hadvance =>
      rw [frameOf_eq hground hchunk hsize] at hadvance
      rcases Chunk.plan_of_going hadvance with ⟨step, rfl, _, hplan⟩
      rcases hp with ⟨hbacked, hagree, hdispatched⟩
      rw [hplan, Chunk.follow_cons] at hagree hdispatched
      show OnTrack _ _ _ _ (Running.state _ _) _ _
      rw [Running.state_next]
      exact ⟨Chunk.perform_backed step hbacked, hagree, hdispatched⟩
  | @complete _ r hadvance =>
      rw [frameOf_eq hground hchunk hsize] at hadvance
      rcases hp with ⟨_, hagree, _⟩
      rw [Chunk.plan_of_halted hadvance, Chunk.follow_nil] at hagree
      intro c hc
      have hbuffer := buffer_lt_of_owns hground hchunk hc
      rw [← hagree c ((sees_iff_owns hground hbuffer).mpr hc)]
      exact (Store.get?_append_left (hsize ▸ hbuffer)).symm
  | fail hadvance => trivial
  | keep herror => trivial
  | stopGroup => trivial
  | leave herror => trivial

/-- A chunk is counted when it has run to its end, with what every chunk dispatches. -/
theorem Moves.counts (h : Moves m i chunk p s q t)
    (hsize : s.store.buffers.size = store.buffers.size) (hp : p.Holds m i store chunk s.store) :
    p.isCompleted = false ∧
      ((q.isCompleted = false ∧ t.statistics = s.statistics) ∨
      (q.isCompleted = true ∧ t.statistics =
        s.statistics.record ((m.plan i).1.map Chunk.Step.op).reverse (i.span chunk))) := by
  cases h with
  | @complete _ r hadvance =>
      rw [frameOf_eq hground hchunk hsize] at hadvance
      rcases hp with ⟨_, _, hdispatched⟩
      rw [Chunk.plan_of_halted hadvance, Chunk.follow_nil] at hdispatched
      refine ⟨rfl, Or.inr ⟨rfl, ?_⟩⟩
      have hops : r.dispatched = ((m.plan i).1.map Chunk.Step.op).reverse :=
        hdispatched.trans (Machine.finish_dispatched ..)
      rw [hops, chunkLanes_eq_span hground hchunk]
  | refuse => exact ⟨rfl, Or.inl ⟨rfl, rfl⟩⟩
  | enter => exact ⟨rfl, Or.inl ⟨rfl, rfl⟩⟩
  | work => exact ⟨rfl, Or.inl ⟨rfl, rfl⟩⟩
  | fail => exact ⟨rfl, Or.inl ⟨rfl, rfl⟩⟩
  | keep => exact ⟨rfl, Or.inl ⟨rfl, rfl⟩⟩
  | stopGroup => exact ⟨rfl, Or.inl ⟨rfl, rfl⟩⟩
  | leave => exact ⟨rfl, Or.inl ⟨rfl, rfl⟩⟩

end Moves

/-!
## What holds throughout
-/

def tallied (m : Machine) (i : Invocation) (statistics : Statistics) (chunks : List Nat) :
    Statistics :=
  chunks.foldl
    (fun s chunk => s.record ((m.plan i).1.map Chunk.Step.op).reverse (i.span chunk)) statistics

theorem tallied_eq_of_perm (m : Machine) (i : Invocation) (statistics : Statistics)
    {xs ys : List Nat} (h : xs.Perm ys) :
    tallied m i statistics xs = tallied m i statistics ys :=
  h.foldl_eq' (fun _ _ _ _ s => s.record_comm _ _ _) statistics

namespace Group

/-- The lanes that have not been handed out are as they were, the others are as far as
their workers are, and the chunks that ran to their end have been counted. -/
structure Divided (m : Machine) (i : Invocation) (store : Store) (statistics : Statistics)
    (g : Group) : Prop where
  size : g.shared.store.buffers.size = store.buffers.size
  workers : forall w, w ∈ g.workers -> w.phase.Holds m i store w.chunk g.shared.store
  untouched : forall c, (forall w, w ∈ g.workers -> ¬Owns i w.chunk c) ->
    g.shared.store.get? c = store.get? c
  statistics : g.shared.statistics = tallied m i statistics g.completed

theorem divided_start (m : Machine) (i : Invocation) (caller : Option Stop) (store : Store)
    (statistics : Statistics) :
    (start caller store statistics).Divided m i store statistics where
  size := rfl
  workers := nofun
  untouched := fun _ _ => rfl
  statistics := rfl

section Divided

variable {m : Machine} {i : Invocation} {limit : Nat} {store : Store} {statistics : Statistics}

theorem completed_worker (stage : Stage) (before after : List Worker) (w : Worker)
    (s : Shared) :
    completed ⟨stage, before ++ w :: after, s⟩ =
      completed ⟨stage, before, s⟩ ++
        ((if w.phase.isCompleted then [w.chunk] else []) ++ completed ⟨stage, after, s⟩) := by
  unfold completed
  by_cases hdone : w.phase.isCompleted = true
  · simp [hdone]
  · simp [hdone]

theorem Divided.statistics_worker (hground : Grounded i store) {stage : Stage}
    {before after : List Worker} {chunk : Nat} {p q : Phase} {s t : Shared}
    (hg : Divided m i store statistics ⟨stage, before ++ ⟨chunk, p⟩ :: after, s⟩)
    (hchunk : chunk < chunks i) (hmoves : Moves m i chunk p s q t) :
    t.statistics =
      tallied m i statistics (completed ⟨stage, before ++ ⟨chunk, q⟩ :: after, t⟩) := by
  have hcounted := hg.statistics
  rw [completed_worker] at hcounted ⊢
  rcases hmoves.counts hground hchunk hg.size (hg.workers ⟨chunk, p⟩ (by simp)) with
    ⟨hp, ⟨hq, hsame⟩ | ⟨hq, hrecord⟩⟩
  · rw [hp] at hcounted
    rw [hsame, hq]
    exact hcounted
  · rw [hp] at hcounted
    rw [hrecord, hq]
    have hperm : (completed ⟨stage, before, t⟩ ++ ([chunk] ++ completed ⟨stage, after, t⟩)).Perm
        ((completed ⟨stage, before, t⟩ ++ completed ⟨stage, after, t⟩) ++ [chunk]) :=
      List.perm_middle.trans (List.perm_append_singleton _ _).symm
    simp only [if_true]
    rw [tallied_eq_of_perm m i statistics hperm]
    unfold tallied at hcounted ⊢
    rw [List.foldl_append, List.foldl_cons, List.foldl_nil]
    congr 1

theorem Divided.step (hground : Grounded i store) {g h : Group} (haccounted : g.Accounted m i)
    (hg : g.Divided m i store statistics) (hstep : Step m i limit g h) :
    h.Divided m i store statistics := by
  cases hstep with
  | @worker stage before after chunk p q s t hmoves =>
      have hmem : (⟨chunk, p⟩ : Worker) ∈ before ++ ⟨chunk, p⟩ :: after := by simp
      have hchunk : chunk < chunks i := haccounted.chunk_lt hmem
      rcases hmoves.elsewhere hground hchunk hg.size with ⟨hsize, helsewhere⟩
      have hothers : forall w, w ∈ before ∨ w ∈ after ->
          w.phase.Holds m i store w.chunk t.store := by
        intro w hw
        have hw' : w ∈ before ++ ⟨chunk, p⟩ :: after := by rcases hw with hw | hw <;> simp [hw]
        have hlt : w.chunk < chunks i := haccounted.chunk_lt hw'
        have hne : w.chunk ≠ chunk := by
          have hnodup := haccounted.nodup
          simp only [List.map_append, List.map_cons] at hnodup
          rw [List.perm_middle.nodup_iff, List.nodup_cons] at hnodup
          intro heq
          apply hnodup.1
          rw [← heq, ← List.map_append]
          exact List.mem_map_of_mem (List.mem_append.mpr hw)
        refine (hg.workers w hw').congr hground hlt hg.size hsize ?_
        intro c hc
        exact helsewhere c fun hown => hne (owns_unique hground hlt hchunk hc hown)
      refine ⟨hsize, ?_, ?_, hg.statistics_worker hground hchunk hmoves⟩
      · intro w hw
        rcases List.mem_append.mp hw with hw | hw
        · exact hothers w (Or.inl hw)
        · rcases List.mem_cons.mp hw with rfl | hw
          · exact hmoves.holds hground hchunk hg.size (hg.workers _ hmem)
          · exact hothers w (Or.inr hw)
      · intro c hc
        have hfree : ¬Owns i chunk c := hc ⟨chunk, q⟩ (by simp)
        refine (helsewhere c hfree).trans (hg.untouched c ?_)
        intro w hw
        rcases List.mem_append.mp hw with hw | hw
        · exact hc w (by simp [hw])
        · rcases List.mem_cons.mp hw with rfl | hw
          · exact hfree
          · exact hc w (by simp [hw])
  | @call chunk workers s hactive =>
      rcases haccounted.handedOut with ⟨_, _, hworkers, rfl, hlt⟩
      refine ⟨hg.size, List.forall_mem_append.mpr ⟨hg.workers, ?_⟩, ?_, ?_⟩
      · intro w hw
        rw [List.mem_singleton.mp hw]
        intro c hc
        refine hg.untouched c ?_
        intro v hv hown
        -- the chunks before this one have other numbers
        have hsame := owns_unique hground (haccounted.chunk_lt hv) hlt hown hc
        have hrange : v.chunk ∈ List.range chunk := by
          rw [← hworkers]
          exact List.mem_map_of_mem hv
        exact absurd hsame (Nat.ne_of_lt (List.mem_range.mp hrange))
      · intro c hc
        exact hg.untouched c fun w hw => hc w (List.mem_append_left _ hw)
      · have hsame : completed ⟨.looking (chunk + 1), workers ++ [⟨chunk, .called⟩], s⟩ =
            completed ⟨.calling chunk, workers, s⟩ := by
          simp [completed, Phase.isCompleted]
        rw [hsame]
        exact hg.statistics
  | stopCaller => exact ⟨hg.size, hg.workers, hg.untouched, hg.statistics⟩
  | passOn => exact ⟨hg.size, hg.workers, hg.untouched, hg.statistics⟩
  | look => exact ⟨hg.size, hg.workers, hg.untouched, hg.statistics⟩
  | skip => exact ⟨hg.size, hg.workers, hg.untouched, hg.statistics⟩
  | finish => exact ⟨hg.size, hg.workers, hg.untouched, hg.statistics⟩
  | result => exact ⟨hg.size, hg.workers, hg.untouched, hg.statistics⟩

theorem divided_of_reaches (hground : Grounded i store) {g h : Group}
    (haccounted : g.Accounted m i) (hg : g.Divided m i store statistics)
    (hreaches : Reaches m i limit g h) : h.Divided m i store statistics := by
  induction hreaches with
  | refl => exact hg
  | tail hbefore hstep ih =>
      exact ih.step hground (accounted_of_reaches haccounted hbefore) hstep

end Divided
end Group

/-!
## All runs end alike
-/

/-- Each chunk has left its own lanes as it does by itself, and has been counted. -/
structure Finished (m : Machine) (i : Invocation) (store : Store) (statistics : Statistics)
    (o : Machine.Outcome) : Prop where
  size : o.store.buffers.size = store.buffers.size
  owned : forall chunk, chunk < Group.chunks i -> forall c, Owns i chunk c ->
    o.store.get? c = (ownFinish m i store chunk).store.get? c
  untouched : forall c, (forall chunk, chunk < Group.chunks i -> ¬Owns i chunk c) ->
    o.store.get? c = store.get? c
  statistics : o.statistics = tallied m i statistics (List.range (Group.chunks i))

section Finished

variable {m n : Machine} {i : Invocation} {limit : Nat} {store : Store}
  {statistics : Statistics}

theorem finished_of_ok (hground : Grounded i store) {caller : Option Stop} {g : Group}
    (hreaches : Group.Reaches m i limit (Group.start caller store statistics) g)
    {o : Machine.Outcome} (ho : g.outcome? = some o) (hok : o.result = .ok ()) :
    Finished m i store statistics o := by
  have hstart := Group.accounted_start m i caller store statistics
  have haccounted := Group.accounted_of_reaches hstart hreaches
  have hdivided := Group.divided_of_reaches hground hstart
    (Group.divided_start m i caller store statistics) hreaches
  rcases g with ⟨stage, workers, s⟩
  cases stage with
  | returned result =>
      cases ho
      have hperm := (haccounted.result result rfl).2.1.mp hok
      rcases haccounted.handedOut with ⟨count, hcount, hworkers, _⟩
      rcases Group.forall_completed_of_perm hworkers hcount hperm with ⟨rfl, hall⟩
      have hrange : forall w, w ∈ workers -> w.chunk < Group.chunks i :=
        fun w hw => haccounted.chunk_lt hw
      refine ⟨hdivided.size, ?_, ?_, ?_⟩
      · intro chunk hchunk c hc
        have hmem : chunk ∈ workers.map (·.chunk) := by
          rw [hworkers]
          exact List.mem_range.mpr hchunk
        rcases List.mem_map.mp hmem with ⟨w, hw, rfl⟩
        have hholds := hdivided.workers w hw
        have hdone := hall w hw
        cases hphase : w.phase <;> simp [hphase, Phase.isCompleted] at hdone
        rw [hphase] at hholds
        exact hholds c hc
      · intro c hc
        exact hdivided.untouched c fun w hw => hc w.chunk (hrange w hw)
      · exact hdivided.statistics.trans (tallied_eq_of_perm m i statistics hperm)
  | looking chunk => cases ho
  | calling chunk => cases ho
  | waiting skipped => cases ho

theorem finished_exec (hground : Grounded i store)
    (hok : (m.exec i .always store statistics).result = .ok ()) :
    Finished m i store statistics (m.exec i .always store statistics) := by
  rw [Machine.exec_eq_of_shape hground.shape] at hok ⊢
  rcases Group.reaches_runIndependently (m := m) (i := i) (Nat.le_refl 1) (Group.chunks i) 0
    (Nat.add_zero _) .always [] { store, statistics } rfl rfl rfl nofun with ⟨g, hreaches, ho⟩
  exact finished_of_ok hground (g := g)
    (hreaches : Group.Reaches _ _ _ (.start none _ _) _) ho hok

/-- Two machines that differ in their random streams only leave the same in a chunk,
if the streams are the same or nothing is drawn. -/
theorem ownFinish_congr (hground : Grounded i store) (hpolicy : m.policy = n.policy)
    (hdraws : m.generators = n.generators ∨ .random ∉ (m.plan i).1.map Chunk.Step.op)
    {chunk : Nat} (hchunk : chunk < Group.chunks i) {c : Cell} (hc : Owns i chunk c) :
    (ownFinish m i store chunk).store.get? c = (ownFinish n i store chunk).store.get? c := by
  have hplan : m.plan i = n.plan i := Machine.plan_eq_of_counts hpolicy rfl rfl rfl rfl
  have hframe : ownFrame m i store chunk = ownFrame n i store chunk := by
    unfold ownFrame Machine.frame
    rw [hpolicy]
  have hfits := hground.fits hchunk
  have hsame : Chunk.SameDraws (m.plan i).1 (m.start chunk store) (n.start chunk store) := by
    rcases hdraws with hstreams | hquiet
    · exact Or.inr (congrFun hstreams chunk)
    · exact Or.inl fun _ => Machine.draws_eq_false_of_mem_plan hquiet
  have hbuffer := buffer_lt_of_owns hground hchunk hc
  have hbacked : (ownFrame m i store chunk).Backed (n.start chunk store).store := by
    rw [hframe]
    exact Machine.frame_backed hground.placed hfits
  have hfollow := Chunk.agree_follow (hground.laneLocal hchunk)
    (Machine.frame_backed hground.placed hfits) hbacked hsame (fun _ _ => rfl) c
    ((sees_iff_owns hground hbuffer).mpr hc)
  unfold ownFinish Machine.finish
  rw [← hplan]
  exact hfollow.trans (by rw [hframe]; rfl)

theorem Finished.eq (hground : Grounded i store) (hpolicy : m.policy = n.policy)
    (hdraws : m.generators = n.generators ∨ Group.chunks i = 0 ∨
      .random ∉ (m.plan i).1.map Chunk.Step.op)
    {o o' : Machine.Outcome} (h : Finished m i store statistics o)
    (h' : Finished n i store statistics o') (hresult : o.result = o'.result) : o = o' := by
  have hplan : m.plan i = n.plan i := Machine.plan_eq_of_counts hpolicy rfl rfl rfl rfl
  have hstore : o.store = o'.store := by
    refine Store.eq_of_get?_eq (h.size.trans h'.size.symm) ?_
    intro c
    by_cases hfree : forall chunk, chunk < Group.chunks i -> ¬Owns i chunk c
    · rw [h.untouched c hfree, h'.untouched c hfree]
    · simp only [not_forall, not_not] at hfree
      rcases hfree with ⟨chunk, hchunk, hc⟩
      rw [h.owned chunk hchunk c hc, h'.owned chunk hchunk c hc]
      refine ownFinish_congr hground hpolicy ?_ hchunk hc
      rcases hdraws with hstreams | hnone | hquiet
      · exact Or.inl hstreams
      · omega
      · exact Or.inr hquiet
  have hstatistics : o.statistics = o'.statistics := by
    rw [h.statistics, h'.statistics]
    unfold tallied
    rw [hplan]
  cases o
  cases o'
  simp_all

end Finished

/-- Chunks that run without a fault may be handed to two or more workers.  If the
caller does not stop the run, then however the workers take turns it comes to its end,
and it leaves what the serial run leaves: every array, every count and no error.  The
random streams have to be the same for that, or nothing is drawn. -/
theorem outcome_eq_exec {m n : Machine} {i : Invocation} {workers : Int}
    (hworkers : 2 ≤ workers) (hpolicy : m.policy = n.policy) (hshape : i.shapeError? = none)
    (hlanes : i.lanes.toInt ≤ 2 ^ 63 - 128) {store : Store} (hplaced : i.WellPlaced store)
    (statistics : Statistics) (hok : (n.exec i .always store statistics).result = .ok ())
    (hdraws : m.generators = n.generators ∨
      (n.exec i .always store statistics).statistics.tally.count .random =
        statistics.tally.count .random) :
    (exists g, Group.Reaches m i workers.toNat (Group.start none store statistics) g ∧
      g.shared.caller = none ∧ g.outcome? = some (n.exec i .always store statistics)) ∧
    (forall g, Group.Reaches m i workers.toNat (Group.start none store statistics) g ->
      g.shared.caller = none ->
        Acc (fun h g => Group.Step m i workers.toNat g h) g ∧
        (g.outcome? = none -> exists h, Group.Step m i workers.toNat g h ∧
          h.shared.caller = none) ∧
        forall o, g.outcome? = some o -> o = n.exec i .always store statistics) ∧
    m.execParallel workers i .always store statistics = n.exec i .always store statistics := by
  have hcount : i.Countable := ⟨((shapeError?_eq_none_iff i).mp hshape).1, hlanes⟩
  have hground : Grounded i store := ⟨hshape, hcount, hplaced⟩
  have hlimit : 1 ≤ workers.toNat := by omega
  have hplan : m.plan i = n.plan i := Machine.plan_eq_of_counts hpolicy rfl rfl rfl rfl
  have hquiet : m.generators = n.generators ∨ Group.chunks i = 0 ∨
      .random ∉ (m.plan i).1.map Chunk.Step.op := by
    refine hdraws.imp_right fun hcounted => ?_
    rw [hplan]
    rcases (Machine.exec_result hshape hcount store statistics).mp hok with hzero | hfault
    · left
      unfold Group.chunks
      rw [chunkCount_eq hcount, hzero]
    · by_cases hzero : i.laneCount = 0
      · left
        unfold Group.chunks
        rw [chunkCount_eq hcount, hzero]
      · exact Or.inr (Machine.not_random_of_count hshape hcount hzero hfault hcounted)
  have hserial := finished_exec hground hok
  have hsame : forall g,
      Group.Reaches m i workers.toNat (Group.start none store statistics) g ->
      g.shared.caller = none -> forall o, g.outcome? = some o ->
        o = n.exec i .always store statistics := by
    intro g hreaches hcaller o ho
    have hresult : o.result = .ok () := by
      cases hres : o.result with
      | ok _ => rfl
      | error e =>
          -- the fault of a chunk would be one of the serial run as well
          have haccounted := Group.accounted_of_reaches
            (Group.accounted_start m i none store statistics) hreaches
          rcases (haccounted.result o.result (Group.stage_of_outcome? ho)).2.2 hcaller e hres
            with ⟨_, fault, hchunk, _, hfault⟩
          have herror := (Group.exec_error_iff hshape store statistics (.chunk 0 fault)).mpr
            ⟨fault, Nat.zero_lt_of_lt hchunk, hplan ▸ hfault, rfl⟩
          rw [hok] at herror
          cases herror
    exact (finished_of_ok hground hreaches ho hresult).eq hground hpolicy hquiet hserial
      (hresult.trans hok.symm)
  refine ⟨?_, ?_, ?_⟩
  · rcases Group.exists_returned (m := m) (i := i) hlimit (Group.start none store statistics)
      with ⟨g, hreaches, hcaller, result, hreturned⟩
    have ho : g.outcome? = some ⟨g.shared.store, g.shared.statistics, result⟩ := by
      unfold Group.outcome?
      rw [hreturned]
    exact ⟨g, hreaches, hcaller, ho.trans (congrArg some (hsame g hreaches hcaller _ ho))⟩
  · intro g hreaches hcaller
    refine ⟨(Group.wellFounded_step m i workers.toNat).apply g, ?_, hsame g hreaches hcaller⟩
    intro hnone
    rcases Group.exists_step (m := m) (i := i) hlimit g with
      ⟨result, hreturned⟩ | ⟨h, hstep, hstill⟩
    · unfold Group.outcome? at hnone
      rw [hreturned] at hnone
      cases hnone
    · exact ⟨h, hstep, hstill.trans hcaller⟩
  · have hparallel : m.execParallel workers i .always store statistics =
        m.exec i .always store statistics := by
      rw [Machine.exec_eq_of_shape hshape]
      unfold Machine.execParallel
      rw [if_neg (by omega), hshape]
    have hresult : (m.exec i .always store statistics).result = .ok () := by
      rw [Machine.exec_result hshape hcount] at hok ⊢
      rw [hplan]
      exact hok
    rw [hparallel]
    exact (finished_exec hground hresult).eq hground hpolicy hquiet hserial
      (hresult.trans hok.symm)

/-- A product, a sum and a random vector from the stream of the chunk, on two chunks. -/
def drawnRun : Invocation :=
  { Machine.stoppedRun 2 200 with code := [37, 40, 1, 0, 3, 0, 2, 8, 0, 1, 40, 0, 40, 0, 0] }

theorem outcome_eq_exec_drawn :
    (exists g, Group.Reaches (({} : Machine).withSeed 7) drawnRun 3
        (Group.start none (Machine.stoppedStore 3) {}) g ∧
      g.outcome? = some ((({} : Machine).withSeed 7).exec drawnRun .always
        (Machine.stoppedStore 3) {})) ∧
    ((({} : Machine).withSeed 7).exec drawnRun .always (Machine.stoppedStore 3) {}).result =
      .ok () ∧
    (({} : Machine).withSeed 7).execParallel 3 drawnRun .always (Machine.stoppedStore 3) {} =
      (({} : Machine).withSeed 7).exec drawnRun .always (Machine.stoppedStore 3) {} := by
  have hshape : drawnRun.shapeError? = none := by decide
  have hcount : drawnRun.Countable := by decide
  have hplaced : drawnRun.WellPlaced (Machine.stoppedStore 3) :=
    ⟨(Machine.wellPlaced_stoppedRun 2 3 200).inside,
      (Machine.wellPlaced_stoppedRun 2 3 200).apart⟩
  have hfault : ((({} : Machine).withSeed 7).plan drawnRun).2 = none := by cbv
  have hok : ((({} : Machine).withSeed 7).exec drawnRun .always (Machine.stoppedStore 3)
      {}).result = .ok () :=
    (Machine.exec_result hshape hcount _ _).mpr (Or.inr hfault)
  rcases outcome_eq_exec (Int.le_of_lt (by decide : (2 : Int) < 3)) rfl hshape (by decide)
    hplaced {} hok (Or.inl rfl) with ⟨⟨g, hreaches, _, houtcome⟩, _, hparallel⟩
  exact ⟨⟨g, hreaches, houtcome⟩, hok, hparallel⟩

end Parallel
end VectorMachine
