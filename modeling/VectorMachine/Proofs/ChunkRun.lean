import VectorMachine.Machine.Basic
import VectorMachine.Proofs.Plan

/-!
# Running one chunk

The registers of a chunk are eight temporaries of its own and one stretch of each
lane array.  What a chunk leaves behind is what its plan, the same for every chunk
of an invocation, does to these.
-/

namespace VectorMachine

/-!
## Register slots
-/

namespace Slot

theorem toNat_temp {n : Nat} (h : n < tempCount) : (temp n).toNat = n := by
  have hall : forall n : Nat, n < tempCount -> (temp n).toNat = n := by decide
  exact hall n h

theorem toNat_input {n : Nat} (h : n < inputLimit) : (input n).toNat = firstInput + n := by
  have hall : forall n : Nat, n < inputLimit -> (input n).toNat = firstInput + n := by decide
  exact hall n h

theorem toNat_output {n : Nat} (h : n < outputLimit) : (output n).toNat = firstOutput + n := by
  have hall : forall n : Nat, n < outputLimit -> (output n).toNat = firstOutput + n := by decide
  exact hall n h

end Slot

/-!
## The arrays of an invocation
-/

namespace Invocation

def arrays (i : Invocation) : List Window :=
  i.inputs ++ i.outputs

def array? (i : Invocation) (s : Slot) : Option Window :=
  if s.toNat < Slot.firstOutput then i.inputs[s.toNat - Slot.firstInput]?
  else i.outputs[s.toNat - Slot.firstOutput]?

theorem mem_arrays_of_array? {i : Invocation} {s : Slot} {w : Window}
    (h : i.array? s = some w) : w ∈ i.arrays := by
  unfold array? at h
  unfold arrays
  split at h
  · exact List.mem_append_left _ (List.mem_of_getElem? h)
  · exact List.mem_append_right _ (List.mem_of_getElem? h)

theorem array?_input (i : Invocation) {n : Nat} (h : n < Slot.inputLimit) :
    i.array? (Slot.input n) = i.inputs[n]? := by
  have hbank : Slot.firstInput + n < Slot.firstOutput := Nat.add_lt_add_left h Slot.firstInput
  unfold array?
  rw [Slot.toNat_input h, if_pos hbank, Nat.add_sub_cancel_left]

theorem array?_output (i : Invocation) {n : Nat} (h : n < Slot.outputLimit) :
    i.array? (Slot.output n) = i.outputs[n]? := by
  have hbank : ¬Slot.firstOutput + n < Slot.firstOutput := Nat.not_lt.mpr (Nat.le_add_right _ _)
  unfold array?
  rw [Slot.toNat_output h, if_neg hbank, Nat.add_sub_cancel_left]

theorem exists_array?_of_mem {i : Invocation} {w : Window}
    (hinputs : i.inputs.length ≤ Slot.inputLimit)
    (houtputs : i.outputs.length ≤ Slot.outputLimit)
    (h : w ∈ i.arrays) : exists s : Slot, Slot.firstInput ≤ s.toNat ∧ i.array? s = some w := by
  rcases List.mem_append.mp h with h | h
  · rcases List.mem_iff_getElem?.mp h with ⟨n, hn⟩
    have hlt : n < Slot.inputLimit :=
      Nat.lt_of_lt_of_le (List.getElem?_eq_some_iff.mp hn).1 hinputs
    refine ⟨Slot.input n, ?_, (i.array?_input hlt).trans hn⟩
    rw [Slot.toNat_input hlt]
    exact Nat.le_add_right _ _
  · rcases List.mem_iff_getElem?.mp h with ⟨n, hn⟩
    have hlt : n < Slot.outputLimit :=
      Nat.lt_of_lt_of_le (List.getElem?_eq_some_iff.mp hn).1 houtputs
    refine ⟨Slot.output n, ?_, (i.array?_output hlt).trans hn⟩
    rw [Slot.toNat_output hlt]
    exact Nat.le_trans (Nat.le_add_right _ _) (Nat.le_add_right _ _)

/-- The arrays lie in the store, and two of them are one and the same or have no
lane in common. -/
structure WellPlaced (i : Invocation) (store : Store) : Prop where
  inside : forall w, w ∈ i.arrays -> w.Inside store
  apart : forall w v, w ∈ i.arrays -> v ∈ i.arrays -> w = v ∨ w.Disjoint v

/-- A chunk that has no more than 128 lanes and ends within every array. -/
structure Fits (i : Invocation) (chunk lanes : Nat) : Prop where
  lanes_le : lanes ≤ Chunk.size
  within : forall w, w ∈ i.arrays -> chunk * Chunk.size + lanes ≤ w.size

end Invocation

namespace Machine

open Chunk (Step)

/-!
## The frame of a chunk
-/

theorem windows_eq (i : Invocation) (bank base : Nat) (s : Slot) :
    windows i bank base s =
      if s.toNat < Slot.firstInput then some ⟨bank + s.toNat, 0, Chunk.size⟩
      else (i.array? s).map (·.drop base) := by
  unfold windows Invocation.array?
  simp only
  split
  · rfl
  · split <;> rfl

/-- The frame that a chunk runs in, with temporaries from buffer `bank` on. -/
def frame (m : Machine) (i : Invocation) (chunk lanes bank : Nat) : Chunk.Frame where
  policy := m.policy
  codeLength := i.code.length
  constants := i.constants
  windows := windows i bank (chunk * Chunk.size)
  lanes := lanes

def start (m : Machine) (chunk : Nat) (store : Store) : Chunk.State where
  store := ⟨store.buffers ++ freshBank⟩
  generator := m.generators chunk

theorem frame_window_cases {m : Machine} {i : Invocation} {chunk lanes bank : Nat} {s : Slot}
    {w : Window} (h : (m.frame i chunk lanes bank).windows s = some w) :
    (s.toNat < Slot.tempCount ∧ w = ⟨bank + s.toNat, 0, Chunk.size⟩) ∨
      (Slot.tempCount ≤ s.toNat ∧
        exists v, i.array? s = some v ∧ w = v.drop (chunk * Chunk.size)) := by
  have h : windows i bank (chunk * Chunk.size) s = some w := h
  rw [windows_eq] at h
  split at h
  next htemp =>
    cases h
    exact Or.inl ⟨htemp, rfl⟩
  next htemp =>
    rcases Option.map_eq_some_iff.mp h with ⟨v, hv, rfl⟩
    exact Or.inr ⟨Nat.not_lt.mp htemp, v, hv, rfl⟩

theorem frame_window_array (m : Machine) {i : Invocation} {s : Slot} {w : Window}
    (hslot : Slot.firstInput ≤ s.toNat) (hs : i.array? s = some w) (chunk lanes bank : Nat) :
    (m.frame i chunk lanes bank).windows s = some (w.drop (chunk * Chunk.size)) := by
  show windows i bank _ s = _
  rw [windows_eq, if_neg (Nat.not_lt.mpr hslot), hs]
  rfl

theorem frame_alike (m : Machine) (i : Invocation)
    (chunk lanes bank chunk' lanes' bank' : Nat) :
    (m.frame i chunk lanes bank).Alike (m.frame i chunk' lanes' bank') where
  policy := rfl
  codeLength := rfl
  constants := rfl
  windows := by
    intro s
    show (windows i bank _ s).isSome = (windows i bank' _ s).isSome
    rw [windows_eq, windows_eq]
    split
    · rfl
    · rw [Option.isSome_map, Option.isSome_map]

section Fits

variable {m : Machine} {i : Invocation} {chunk lanes : Nat} {store : Store}

theorem buffer_lt_of_mem (hplaced : i.WellPlaced store) {w : Window} (hw : w ∈ i.arrays)
    (hsize : 0 < w.size) : w.buffer < store.buffers.size :=
  Store.buffer_lt_of_has ((hplaced.inside w hw).has hsize)

theorem within_of_array? (hplaced : i.WellPlaced store) (hfits : i.Fits chunk lanes)
    (hlanes : 0 < lanes) {s : Slot} {w : Window} (h : i.array? s = some w) :
    w ∈ i.arrays ∧ chunk * Chunk.size + lanes ≤ w.size ∧ w.buffer < store.buffers.size := by
  have hmem := Invocation.mem_arrays_of_array? h
  have hwithin := hfits.within w hmem
  exact ⟨hmem, hwithin, buffer_lt_of_mem hplaced hmem (by omega)⟩

/-- Lanes of two registers are one cell only if they are the same lane and the
registers are the same one or stand for the same array. -/
theorem frame_cell_eq_iff (hplaced : i.WellPlaced store) (hfits : i.Fits chunk lanes)
    {s t : Slot} {w v : Window} {a b : Nat}
    (hs : (m.frame i chunk lanes store.buffers.size).windows s = some w)
    (ht : (m.frame i chunk lanes store.buffers.size).windows t = some v)
    (ha : a < lanes) (hb : b < lanes) :
    w.cell a = v.cell b ↔
      a = b ∧ (s = t ∨ Slot.tempCount ≤ s.toNat ∧ Slot.tempCount ≤ t.toNat ∧
        i.array? s = i.array? t) := by
  have hlanes : 0 < lanes := Nat.zero_lt_of_lt ha
  rcases frame_window_cases hs with ⟨hstemp, rfl⟩ | ⟨hsarray, w, hw, rfl⟩ <;>
    rcases frame_window_cases ht with ⟨httemp, rfl⟩ | ⟨htarray, v, hv, rfl⟩
  · -- two temporaries
    simp only [Window.cell, Cell.mk.injEq, Nat.add_left_cancel_iff, UInt8.toNat_inj]
    constructor
    · intro h
      exact ⟨h.2, Or.inl h.1⟩
    · rintro ⟨hlane, hslot | ⟨hlarge, _⟩⟩
      · exact ⟨hslot, hlane⟩
      · omega
  · -- the buffers of temporaries come after those of arrays
    rcases within_of_array? hplaced hfits hlanes hv with ⟨_, _, hbuffer⟩
    constructor
    · intro h
      have heq : store.buffers.size + s.toNat = v.buffer := congrArg Cell.buffer h
      omega
    · rintro ⟨_, rfl | ⟨hlarge, _⟩⟩ <;> omega
  · rcases within_of_array? hplaced hfits hlanes hw with ⟨_, _, hbuffer⟩
    constructor
    · intro h
      have heq : w.buffer = store.buffers.size + t.toNat := congrArg Cell.buffer h
      omega
    · rintro ⟨_, rfl | ⟨_, hlarge, _⟩⟩ <;> omega
  · -- two arrays
    rcases within_of_array? hplaced hfits hlanes hw with ⟨hwmem, hwsize, _⟩
    rcases within_of_array? hplaced hfits hlanes hv with ⟨hvmem, hvsize, _⟩
    rw [Window.cell_drop, Window.cell_drop]
    constructor
    · intro h
      rcases hplaced.apart w v hwmem hvmem with rfl | hdisjoint
      · have hlane := Window.cell_inj h
        exact ⟨by omega, Or.inr ⟨hsarray, htarray, hw.trans hv.symm⟩⟩
      · exact absurd h (hdisjoint _ _ (by omega) (by omega))
    · rintro ⟨rfl, hsame⟩
      have hlookup : i.array? s = i.array? t := by
        rcases hsame with rfl | ⟨_, _, hlookup⟩
        · rfl
        · exact hlookup
      rw [hw, hv] at hlookup
      rw [Option.some.inj hlookup]

theorem frame_laneLocal (hplaced : i.WellPlaced store) (hfits : i.Fits chunk lanes) :
    (m.frame i chunk lanes store.buffers.size).LaneLocal := by
  intro s t w v a b hs ht ha hb hcell
  exact ((frame_cell_eq_iff hplaced hfits hs ht ha hb).mp hcell).1

theorem get?_start_temp (m : Machine) (chunk : Nat) (store : Store) {n lane : Nat}
    (hn : n < Slot.tempCount) (hlane : lane < Chunk.size) :
    (m.start chunk store).store.get? ⟨store.buffers.size + n, lane⟩ = some Vec4.zero := by
  unfold start Store.get?
  simp only
  rw [Array.getElem?_append_right (Nat.le_add_right _ _), Nat.add_sub_cancel_left]
  simp [freshBank, hn, hlane]

theorem get?_start_array (m : Machine) (chunk : Nat) {store : Store} {c : Cell}
    (h : c.buffer < store.buffers.size) :
    (m.start chunk store).store.get? c = store.get? c :=
  Store.get?_append_left h

theorem frame_backed (hplaced : i.WellPlaced store) (hfits : i.Fits chunk lanes) :
    (m.frame i chunk lanes store.buffers.size).Backed (m.start chunk store).store := by
  intro s w lane hs hlane
  have hlane : lane < lanes := hlane
  rcases frame_window_cases hs with ⟨htemp, rfl⟩ | ⟨_, v, hv, rfl⟩
  · apply Store.has_of_get?_eq_some
    show (m.start chunk store).store.get? ⟨store.buffers.size + s.toNat, 0 + lane⟩ = _
    rw [Nat.zero_add]
    exact get?_start_temp m chunk store htemp (Nat.lt_of_lt_of_le hlane hfits.lanes_le)
  · have hmem := Invocation.mem_arrays_of_array? hv
    have hwithin := hfits.within v hmem
    have hhas : store.Has (v.cell (chunk * Chunk.size + lane)) :=
      (hplaced.inside v hmem).has (by omega)
    rw [Window.cell_drop]
    unfold Store.Has
    rw [get?_start_array m chunk (Store.buffer_lt_of_has hhas)]
    exact hhas

end Fits

/-!
## The plan of an invocation
-/

def plan (m : Machine) (i : Invocation) : List Step × Option Fault :=
  Chunk.plan (m.frame i 0 0 0) 0 i.code

theorem plan_frame (m : Machine) (i : Invocation) (chunk lanes bank : Nat) :
    Chunk.plan (m.frame i chunk lanes bank) 0 i.code = m.plan i :=
  Chunk.plan_congr (frame_alike m i chunk lanes bank 0 0 0) 0 i.code

theorem draws_eq_false_of_mem_plan {m : Machine} {i : Invocation}
    (h : .random ∉ (m.plan i).1.map Step.op) {c : Chunk.Call} (hc : .call c ∈ (m.plan i).1) :
    c.kernel.draws = false := by
  have hkernel := (Chunk.call_of_mem_plan hc).1
  have hop : c.op ≠ .random := by
    intro hop
    exact h (List.mem_map.mpr ⟨.call c, hc, hop⟩)
  rw [← Bool.not_eq_true, Opcode.draws_iff_of_kernel? hkernel]
  exact hop

def finish (m : Machine) (i : Invocation) (chunk lanes : Nat) (store : Store) : Chunk.State :=
  Chunk.follow (m.frame i chunk lanes store.buffers.size) (m.start chunk store) (m.plan i).1

theorem finish_dispatched (m : Machine) (i : Invocation) (chunk lanes : Nat) (store : Store) :
    (m.finish i chunk lanes store).dispatched = ((m.plan i).1.map Step.op).reverse := by
  unfold finish
  rw [Chunk.follow_dispatched]
  simp [start]

theorem runChunk_eq_runFrom (m : Machine) (i : Invocation) (chunk lanes : Nat) (store : Store) :
    m.runChunk i chunk lanes store =
      let run := Chunk.runFrom (m.frame i chunk lanes store.buffers.size) 0
        (m.start chunk store) i.code
      (⟨run.1.store.buffers.take store.buffers.size⟩,
        match run.2 with
        | some fault => .error fault
        | none => .ok run.1.dispatched) := by
  unfold runChunk
  change (match (Chunk.runFrom (m.frame i chunk lanes store.buffers.size) 0
    (m.start chunk store) i.code).2 with | some fault => _ | none => _) = _
  dsimp only
  cases (Chunk.runFrom (m.frame i chunk lanes store.buffers.size) 0 (m.start chunk store)
    i.code).2 with
  | some fault => rfl
  | none => rfl

theorem runChunk_eq (m : Machine) (i : Invocation) (chunk lanes : Nat) (store : Store) :
    m.runChunk i chunk lanes store =
      (⟨(m.finish i chunk lanes store).store.buffers.take store.buffers.size⟩,
        match (m.plan i).2 with
        | some fault => .error fault
        | none => .ok ((m.plan i).1.map Step.op).reverse) := by
  rw [runChunk_eq_runFrom, Chunk.runFrom_eq_plan, plan_frame, ← finish_dispatched]
  rfl

/-!
## What a chunk leaves alone
-/

theorem runChunk_has (m : Machine) (i : Invocation) (chunk lanes : Nat) (store : Store)
    (c : Cell) : (m.runChunk i chunk lanes store).1.Has c ↔ store.Has c := by
  rw [runChunk_eq]
  by_cases hlt : c.buffer < store.buffers.size
  · unfold Store.Has
    simp only
    rw [Store.get?_take hlt]
    have hfinish := Chunk.follow_has (m.frame i chunk lanes store.buffers.size)
      (m.start chunk store) (m.plan i).1 c
    unfold Store.Has at hfinish
    rw [get?_start_array m chunk hlt] at hfinish
    exact hfinish
  · have htake : forall buffers : Array (Array Vec4),
        ¬Store.Has ⟨buffers.take store.buffers.size⟩ c := by
      intro buffers hhas
      have hbuffer := Store.buffer_lt_of_has hhas
      have hsize : (buffers.take store.buffers.size).size ≤ store.buffers.size := by
        rw [Array.take_eq_extract, Array.size_extract]
        omega
      exact hlt (Nat.lt_of_lt_of_le hbuffer hsize)
    exact ⟨fun h => absurd h (htake _), fun h => absurd (Store.buffer_lt_of_has h) hlt⟩

theorem runChunk_get? {m : Machine} {i : Invocation} {chunk lanes : Nat} {store : Store}
    {c : Cell} (h : c.buffer < store.buffers.size) :
    (m.runChunk i chunk lanes store).1.get? c =
      (m.finish i chunk lanes store).store.get? c := by
  rw [runChunk_eq]
  exact Store.get?_take h

/-- A chunk writes to its own lanes of the arrays behind its destinations only. -/
theorem runChunk_get?_of_unwritten {m : Machine} {i : Invocation} {chunk lanes : Nat}
    {store : Store} {d : Cell}
    (h : forall c, .call c ∈ (m.plan i).1 -> forall w, Slot.tempCount ≤ c.dst.toNat ->
      i.array? c.dst = some w -> forall lane, chunk * Chunk.size ≤ lane ->
        lane < chunk * Chunk.size + lanes -> w.cell lane ≠ d) :
    (m.runChunk i chunk lanes store).1.get? d = store.get? d := by
  by_cases hbuffer : d.buffer < store.buffers.size
  · rw [runChunk_get? hbuffer, ← get?_start_array m chunk hbuffer]
    apply Chunk.follow_get?_of_unwritten
    intro c hc w lane hdst hlane hcell
    have hlane : lane < lanes := hlane
    rcases frame_window_cases hdst with ⟨_, rfl⟩ | ⟨hslot, v, hv, rfl⟩
    · rw [← hcell] at hbuffer
      have hbank : store.buffers.size + c.dst.toNat < store.buffers.size := hbuffer
      omega
    · rw [Window.cell_drop] at hcell
      exact h c hc v hslot hv _ (by omega) (by omega) hcell
  · have hnone : ¬store.Has d := fun hhas => hbuffer (Store.buffer_lt_of_has hhas)
    have hnone' : ¬(m.runChunk i chunk lanes store).1.Has d := by
      rw [runChunk_has]
      exact hnone
    rw [Store.get?_eq_none_of_not_has hnone, Store.get?_eq_none_of_not_has hnone']

theorem runChunk_get?_of_outside {m : Machine} {i : Invocation} {chunk lanes : Nat}
    {store : Store} {c : Cell}
    (h : forall w, w ∈ i.arrays -> forall lane, chunk * Chunk.size ≤ lane ->
      lane < chunk * Chunk.size + lanes -> w.cell lane ≠ c) :
    (m.runChunk i chunk lanes store).1.get? c = store.get? c :=
  runChunk_get?_of_unwritten fun _ _ w _ hw => h w (Invocation.mem_arrays_of_array? hw)

end Machine
end VectorMachine
