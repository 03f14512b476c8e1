import VectorMachine.Proofs.LaneSimulation
import VectorMachine.Proofs.Schedule

/-!
# One lane of an invocation

Cut out of every array, a lane makes an invocation of its own, on arrays of a
single lane that are shared where the arrays are.  A lane of a chunk ends as it
does there.
-/

namespace VectorMachine

namespace Invocation

def single (i : Invocation) (w : Window) : Window :=
  ⟨i.arrays.idxOf w, 0, 1⟩

def oneLane (i : Invocation) : Invocation where
  code := i.code
  constants := i.constants
  inputs := i.inputs.map i.single
  outputs := i.outputs.map i.single
  lanes := 1

def laneStore (i : Invocation) (store : Store) (lane : Nat) : Store :=
  ⟨(i.arrays.map fun w => #[store.get (w.cell lane)]).toArray⟩

theorem arrays_oneLane (i : Invocation) : i.oneLane.arrays = i.arrays.map i.single := by
  simp [arrays, oneLane]

theorem array?_oneLane (i : Invocation) (s : Slot) :
    i.oneLane.array? s = (i.array? s).map i.single := by
  unfold array? oneLane
  split
  · exact List.getElem?_map
  · exact List.getElem?_map

theorem single_inj {i : Invocation} {w v : Window} (hw : w ∈ i.arrays) {lane lane' : Nat}
    (h : (i.single w).cell lane = (i.single v).cell lane') : w = v := by
  injection h with hindex _
  exact (List.idxOf_inj hw).mp hindex

theorem get?_laneStore {i : Invocation} {w : Window} (hw : w ∈ i.arrays) (store : Store)
    (lane : Nat) :
    (i.laneStore store lane).get? ((i.single w).cell 0) = some (store.get (w.cell lane)) := by
  have hindex : i.arrays[i.arrays.idxOf w]? = some w := List.getElem?_idxOf hw
  simp [laneStore, single, Window.cell, Store.get?, hindex]

theorem laneStore_congr {i : Invocation} {S T : Store} {lane : Nat}
    (h : forall w, w ∈ i.arrays -> T.get? (w.cell lane) = S.get? (w.cell lane)) :
    i.laneStore T lane = i.laneStore S lane := by
  unfold laneStore
  congr 2
  apply List.map_congr_left
  intro w hw
  rw [Store.get, Store.get, h w hw]

theorem wellPlaced_oneLane (i : Invocation) (store : Store) (lane : Nat) :
    i.oneLane.WellPlaced (i.laneStore store lane) where
  inside := by
    intro u hu
    rw [arrays_oneLane] at hu
    rcases List.mem_map.mp hu with ⟨w, hw, rfl⟩
    have hhas := Store.has_of_get?_eq_some (get?_laneStore hw store lane)
    rw [Store.has_iff_lt_sizeOf] at hhas
    exact hhas
  apart := by
    intro u u' hu hu'
    rw [arrays_oneLane] at hu hu'
    rcases List.mem_map.mp hu with ⟨w, hw, rfl⟩
    rcases List.mem_map.mp hu' with ⟨v, hv, rfl⟩
    by_cases hsame : w = v
    · exact Or.inl (congrArg i.single hsame)
    · exact Or.inr fun _ _ _ _ hcell => hsame (single_inj hw hcell)

theorem fits_oneLane (i : Invocation) : i.oneLane.Fits 0 1 where
  lanes_le := by decide
  within := by
    intro u hu
    rw [arrays_oneLane] at hu
    rcases List.mem_map.mp hu with ⟨w, _, rfl⟩
    exact Nat.le_refl 1

theorem countable_oneLane (i : Invocation) : i.oneLane.Countable :=
  ⟨show (0 : Int) ≤ 1 by decide, show (1 : Int) ≤ 2 ^ 63 - 128 by decide⟩

theorem shapeError?_oneLane {i : Invocation} (h : i.shapeError? = none) :
    i.oneLane.shapeError? = none := by
  rw [shapeError?_eq_none_iff] at h ⊢
  rcases h with ⟨_, hinputs, houtputs, hconstants, _⟩
  refine ⟨(countable_oneLane i).1, ?_, ?_, hconstants, ?_⟩
  · simpa [oneLane] using hinputs
  · simpa [oneLane] using houtputs
  · intro u hu
    rw [arrays_oneLane] at hu
    rcases List.mem_map.mp hu with ⟨w, _, rfl⟩
    exact Int.le_refl 1

end Invocation

namespace Machine

open Invocation

/-- What a lane of the arrays is turned into, on one-lane arrays. -/
def laneAfter (m : Machine) (i : Invocation) (store : Store) (lane : Nat) : Store :=
  (m.runChunk i.oneLane 0 1 (i.laneStore store lane)).1

theorem frame_alike_oneLane (m : Machine) (i : Invocation)
    (chunk lanes bank chunk' lanes' bank' : Nat) :
    (m.frame i chunk lanes bank).Alike (m.frame i.oneLane chunk' lanes' bank') where
  policy := rfl
  codeLength := rfl
  constants := rfl
  windows := by
    intro s
    show (windows i bank _ s).isSome = (windows i.oneLane bank' _ s).isSome
    rw [windows_eq, windows_eq, array?_oneLane]
    split
    · rfl
    · rw [Option.isSome_map, Option.isSome_map, Option.isSome_map]

theorem plan_oneLane (m : Machine) (i : Invocation) : m.plan i.oneLane = m.plan i :=
  (Chunk.plan_congr (frame_alike_oneLane m i 0 0 0 0 0 0) 0 i.code).symm

/-!
## A lane of a chunk
-/

section Chunk

variable {m : Machine} {i : Invocation} {chunk lanes lane : Nat} {store : Store}
  (hplaced : i.WellPlaced store) (hfits : i.Fits chunk lanes) (hlane : lane < lanes)
include hplaced hfits hlane

theorem laneMatch_oneLane :
    Chunk.LaneMatch (m.frame i chunk lanes store.buffers.size)
      (m.frame i.oneLane 0 1 (i.laneStore store (chunk * Chunk.size + lane)).buffers.size)
      lane 0 where
  left_lt := hlane
  right_lt := Nat.zero_lt_one
  alike := frame_alike_oneLane m i _ _ _ _ _ _
  constants := rfl
  shares := by
    intro s t w v w' v' hs ht hs' ht'
    have harrays : i.array? s = i.array? t ↔ i.oneLane.array? s = i.oneLane.array? t := by
      rw [array?_oneLane, array?_oneLane]
      cases hsarray : i.array? s with
      | none => cases i.array? t <;> simp
      | some u =>
          cases i.array? t with
          | none => simp
          | some u' =>
              have hmem := mem_arrays_of_array? hsarray
              simp only [Option.map_some, Option.some.injEq]
              exact ⟨congrArg i.single, fun h => single_inj hmem (congrArg (·.cell 0) h)⟩
    rw [frame_cell_eq_iff hplaced hfits hs ht hlane hlane, harrays,
      frame_cell_eq_iff (wellPlaced_oneLane i store _) (fits_oneLane i) hs' ht' Nat.zero_lt_one
        Nat.zero_lt_one]
    simp

theorem sameLane_start :
    Chunk.SameLane (m.frame i chunk lanes store.buffers.size)
      (m.frame i.oneLane 0 1 (i.laneStore store (chunk * Chunk.size + lane)).buffers.size)
      lane 0 (m.start chunk store).store
      (m.start 0 (i.laneStore store (chunk * Chunk.size + lane))).store := by
  intro s w w' hs hs'
  rcases frame_window_cases hs with ⟨htemp, rfl⟩ | ⟨harray, v, hv, rfl⟩ <;>
    rcases frame_window_cases hs' with ⟨htemp', rfl⟩ | ⟨harray', v', hv', rfl⟩
  · have hlane : 0 + lane < Chunk.size := by
      have := hfits.lanes_le
      omega
    exact (get?_start_temp m chunk store htemp hlane).trans
      (get?_start_temp m 0 _ htemp (show 0 < Chunk.size by decide)).symm
  · omega
  · omega
  · have hmem := mem_arrays_of_array? hv
    have hwithin := hfits.within v hmem
    rw [array?_oneLane, hv] at hv'
    cases hv'
    rw [Window.cell_drop, Window.cell_drop, Nat.zero_mul, Nat.zero_add]
    have hhas : store.Has (v.cell (chunk * Chunk.size + lane)) :=
      (hplaced.inside v hmem).has (by omega)
    have hget := get?_laneStore hmem store (chunk * Chunk.size + lane)
    rw [get?_start_array m chunk (Store.buffer_lt_of_has hhas),
      get?_start_array m 0 (Store.buffer_lt_of_has (Store.has_of_get?_eq_some hget)), hget]
    exact Store.get?_eq_some_get hhas

/-- Where nothing is drawn, a lane of a chunk ends as it does on its own. -/
theorem runChunk_get?_lane (hshape : i.shapeError? = none)
    (hdraws : .random ∉ (m.plan i).1.map Chunk.Step.op) {w : Window} (hw : w ∈ i.arrays) :
    (m.runChunk i chunk lanes store).1.get? (w.cell (chunk * Chunk.size + lane)) =
      (m.laneAfter i store (chunk * Chunk.size + lane)).get? ((i.single w).cell 0) := by
  rcases (shapeError?_eq_none_iff i).mp hshape with ⟨_, hinputs, houtputs, _, _⟩
  rcases exists_array?_of_mem hinputs houtputs hw with ⟨s, hslot, hs⟩
  have hs' : i.oneLane.array? s = some (i.single w) := by
    rw [array?_oneLane, hs]
    rfl
  have hsame := Chunk.sameLane_follow (laneMatch_oneLane (m := m) hplaced hfits hlane)
    (frame_laneLocal hplaced hfits)
    (frame_laneLocal (wellPlaced_oneLane i store _) (fits_oneLane i))
    (fun _ => draws_eq_false_of_mem_plan hdraws) (frame_backed hplaced hfits)
    (frame_backed (wellPlaced_oneLane i store _) (fits_oneLane i))
    (sameLane_start hplaced hfits hlane) (frame_window_array m hslot hs _ _ _)
    (frame_window_array m hslot hs' _ _ _)
  rw [Window.cell_drop, Window.cell_drop, Nat.zero_mul, Nat.zero_add] at hsame
  have hwithin := hfits.within w hw
  have hbuffer := Store.buffer_lt_of_has
    (Store.has_of_get?_eq_some (get?_laneStore hw store (chunk * Chunk.size + lane)))
  unfold laneAfter
  rw [runChunk_get? (buffer_lt_of_mem hplaced hw (by omega)), runChunk_get? hbuffer]
  unfold finish
  rw [plan_oneLane]
  exact hsame

end Chunk

end Machine
end VectorMachine
