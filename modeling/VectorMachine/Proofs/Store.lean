import VectorMachine.Machine.Store
import VectorMachine.Proofs.Results

/-!
# What a store keeps

A write changes the cell it names and nothing else, and it never makes or
removes a cell.  Cells beyond the buffers that a store started with can be cut
off again without a trace in the others.
-/

namespace VectorMachine

namespace Store

def Has (s : Store) (c : Cell) : Prop := (s.get? c).isSome

/-!
## Cells
-/

theorem has_iff_lt_sizeOf (s : Store) (c : Cell) :
    s.Has c ↔ c.lane < s.sizeOf c.buffer := by
  unfold Has get? sizeOf
  cases hbuffer : s.buffers[c.buffer]? with
  | none => simp
  | some buffer => simp

theorem has_of_get?_eq_some {s : Store} {c : Cell} {v : Vec4}
    (h : s.get? c = some v) : s.Has c := by
  unfold Has
  rw [h]
  rfl

theorem buffer_lt_of_has {s : Store} {c : Cell} (h : s.Has c) :
    c.buffer < s.buffers.size := by
  rw [has_iff_lt_sizeOf] at h
  unfold sizeOf at h
  cases hbuffer : s.buffers[c.buffer]? with
  | none =>
      rw [hbuffer] at h
      exact absurd h (Nat.not_lt_zero _)
  | some buffer =>
      exact (Array.getElem?_eq_some_iff.mp hbuffer).1

theorem get?_eq_some_get {s : Store} {c : Cell} (h : s.Has c) :
    s.get? c = some (s.get c) := by
  unfold get
  cases hcell : s.get? c with
  | none =>
      unfold Has at h
      rw [hcell] at h
      cases h
  | some v => rfl

theorem get?_eq_none_of_not_has {s : Store} {c : Cell} (h : ¬s.Has c) : s.get? c = none :=
  Option.not_isSome_iff_eq_none.mp h

theorem sizeOf_eq_of_has_iff {s t : Store} (h : forall c, t.Has c ↔ s.Has c) (buffer : Nat) :
    t.sizeOf buffer = s.sizeOf buffer := by
  have hlanes : forall lane, lane < t.sizeOf buffer ↔ lane < s.sizeOf buffer := by
    intro lane
    rw [← has_iff_lt_sizeOf t ⟨buffer, lane⟩, ← has_iff_lt_sizeOf s ⟨buffer, lane⟩]
    exact h ⟨buffer, lane⟩
  exact Nat.le_antisymm (Nat.le_of_not_lt fun hlt => Nat.lt_irrefl _ ((hlanes _).mp hlt))
    (Nat.le_of_not_lt fun hlt => Nat.lt_irrefl _ ((hlanes _).mpr hlt))

/-!
## Writing
-/

theorem get?_set_of_ne {s : Store} {c d : Cell} (v : Vec4) (h : c ≠ d) :
    (s.set c v).get? d = s.get? d := by
  unfold set get?
  rw [Array.getElem?_modify]
  by_cases hbuffer : c.buffer = d.buffer
  · have hlane : c.lane ≠ d.lane := by
      intro hlane
      apply h
      cases c
      cases d
      simp_all
    rw [if_pos hbuffer]
    cases s.buffers[d.buffer]? with
    | none => rfl
    | some buffer => exact Array.getElem?_setIfInBounds_ne hlane
  · rw [if_neg hbuffer]

theorem get?_set_self {s : Store} {c : Cell} (v : Vec4) (h : s.Has c) :
    (s.set c v).get? c = some v := by
  unfold Has get? at h
  unfold set get?
  rw [Array.getElem?_modify, if_pos rfl]
  cases hbuffer : s.buffers[c.buffer]? with
  | none => simp [hbuffer] at h
  | some buffer =>
      have hlt : c.lane < buffer.size := by simpa [hbuffer] using h
      exact Array.getElem?_setIfInBounds_self_of_lt hlt

theorem has_set (s : Store) (c d : Cell) (v : Vec4) :
    (s.set c v).Has d ↔ s.Has d := by
  rw [has_iff_lt_sizeOf, has_iff_lt_sizeOf]
  unfold set sizeOf
  rw [Array.getElem?_modify]
  by_cases hbuffer : c.buffer = d.buffer
  · rw [if_pos hbuffer]
    cases s.buffers[d.buffer]? <;> simp
  · rw [if_neg hbuffer]

/-!
## More buffers
-/

theorem get?_append_left {s : Store} {more : Array (Array Vec4)} {c : Cell}
    (h : c.buffer < s.buffers.size) :
    Store.get? ⟨s.buffers ++ more⟩ c = s.get? c := by
  unfold get?
  rw [Array.getElem?_append_left h]

theorem get?_take {s : Store} {count : Nat} {c : Cell} (h : c.buffer < count) :
    Store.get? ⟨s.buffers.take count⟩ c = s.get? c := by
  unfold get?
  rw [Array.take_eq_extract, Array.getElem?_extract]
  by_cases hsize : c.buffer < s.buffers.size
  · rw [if_pos (by omega), Nat.zero_add]
  · rw [if_neg (by omega), Array.getElem?_eq_none (by omega)]

end Store

/-!
# Windows
-/

namespace Window

theorem cell_inj {w : Window} {i j : Nat} (h : w.cell i = w.cell j) : i = j := by
  injection h with _ hlane
  omega

theorem cell_drop (w : Window) (count lane : Nat) :
    (w.drop count).cell lane = w.cell (count + lane) := by
  simp [cell, drop, Nat.add_assoc]

def Inside (w : Window) (s : Store) : Prop :=
  w.start + w.size ≤ s.sizeOf w.buffer

instance (w : Window) (s : Store) : Decidable (w.Inside s) :=
  inferInstanceAs (Decidable (w.start + w.size ≤ s.sizeOf w.buffer))

theorem Inside.has {w : Window} {s : Store} (h : w.Inside s) {lane : Nat}
    (hlane : lane < w.size) : s.Has (w.cell lane) := by
  rw [Store.has_iff_lt_sizeOf]
  unfold Inside at h
  show w.start + lane < s.sizeOf w.buffer
  omega

def Disjoint (w v : Window) : Prop :=
  forall i j, i < w.size -> j < v.size -> w.cell i ≠ v.cell j

end Window
end VectorMachine
