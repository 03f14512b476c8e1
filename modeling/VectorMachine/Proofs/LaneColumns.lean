import VectorMachine.Proofs.FloatFormats
import VectorMachine.Proofs.RowLocality

/-!
# Lanes and their columns

A lane array that is scattered into columns comes back when the columns are gathered
again.  Only what is not a number is lost on the way, since a column has no cell for
it, and so are the components that were not scattered.
-/

namespace VectorMachine

/-!
## Cells
-/

namespace Number

open Float.Model (Format UnpackedFloat)
open Float.Model.UnpackedFloat

theorem isNaN_refit (S : Format) (u : UnpackedFloat) : (refit S u).isNaN = u.isNaN := by
  cases u with
  | finite s m e hm =>
      unfold refit UnpackedFloat.round roundWithAccuracy
      simp only
      split <;> rfl
  | _ => rfl

theorem isNaN_widen (x : Float32) : (widen x).isNaN = x.isNaN := by
  show (widen x).toModel.unpack.isNaN = x.toModel.unpack.isNaN
  rw [unpack_widen, isNaN_refit]

end Number

def kept (x : Float32) : Float32 :=
  if x.isNaN then 0 else x

theorem numberOfCell_widen (x : Float32) :
    numberOfCell (Cells.floatCell (Number.widen x)) = .ok (kept x) := by
  unfold Cells.floatCell kept
  rw [Number.isNaN_widen]
  split
  · rfl
  · exact congrArg Except.ok (Number.narrow_widen x)

/-!
## Columns
-/

def componentColumn (lanes : List Vec4) (name : Text) (k : Nat) : Column where
  name
  cells := .floats (lanes.map fun v => Number.widen (v.toList[k]?.getD 0))

theorem numbersOfColumn_componentColumn (lanes : List Vec4) (name : Text) (k : Nat) :
    numbersOfColumn (componentColumn lanes name k) =
      .ok (lanes.map fun v => kept (v.toList[k]?.getD 0)) := by
  rw [numbersOfColumn_eq_ok_iff]
  refine ⟨nofun, ?_⟩
  show List.Forall₂ _ ((lanes.map _).map Cells.floatCell) _
  rw [List.map_map, List.forall₂_map_left_iff, List.forall₂_map_right_iff]
  exact List.forall₂_same.mpr fun v _ => numberOfCell_widen _

theorem Frame.column?_of_mem {f : Frame} {c : Column} (h : c ∈ f.columns) :
    f.column? c.name = some c := by
  unfold Frame.column?
  cases hfind : f.columns.find? fun d => d.name = c.name with
  | none =>
      have hnone := List.find?_eq_none.mp hfind c h
      simp at hnone
  | some d =>
      have hname : d.name = c.name := by simpa using List.find?_some hfind
      have hmem := List.mem_of_find?_eq_some hfind
      rw [List.inj_on_of_nodup_map f.valid.1 hmem h hname]

theorem gather_names {f : Frame} {numbers : List (List Float32)}
    (hlow : 1 ≤ f.columns.length) (hhigh : f.columns.length ≤ 4)
    (h : List.Forall₂ (fun c column => numbersOfColumn c = .ok column) f.columns numbers) :
    gather (some f) f.names = .ok (vectorsOf f.rows numbers) := by
  have hlength : f.names.length = f.columns.length := List.length_map _
  have hnumbers : f.names.mapM (fun name => do
      numbersOfColumn (← findColumn (some f) name)) = .ok numbers := by
    apply mapM_eq_ok_of_forall₂
    unfold Frame.names
    rw [List.forall₂_map_left_iff]
    have hmem : List.Forall₂ (fun c column => c ∈ f.columns ∧ numbersOfColumn c = .ok column)
        f.columns numbers := by
      rw [List.forall₂_iff_get] at h ⊢
      exact ⟨h.1, fun i hi hi' => ⟨List.get_mem _ _, h.2 i hi hi'⟩⟩
    apply List.Forall₂.imp _ hmem
    rintro c column ⟨hc, hcolumn⟩
    unfold findColumn
    rw [Option.bind_some, Frame.column?_of_mem hc]
    exact hcolumn
  unfold gather
  rw [if_neg (by omega), hnumbers]
  rfl

/-!
## Names and components
-/

def spelledNames (name : Text) : Nat -> List Text
  | 1 => [name]
  | 2 => [name ++ utf8 ".x", name ++ utf8 ".y"]
  | 3 => [name ++ utf8 ".x", name ++ utf8 ".y", name ++ utf8 ".z"]
  | 4 => [name ++ utf8 ".x", name ++ utf8 ".y", name ++ utf8 ".z", name ++ utf8 ".w"]
  | _ => []

section Components

variable {k : Nat} (hlow : 1 ≤ k) (hhigh : k ≤ 4)
include hlow hhigh

theorem componentNames_eq (name : Text) : componentNames name k = spelledNames name k := by
  have hdot : forall c : Text, name ++ utf8 "." ++ c = name ++ (utf8 "." ++ c) :=
    fun c => List.append_assoc _ _ _
  unfold componentNames
  obtain rfl | rfl | rfl | rfl : k = 1 ∨ k = 2 ∨ k = 3 ∨ k = 4 := by omega
  · rfl
  all_goals
    simp only [hdot]
    rfl

omit hlow in
theorem nodup_spelledNames (name : Text) : (spelledNames name k).Nodup := by
  have hsuffix : ([utf8 ".x", utf8 ".y", utf8 ".z", utf8 ".w"].take k).Nodup :=
    List.Nodup.sublist (List.take_sublist _ _) (by decide)
  have hnames : (([utf8 ".x", utf8 ".y", utf8 ".z", utf8 ".w"].take k).map (name ++ ·)).Nodup :=
    hsuffix.map fun _ _ h => List.append_cancel_left h
  obtain rfl | rfl | rfl | rfl | rfl : k = 0 ∨ k = 1 ∨ k = 2 ∨ k = 3 ∨ k = 4 := by omega
  · exact List.nodup_nil
  · exact List.nodup_singleton name
  · exact hnames
  · exact hnames
  · exact hnames

theorem scatter_eq_ok (name : Text) (lanes : List Vec4) :
    scatter name lanes k =
      .ok ((spelledNames name k).zipIdx.map
        fun entry => componentColumn lanes entry.1 entry.2) := by
  unfold scatter
  rw [if_pos (by omega), Int.toNat_natCast, componentNames_eq hlow hhigh]
  rfl

theorem length_spelledNames (name : Text) : (spelledNames name k).length = k := by
  obtain rfl | rfl | rfl | rfl : k = 1 ∨ k = 2 ∨ k = 3 ∨ k = 4 := by omega
  all_goals rfl

theorem component_ofList (v : Vec4) (j : Fin 4) :
    (Vec4.ofList ((List.range k).map fun i => kept (v.toList[i]?.getD 0))).component j =
      if j.val < k ∧ (v.component j).isNaN = false then v.component j else 0 := by
  have hkept : forall x : Float32, kept x = if x.isNaN = false then x else 0 := by
    intro x
    unfold kept
    cases x.isNaN <;> rfl
  obtain rfl | rfl | rfl | rfl : k = 1 ∨ k = 2 ∨ k = 3 ∨ k = 4 := by omega
  all_goals
    fin_cases j
    all_goals
      simp [List.range_succ, Vec4.ofList, Vec4.component, Vec4.toList, hkept]

end Components

/-!
## There and back
-/

section Frame

variable (lanes : List Vec4) {names : List Text} (h : names.Nodup)
include h

theorem valid_componentColumns :
    Frame.Valid (names.zipIdx.map fun entry => componentColumn lanes entry.1 entry.2) := by
  have hsize : forall c,
      c ∈ (names.zipIdx.map fun entry => componentColumn lanes entry.1 entry.2) ->
      c.size = lanes.length := by
    intro c hc
    rcases List.mem_map.mp hc with ⟨entry, _, rfl⟩
    exact List.length_map _
  constructor
  · rw [List.map_map]
    show (names.zipIdx.map Prod.fst).Nodup
    rwa [List.zipIdx_map_fst]
  · intro c hc d hd
    rw [hsize c hc, hsize d hd]

/-- The first components of every lane, under the given names. -/
def componentFrame : Frame where
  columns := names.zipIdx.map fun entry => componentColumn lanes entry.1 entry.2
  valid := valid_componentColumns lanes h

theorem names_componentFrame : (componentFrame lanes h).names = names := by
  show (names.zipIdx.map _).map _ = names
  rw [List.map_map]
  exact List.zipIdx_map_fst 0 names

theorem rows_componentFrame (hne : names ≠ []) :
    (componentFrame lanes h).rows = lanes.length := by
  cases names with
  | nil => exact absurd rfl hne
  | cons name rest =>
      show (componentColumn lanes name 0).cells.size = lanes.length
      exact List.length_map _

theorem gather_componentFrame (hlow : 1 ≤ names.length) (hhigh : names.length ≤ 4) :
    gather (some (componentFrame lanes h)) names =
      .ok (vectorsOf lanes.length
        ((List.range names.length).map
          fun j => lanes.map fun v => kept (v.toList[j]?.getD 0))) := by
  have hcount : (componentFrame lanes h).columns.length = names.length := by
    show (names.zipIdx.map _).length = _
    rw [List.length_map, List.length_zipIdx]
  have hnumbers : List.Forall₂ (fun c column => numbersOfColumn c = .ok column)
      (componentFrame lanes h).columns
      ((List.range names.length).map fun j =>
        lanes.map fun v => kept (v.toList[j]?.getD 0)) := by
    have hrange : List.range names.length = names.zipIdx.map Prod.snd := by
      rw [List.zipIdx_map_snd, List.range_eq_range']
    rw [hrange, List.map_map, List.forall₂_map_right_iff]
    show List.Forall₂ _ (names.zipIdx.map _) _
    rw [List.forall₂_map_left_iff]
    exact List.forall₂_same.mpr fun entry _ =>
      numbersOfColumn_componentColumn lanes entry.1 entry.2
  have hgather := gather_names (by omega) (by omega) hnumbers
  rwa [names_componentFrame,
    rows_componentFrame lanes h (List.length_pos_iff.mp hlow)] at hgather

end Frame

theorem getElem?_vectorsOf {lanes : List Vec4} {i : Nat} {v : Vec4} (h : lanes[i]? = some v)
    (k : Nat) (f : Nat -> Vec4 -> Float32) :
    (vectorsOf lanes.length ((List.range k).map fun j => lanes.map (f j)))[i]? =
      some (Vec4.ofList ((List.range k).map fun j => f j v)) := by
  have hi : i < lanes.length := (List.getElem?_eq_some_iff.mp h).1
  unfold vectorsOf
  rw [List.getElem?_map, List.getElem?_range hi, Option.map_some, List.map_map]
  congr 3
  funext j
  simp [h]

/-- Gathering undoes scattering, up to what is not a number. -/
theorem gather_scatter (name : Text) (lanes : List Vec4) {k : Nat} (hlow : 1 ≤ k)
    (hhigh : k ≤ 4) :
    exists columns frame back, scatter name lanes k = .ok columns ∧
      Frame.ofColumns? columns = some frame ∧
      gather (some frame) (spelledNames name k) = .ok back ∧
      back.length = lanes.length ∧
      forall (i : Nat) (v : Vec4), lanes[i]? = some v -> exists r : Vec4, back[i]? = some r ∧
        forall j : Fin 4, r.component j =
          if j.val < k ∧ (v.component j).isNaN = false then v.component j else 0 := by
  have hnodup := nodup_spelledNames hhigh name
  have hlength := length_spelledNames hlow hhigh name
  have hgather := gather_componentFrame lanes hnodup (by omega) (by omega)
  rw [hlength] at hgather
  refine ⟨_, _, _, scatter_eq_ok hlow hhigh name lanes,
    dif_pos (valid_componentColumns lanes hnodup), hgather, ?_, ?_⟩
  · unfold vectorsOf
    rw [List.length_map, List.length_range]
  · intro i v hv
    exact ⟨_, getElem?_vectorsOf hv k _, component_ofList hlow hhigh v⟩

/-- A number that is none, both zeros, an infinity and the least positive number. -/
def hardLanes : List Vec4 :=
  [⟨Float32.ofBits 0x7fc00000, Float32.ofBits 0x80000000, Float32.ofBits 1, 1⟩,
    ⟨Float32.ofBits 0xff800000, 0, Float32.ofBits 0x7f7fffff, 2⟩]

theorem gather_scatter_hardLanes :
    1 ≤ 3 ∧ 3 ≤ 4 ∧ exists columns frame back, scatter (utf8 "p") hardLanes 3 = .ok columns ∧
      Frame.ofColumns? columns = some frame ∧
      gather (some frame) [utf8 "p.x", utf8 "p.y", utf8 "p.z"] = .ok back ∧ back.length = 2 ∧
      back[0]? = some ⟨0, Float32.ofBits 0x80000000, Float32.ofBits 1, 0⟩ := by
  rcases gather_scatter (utf8 "p") hardLanes (k := 3) (by decide) (by decide) with
    ⟨columns, frame, back, hscatter, hframe, hgather, hlength, hlanes⟩
  rcases hlanes 0 _ rfl with ⟨r, hr, hcomponents⟩
  have hvector : r = ⟨0, Float32.ofBits 0x80000000, Float32.ofBits 1, 0⟩ := by
    rcases r with ⟨x, y, z, w⟩
    congr
    · exact (hcomponents 0).trans (by decide)
    · exact (hcomponents 1).trans (by decide)
    · exact (hcomponents 2).trans (by decide)
    · exact (hcomponents 3).trans (by decide)
  exact ⟨by decide, by decide, columns, frame, back, hscatter, hframe, hgather, hlength,
    hvector ▸ hr⟩

end VectorMachine
