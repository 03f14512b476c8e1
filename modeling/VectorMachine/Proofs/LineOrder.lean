import VectorMachine.Proofs.AssembledCode
import VectorMachine.Proofs.SourceByLine

/-!
# The order of lines

Constants are defined before any instruction is looked at, and no two lines define the same one.
So it does not matter where the line of a constant stands, nor the lines that say nothing: only
the order of the instructions is part of a program.
-/

namespace VectorMachine
namespace Assembly

/-!
## Constants
-/

theorem defineAll_of_distinct {constants : List ConstantLine}
    (hranges : forall c, c ∈ constants -> 0 ≤ c.index ∧ c.index < Program.constantLimit)
    (hnodup : ((constants.map ConstantLine.definition).map (·.index)).Nodup) :
    defineAll constants = .ok (constants.map ConstantLine.definition) := by
  unfold defineAll
  induction constants using List.reverseRecOn with
  | nil => rfl
  | append_singleton constants c ih =>
      rw [List.map_append, List.map_append, List.nodup_append] at hnodup
      rcases hnodup with ⟨hbefore, _, hdistinct⟩
      have hnew : forall d, d ∈ constants.map ConstantLine.definition ->
          d.index ≠ c.index.toNat :=
        fun d hd => hdistinct d.index (List.mem_map_of_mem hd) _ List.mem_cons_self
      rw [List.foldlM_append, ih (fun d hd => hranges d (List.mem_append_left _ hd)) hbefore,
        ok_bind, List.foldlM_cons,
        define_of_new (hranges c (List.mem_append_right _ List.mem_cons_self)) hnew, ok_bind,
        List.map_append]
      rfl

theorem nodup_definitions {constants : List ConstantLine} {defined : List Definition}
    (h : defineAll constants = .ok defined) : (defined.map (·.index)).Nodup := by
  rcases defineAll_eq_ok h with ⟨rfl, hranges, hnodup⟩
  rw [List.map_map]
  apply hnodup.of_map.map_on
  intro c hc d hd heq
  have hindex : c.index.toNat = d.index.toNat := heq
  apply List.inj_on_of_nodup_map hnodup hc hd
  rw [← Int.toNat_of_nonneg (hranges c hc).1, hindex, Int.toNat_of_nonneg (hranges d hd).1]

def Definition.entry (d : Definition) : Nat × Vec4 :=
  (d.index, d.value)

section Entries

variable {ds es : List Definition}
  (hentries : (ds.map Definition.entry).Perm (es.map Definition.entry))
include hentries

theorem exists_same_entry {d : Definition} (hd : d ∈ ds) :
    exists e, e ∈ es ∧ e.index = d.index ∧ e.value = d.value := by
  rcases List.mem_map.mp (hentries.mem_iff.mp (List.mem_map_of_mem hd)) with ⟨e, he, heq⟩
  exact ⟨e, he, congrArg Prod.fst heq, congrArg Prod.snd heq⟩

theorem defines_iff_of_entries (k : Nat) :
    (exists d, d ∈ ds ∧ d.index = k) ↔ exists e, e ∈ es ∧ e.index = k := by
  constructor
  · rintro ⟨d, hd, rfl⟩
    rcases exists_same_entry hentries hd with ⟨e, he, hindex, _⟩
    exact ⟨e, he, hindex⟩
  · rintro ⟨e, he, rfl⟩
    rcases exists_same_entry hentries.symm he with ⟨d, hd, hindex, _⟩
    exact ⟨d, hd, hindex⟩

theorem nodup_of_entries (hnodup : (ds.map (·.index)).Nodup) : (es.map (·.index)).Nodup := by
  have hindices := hentries.map Prod.fst
  rw [List.map_map, List.map_map] at hindices
  exact hindices.nodup_iff.mp hnodup

theorem getElem?_tableOf_of_entries (hnodup : (ds.map (·.index)).Nodup) (k : Nat) :
    ((tableOf ds).getD [])[k]? = ((tableOf es).getD [])[k]? := by
  have hlength : ((tableOf ds).getD []).length = ((tableOf es).getD []).length :=
    (oneAbove_tableOf ds).unique
      ((oneAbove_tableOf es).congr fun k => (defines_iff_of_entries hentries k).symm)
  have hnodup' := nodup_of_entries hentries hnodup
  -- an entry is the only one of its index, a gap is a gap in both, and both end at one place
  by_cases hk : k < ((tableOf ds).getD []).length
  · by_cases hdefined : exists d, d ∈ ds ∧ d.index = k
    · rcases hdefined with ⟨d, hd, rfl⟩
      rcases exists_same_entry hentries hd with ⟨e, he, hindex, hvalue⟩
      rw [getElem?_tableOf_of_mem hd fun c hc => List.inj_on_of_nodup_map hnodup hc hd,
        ← hindex,
        getElem?_tableOf_of_mem he fun c hc => List.inj_on_of_nodup_map hnodup' hc he, hvalue]
    · have hds : forall d, d ∈ ds -> d.index ≠ k := fun d hd hindex => hdefined ⟨d, hd, hindex⟩
      rw [defines_iff_of_entries hentries] at hdefined
      have hes : forall e, e ∈ es -> e.index ≠ k := fun e he hindex => hdefined ⟨e, he, hindex⟩
      rw [getElem?_tableOf_of_undefined hk hds,
        getElem?_tableOf_of_undefined (hlength ▸ hk) hes]
  · rw [List.getElem?_eq_none (Nat.le_of_not_lt hk),
      List.getElem?_eq_none (hlength ▸ Nat.le_of_not_lt hk)]

theorem tableOf_of_entries (hnodup : (ds.map (·.index)).Nodup) : tableOf ds = tableOf es := by
  have hlists := List.ext_getElem? (getElem?_tableOf_of_entries hentries hnodup)
  have hnone : tableOf ds = none ↔ tableOf es = none := by
    have hlengths := hentries.length_eq
    rw [List.length_map, List.length_map] at hlengths
    rw [tableOf_eq_none_iff, tableOf_eq_none_iff, ← List.length_eq_zero_iff,
      ← List.length_eq_zero_iff, hlengths]
  cases hds : tableOf ds with
  | none => rw [hnone.mp hds]
  | some table =>
      cases hes : tableOf es with
      | none =>
          rw [hnone.mpr hes] at hds
          cases hds
      | some table' =>
          rw [hds, hes] at hlists
          exact congrArg some hlists

theorem resolve_of_entries : resolve ds = resolve es := by
  have hany : forall k : Nat, ds.any (·.index = k) = es.any (·.index = k) := by
    intro k
    rw [Bool.eq_iff_iff, List.any_eq_true, List.any_eq_true]
    simp only [decide_eq_true_eq]
    exact defines_iff_of_entries hentries k
  funext o
  cases o with
  | number value text => rfl
  | reference bank index text =>
      cases bank with
      | constant =>
          simp only [resolve]
          rw [hany]
      | _ => rfl

theorem assembleInstruction_of_entries : assembleInstruction ds = assembleInstruction es := by
  funext i
  unfold assembleInstruction resolveDestination
  rw [resolve_of_entries hentries]

end Entries

/-!
## Sources
-/

theorem forall₂_assembleInstruction {defined : List Definition}
    {source : List SourceInstruction} {instructions : List Instruction} :
    List.Forall₂ (fun s i => assembleInstruction defined s = .ok i) source instructions ↔
      List.Forall₂ (fun x i => assembleInstruction defined ⟨x.1, x.2, 0⟩ = .ok i)
        (source.map fun s => (s.mnemonic, s.operands)) instructions := by
  rw [List.forall₂_map_left_iff]
  exact Iff.rfl

/-- The same instructions one after another and the same constants in any order, on whatever
lines. -/
structure Source.Rearranged (s t : Source) : Prop where
  instructions : s.instructions.map (fun i => (i.mnemonic, i.operands)) =
    t.instructions.map fun i => (i.mnemonic, i.operands)
  constants : (s.constants.map fun c => (c.index, c.values)).Perm
    (t.constants.map fun c => (c.index, c.values))

namespace Source.Rearranged

variable {s t : Source}

theorem entries (h : s.Rearranged t) :
    ((s.constants.map ConstantLine.definition).map Definition.entry).Perm
      ((t.constants.map ConstantLine.definition).map Definition.entry) := by
  have hentries := h.constants.map fun x => (x.1.toNat, vectorOf x.2)
  rw [List.map_map, List.map_map] at hentries ⊢
  exact hentries

theorem defineAll_ok (h : s.Rearranged t) {defined : List Definition}
    (hdefined : defineAll s.constants = .ok defined) :
    defineAll t.constants = .ok (t.constants.map ConstantLine.definition) := by
  have hnodup := nodup_definitions hdefined
  rcases defineAll_eq_ok hdefined with ⟨rfl, hranges, _⟩
  refine defineAll_of_distinct ?_ (nodup_of_entries h.entries hnodup)
  intro c hc
  rcases List.mem_map.mp (h.constants.mem_iff.mpr (List.mem_map_of_mem hc)) with ⟨d, hd, heq⟩
  have hindex : d.index = c.index := congrArg Prod.fst heq
  rw [← hindex]
  exact hranges d hd

theorem usage_eq (h : s.Rearranged t) (bank : Bank) :
    usage bank s.instructions = usage bank t.instructions := by
  have hoperands := congrArg (List.flatMap Prod.snd) h.instructions
  rw [List.flatMap_map, List.flatMap_map] at hoperands
  unfold usage
  rw [hoperands]

theorem assembleSource_ok (h : s.Rearranged t) {p : Program} (hp : assembleSource s = .ok p) :
    assembleSource t = .ok p := by
  rcases assembleSource_eq_ok_iff.mp hp with ⟨defined, instructions, hdefined, hassembled, rfl⟩
  have hdefined' := h.defineAll_ok hdefined
  have hnodup := nodup_definitions hdefined
  rcases defineAll_eq_ok hdefined with ⟨rfl, _⟩
  refine assembleSource_eq_ok_iff.mpr ⟨_, instructions, hdefined', ?_, ?_⟩
  · rw [← assembleInstruction_of_entries h.entries]
    rw [forall₂_assembleInstruction, h.instructions] at hassembled
    exact forall₂_assembleInstruction.mpr hassembled
  · rw [h.usage_eq, h.usage_eq, tableOf_of_entries h.entries hnodup]

end Source.Rearranged

/-!
## Lines
-/

theorem Source.ofContents_said (n : Nat) (contents : List Content) :
    (Source.ofContents n contents).instructions.map (fun i => (i.mnemonic, i.operands)) =
        contents.filterMap Content.instruction? ∧
      (Source.ofContents n contents).constants.map (fun c => (c.index, c.values)) =
        contents.filterMap Content.constant? := by
  induction contents generalizing n with
  | nil => exact ⟨rfl, rfl⟩
  | cons c contents ih =>
      rcases ih (n + 1) with ⟨hinstructions, hconstants⟩
      rw [← List.singleton_append, Source.ofContents_append, List.filterMap_append,
        List.filterMap_append, ← hinstructions, ← hconstants]
      cases c <;> exact ⟨rfl, rfl⟩

/-- The line starts as only instructions do, with a word that is not a register. -/
def isInstructionLine (line : Text) : Bool :=
  (Token.ofLine line).head?.any fun x => x.1 = .word

theorem instruction?_of_notInstructionLine {line : Text} {c : Content}
    (h : Grammatical (Token.ofLine line) c) (hline : isInstructionLine line = false) :
    c.instruction? = none := by
  unfold isInstructionLine at hline
  generalize Token.ofLine line = pieces at h hline
  cases h with
  | nothing => rfl
  | instruction => cases hline
  | constant => rfl

theorem Source.read_of_contents {text : Text} {content : Text -> Content}
    (h : forall line, line ∈ Text.splitOn 0x0a text ->
      Grammatical (Token.ofLine line) (content line)) :
    Source.read text = .ok (Source.ofContents 1 ((Text.splitOn 0x0a text).map content)) :=
  Source.read_eq_ok_iff.mpr
    ⟨_, List.forall₂_map_right_iff.mpr (List.forall₂_same.mpr h), rfl⟩

/-- A source that is read gives every line its content, wherever the line stands. -/
theorem Source.exists_content {text : Text} {s : Source} (h : Source.read text = .ok s) :
    exists content : Text -> Content, forall line, line ∈ Text.splitOn 0x0a text ->
      Grammatical (Token.ofLine line) (content line) := by
  rcases Source.read_eq_ok_iff.mp h with ⟨contents, hcontents, _⟩
  have hline : forall line, line ∈ Text.splitOn 0x0a text ->
      exists c, Grammatical (Token.ofLine line) c := by
    intro line hline
    rcases exists_of_mem_left hcontents hline with ⟨c, _, hc⟩
    exact ⟨c, hc⟩
  have : Nonempty Content := ⟨.nothing⟩
  choose! content hcontent using hline
  exact ⟨content, hcontent⟩

/-- Lines other than those of instructions have no part in what the instructions are. -/
theorem filterMap_instruction? {lines : List Text} {content : Text -> Content}
    (h : forall line, line ∈ lines -> Grammatical (Token.ofLine line) (content line)) :
    (lines.map content).filterMap Content.instruction? =
      (lines.filter isInstructionLine).filterMap fun line => (content line).instruction? := by
  rw [List.filterMap_map, List.filterMap_filter]
  apply List.filterMap_congr
  intro line hline
  cases hkind : isInstructionLine line with
  | true => rfl
  | false => exact instruction?_of_notInstructionLine (h line hline) hkind

section Texts

variable {s t : Text} (hlines : (Text.splitOn 0x0a s).Perm (Text.splitOn 0x0a t))
  (horder : (Text.splitOn 0x0a s).filter isInstructionLine =
    (Text.splitOn 0x0a t).filter isInstructionLine)
include hlines horder

theorem Source.read_rearranged {a : Source} (h : Source.read s = .ok a) :
    exists b, Source.read t = .ok b ∧ a.Rearranged b := by
  rcases Source.exists_content h with ⟨content, hs⟩
  have ht : forall line, line ∈ Text.splitOn 0x0a t ->
      Grammatical (Token.ofLine line) (content line) :=
    fun line hline => hs line (hlines.mem_iff.mpr hline)
  refine ⟨_, Source.read_of_contents ht, ?_⟩
  rw [Except.ok.inj (h.symm.trans (Source.read_of_contents hs))]
  constructor
  · rw [(Source.ofContents_said 1 _).1, (Source.ofContents_said 1 _).1,
      filterMap_instruction? hs, filterMap_instruction? ht, horder]
  · rw [(Source.ofContents_said 1 _).2, (Source.ofContents_said 1 _).2]
    exact (hlines.map content).filterMap Content.constant?

theorem assemble_rearranged {p : Program} (h : assemble s = .ok p) : assemble t = .ok p := by
  rcases exists_of_bind_eq_ok h with ⟨a, ha, hp⟩
  rcases Source.read_rearranged hlines horder ha with ⟨b, hb, hsame⟩
  unfold assemble
  rw [hb, ok_bind]
  exact hsame.assembleSource_ok hp

end Texts

/-- Texts of the same lines, in which the lines of instructions follow one another in the same
order, are both refused or assembled to the same program. -/
theorem assemble_ignores_placement {s t : Text}
    (hlines : (Text.splitOn 0x0a s).Perm (Text.splitOn 0x0a t))
    (horder : (Text.splitOn 0x0a s).filter isInstructionLine =
      (Text.splitOn 0x0a t).filter isInstructionLine) (p : Program) :
    assemble s = .ok p ↔ assemble t = .ok p := by
  constructor
  · exact assemble_rearranged hlines horder
  · exact assemble_rearranged hlines.symm horder.symm

def scattered : Text :=
  utf8 "add r0, i0, c2\n.const 2, 1, 2, 3, 4\n; half\nmul o1, r0, c0\n.const 0, 0.5\n"

def gathered : Text :=
  utf8 "; half\n.const 0, 0.5\n.const 2, 1, 2, 3, 4\n\nadd r0, i0, c2\nmul o1, r0, c0"

theorem assemble_ignores_placement_gathered :
    scattered ≠ gathered ∧
      exists p, p.constants = some [Vec4.splat 0.5, Vec4.zero, ⟨1, 2, 3, 4⟩] ∧
      assemble scattered = .ok p ∧ assemble gathered = .ok p := by
  have hlines : (Text.splitOn 0x0a scattered).Perm (Text.splitOn 0x0a gathered) := by
    decide +kernel
  have horder : (Text.splitOn 0x0a scattered).filter isInstructionLine =
      (Text.splitOn 0x0a gathered).filter isInstructionLine := by
    decide +kernel
  have haccepted : assemble scattered = .ok {
      code := some [1, 0, 2, 8, 2, 3, 41, 2, 0, 0, 0]
      constants := some [Vec4.splat 0.5, Vec4.zero, ⟨1, 2, 3, 4⟩]
      inputs := 1
      outputs := 2 } := by
    decide +kernel
  have hmoved : scattered ≠ gathered := by
    decide +kernel
  exact ⟨hmoved, _, rfl, haccepted, (assemble_ignores_placement hlines horder _).mp haccepted⟩

end Assembly
end VectorMachine
