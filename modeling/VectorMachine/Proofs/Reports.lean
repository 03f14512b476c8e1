import VectorMachine.Proofs.Schedule

/-!
# Reports

The statistics count without a bound, by opcode.  A report gives the counts in 64
bits, by mnemonic.  Recording a chunk adds to the counters of the report in 64 bits,
so that a counter shows its total up to multiples of 2 ^ 64, and exactly as long as
the total fits.
-/

namespace VectorMachine

/-!
## Counters
-/

/-- A counter of 64 bits after so many things have been counted. -/
structure Shows (counter : Int64) (total : Nat) : Prop where
  wraps : counter = Int64.ofNat total
  fits : total < 2 ^ 63 -> counter.toInt = total

namespace Shows

theorem ofNat (n : Nat) : Shows (Int64.ofNat n) n where
  wraps := rfl
  fits := Int64.toInt_ofNat_of_lt

theorem add {counter : Int64} {total : Nat} (h : Shows counter total) (n : Nat) :
    Shows (counter + Int64.ofNat n) (total + n) := by
  rw [h.wraps, ← Int64.ofNat_add]
  exact ofNat _

end Shows

/-!
## Opcodes that are counted
-/

namespace Opcode

theorem mnemonic_inj {op op' : Opcode} (h : op ∈ all) (h' : op' ∈ all)
    (heq : op.mnemonic = op'.mnemonic) : op = op' := by
  have hnodup : (all.map mnemonic).Nodup := by decide
  exact List.inj_on_of_nodup_map hnodup h h' heq

theorem ofByte_mem_all {code : UInt8} (h : code < 39) : ofByte code ∈ all := by
  unfold ofByte
  rw [dif_pos h]
  exact List.get_mem all _

theorem code_of_kernel? {code : UInt8} {kernel : Kernel}
    (h : (ofByte code).kernel? = some kernel) :
    0 < code ∧ code < 39 := by
  constructor
  · by_contra hzero
    rw [UInt8.not_lt, UInt8.le_zero_iff] at hzero
    subst hzero
    cases h
  · by_contra hlarge
    unfold ofByte at h
    rw [dif_neg hlarge] at h
    cases h

end Opcode

namespace Tally

def keys (t : Tally) : List Opcode :=
  t.map (·.1)

/-- No opcode has two counts, and only opcodes with a mnemonic have one. -/
structure Proper (t : Tally) : Prop where
  distinct : t.keys.Nodup
  known : forall op, op ∈ t.keys -> op ∈ Opcode.all

theorem keys_add (t : Tally) (op : Opcode) :
    (t.add op).keys = if op ∈ t.keys then t.keys else t.keys ++ [op] := by
  induction t with
  | nil => rfl
  | cons entry t ih =>
      rcases entry with ⟨key, n⟩
      unfold keys at ih ⊢
      by_cases hkey : key = op
      · simp [add, hkey]
      · simp only [add, if_neg hkey, List.map_cons, ih, List.mem_cons, Ne.symm hkey, false_or]
        split <;> rfl

theorem sum_add (t : Tally) (op : Opcode) :
    ((t.add op).map (·.2)).sum = (t.map (·.2)).sum + 1 := by
  induction t with
  | nil => rfl
  | cons entry t ih =>
      rw [add]
      split
      · rw [List.map_cons, List.map_cons, List.sum_cons, List.sum_cons, Nat.add_right_comm]
      · rw [List.map_cons, List.map_cons, List.sum_cons, List.sum_cons, ih, Nat.add_assoc]

theorem sum_foldl_add (t : Tally) (ops : List Opcode) :
    ((ops.foldl add t).map (·.2)).sum = (t.map (·.2)).sum + ops.length := by
  induction ops generalizing t with
  | nil => rfl
  | cons op ops ih =>
      rw [List.foldl_cons, ih, sum_add, List.length_cons, Nat.add_assoc, Nat.add_comm 1]

theorem Proper.add {t : Tally} (h : t.Proper) {op : Opcode} (hop : op ∈ Opcode.all) :
    (t.add op).Proper := by
  by_cases hkey : op ∈ t.keys
  · constructor
    · rw [keys_add, if_pos hkey]
      exact h.distinct
    · rw [keys_add, if_pos hkey]
      exact h.known
  · constructor
    · rw [keys_add, if_neg hkey]
      exact List.nodup_append.mpr ⟨h.distinct, List.nodup_singleton op, by
        intro key hmem other hother heq
        rw [List.mem_singleton] at hother
        exact hkey (hother ▸ heq ▸ hmem)⟩
    · rw [keys_add, if_neg hkey]
      intro key hmem
      rcases List.mem_append.mp hmem with hmem | hmem
      · exact h.known key hmem
      · rw [List.mem_singleton.mp hmem]
        exact hop

theorem Proper.foldl_add {t : Tally} (h : t.Proper) {ops : List Opcode}
    (hops : forall op, op ∈ ops -> op ∈ Opcode.all) : (ops.foldl Tally.add t).Proper := by
  induction ops generalizing t with
  | nil => exact h
  | cons op ops ih =>
      exact ih (h.add (hops op List.mem_cons_self))
        fun o ho => hops o (List.mem_cons_of_mem op ho)

end Tally

/-!
## What is reported
-/

namespace Statistics

section Counts

variable {s : Statistics} (h : s.tally.Proper)
include h

theorem nodup_counts_report : (s.report.counts.map (·.1)).Nodup := by
  have hkeys : s.report.counts.map (·.1) = s.tally.keys.map Opcode.mnemonic := by
    unfold report Tally.keys
    rw [List.map_map, List.map_map]
    rfl
  rw [hkeys]
  exact h.distinct.map_on fun op hop op' hop' =>
    Opcode.mnemonic_inj (h.known op hop) (h.known op' hop')

theorem count_report {op : Opcode} (hop : op ∈ Opcode.all) :
    s.report.count op.mnemonic = Int64.ofNat (s.tally.count op) := by
  have hlookup : forall t : Tally, (forall key, key ∈ t.keys -> key ∈ Opcode.all) ->
      (t.map fun entry => (entry.1.mnemonic, Int64.ofNat entry.2)).lookup op.mnemonic =
        (t.lookup op).map Int64.ofNat := by
    intro t hknown
    induction t with
    | nil => rfl
    | cons entry t ih =>
        rcases entry with ⟨key, n⟩
        have hkey : key ∈ Opcode.all := hknown key List.mem_cons_self
        have hrest := ih fun o ho => hknown o (List.mem_cons_of_mem key ho)
        have hsame : (op.mnemonic == key.mnemonic) = (op == key) := by
          rw [Bool.eq_iff_iff, beq_iff_eq, beq_iff_eq]
          exact ⟨Opcode.mnemonic_inj hop hkey, congrArg Opcode.mnemonic⟩
        rw [List.map_cons, List.lookup_cons, List.lookup_cons, hsame, hrest]
        cases op == key <;> rfl
  unfold Report.count report Tally.count
  rw [hlookup s.tally h.known]
  cases s.tally.lookup op <;> rfl

theorem count_report_of_unknown {mnemonic : String}
    (hunknown : forall op, op ∈ Opcode.all -> op.mnemonic ≠ mnemonic) :
    s.report.count mnemonic = 0 := by
  have hnone : s.report.counts.lookup mnemonic = none := by
    rw [List.lookup_eq_none_iff]
    intro entry hentry
    rcases List.mem_map.mp hentry with ⟨e, he, rfl⟩
    exact bne_iff_ne.mpr (hunknown e.1 (h.known e.1 (List.mem_map_of_mem he))).symm
  rw [Report.count, hnone]
  rfl

end Counts

theorem sum_counts_report (s : Statistics) :
    (s.report.counts.map (·.2)).foldl (· + ·) 0 = Int64.ofNat (s.tally.map (·.2)).sum := by
  have hsum : forall (t : Tally) (n : Nat),
      ((t.map fun entry => (entry.1.mnemonic, Int64.ofNat entry.2)).map (·.2)).foldl (· + ·)
          (Int64.ofNat n) =
        Int64.ofNat (n + (t.map (·.2)).sum) := by
    intro t
    induction t with
    | nil => intro n; rfl
    | cons entry t ih =>
        intro n
        rw [List.map_cons, List.map_cons, List.foldl_cons, ← Int64.ofNat_add, ih, List.map_cons,
          List.sum_cons, Nat.add_assoc]
  rw [← Nat.zero_add (s.tally.map (·.2)).sum]
  exact hsum s.tally 0

/-!
## Recording
-/

section Record

variable (s : Statistics) (dispatched : List Opcode) (lanes : Nat)

theorem chunks_report_record :
    (s.record dispatched lanes).report.chunks = s.report.chunks + Int64.ofNat 1 :=
  Int64.ofNat_add _ _

theorem lanes_report_record :
    (s.record dispatched lanes).report.lanes = s.report.lanes + Int64.ofNat lanes :=
  Int64.ofNat_add _ _

theorem instructions_report_record :
    (s.record dispatched lanes).report.instructions =
      s.report.instructions + Int64.ofNat dispatched.length :=
  Int64.ofNat_add _ _

theorem count_report_record (hproper : s.tally.Proper)
    (hknown : forall op, op ∈ dispatched -> op ∈ Opcode.all) (mnemonic : String) :
    (s.record dispatched lanes).report.count mnemonic =
      s.report.count mnemonic +
        Int64.ofNat (dispatched.countP fun op => op.mnemonic = mnemonic) := by
  have hafter : (s.record dispatched lanes).tally.Proper := hproper.foldl_add hknown
  by_cases hexists : exists op, op ∈ Opcode.all ∧ op.mnemonic = mnemonic
  · rcases hexists with ⟨op, hop, rfl⟩
    have hcount : dispatched.countP (fun o => o.mnemonic = op.mnemonic) =
        dispatched.count op := by
      apply List.countP_congr
      intro o ho
      rw [decide_eq_true_eq, beq_iff_eq]
      exact ⟨Opcode.mnemonic_inj (hknown o ho) hop, congrArg Opcode.mnemonic⟩
    rw [count_report hafter hop, count_report hproper hop, hcount, ← Int64.ofNat_add]
    exact congrArg Int64.ofNat (Tally.count_foldl_add s.tally dispatched op)
  · have hnone : forall op, op ∈ Opcode.all -> op.mnemonic ≠ mnemonic :=
      fun op hop heq => hexists ⟨op, hop, heq⟩
    have hzero : dispatched.countP (fun op => op.mnemonic = mnemonic) = 0 := by
      rw [List.countP_eq_zero]
      intro op hop
      rw [decide_eq_true_eq]
      exact hnone op (hknown op hop)
    rw [count_report_of_unknown hafter hnone, count_report_of_unknown hproper hnone, hzero]
    rfl

end Record

end Statistics
end VectorMachine
