import VectorMachine.Command.Run
import VectorMachine.Proofs.Results

/-!
# Flags and other arguments in any order

A flag is written with one or two dashes, and with its value behind an equals sign, as
the next argument or, for a switch, not at all.  However such groups stand among other
arguments, these are given back in their order, and every flag is left as the groups
alone leave it: with the value that the last of them gives.
-/

namespace VectorMachine

/-!
## Groups
-/

inductive FlagForm where
  | joined (value : Text)
  | apart (value : Text)
  | bare
deriving DecidableEq

structure FlagGroup where
  doubled : Bool
  name : Text
  form : FlagForm
deriving DecidableEq

namespace FlagGroup

open FlagSet (dash equalsSign)

def head (g : FlagGroup) : Text :=
  (if g.doubled then [dash, dash] else [dash]) ++ g.name

def words (g : FlagGroup) : List Text :=
  match g.form with
  | .joined value => [g.head ++ equalsSign :: value]
  | .apart value => [g.head, value]
  | .bare => [g.head]

/-- The value that a group gives its flag, if the flag is known and the group is complete
and valid. -/
def value? (flags : FlagSet) (g : FlagGroup) : Option FlagValue :=
  match flags.kind? g.name, g.form with
  | some kind, .joined value => (FlagSet.readValue kind g.name value).toOption
  | some .switch, .apart _ => none
  | some kind, .apart value => (FlagSet.readValue kind g.name value).toOption
  | some .switch, .bare => some (.switch true)
  | _, _ => none

end FlagGroup

namespace FlagSet

/-- A name that can be told from the dashes before it and from a value behind it. -/
def Plain (name : Text) : Prop :=
  name ≠ [] ∧ name.head? ≠ some dash ∧ equalsSign ∉ name

instance (name : Text) : Decidable (Plain name) :=
  inferInstanceAs (Decidable (_ ∧ _ ∧ _))

theorem splitValue_of_not_mem {rest : Text} (h : equalsSign ∉ rest) (first : UInt8) :
    splitValue first rest = .flag (first :: rest) none := by
  have hdrop : rest.dropWhile (· != equalsSign) = [] := by
    rw [List.dropWhile_eq_nil_iff]
    intro b hb
    exact bne_iff_ne.mpr fun hequal => h (hequal ▸ hb)
  unfold splitValue
  rw [hdrop]

theorem splitValue_append {rest : Text} (h : equalsSign ∉ rest) (first : UInt8) (value : Text) :
    splitValue first (rest ++ equalsSign :: value) = .flag (first :: rest) (some value) := by
  have hpass : forall b, b ∈ rest -> (b != equalsSign) = true := by
    intro b hb
    exact bne_iff_ne.mpr fun hequal => h (hequal ▸ hb)
  unfold splitValue
  rw [List.dropWhile_append_of_pos hpass, List.takeWhile_append_of_pos hpass]
  simp

section Plain

variable {name : Text} (h : Plain name)
include h

theorem exists_named_append (tail : Text) :
    exists b rest, name = b :: rest ∧ equalsSign ∉ rest ∧
      named (name ++ tail) = splitValue b (rest ++ tail) := by
  rcases h with ⟨hne, hdash, hequals⟩
  cases name with
  | nil => exact absurd rfl hne
  | cons b rest =>
      have hfirst : ¬(b = dash ∨ b = equalsSign) := by
        rintro (rfl | rfl)
        · exact hdash rfl
        · exact hequals List.mem_cons_self
      refine ⟨b, rest, rfl, fun hrest => hequals (List.mem_cons_of_mem b hrest), ?_⟩
      rw [List.cons_append, named, if_neg hfirst]

theorem named_of_plain : named name = .flag name none := by
  rcases exists_named_append h [] with ⟨b, rest, hname, hrest, hnamed⟩
  rw [List.append_nil, List.append_nil] at hnamed
  rw [hnamed, splitValue_of_not_mem hrest, hname]

theorem named_append_value (value : Text) :
    named (name ++ equalsSign :: value) = .flag name (some value) := by
  rcases exists_named_append h (equalsSign :: value) with ⟨b, rest, hname, hrest, hnamed⟩
  rw [hnamed, splitValue_append hrest, hname]

end Plain

theorem classify_head {g : FlagGroup} (h : Plain g.name) (tail : Text) :
    classify (g.head ++ tail) = named (g.name ++ tail) := by
  rcases h with ⟨hne, hdash, _⟩
  unfold FlagGroup.head
  cases hname : g.name with
  | nil => exact absurd hname hne
  | cons b rest =>
      rw [hname] at hdash
      have hb : b ≠ dash := fun hequal => hdash (congrArg some hequal)
      cases g.doubled with
      | true => simp [classify]
      | false => simp [classify, hb]

theorem classify_of_head?_ne {t : Text} (h : t.head? ≠ some dash) : classify t = .plain := by
  match t with
  | [] => rfl
  | [_] => rfl
  | a :: b :: rest =>
      have ha : a ≠ dash := fun hequal => h (congrArg some hequal)
      rw [classify, if_pos ha]

/-!
## One group
-/

/-- Every flag has a name that can be told from dashes and values. -/
def WellNamed (flags : FlagSet) : Prop :=
  forall flag, flag ∈ flags -> Plain (utf8 flag.1)

theorem plain_of_kind? {flags : FlagSet} (hflags : WellNamed flags) {name : Text}
    {kind : FlagKind} (h : flags.kind? name = some kind) : Plain name := by
  rcases List.exists_of_findSome?_eq_some h with ⟨flag, hmem, hflag⟩
  have hname : utf8 flag.1 = name := by
    by_contra hne
    simp [hne] at hflag
  exact hname ▸ hflags flag hmem

section Group

variable {flags : FlagSet} (hflags : WellNamed flags)
include hflags

theorem parseFront_group {g : FlagGroup} {v : FlagValue} (h : g.value? flags = some v)
    (s : Settings) (rest : List Text) :
    flags.parseFront s (g.words ++ rest) = flags.parseFront ((g.name, v) :: s) rest := by
  unfold FlagGroup.value? at h
  cases hkind : flags.kind? g.name with
  | none => simp [hkind] at h
  | some kind =>
      have hplain := plain_of_kind? hflags hkind
      have hhead : classify g.head = .flag g.name none := by
        have hclass := classify_head hplain []
        rw [List.append_nil, List.append_nil] at hclass
        rw [hclass, named_of_plain hplain]
      unfold FlagGroup.words
      cases hform : g.form with
      | joined value =>
          have hclass : classify (g.head ++ equalsSign :: value) =
              .flag g.name (some value) := by
            rw [classify_head hplain, named_append_value hplain]
          rw [hkind, hform] at h
          simp only [List.singleton_append, parseFront, hclass, hkind, eq_ok_of_toOption h]
      | apart value =>
          rw [hkind, hform] at h
          cases kind with
          | switch => cases h
          | _ => simp only [List.cons_append, List.nil_append, parseFront, hhead, hkind,
              eq_ok_of_toOption h]
      | bare =>
          rw [hkind, hform] at h
          cases kind with
          | switch =>
              cases h
              simp only [List.singleton_append, parseFront, hhead, hkind]
          | _ => cases h

end Group

/-!
## All arguments
-/

/-- What is made of the flags at the front and the arguments behind them. -/
def parseBehind (flags : FlagSet) :
    Settings × List Text -> Except FlagError (Settings × List Text)
  | (s, []) => .ok (s, [])
  | (s, argument :: rest) =>
      (flags.parse s rest).map fun result => (result.1, argument :: result.2)

theorem parse_eq (flags : FlagSet) (s : Settings) (arguments : List Text) :
    flags.parse s arguments = flags.parseFront s arguments >>= flags.parseBehind := by
  rw [parse]
  split
  next hfront => rw [hfront, error_bind]
  next hfront => rw [hfront, ok_bind, parseBehind]
  next after argument rest hfront =>
    rw [hfront, ok_bind, parseBehind]
    cases flags.parse after rest <;> rfl

theorem parse_group {flags : FlagSet} (hflags : WellNamed flags) {g : FlagGroup} {v : FlagValue}
    (h : g.value? flags = some v) (s : Settings) (rest : List Text) :
    flags.parse s (g.words ++ rest) = flags.parse ((g.name, v) :: s) rest := by
  rw [parse_eq, parse_eq, parseFront_group hflags h]

theorem parse_plain {t : Text} (h : t.head? ≠ some dash) (flags : FlagSet) (s : Settings)
    (rest : List Text) :
    flags.parse s (t :: rest) =
      (flags.parse s rest).map fun result => (result.1, t :: result.2) := by
  have hfront : flags.parseFront s (t :: rest) = .ok (s, t :: rest) := by
    rw [parseFront, classify_of_head?_ne h]
  rw [parse_eq, hfront, ok_bind, parseBehind]

theorem parse_nil (flags : FlagSet) (s : Settings) : flags.parse s [] = .ok (s, []) := by
  rw [parse_eq, parseFront, ok_bind, parseBehind]

end FlagSet

inductive CommandItem where
  | flag (g : FlagGroup)
  | other (t : Text)
deriving DecidableEq

namespace CommandItem

def words : CommandItem -> List Text
  | flag g => g.words
  | other t => [t]

def group? : CommandItem -> Option FlagGroup
  | flag g => some g
  | other _ => none

def other? : CommandItem -> Option Text
  | flag _ => none
  | other t => some t

/-- A group that gives its flag a value, or an argument that does not start with a dash. -/
def Valid (flags : FlagSet) : CommandItem -> Prop
  | flag g => (g.value? flags).isSome = true
  | other t => t.head? ≠ some FlagSet.dash

instance (flags : FlagSet) : (item : CommandItem) -> Decidable (item.Valid flags)
  | flag g => inferInstanceAs (Decidable ((g.value? flags).isSome = true))
  | other t => inferInstanceAs (Decidable (t.head? ≠ some FlagSet.dash))

end CommandItem

namespace FlagSet

def given (flags : FlagSet) (groups : List FlagGroup) : Settings :=
  (groups.filterMap fun g => (g.value? flags).map fun v => (g.name, v)).reverse

theorem parse_items {flags : FlagSet} (hflags : WellNamed flags) {items : List CommandItem}
    (h : forall item, item ∈ items -> item.Valid flags) (s : Settings) :
    flags.parse s (items.flatMap CommandItem.words) =
      .ok (flags.given (items.filterMap CommandItem.group?) ++ s,
        items.filterMap CommandItem.other?) := by
  induction items generalizing s with
  | nil => exact parse_nil flags s
  | cons item items ih =>
      have hrest := ih fun other hother => h other (List.mem_cons_of_mem item hother)
      have hitem := h item List.mem_cons_self
      rw [List.flatMap_cons]
      cases item with
      | flag g =>
          rcases Option.isSome_iff_exists.mp hitem with ⟨v, hv⟩
          have hgiven : flags.given (g :: items.filterMap CommandItem.group?) =
              flags.given (items.filterMap CommandItem.group?) ++ [(g.name, v)] := by
            simp [given, hv]
          show flags.parse s (g.words ++ items.flatMap CommandItem.words) =
            .ok (flags.given (g :: items.filterMap CommandItem.group?) ++ s,
              items.filterMap CommandItem.other?)
          rw [parse_group hflags hv, hrest, hgiven, List.append_assoc, List.singleton_append]
      | other t =>
          show flags.parse s (t :: items.flatMap CommandItem.words) =
            .ok (flags.given (items.filterMap CommandItem.group?) ++ s,
              t :: items.filterMap CommandItem.other?)
          rw [parse_plain hitem, hrest]
          rfl

theorem isSome_value?_of_mem {flags : FlagSet} {items : List CommandItem}
    (h : forall item, item ∈ items -> item.Valid flags) {g : FlagGroup}
    (hg : g ∈ items.filterMap CommandItem.group?) : (g.value? flags).isSome = true := by
  rcases List.mem_filterMap.mp hg with ⟨item, hitem, hgroup⟩
  cases item with
  | flag g' =>
      cases hgroup
      exact h _ hitem
  | other t => cases hgroup

section Groups

variable {flags : FlagSet} {groups : List FlagGroup}
  (h : forall g, g ∈ groups -> (g.value? flags).isSome = true)
include h

theorem parse_groups (hflags : WellNamed flags) (s : Settings) :
    flags.parse s (groups.flatMap FlagGroup.words) = .ok (flags.given groups ++ s, []) := by
  have hitems := parse_items hflags (List.forall_mem_map.mpr h :
    forall item, item ∈ groups.map CommandItem.flag -> item.Valid flags) s
  rw [List.flatMap_map, List.filterMap_map, List.filterMap_map] at hitems
  have hgroups : groups.filterMap (CommandItem.group? ∘ CommandItem.flag) = groups :=
    List.filterMap_some
  have hothers : groups.filterMap (CommandItem.other? ∘ CommandItem.flag) = [] :=
    List.filterMap_eq_nil_iff.mpr fun _ _ => rfl
  rw [hgroups, hothers] at hitems
  exact hitems

theorem lookup_given (name : Text) :
    (flags.given groups).lookup name =
      (groups.reverse.find? fun g => g.name = name).bind (·.value? flags) := by
  have hall : forall g, g ∈ groups.reverse -> (g.value? flags).isSome = true :=
    fun g hg => h g (List.mem_reverse.mp hg)
  unfold given
  rw [← List.filterMap_reverse]
  generalize groups.reverse = latest at hall
  induction latest with
  | nil => rfl
  | cons g latest ih =>
      rcases Option.isSome_iff_exists.mp (hall g List.mem_cons_self) with ⟨v, hv⟩
      have hlatest := ih fun other hother => hall other (List.mem_cons_of_mem g hother)
      rw [List.filterMap_cons, hv, Option.map_some, List.lookup_cons, List.find?_cons]
      by_cases hname : g.name = name
      · simp [hname, hv]
      · have hne : (name == g.name) = false := beq_eq_false_iff_ne.mpr (Ne.symm hname)
        simp only [hne, hname, decide_false]
        exact hlatest

theorem lookup_given_append (s : Settings) (name : Text) :
    (flags.given groups ++ s).lookup name =
      (groups.reverse.find? fun g => g.name = name).elim (s.lookup name) (·.value? flags) := by
  rw [List.lookup_append, lookup_given h]
  cases hfind : groups.reverse.find? fun g => g.name = name with
  | none => rfl
  | some g =>
      have hmem := List.mem_reverse.mp (List.mem_of_find?_eq_some hfind)
      rcases Option.isSome_iff_exists.mp (h g hmem) with ⟨v, hv⟩
      simp only [Option.bind_some, Option.elim_some, hv, Option.some_or]

end Groups

end FlagSet

namespace Command

theorem wellNamed_flagsOf (command : Name) : (flagsOf command).WellNamed := by
  unfold FlagSet.WellNamed
  cases command <;> decide

/-- The flags of a command and its other arguments may stand in any order.  They are all
read, the others are given back in their order, and every flag is left as it is by the
groups alone: with the value of the last group for it, or as it was without one. -/
theorem parse_interleaved (command : Name) {items : List CommandItem}
    (h : forall item, item ∈ items -> item.Valid (flagsOf command)) (s : Settings) :
    exists after,
      (flagsOf command).parse s (items.flatMap CommandItem.words) =
        .ok (after, items.filterMap CommandItem.other?) ∧
      (flagsOf command).parse s ((items.filterMap CommandItem.group?).flatMap FlagGroup.words) =
        .ok (after, []) ∧
      forall name, after.lookup name =
        ((items.filterMap CommandItem.group?).reverse.find? fun g => g.name = name).elim
          (s.lookup name) (·.value? (flagsOf command)) := by
  have hflags := wellNamed_flagsOf command
  have hgroups := fun g => @FlagSet.isSome_value?_of_mem _ items h g
  exact ⟨_, FlagSet.parse_items hflags h s, FlagSet.parse_groups hgroups hflags s,
    FlagSet.lookup_given_append hgroups s⟩

/-- A flag given twice, a value that starts with a dash, and an argument without a byte. -/
def mingledItems : List CommandItem :=
  [.other (utf8 "a.vvbc"), .flag ⟨true, utf8 "lanes", .joined (utf8 "0x10")⟩,
    .flag ⟨false, utf8 "strict", .bare⟩, .other [],
    .flag ⟨false, utf8 "lanes", .apart (utf8 "-3")⟩,
    .flag ⟨true, utf8 "stats", .joined (utf8 "F")⟩, .other (utf8 "b=c")]

theorem parse_interleaved_mingled :
    (forall item, item ∈ mingledItems -> item.Valid (flagsOf .exec)) ∧
      exists after,
        (flagsOf .exec).parse []
          (["a.vvbc", "--lanes=0x10", "-strict", "", "-lanes", "-3", "--stats=F",
            "b=c"].map utf8) =
            .ok (after, ["a.vvbc", "", "b=c"].map utf8) ∧
        (flagsOf .exec).parse []
          (["--lanes=0x10", "-strict", "-lanes", "-3", "--stats=F"].map utf8) =
            .ok (after, []) ∧
        after.integer "lanes" 8 = -3 ∧ after.switch "strict" = true ∧
        after.switch "stats" = false ∧ after.integer "workers" 1 = 1 := by
  have hvalid : forall item, item ∈ mingledItems -> item.Valid (flagsOf .exec) := by decide
  rcases parse_interleaved .exec hvalid [] with ⟨after, hall, hgroups, hvalues⟩
  refine ⟨hvalid, after, hall, hgroups, ?_, ?_, ?_, ?_⟩
  · unfold Settings.integer
    rw [hvalues]
    decide
  · unfold Settings.switch
    rw [hvalues]
    decide
  · unfold Settings.switch
    rw [hvalues]
    decide
  · unfold Settings.integer
    rw [hvalues]
    decide

end Command
end VectorMachine
