import VectorMachine.Proofs.CborRoundTrip

/-!
# What stands behind an item

A reader takes the bytes of its item and does not look at those behind them.  Bytes
that are read as one item therefore cannot be continued to the bytes of another, and no
proper beginning of an item is an item itself.
-/

namespace VectorMachine
namespace Cbor

def Local {α : Type} (read : Reader α) : Prop :=
  forall bs x rest more, read bs = some (x, rest) -> read (bs ++ more) = some (x, rest ++ more)

/-!
## Heads and strings
-/

theorem takeExactly_eq_some_iff {n : Nat} {bs taken : Bytes} :
    takeExactly n bs = some taken ↔ n ≤ bs.length ∧ taken = bs.take n := by
  unfold takeExactly
  simp only [List.length_take, min_eq_left_iff]
  split
  next h => simp [h, eq_comm]
  next h => simp [h]

theorem takeExactly_more {n : Nat} {bs taken : Bytes} (h : takeExactly n bs = some taken)
    (more : Bytes) : takeExactly n (bs ++ more) = some taken := by
  rcases takeExactly_eq_some_iff.mp h with ⟨hle, rfl⟩
  rw [takeExactly_eq_some_iff, List.length_append, List.take_append_of_le_length hle]
  exact ⟨Nat.le_trans hle (Nat.le_add_right _ _), rfl⟩

theorem argument_more {info n size : Nat} {rest : Bytes}
    (h : argument info rest = some (n, size))
    (more : Bytes) : argument info (rest ++ more) = some (n, size) ∧ size ≤ rest.length := by
  unfold argument at h ⊢
  rcases Option.bind_eq_some_iff.mp h with ⟨s, hsize, h⟩
  rcases Option.bind_eq_some_iff.mp h with ⟨bytes, hbytes, h⟩
  cases h
  rw [hsize, Option.bind_eq_bind, Option.bind_some, takeExactly_more hbytes]
  exact ⟨rfl, (takeExactly_eq_some_iff.mp hbytes).1⟩

theorem local_readString (info : Nat) : Local (readString info) := by
  intro bs bytes rest more h
  unfold readString at h ⊢
  rcases Option.bind_eq_some_iff.mp h with ⟨⟨length, size⟩, hargument, h⟩
  rcases Option.bind_eq_some_iff.mp h with ⟨taken, htaken, h⟩
  cases h
  rcases argument_more hargument more with ⟨hmore, hsize⟩
  have hlength := (takeExactly_eq_some_iff.mp htaken).1
  rw [List.length_drop] at hlength
  rw [hmore, Option.bind_eq_bind, Option.bind_some]
  simp only
  rw [List.drop_append_of_le_length hsize, takeExactly_more htaken,
    List.drop_append_of_le_length (by omega)]
  rfl

theorem readChunks_more {major fuel fuel' : Nat} (hfuel : fuel ≤ fuel')
    {chunks found : List Bytes}
    {bs rest : Bytes} (h : readChunks major fuel chunks bs = some (found, rest))
    (more : Bytes) :
    readChunks major fuel' chunks (bs ++ more) = some (found, rest ++ more) := by
  induction fuel generalizing fuel' chunks bs with
  | zero => cases h
  | succ fuel ih =>
      rcases Nat.exists_eq_add_of_le' hfuel with ⟨extra, rfl⟩
      cases bs with
      | nil => cases h
      | cons b bs =>
          rw [readChunks] at h
          rw [List.cons_append, ← Nat.add_assoc, readChunks]
          split at h
          next hbreak =>
            cases h
            rw [if_pos hbreak]
          next hbreak =>
            rw [if_neg hbreak]
            split at h
            next hmajor =>
              rw [if_pos hmajor]
              cases hstring : readString (infoOf b) bs with
              | none =>
                  rw [hstring] at h
                  cases h
              | some found =>
                  rw [hstring] at h
                  rw [local_readString _ _ _ _ more hstring]
                  exact ih (Nat.le_add_left fuel extra) h
            next => cases h

theorem local_readStrings (major info : Nat) : Local (readStrings major info) := by
  intro bs chunks rest more h
  unfold readStrings at h ⊢
  split at h
  next hinfo =>
    rw [if_pos hinfo]
    exact readChunks_more (by simp) h more
  next hinfo =>
    rcases Option.map_eq_some_iff.mp h with ⟨⟨bytes, tail⟩, hstring, hdone⟩
    cases hdone
    rw [if_neg hinfo, local_readString _ _ _ _ more hstring]
    rfl

/-!
## Items without items inside
-/

theorem local_readSimple (info : Nat) : Local (readSimple info) := by
  intro bs item rest more h
  unfold readSimple at h ⊢
  rcases Option.bind_eq_some_iff.mp h with ⟨⟨n, size⟩, hargument, h⟩
  rcases argument_more hargument more with ⟨hmore, hsize⟩
  rw [hmore, Option.bind_eq_bind, Option.bind_some]
  simp only [List.drop_append_of_le_length hsize] at h ⊢
  split at h
  · split at h
    · cases h
    next hlarge =>
      cases h
      simp only [if_neg hlarge]
  · cases h
    rfl
  · cases h
    rfl
  · cases h
    rfl
  · cases h
    rfl

theorem local_argument (info : Nat) (wrap : Nat -> Item) :
    Local fun rest => (argument info rest).map fun (n, size) => (wrap n, rest.drop size) := by
  intro bs item rest more h
  rcases Option.map_eq_some_iff.mp h with ⟨⟨n, size⟩, hargument, hdone⟩
  cases hdone
  rcases argument_more hargument more with ⟨hmore, hsize⟩
  simp only [hmore, Option.map_some, List.drop_append_of_le_length hsize]

theorem local_map {α β : Type} {read : Reader α} (hread : Local read) (wrap : α -> β) :
    Local fun bs => (read bs).map fun (x, rest) => (wrap x, rest) := by
  intro bs y rest more h
  rcases Option.map_eq_some_iff.mp h with ⟨⟨x, tail⟩, hx, hdone⟩
  cases hdone
  simp only [hread _ _ _ more hx, Option.map_some]

theorem local_readLeaf (b : UInt8) : Local (readLeaf b) := by
  intro bs item rest more h
  unfold readLeaf at h ⊢
  split at h
  · exact local_argument _ Item.unsigned _ _ _ more h
  · exact local_argument _ Item.negative _ _ _ more h
  · exact local_map (local_readStrings 2 _) (fun chunks => Item.bytes chunks.flatten)
      _ _ _ more h
  · exact local_map (local_readStrings 3 _) Item.text _ _ _ more h
  · exact local_readSimple _ _ _ _ more h
  · cases h

/-!
## Arrays and maps
-/

section Elements

variable {α : Type} {read : Reader α} (hread : Local read)
include hread

theorem local_readCount (count : Nat) (done : List α) : Local (readCount read count done) := by
  intro bs xs rest more h
  induction count generalizing done bs with
  | zero =>
      cases h
      rfl
  | succ count ih =>
      rw [readCount] at h ⊢
      cases hx : read bs with
      | none =>
          rw [hx] at h
          cases h
      | some found =>
          rw [hx] at h
          rw [hread _ _ _ more hx]
          exact ih _ _ h

theorem local_readToBreak (room : Nat) (done : List α) :
    Local (readToBreak read room done) := by
  intro bs xs rest more h
  induction room generalizing done bs with
  | zero =>
      cases bs with
      | nil => cases h
      | cons b bs =>
          rw [readToBreak] at h
          rw [List.cons_append, readToBreak]
          split at h
          next hbreak =>
            cases h
            rw [if_pos hbreak]
          next => cases h
  | succ room ih =>
      cases bs with
      | nil => cases h
      | cons b bs =>
          rw [readToBreak] at h
          rw [List.cons_append, readToBreak]
          split at h
          next hbreak =>
            cases h
            rw [if_pos hbreak]
          next hbreak =>
            rw [if_neg hbreak]
            cases hx : read (b :: bs) with
            | none =>
                rw [hx] at h
                cases h
            | some found =>
                rw [hx] at h
                have hmore := hread _ _ _ more hx
                rw [List.cons_append] at hmore
                rw [hmore]
                exact ih _ _ h

theorem local_readElements (info : Nat) : Local (readElements read info) := by
  intro bs xs rest more h
  unfold readElements at h ⊢
  split at h
  next hinfo =>
    rw [if_pos hinfo]
    exact local_readToBreak hread _ _ _ _ _ more h
  next hinfo =>
    rw [if_neg hinfo]
    cases hargument : argument info bs with
    | none =>
        rw [hargument] at h
        cases h
    | some found =>
        rcases found with ⟨count, size⟩
        rcases argument_more hargument more with ⟨hmore, hsize⟩
        rw [hargument] at h
        rw [hmore]
        simp only at h ⊢
        split at h
        next => cases h
        next hcount =>
          rw [if_neg hcount, List.drop_append_of_le_length hsize]
          exact local_readCount hread _ _ _ _ _ more h

end Elements

theorem local_readEntry {read : Reader Item} (hread : Local read) : Local (readEntry read) := by
  intro bs entry rest more h
  unfold readEntry at h ⊢
  rcases Option.bind_eq_some_iff.mp h with ⟨⟨key, tail⟩, hkey, h⟩
  rcases Option.bind_eq_some_iff.mp h with ⟨⟨value, tail'⟩, hvalue, h⟩
  cases h
  rw [hread _ _ _ more hkey, Option.bind_eq_bind, Option.bind_some]
  simp only [hread _ _ _ more hvalue, Option.bind_some]

/-!
## Items
-/

theorem splitTags_more {bs : Bytes} {tags : List Nat} {b : UInt8} {content : Bytes}
    (h : splitTags bs = some (tags, b :: content)) (more : Bytes) :
    splitTags (bs ++ more) = some (tags, b :: (content ++ more)) := by
  induction hlength : bs.length using Nat.strong_induction_on generalizing bs tags with
  | _ length ih =>
      cases bs with
      | nil =>
          rw [splitTags] at h
          cases h
      | cons first bs =>
          rw [splitTags] at h
          rw [List.cons_append, splitTags]
          split at h
          next htag =>
            rw [if_pos htag]
            cases hargument : argument (infoOf first) bs with
            | none =>
                rw [hargument] at h
                cases h
            | some found =>
                rcases found with ⟨number, size⟩
                rcases argument_more hargument more with ⟨hmore, hsize⟩
                rw [hargument] at h
                rcases Option.map_eq_some_iff.mp h with ⟨⟨numbers, tail⟩, hsplit, hdone⟩
                cases hdone
                have hshorter : (bs.drop size).length < length := by
                  rw [← hlength, List.length_drop, List.length_cons]
                  exact Nat.lt_succ_of_le (Nat.sub_le _ _)
                rw [hmore]
                simp only [List.drop_append_of_le_length hsize, ih _ hshorter hsplit rfl,
                  Option.map_some]
          next htag =>
            cases h
            rw [if_neg htag]

theorem local_readItem (levels : Nat) : Local (readItem levels) := by
  induction levels using Nat.strong_induction_on with
  | _ levels ih =>
      intro bs item rest more h
      rw [readItem] at h ⊢
      cases hsplit : splitTags bs with
      | none =>
          rw [hsplit] at h
          cases h
      | some found =>
          rcases found with ⟨tags, content⟩
          rw [hsplit] at h
          simp only at h
          split at h
          next => cases h
          next hdeep =>
            cases content with
            | nil => cases h
            | cons b content =>
                rw [splitTags_more hsplit more]
                simp only [if_neg hdeep] at h ⊢
                split at h
                next hnested =>
                  rw [if_pos hnested]
                  split at h
                  next => cases h
                  next inner hinner =>
                    have hlower := ih inner (by omega)
                    split at h
                    next harray =>
                      rw [if_pos harray]
                      exact local_map (local_readElements hlower _)
                        (fun items => tags.foldr Item.tag (.array items)) _ _ _ more h
                    next harray =>
                      rw [if_neg harray]
                      exact local_map (local_readElements (local_readEntry hlower) _)
                        (fun entries => tags.foldr Item.tag (.map entries)) _ _ _ more h
                next hnested =>
                  rw [if_neg hnested]
                  exact local_map (local_readLeaf b) (tags.foldr Item.tag) _ _ _ more h

def Whole (bs : Bytes) : Prop :=
  forall item rest, readItem maxDepth bs = some (item, rest) -> rest = []

theorem whole_write {item : Item} (h : Writable maxDepth item) : Whole (write item) := by
  intro found rest hread
  have hwritten := readItem_write h []
  rw [List.append_nil, hread] at hwritten
  cases hwritten
  rfl

theorem Whole.eq_nil_of_read {bs more : Bytes} (h : Whole (bs ++ more)) {item : Item}
    (hread : read bs = some item) : more = [] := by
  unfold read at hread
  split at hread
  next found hitem => exact h _ _ (local_readItem maxDepth bs found [] more hitem)
  next => cases hread

/-!
## What cannot be read
-/

theorem readItem_write_array_large (levels : Nat) {items : List Item}
    (hlarge : maxElements < items.length) (hcount : items.length < 2 ^ 64) (rest : Bytes) :
    readItem (levels + 1) (write (.array items) ++ rest) = none := by
  rcases exists_head (show 4 < 8 by decide) hcount with
    ⟨b, tail, hhead, hmajor, hinfo, hargument⟩
  rw [write, hhead, List.append_assoc, List.cons_append, readItem_array levels hmajor]
  unfold readElements
  rw [if_neg (by omega), hargument]
  simp only [if_pos hlarge, Option.map_none]

theorem readCount_flatMap_none {α : Type} {read : Reader α} {emit : α -> Bytes} {xs : List α}
    (h : forall x, x ∈ xs -> forall rest, read (emit x ++ rest) = some (x, rest)) {bs : Bytes}
    (hnone : read bs = none) (more : Nat) (done : List α) :
    readCount read (xs.length + (more + 1)) done (xs.flatMap emit ++ bs) = none := by
  induction xs generalizing done with
  | nil =>
      rw [List.length_nil, Nat.zero_add, readCount, List.flatMap_nil, List.nil_append, hnone]
  | cons x xs ih =>
      rw [List.length_cons, Nat.succ_add, readCount, List.flatMap_cons, List.append_assoc,
        h x List.mem_cons_self]
      exact ih (fun y hy => h y (List.mem_cons_of_mem x hy)) _

theorem readItem_write_map_none {levels : Nat} {before after : List (Item × Item)}
    {key value : Item}
    (hbefore : forall entry, entry ∈ before ->
      Writable levels entry.1 ∧ Writable levels entry.2)
    (hkey : Writable levels key)
    (hvalue : forall rest, readItem levels (write value ++ rest) = none)
    (hcount : before.length + (after.length + 1) ≤ maxElements) :
    readItem (levels + 1) (write (.map (before ++ (key, value) :: after))) = none := by
  have hlimit : (before ++ (key, value) :: after).length < 2 ^ 64 := by
    rw [List.length_append, List.length_cons]
    exact Nat.lt_of_le_of_lt hcount (by decide)
  rcases exists_head (show 5 < 8 by decide) hlimit with
    ⟨b, tail, hhead, hmajor, hinfo, hargument⟩
  have hentry : forall entry, entry ∈ before -> forall rest,
      readEntry (readItem levels) ((write entry.1 ++ write entry.2) ++ rest) =
        some (entry, rest) := by
    intro entry hentry rest
    rcases hbefore entry hentry with ⟨hfirst, hsecond⟩
    exact readEntry_append (readItem_write hfirst) (readItem_write hsecond) rest
  have hnone : forall rest, readEntry (readItem levels) ((write key ++ write value) ++ rest) =
      none := by
    intro rest
    unfold readEntry
    rw [List.append_assoc, readItem_write hkey]
    simp [hvalue]
  rw [write, hhead, writeEntries_eq, List.cons_append, readItem_map levels hmajor]
  unfold readElements
  rw [if_neg (by omega), hargument]
  simp only [List.length_append, List.length_cons] at hcount ⊢
  rw [if_neg (Nat.not_lt.mpr hcount), List.drop_left, List.flatMap_append, List.flatMap_cons,
    readCount_flatMap_none hentry (hnone _)]
  rfl

end Cbor
end VectorMachine
