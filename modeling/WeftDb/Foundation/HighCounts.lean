import Mathlib.Algebra.BigOperators.Group.List.Basic
import Mathlib.Algebra.Order.Ring.Nat
import Mathlib.Data.Finset.Card
import Mathlib.Data.Finset.Lattice.Basic
import WeftDb.Foundation.SortedMap

/-!
# Counts of which only the highest keys are kept

Counts are kept for at most a given number of keys.  Past that the lowest count is folded into the
next one until enough keys are gone.  The result depends only on the counts which were added, not
on when they were collapsed: counting from any key up gives the exact count where fewer keys than
the bound lie, and the total below.
-/

namespace HighCounts

variable {Key : Type*} [LinearOrder Key]
variable {entries left right : List (Key × Nat)} {bound key : Key} {map : SortedMap Key Nat}

/-- The keys from one up. -/
def keysFrom (entries : List (Key × Nat)) (bound : Key) : Finset Key :=
  ((entries.map Prod.fst).filter fun key => decide (bound ≤ key)).toFinset

/-- The count of the keys from one up. -/
def sumFrom (entries : List (Key × Nat)) (bound : Key) : Nat :=
  ((entries.filter fun entry => decide (bound ≤ entry.1)).map Prod.snd).sum

/-- The count of all keys. -/
def total (entries : List (Key × Nat)) : Nat :=
  (entries.map Prod.snd).sum

theorem mem_keysFrom : key ∈ keysFrom entries bound ↔ key ∈ entries.map Prod.fst ∧ bound ≤ key := by
  rw [keysFrom, List.mem_toFinset, List.mem_filter, decide_eq_true_eq]

theorem keysFrom_cons (key bound : Key) (count : Nat) (entries : List (Key × Nat)) :
    keysFrom ((key, count) :: entries) bound =
      if bound ≤ key then insert key (keysFrom entries bound) else keysFrom entries bound := by
  ext other
  split <;> simp only [mem_keysFrom, Finset.mem_insert, List.map_cons, List.mem_cons] <;> grind

theorem sumFrom_cons (key bound : Key) (count : Nat) (entries : List (Key × Nat)) :
    sumFrom ((key, count) :: entries) bound =
      (if bound ≤ key then count else 0) + sumFrom entries bound := by
  rw [sumFrom, sumFrom, List.filter_cons]
  by_cases reached : bound ≤ key
  · rw [if_pos (decide_eq_true reached), if_pos reached, List.map_cons, List.sum_cons]
  · rw [if_neg (by simpa using reached), if_neg reached, Nat.zero_add]

omit [LinearOrder Key] in
theorem total_cons (entry : Key × Nat) (entries : List (Key × Nat)) :
    total (entry :: entries) = entry.2 + total entries := by
  rw [total, List.map_cons, List.sum_cons, total]

theorem sumFrom_eq_total (below : ∀ entry ∈ entries, bound ≤ entry.1) :
    sumFrom entries bound = total entries := by
  rw [sumFrom, total,
    List.filter_eq_self.mpr fun entry member => decide_eq_true (below entry member)]

theorem card_keysFrom_le (entries : List (Key × Nat)) (bound : Key) :
    (keysFrom entries bound).card ≤ entries.length := by
  refine (List.toFinset_card_le _).trans ?_
  exact (List.length_filter_le _ _).trans_eq (List.length_map _)

theorem card_keysFrom_eq (sorted : entries.Pairwise fun left right => left.1 < right.1)
    (below : ∀ entry ∈ entries, bound ≤ entry.1) :
    (keysFrom entries bound).card = entries.length := by
  have all : (entries.map Prod.fst).filter (fun key => decide (bound ≤ key)) =
      entries.map Prod.fst := by
    refine List.filter_eq_self.mpr fun key member => ?_
    obtain ⟨entry, entry_mem, rfl⟩ := List.mem_map.mp member
    exact decide_eq_true (below entry entry_mem)
  rw [keysFrom, all, List.toFinset_card_of_nodup (List.pairwise_map.mpr (sorted.imp ne_of_lt)),
    List.length_map]

theorem below_of_card (full : entries.length ≤ (keysFrom entries bound).card) :
    ∀ entry ∈ entries, bound ≤ entry.1 := by
  have kept : entries.length ≤
      ((entries.map Prod.fst).filter fun key => decide (bound ≤ key)).length :=
    full.trans (List.toFinset_card_le _)
  have all := List.filter_sublist.eq_of_length_le ((List.length_map Prod.fst).trans_le kept)
  intro entry member
  have key_mem := List.mem_map_of_mem (f := Prod.fst) member
  rw [← all] at key_mem
  exact of_decide_eq_true (List.mem_filter.mp key_mem).2

/-- Counts with the same keys which count the same from every key up are the same. -/
theorem eq_of_sumFrom (left_sorted : left.Pairwise fun first second => first.1 < second.1)
    (right_sorted : right.Pairwise fun first second => first.1 < second.1)
    (keys : left.map Prod.fst = right.map Prod.fst)
    (sums : ∀ bound, sumFrom left bound = sumFrom right bound) : left = right := by
  induction left generalizing right with
  | nil => exact (List.map_eq_nil_iff.mp keys.symm).symm
  | cons first left ih =>
      cases right with
      | nil => cases keys
      | cons second right =>
          obtain ⟨first_below, left_sorted⟩ := List.pairwise_cons.mp left_sorted
          obtain ⟨second_below, right_sorted⟩ := List.pairwise_cons.mp right_sorted
          obtain ⟨same, keys⟩ := List.cons.inj keys
          have apart {bound : Key} (above : first.1 < bound) :
              sumFrom left bound = sumFrom right bound := by
            have sum := sums bound
            rw [sumFrom_cons first.1, sumFrom_cons second.1, if_neg (not_le.mpr above),
              if_neg (not_le.mpr (same ▸ above))] at sum
            omega
          -- The counts above the first key are those from the second key up.
          have rest : total left = total right := by
            cases left with
            | nil =>
                rw [List.map_eq_nil_iff.mp keys.symm]
            | cons next left =>
                cases right with
                | nil => cases keys
                | cons other right =>
                    have next_same : next.1 = other.1 := (List.cons.inj keys).1
                    have sum := apart (first_below next List.mem_cons_self)
                    rwa [sumFrom_eq_total, sumFrom_eq_total] at sum
                    · intro entry member
                      rcases List.mem_cons.mp member with rfl | member
                      · exact next_same.le
                      · exact next_same.trans_le
                          ((List.pairwise_cons.mp right_sorted).1 entry member).le
                    · intro entry member
                      rcases List.mem_cons.mp member with rfl | member
                      · exact le_rfl
                      · exact ((List.pairwise_cons.mp left_sorted).1 entry member).le
          have head : first = second := by
            have sum := sums first.1
            rw [sumFrom_cons first.1, sumFrom_cons second.1, if_pos le_rfl, if_pos same.le,
              sumFrom_eq_total fun entry member => (first_below entry member).le,
              sumFrom_eq_total fun entry member =>
                same.trans_le (second_below entry member).le, rest] at sum
            exact Prod.ext same (Nat.add_right_cancel sum)
          rw [head, ih left_sorted right_sorted keys]
          intro bound
          have sum := sums bound
          rw [head, sumFrom_cons second.1, sumFrom_cons second.1] at sum
          exact Nat.add_left_cancel sum

/-- Add to the count of a key. -/
def add (map : SortedMap Key Nat) (entry : Key × Nat) : SortedMap Key Nat :=
  map.insert entry.1 ((map.find? entry.1).getD 0 + entry.2)

/-- Add counts one after the other. -/
def addAll (map : SortedMap Key Nat) (entries : List (Key × Nat)) : SortedMap Key Nat :=
  entries.foldl add map

/-- Adding replaces the count of a key by the sum, or puts the key in. -/
theorem add_insertEntry (sorted : entries.Pairwise fun left right => left.1 < right.1) (key : Key)
    (count : Nat) (bound : Key) :
    let added := SortedMap.insertEntry key ((SortedMap.lookup key entries).getD 0 + count) entries
    keysFrom added bound =
        (if bound ≤ key then insert key (keysFrom entries bound) else keysFrom entries bound) ∧
      sumFrom added bound = sumFrom entries bound + (if bound ≤ key then count else 0) ∧
      total added = total entries + count := by
  induction entries with
  | nil =>
      refine ⟨keysFrom_cons key bound _ [], ?_, ?_⟩
      · change sumFrom [(key, 0 + count)] bound = sumFrom [] bound + _
        rw [sumFrom_cons, Nat.zero_add, Nat.add_comm]
      · change total [(key, 0 + count)] = total [] + count
        rw [total_cons, Nat.zero_add, Nat.add_comm]
  | cons head entries ih =>
      obtain ⟨below, later⟩ := List.pairwise_cons.mp sorted
      obtain ⟨first, old⟩ := head
      obtain ⟨ih_keys, ih_sum, ih_total⟩ := ih later
      by_cases same : first = key
      · subst same
        have lookup : SortedMap.lookup first ((first, old) :: entries) = some old := by
          rw [SortedMap.lookup, if_pos rfl]
        simp only [lookup, SortedMap.insertEntry, lt_irrefl, if_false, if_true, Option.getD_some,
          keysFrom_cons, sumFrom_cons, total_cons]
        refine ⟨?_, ?_, by omega⟩
        · split
          · rw [Finset.insert_idem]
          · rfl
        · split <;> omega
      · have skipped : SortedMap.lookup key ((first, old) :: entries) =
            SortedMap.lookup key entries := by
          rw [SortedMap.lookup, if_neg same]
        simp only [skipped, SortedMap.insertEntry]
        split
        · rename_i before
          have absent : SortedMap.lookup key entries = none := by
            cases found : SortedMap.lookup key entries with
            | none => rfl
            | some value =>
                have member := (SortedMap.lookup_eq_some later).mp found
                exact absurd (before.trans (below _ member)) (lt_irrefl key)
          simp only [absent, Option.getD_none, Nat.zero_add, keysFrom_cons, sumFrom_cons,
            total_cons]
          exact ⟨trivial, by omega, by omega⟩
        · simp only [keysFrom_cons, sumFrom_cons, total_cons, ih_keys, ih_sum, ih_total]
          refine ⟨?_, by omega, by omega⟩
          split
          · split
            · rw [Finset.insert_comm]
            · rfl
          · rfl

section

variable (map : SortedMap Key Nat)

theorem keysFrom_add (entry : Key × Nat) (bound : Key) :
    keysFrom (add map entry).entries bound =
      if bound ≤ entry.1 then insert entry.1 (keysFrom map.entries bound)
      else keysFrom map.entries bound :=
  (add_insertEntry map.sorted entry.1 entry.2 bound).1

theorem sumFrom_add (entry : Key × Nat) (bound : Key) :
    sumFrom (add map entry).entries bound =
      sumFrom map.entries bound + if bound ≤ entry.1 then entry.2 else 0 :=
  (add_insertEntry map.sorted entry.1 entry.2 bound).2.1

theorem total_add (entry : Key × Nat) :
    total (add map entry).entries = total map.entries + entry.2 :=
  (add_insertEntry map.sorted entry.1 entry.2 entry.1).2.2

theorem keysFrom_addAll (entries : List (Key × Nat)) (bound : Key) :
    keysFrom (addAll map entries).entries bound =
      keysFrom map.entries bound ∪ keysFrom entries bound := by
  induction entries generalizing map with
  | nil =>
      ext key
      simp [addAll, mem_keysFrom]
  | cons entry entries ih =>
      rw [addAll, List.foldl_cons, ← addAll, ih, keysFrom_add, keysFrom_cons entry.1]
      split
      · rw [Finset.insert_union, Finset.union_insert]
      · rfl

theorem sumFrom_addAll (entries : List (Key × Nat)) (bound : Key) :
    sumFrom (addAll map entries).entries bound =
      sumFrom map.entries bound + sumFrom entries bound := by
  induction entries generalizing map with
  | nil => rfl
  | cons entry entries ih =>
      rw [addAll, List.foldl_cons, ← addAll, ih, sumFrom_add, sumFrom_cons entry.1]
      omega

theorem total_addAll (entries : List (Key × Nat)) :
    total (addAll map entries).entries = total map.entries + total entries := by
  induction entries generalizing map with
  | nil => rfl
  | cons entry entries ih =>
      rw [addAll, List.foldl_cons, ← addAll, ih, total_add, total_cons]
      omega

end

theorem ext_sumFrom {left right : SortedMap Key Nat}
    (keys : ∀ key, key ∈ left.keys ↔ key ∈ right.keys)
    (sums : ∀ bound, sumFrom left.entries bound = sumFrom right.entries bound) : left = right := by
  have perm : left.keys.Perm right.keys :=
    (List.perm_ext_iff_of_nodup left.nodup_keys right.nodup_keys).mpr keys
  have same : left.keys = right.keys := by
    refine perm.eq_of_pairwise ?_ (List.pairwise_map.mpr left.sorted)
      (List.pairwise_map.mpr right.sorted)
    intro first second _ _ below above
    exact absurd (below.trans above) (lt_irrefl _)
  exact SortedMap.ext (eq_of_sumFrom left.sorted right.sorted same sums)

/-- Fold the lowest counts into the next ones, as long as there are too many keys.  The count
which the last fold took is carried along. -/
def collapseEntries (limit carried : Nat) : List (Key × Nat) → List (Key × Nat)
  | [] => []
  | (key, count) :: entries =>
      if limit ≤ entries.length ∧ entries ≠ [] then
        collapseEntries limit (carried + count) entries
      else (key, carried + count) :: entries

omit [LinearOrder Key] in
theorem keys_collapseEntries_sublist (limit carried : Nat) (entries : List (Key × Nat)) :
    ((collapseEntries limit carried entries).map Prod.fst).Sublist (entries.map Prod.fst) := by
  induction entries generalizing carried with
  | nil => exact .slnil
  | cons head entries ih =>
      rw [collapseEntries]
      split
      · exact (ih _).cons _
      · exact .refl _

/-- Keep the counts of the highest keys. -/
def collapse (limit : Nat) (map : SortedMap Key Nat) : SortedMap Key Nat where
  entries := collapseEntries limit 0 map.entries
  sorted :=
    List.pairwise_map.mp
      ((List.pairwise_map.mpr map.sorted).sublist (keys_collapseEntries_sublist limit 0 _))

/-- What is left after a collapse. -/
theorem collapseEntries_spec {limit carried : Nat} (positive : 0 < limit)
    (some_entries : entries ≠ []) (sorted : entries.Pairwise fun left right => left.1 < right.1)
    (held : carried = 0 ∨ limit ≤ entries.length) :
    let kept := collapseEntries limit carried entries
    total kept = carried + total entries ∧
    (∀ key, key ∈ kept.map Prod.fst ↔
      key ∈ entries.map Prod.fst ∧ (keysFrom entries key).card ≤ limit) ∧
    (∀ bound, (keysFrom entries bound).card < limit →
      sumFrom kept bound = sumFrom entries bound) ∧
    (∀ bound, limit ≤ (keysFrom entries bound).card →
      limit ≤ (keysFrom kept bound).card ∧ sumFrom kept bound = carried + total entries) := by
  induction entries generalizing carried with
  | nil => exact absurd rfl some_entries
  | cons head entries ih =>
      obtain ⟨below, later⟩ := List.pairwise_cons.mp sorted
      obtain ⟨first, count⟩ := head
      have whole : (keysFrom ((first, count) :: entries) first).card = entries.length + 1 :=
        card_keysFrom_eq sorted fun entry member => by
          rcases List.mem_cons.mp member with rfl | member
          · exact le_rfl
          · exact (below entry member).le
      -- From the first key down all keys are counted, above it the first one is not.
      have card_of_le {bound : Key} (reached : bound ≤ first) :
          (keysFrom ((first, count) :: entries) bound).card = entries.length + 1 ∧
            (keysFrom entries bound).card = entries.length :=
        ⟨card_keysFrom_eq sorted fun entry member => by
            rcases List.mem_cons.mp member with rfl | member
            · exact reached
            · exact reached.trans (below entry member).le,
          card_keysFrom_eq later fun entry member => reached.trans (below entry member).le⟩
      have keys_of_not_le {bound : Key} (above : ¬bound ≤ first) :
          keysFrom ((first, count) :: entries) bound = keysFrom entries bound := by
        rw [keysFrom_cons, if_neg above]
      simp only [collapseEntries]
      split
      · rename_i many
        obtain ⟨full, rest⟩ := many
        obtain ⟨ih_total, ih_keys, ih_few, ih_full⟩ :=
          @ih (carried + count) rest later (.inr full)
        refine ⟨?_, ?_, ?_, ?_⟩
        · rw [ih_total, total_cons]
          omega
        · intro key
          rw [ih_keys, List.map_cons, List.mem_cons]
          constructor
          · rintro ⟨member, few⟩
            have above : ¬key ≤ first := by
              obtain ⟨entry, entry_mem, rfl⟩ := List.mem_map.mp member
              exact not_le.mpr (below entry entry_mem)
            exact ⟨.inr member, keys_of_not_le above ▸ few⟩
          · rintro ⟨rfl | member, few⟩
            · omega
            · have above : ¬key ≤ first := by
                obtain ⟨entry, entry_mem, rfl⟩ := List.mem_map.mp member
                exact not_le.mpr (below entry entry_mem)
              exact ⟨member, keys_of_not_le above ▸ few⟩
        · intro bound few
          have above : ¬bound ≤ first := fun reached => by
            have card := (card_of_le reached).1
            omega
          rw [ih_few bound (keys_of_not_le above ▸ few), sumFrom_cons, if_neg above]
          omega
        · intro bound many
          have rest_many : limit ≤ (keysFrom entries bound).card := by
            by_cases reached : bound ≤ first
            · exact full.trans_eq (card_of_le reached).2.symm
            · exact keys_of_not_le reached ▸ many
          obtain ⟨kept, sum⟩ := ih_full bound rest_many
          refine ⟨kept, ?_⟩
          rw [sum, total_cons]
          omega
      · rename_i few
        have short : entries.length + 1 ≤ limit := by
          by_cases rest : entries = []
          · rw [rest]
            exact positive
          · exact Nat.lt_of_not_le fun full => few ⟨full, rest⟩
        have same_keys (bound : Key) :
            keysFrom ((first, carried + count) :: entries) bound =
              keysFrom ((first, count) :: entries) bound := by
          rw [keysFrom_cons, keysFrom_cons]
        refine ⟨?_, ?_, ?_, ?_⟩
        · rw [total_cons, total_cons]
          omega
        · intro key
          have card := card_keysFrom_le ((first, count) :: entries) key
          rw [List.length_cons] at card
          exact ⟨fun member => ⟨member, by omega⟩, fun member => member.1⟩
        · intro bound under
          rw [sumFrom_cons, sumFrom_cons]
          split
          · rename_i reached
            have card := (card_of_le reached).1
            rw [List.length_cons] at held
            omega
          · rfl
        · intro bound many
          rw [same_keys]
          refine ⟨many, ?_⟩
          have full : ((first, count) :: entries).length ≤
              (keysFrom ((first, count) :: entries) bound).card := short.trans many
          have reached := below_of_card full
          have head := reached _ List.mem_cons_self
          rw [sumFrom_cons, if_pos head, total_cons,
            sumFrom_eq_total fun entry member => reached entry (List.mem_cons_of_mem _ member)]
          omega

section Collapse

variable {limit : Nat} {map : SortedMap Key Nat}

theorem mem_keys : key ∈ map.keys ↔ key ∈ keysFrom map.entries key := by
  rw [mem_keysFrom]
  exact ⟨fun member => ⟨member, le_rfl⟩, fun member => member.1⟩

theorem keysFrom_empty (none : entries = []) (bound : Key) : keysFrom entries bound = ∅ := by
  rw [none]
  rfl

section

variable (positive : 0 < limit)

include positive

theorem mem_keys_collapse :
    key ∈ (collapse limit map).keys ↔
      key ∈ map.keys ∧ (keysFrom map.entries key).card ≤ limit := by
  by_cases none : map.entries = []
  · simp [collapse, SortedMap.keys, none, collapseEntries]
  · exact (collapseEntries_spec positive none map.sorted (.inl rfl)).2.1 key

theorem total_collapse : total (collapse limit map).entries = total map.entries := by
  by_cases none : map.entries = []
  · simp [collapse, none, collapseEntries]
  · rw [collapse, (collapseEntries_spec positive none map.sorted (.inl rfl)).1, Nat.zero_add]

theorem sumFrom_collapse (bound : Key) :
    sumFrom (collapse limit map).entries bound =
      if (keysFrom map.entries bound).card < limit then sumFrom map.entries bound
      else total map.entries := by
  by_cases none : map.entries = []
  · simp [collapse, none, collapseEntries, sumFrom, total]
  · obtain ⟨_, _, few, many⟩ := collapseEntries_spec positive none map.sorted (.inl rfl)
    split
    · rename_i short
      exact few bound short
    · rename_i long
      rw [collapse, (many bound (not_lt.mp long)).2, Nat.zero_add]

theorem limit_le_card_collapse (many : limit ≤ (keysFrom map.entries bound).card) :
    limit ≤ (keysFrom (collapse limit map).entries bound).card := by
  by_cases none : map.entries = []
  · rw [keysFrom_empty none, Finset.card_empty] at many
    omega
  · exact ((collapseEntries_spec positive none map.sorted (.inl rfl)).2.2.2 bound many).1

theorem keysFrom_collapse (few : (keysFrom map.entries bound).card ≤ limit) :
    keysFrom (collapse limit map).entries bound = keysFrom map.entries bound := by
  ext key
  have kept : key ∈ (collapse limit map).keys ↔
      key ∈ map.keys ∧ (keysFrom map.entries key).card ≤ limit := mem_keys_collapse positive
  rw [SortedMap.keys, SortedMap.keys] at kept
  rw [mem_keysFrom, mem_keysFrom, kept]
  constructor
  · rintro ⟨⟨member, _⟩, reached⟩
    exact ⟨member, reached⟩
  · rintro ⟨member, reached⟩
    refine ⟨⟨member, (Finset.card_le_card ?_).trans few⟩, reached⟩
    intro other other_mem
    rw [mem_keysFrom] at other_mem ⊢
    exact ⟨other_mem.1, reached.trans other_mem.2⟩

theorem collapse_addAll_collapse (entries : List (Key × Nat)) :
    collapse limit (addAll (collapse limit map) entries) = collapse limit (addAll map entries) := by
  have card_le (bound : Key) :
      (keysFrom map.entries bound).card ≤ (keysFrom (addAll map entries).entries bound).card := by
    rw [keysFrom_addAll]
    exact Finset.card_le_card Finset.subset_union_left
  have same_keys {bound : Key} (few : (keysFrom map.entries bound).card ≤ limit) :
      keysFrom (addAll (collapse limit map) entries).entries bound =
        keysFrom (addAll map entries).entries bound := by
    rw [keysFrom_addAll, keysFrom_addAll, keysFrom_collapse positive few]
  refine ext_sumFrom (fun key => ?_) (fun bound => ?_)
  · rw [mem_keys_collapse positive, mem_keys_collapse positive, mem_keys, mem_keys]
    by_cases few : (keysFrom map.entries key).card ≤ limit
    · rw [same_keys few]
    · -- The collapse dropped this key, and what it kept above it fills the bound.
      constructor
      · rintro ⟨member, held⟩
        have full : limit ≤ (keysFrom (collapse limit map).entries key).card :=
          limit_le_card_collapse positive (not_le.mp few).le
        rw [keysFrom_addAll] at member held
        have all : keysFrom (collapse limit map).entries key =
            keysFrom (collapse limit map).entries key ∪ keysFrom entries key :=
          Finset.eq_of_subset_of_card_le Finset.subset_union_left (held.trans full)
        rw [← all, ← mem_keys, mem_keys_collapse positive] at member
        exact absurd member.2 few
      · rintro ⟨_, held⟩
        exact absurd ((card_le key).trans held) few
  · rw [sumFrom_collapse positive, sumFrom_collapse positive, total_addAll, total_addAll,
      total_collapse positive, sumFrom_addAll, sumFrom_addAll]
    by_cases few : (keysFrom map.entries bound).card < limit
    · rw [same_keys few.le, sumFrom_collapse positive, if_pos few]
    · have full : limit ≤ (keysFrom (collapse limit map).entries bound).card :=
        limit_le_card_collapse positive (not_lt.mp few)
      have more : limit ≤ (keysFrom (addAll (collapse limit map) entries).entries bound).card := by
        rw [keysFrom_addAll]
        exact full.trans (Finset.card_le_card Finset.subset_union_left)
      rw [if_neg (not_lt.mpr more), if_neg (not_lt.mpr ((not_lt.mp few).trans (card_le bound)))]

end

theorem addAll_congr (keys : ∀ bound, keysFrom left bound = keysFrom right bound)
    (sums : ∀ bound, sumFrom left bound = sumFrom right bound) :
    addAll map left = addAll map right := by
  refine ext_sumFrom (fun key => ?_) (fun bound => ?_)
  · rw [mem_keys, mem_keys, keysFrom_addAll, keysFrom_addAll, keys]
  · rw [sumFrom_addAll, sumFrom_addAll, sums]

theorem addAll_comm (left right : SortedMap Key Nat) :
    addAll left right.entries = addAll right left.entries := by
  refine ext_sumFrom (fun key => ?_) (fun bound => ?_)
  · rw [mem_keys, mem_keys, keysFrom_addAll, keysFrom_addAll, Finset.union_comm]
  · rw [sumFrom_addAll, sumFrom_addAll, Nat.add_comm]

end Collapse

theorem mem_keys_addAll_empty :
    key ∈ (addAll .empty entries).keys ↔ key ∈ entries.map Prod.fst := by
  have bare : keysFrom (SortedMap.empty : SortedMap Key Nat).entries key = ∅ := rfl
  rw [mem_keys, keysFrom_addAll, bare, Finset.empty_union, mem_keysFrom, and_iff_left le_rfl]

theorem le_of_head_keys {floor : Key} (lowest : map.keys.head? = some floor)
    (member : key ∈ map.keys) : floor ≤ key := by
  obtain ⟨later, same⟩ := List.head?_eq_some_iff.mp lowest
  have sorted : map.keys.Pairwise (· < ·) := List.pairwise_map.mpr map.sorted
  rw [same] at sorted member
  rcases List.mem_cons.mp member with rfl | behind
  · exact le_rfl
  · exact ((List.pairwise_cons.mp sorted).1 key behind).le

/-- A collapse counts every key which was dropped under the lowest one kept. -/
theorem collapse_eq_raised {limit : Nat} (positive : 0 < limit) {floor : Key}
    (lowest : (collapse limit map).keys.head? = some floor) :
    collapse limit map =
      addAll .empty (map.entries.map fun entry => (max floor entry.1, entry.2)) := by
  have floor_mem : floor ∈ (collapse limit map).keys := List.mem_of_mem_head? lowest
  obtain ⟨floor_held, floor_few⟩ := (mem_keys_collapse positive).mp floor_mem
  have above {key : Key} (member : key ∈ (collapse limit map).keys) : floor ≤ key :=
    le_of_head_keys lowest member
  have fewer {key : Key} (higher : floor ≤ key) :
      (keysFrom map.entries key).card ≤ (keysFrom map.entries floor).card := by
    refine Finset.card_le_card fun other member => ?_
    rw [mem_keysFrom] at member ⊢
    exact ⟨member.1, higher.trans member.2⟩
  refine ext_sumFrom (fun key => ?_) fun bound => ?_
  · rw [mem_keys_addAll_empty, List.map_map]
    constructor
    · intro member
      obtain ⟨entry, held, rfl⟩ := List.mem_map.mp ((mem_keys_collapse positive).mp member).1
      exact List.mem_map.mpr ⟨entry, held, max_eq_right (above member)⟩
    · intro raised
      obtain ⟨entry, held, rfl⟩ := List.mem_map.mp raised
      rcases le_total entry.1 floor with low | high
      · rw [Function.comp_apply, max_eq_left low]
        exact floor_mem
      · rw [Function.comp_apply, max_eq_right high]
        exact (mem_keys_collapse positive).mpr
          ⟨List.mem_map_of_mem held, (fewer high).trans floor_few⟩
  · rw [sumFrom_addAll, show sumFrom (SortedMap.empty : SortedMap Key Nat).entries bound = 0 from
      rfl, Nat.zero_add]
    rcases le_or_gt bound floor with low | high
    · have every : total (map.entries.map fun entry => (max floor entry.1, entry.2)) =
          total map.entries := by
        rw [total, total, List.map_map]
        rfl
      rw [sumFrom_eq_total, sumFrom_eq_total, total_collapse positive, every]
      · intro entry member
        obtain ⟨old, -, rfl⟩ := List.mem_map.mp member
        exact low.trans (le_max_left _ _)
      · exact fun entry member => low.trans (above (List.mem_map_of_mem member))
    · have short : (keysFrom map.entries bound).card < limit := by
        refine lt_of_lt_of_le (Finset.card_lt_card ?_) floor_few
        refine ⟨fun other member => ?_, fun subset => ?_⟩
        · rw [mem_keysFrom] at member ⊢
          exact ⟨member.1, high.le.trans member.2⟩
        · exact not_le.mpr high (mem_keysFrom.mp (subset (mem_keysFrom.mpr
            ⟨floor_held, le_rfl⟩))).2
      rw [sumFrom_collapse positive, if_pos short, sumFrom, sumFrom, List.filter_map, List.map_map]
      refine congrArg List.sum ?_
      have same : map.entries.filter (fun entry => decide (bound ≤ entry.1)) =
          map.entries.filter ((fun entry : Key × Nat => decide (bound ≤ entry.1)) ∘
            fun entry => (max floor entry.1, entry.2)) :=
        List.filter_congr fun entry _ => by simp [not_le.mpr high]
      rw [same]
      rfl

/-- Every key as often as it is counted. -/
def spread (entries : List (Key × Nat)) : List Key :=
  entries.flatMap fun entry => List.replicate entry.2 entry.1

omit [LinearOrder Key] in
theorem spread_cons (key : Key) (count : Nat) (entries : List (Key × Nat)) :
    spread ((key, count) :: entries) = List.replicate count key ++ spread entries :=
  List.flatMap_cons

omit [LinearOrder Key] in
theorem spread_ones (keys : List Key) : spread (keys.map fun key => (key, 1)) = keys := by
  induction keys with
  | nil => rfl
  | cons key keys ih => rw [List.map_cons, spread_cons, ih, List.replicate_one, List.singleton_append]

omit [LinearOrder Key] in
theorem spread_map {Other : Type*} (name : Key → Other) (entries : List (Key × Nat)) :
    spread (entries.map fun entry => (name entry.1, entry.2)) = (spread entries).map name := by
  induction entries with
  | nil => rfl
  | cons entry entries ih =>
      rw [List.map_cons, spread_cons, ih, spread_cons, List.map_append, List.map_replicate]

theorem spread_insertEntry (sorted : entries.Pairwise fun left right => left.1 < right.1)
    (key : Key) (count : Nat) :
    (spread (SortedMap.insertEntry key ((SortedMap.lookup key entries).getD 0 + count)
      entries)).Perm (List.replicate count key ++ spread entries) := by
  induction entries with
  | nil => rw [SortedMap.lookup, Option.getD_none, Nat.zero_add, SortedMap.insertEntry, spread_cons]
  | cons head entries ih =>
      obtain ⟨below, later⟩ := List.pairwise_cons.mp sorted
      obtain ⟨first, old⟩ := head
      by_cases same : first = key
      · subst same
        rw [SortedMap.lookup, if_pos rfl, Option.getD_some, SortedMap.insertEntry,
          if_neg (lt_irrefl _), if_pos rfl, spread_cons, spread_cons, Nat.add_comm,
          List.replicate_add, List.append_assoc]
      · have skipped : SortedMap.lookup key ((first, old) :: entries) =
            SortedMap.lookup key entries := by
          rw [SortedMap.lookup, if_neg same]
        rw [skipped, SortedMap.insertEntry]
        split
        · rename_i before
          have absent : SortedMap.lookup key entries = none :=
            SortedMap.lookup_eq_none fun entry member => before.trans (below entry member)
          rw [absent, Option.getD_none, Nat.zero_add, spread_cons]
        · rw [spread_cons, spread_cons]
          refine ((ih later).append_left _).trans ?_
          rw [← List.append_assoc, ← List.append_assoc]
          exact List.perm_append_comm.append_right _

theorem spread_addAll (map : SortedMap Key Nat) (entries : List (Key × Nat)) :
    (spread (addAll map entries).entries).Perm (spread map.entries ++ spread entries) := by
  induction entries generalizing map with
  | nil => rw [addAll, List.foldl_nil, spread, spread, List.flatMap_nil, List.append_nil]
  | cons entry entries ih =>
      obtain ⟨key, count⟩ := entry
      rw [addAll, List.foldl_cons, ← addAll, spread_cons, ← List.append_assoc]
      refine (ih _).trans (.append_right _ ?_)
      exact (spread_insertEntry map.sorted key count).trans List.perm_append_comm

theorem pairwise_spread (sorted : entries.Pairwise fun left right => left.1 < right.1) :
    (spread entries).Pairwise (· ≤ ·) := by
  induction entries with
  | nil => exact .nil
  | cons entry entries ih =>
      obtain ⟨key, count⟩ := entry
      obtain ⟨below, later⟩ := List.pairwise_cons.mp sorted
      rw [spread_cons]
      refine List.pairwise_append.mpr ⟨?_, ih later, ?_⟩
      · exact List.pairwise_replicate.mpr (.inr le_rfl)
      · intro left left_mem right right_mem
        obtain ⟨entry, member, held⟩ := List.mem_flatMap.mp right_mem
        rw [List.eq_of_mem_replicate left_mem, List.eq_of_mem_replicate held]
        exact (below entry member).le

theorem count_spread (sorted : entries.Pairwise fun left right => left.1 < right.1) (key : Key) :
    (spread entries).count key = (SortedMap.lookup key entries).getD 0 := by
  induction entries with
  | nil => rfl
  | cons entry entries ih =>
      obtain ⟨first, count⟩ := entry
      obtain ⟨below, later⟩ := List.pairwise_cons.mp sorted
      rw [spread_cons, List.count_append, List.count_replicate, ih later, SortedMap.lookup]
      by_cases same : first = key
      · subst same
        have absent : SortedMap.lookup first entries = none :=
          SortedMap.lookup_eq_none below
        rw [if_pos (beq_self_eq_true _), if_pos rfl, absent]
        rfl
      · rw [if_neg (by simpa using same), if_neg same, Nat.zero_add]

end HighCounts
