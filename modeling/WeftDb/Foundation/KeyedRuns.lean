import Mathlib.Data.List.Forall2
import Mathlib.Data.List.Induction
import WeftDb.Foundation.SortedMap

/-!
# Runs of items under one key

A sequence is cut into runs, each under one key and accumulated on its own.  Merging the
accumulators of the runs of a key, in their order, gives one which holds all items of that key.
Items pushed under their keys, one after the other, are held as one run a key, in their order.
-/

namespace KeyedRuns

variable {Key Item Acc : Type*} [LinearOrder Key]

/-- What is held for a list of items: nothing if there are none. -/
def Represents (holds : Acc → List Item → Prop) : Option Acc → List Item → Prop
  | none, items => items = []
  | some acc, items => items ≠ [] ∧ holds acc items

/-- An accumulated run. -/
structure RunOf (holds : Acc → List Item → Prop) (key : Item → Key) (entry : Key × Acc)
    (run : List Item) : Prop where
  nonempty : run ≠ []
  held : holds entry.2 run
  keyed : ∀ item ∈ run, key item = entry.1

/-- The items under a key. -/
def under (key : Item → Key) (items : List Item) (target : Key) : List Item :=
  items.filter fun item => decide (key item = target)

variable {holds : Acc → List Item → Prop} {key : Item → Key}

theorem under_append (left right : List Item) (target : Key) :
    under key (left ++ right) target = under key left target ++ under key right target :=
  List.filter_append _ _

variable {items : List Item} {entries : List (Key × Acc)}

theorem under_eq_self {target : Key} (keyed : ∀ item ∈ items, key item = target) :
    under key items target = items :=
  List.filter_eq_self.mpr fun item member => decide_eq_true (keyed item member)

theorem under_eq_nil {own target : Key} (keyed : ∀ item ∈ items, key item = own)
    (other : own ≠ target) : under key items target = [] :=
  List.filter_eq_nil_iff.mpr fun item member same =>
    other ((keyed item member).symm.trans (of_decide_eq_true same))

theorem represents_mergeWith {follows : Item → Item → Prop} {merge : Acc → Acc → Acc}
    (merges : ∀ {left right mine theirs},
      (∀ earlier ∈ mine, ∀ later ∈ theirs, follows earlier later) →
        holds left mine → holds right theirs → holds (merge left right) (mine ++ theirs))
    {runs : List (List Item)} (accumulated : List.Forall₂ (RunOf holds key) entries runs)
    {map : SortedMap Key Acc} {before : List Item}
    (apart : (before :: runs).Pairwise fun mine theirs =>
      ∀ earlier ∈ mine, ∀ later ∈ theirs, follows earlier later)
    (start : ∀ target, Represents holds (map.find? target) (under key before target))
    (target : Key) :
    Represents holds ((SortedMap.mergeWith merge map entries).find? target)
      (under key (before ++ runs.flatten) target) := by
  induction accumulated generalizing map before with
  | nil => simpa [SortedMap.mergeWith] using start target
  | @cons entry run entries runs first _ ih =>
      obtain ⟨own, acc⟩ := entry
      obtain ⟨before_all, later_apart⟩ := List.pairwise_cons.mp apart
      obtain ⟨run_all, rest_apart⟩ := List.pairwise_cons.mp later_apart
      have extended : ((before ++ run) :: runs).Pairwise fun mine theirs =>
          ∀ earlier ∈ mine, ∀ later ∈ theirs, follows earlier later := by
        refine List.pairwise_cons.mpr ⟨fun theirs listed earlier member => ?_, rest_apart⟩
        rcases List.mem_append.mp member with member | member
        · exact before_all theirs (List.mem_cons_of_mem _ listed) earlier member
        · exact run_all theirs listed earlier member
      rw [SortedMap.mergeWith, List.flatten_cons, ← List.append_assoc]
      refine ih extended fun other => ?_
      rw [SortedMap.find?_insert, under_append]
      by_cases same : own = other
      · subst same
        have earlier := start own
        rw [if_pos rfl, under_eq_self first.keyed]
        refine ⟨List.append_ne_nil_of_right_ne_nil _ first.nonempty, ?_⟩
        cases found : map.find? own with
        | none =>
            rw [found, Represents] at earlier
            rw [earlier, List.nil_append]
            exact first.held
        | some mine =>
            rw [found] at earlier
            refine merges (fun item member => ?_) earlier.2 first.held
            exact before_all run List.mem_cons_self item (List.mem_filter.mp member).1
      · rw [if_neg same, under_eq_nil first.keyed same, List.append_nil]
        exact start other

theorem mergeWith_sorted (merge : Acc → Acc → Acc)
    (sorted : entries.Pairwise fun left right => left.1 < right.1) :
    SortedMap.mergeWith merge .empty entries = ⟨entries, sorted⟩ :=
  SortedMap.ext_find? fun target => by
    rw [SortedMap.find?_mergeWith _ _ sorted, SortedMap.find?_empty]
    rfl

theorem lookup_map {Other : Type*} (image : Acc → Other) (entries : List (Key × Acc))
    (target : Key) :
    SortedMap.lookup target (entries.map fun entry => (entry.1, image entry.2)) =
      (SortedMap.lookup target entries).map image := by
  induction entries with
  | nil => rfl
  | cons entry entries ih =>
      rw [List.map_cons, SortedMap.lookup, SortedMap.lookup, ih]
      split <;> rfl

end KeyedRuns

namespace SortedMap

variable {Key Item Value : Type*} [LinearOrder Key]

/-- Append a value to the run of a key. -/
def pushUnder (map : SortedMap Key (List Value)) (key : Key) (value : Value) :
    SortedMap Key (List Value) :=
  map.insert key ((map.find? key).getD [] ++ [value])

/-- The values of items in the runs of their keys. -/
def grouped (key : Item → Key) (value : Item → Value) (items : List Item) :
    SortedMap Key (List Value) :=
  items.foldl (fun map item => map.pushUnder (key item) (value item)) .empty

variable {key : Item → Key} {value : Item → Value}

theorem grouped_append_singleton (items : List Item) (item : Item) :
    grouped key value (items ++ [item]) =
      (grouped key value items).pushUnder (key item) (value item) := by
  rw [grouped, List.foldl_append]
  rfl

theorem find?_grouped (items : List Item) (target : Key) :
    (grouped key value items).find? target =
      if KeyedRuns.under key items target = [] then none
      else some ((KeyedRuns.under key items target).map value) := by
  induction items using List.reverseRecOn with
  | nil => rfl
  | append_singleton items item ih =>
      rw [grouped_append_singleton, pushUnder, find?_insert, KeyedRuns.under_append]
      by_cases own : key item = target
      · have last : KeyedRuns.under key [item] target = [item] :=
          KeyedRuns.under_eq_self (List.forall_mem_singleton.mpr own)
        have filled : KeyedRuns.under key items target ++ [item] ≠ [] :=
          List.append_ne_nil_of_right_ne_nil _ (List.cons_ne_nil _ _)
        rw [if_pos own, own, last, ih, if_neg filled, List.map_append]
        split
        · rename_i empty
          rw [empty]
          rfl
        · rfl
      · have last : KeyedRuns.under key [item] target = [] :=
          KeyedRuns.under_eq_nil (List.forall_mem_singleton.mpr rfl) own
        rw [if_neg own, last, List.append_nil, ih]

theorem mem_grouped {items : List Item} {entry : Key × List Value} :
    entry ∈ (grouped key value items).entries ↔
      KeyedRuns.under key items entry.1 ≠ [] ∧
        entry.2 = (KeyedRuns.under key items entry.1).map value := by
  obtain ⟨target, run⟩ := entry
  rw [← find?_eq_some, find?_grouped]
  split
  · rename_i empty
    simp [empty]
  · rename_i filled
    simp [filled, eq_comm]

theorem flatten_insertEntry {target : Key} {value : Value} {entries : List (Key × List Value)}
    (sorted : entries.Pairwise fun left right => left.1 < right.1) :
    ((insertEntry target ((lookup target entries).getD [] ++ [value]) entries).map
      Prod.snd).flatten.Perm (value :: (entries.map Prod.snd).flatten) := by
  induction entries with
  | nil => exact .refl _
  | cons entry entries ih =>
      obtain ⟨own, old⟩ := entry
      obtain ⟨below, later⟩ := List.pairwise_cons.mp sorted
      rw [insertEntry]
      split
      · rename_i first
        have absent : lookup target ((own, old) :: entries) = none := by
          refine lookup_eq_none fun entry member => ?_
          rcases List.mem_cons.mp member with rfl | behind
          · exact first
          · exact first.trans (below entry behind)
        rw [absent]
        exact .refl _
      · split
        · rename_i here
          rw [lookup, if_pos here, Option.getD_some, List.map_cons, List.map_cons,
            List.flatten_cons, List.flatten_cons, List.append_assoc]
          exact List.perm_middle
        · rename_i apart
          rw [lookup, if_neg apart, List.map_cons, List.map_cons, List.flatten_cons,
            List.flatten_cons]
          exact ((ih later).append_left old).trans List.perm_middle

variable (key value) in
theorem flatten_grouped (items : List Item) :
    (((grouped key value items).entries).map Prod.snd).flatten.Perm (items.map value) := by
  induction items using List.reverseRecOn with
  | nil => exact .refl _
  | append_singleton items item ih =>
      rw [grouped_append_singleton, List.map_append]
      exact (flatten_insertEntry (grouped key value items).sorted).trans
        ((ih.cons (value item)).trans (List.perm_append_singleton _ _).symm)

end SortedMap
