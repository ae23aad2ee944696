import Mathlib.Data.List.Count
import WeftDb.Foundation.KeyedRuns
import WeftDb.Foundation.StableOrder

/-!
# Sequences which are regrouped by a key

Listing the items key by key moves items of different keys past each other, but keeps the order of
the items of a key.  A coarser key then has the same items, and every key which tells more apart
has them in the same order.  Merging what is held for each key gives what is held for the coarser
one over the regrouped items.
-/

namespace KeyedRuns

open StableOrder

variable {Key Item Acc : Type*} [LinearOrder Key] {key : Item → Key}
variable {target : Key} {items : List Item} {keys : List Key}

/-- The items key by key, in the order of the keys. -/
def regrouped (key : Item → Key) (items : List Item) (keys : List Key) : List Item :=
  (keys.map (under key items)).flatten

theorem under_under_of_ne {own : Key} (other : own ≠ target) (items : List Item) :
    under key (under key items own) target = [] :=
  under_eq_nil (fun _ member => of_decide_eq_true (List.mem_filter.mp member).2) other

theorem under_under_self (items : List Item) (target : Key) :
    under key (under key items target) target = under key items target :=
  under_eq_self fun _ member => of_decide_eq_true (List.mem_filter.mp member).2

theorem under_regrouped_of_notMem (absent : target ∉ keys) :
    under key (regrouped key items keys) target = [] := by
  induction keys with
  | nil => rfl
  | cons own keys ih =>
      obtain ⟨differs, later⟩ := not_or.mp (mt List.mem_cons.mpr absent)
      rw [regrouped, List.map_cons, List.flatten_cons, under_append,
        under_under_of_ne (Ne.symm differs), List.nil_append]
      exact ih later

theorem under_regrouped_of_mem (distinct : keys.Nodup) (member : target ∈ keys) :
    under key (regrouped key items keys) target = under key items target := by
  induction keys with
  | nil => cases member
  | cons own keys ih =>
      obtain ⟨absent, later⟩ := List.nodup_cons.mp distinct
      rw [regrouped, List.map_cons, List.flatten_cons, under_append]
      by_cases same : own = target
      · subst same
        have rest : under key (keys.map (under key items)).flatten own = [] :=
          under_regrouped_of_notMem absent
        rw [under_under_self, rest, List.append_nil]
      · rw [under_under_of_ne same, List.nil_append]
        exact ih later ((List.mem_cons.mp member).resolve_left fun found => same found.symm)

/-- Sequences with the same items under every key, in the same order. -/
def SameUnder (key : Item → Key) (left right : List Item) : Prop :=
  ∀ target, under key left target = under key right target

namespace SameUnder

variable {left right : List Item}

variable (same : SameUnder key left right)

include same

theorem filter (keep : Item → Bool) : SameUnder key (left.filter keep) (right.filter keep) := by
  have swap (items : List Item) (target : Key) :
      under key (items.filter keep) target = (under key items target).filter keep := by
    rw [under, under, List.filter_filter, List.filter_filter]
    exact List.filter_congr fun item _ => Bool.and_comm _ _
  intro target
  rw [swap, swap, same target]

theorem perm : left.Perm right := by
  classical
  refine List.perm_iff_count.mpr fun item => ?_
  have counted (items : List Item) : List.count item (under key items (key item)) =
      List.count item items := List.count_filter (decide_eq_true rfl)
  rw [← counted left, ← counted right, same (key item)]

theorem sameEnds {Other : Type*} [LinearOrder Other] {finer : Item → Other}
    (tells : ∀ item other, finer item = finer other → key item = key other) :
    SameEnds finer left right := by
  have alike (target : Other) : within finer left target = within finer right target := by
    by_cases found : ∃ item, finer item = target
    · obtain ⟨item, rfl⟩ := found
      have inner (items : List Item) : within finer items (finer item) =
          within finer (under key items (key item)) (finer item) := by
        rw [within, within, under, List.filter_filter]
        refine List.filter_congr fun other _ => ?_
        by_cases tied : finer other = finer item
        · simp [tied, tells other item tied]
        · simp [tied]
      rw [inner left, inner right, same (key item)]
    · have empty (items : List Item) : within finer items target = [] :=
        within_eq_nil fun item _ tied => found ⟨item, tied⟩
      rw [empty, empty]
  exact ⟨same.perm, fun target => by rw [alike], fun target => by rw [alike]⟩

end SameUnder

variable {holds : Acc → List Item → Prop} {map : SortedMap Key Acc} {items : List Item}

theorem sameUnder_regrouped
    (represented : ∀ target, Represents holds (map.find? target) (under key items target)) :
    SameUnder key (regrouped key items map.keys) items := by
  intro target
  by_cases member : target ∈ map.keys
  · exact under_regrouped_of_mem map.nodup_keys member
  · have absent : map.find? target = none := by
      refine Option.eq_none_iff_forall_not_mem.mpr fun acc found => member ?_
      exact List.mem_map.mpr ⟨_, SortedMap.find?_eq_some.mp found, rfl⟩
    have none := represented target
    rw [absent, Represents] at none
    rw [under_regrouped_of_notMem member, none]

theorem represents_rekeyed {Coarse : Type*} [LinearOrder Coarse] {follows : Item → Item → Prop}
    {merge : Acc → Acc → Acc} (coarse : Key → Coarse)
    (merges : ∀ {left right mine theirs},
      (∀ earlier ∈ mine, ∀ later ∈ theirs, follows earlier later) →
        holds left mine → holds right theirs → holds (merge left right) (mine ++ theirs))
    (apart : ∀ earlier ∈ items, ∀ later ∈ items, key earlier < key later → follows earlier later)
    (represented : ∀ target, Represents holds (map.find? target) (under key items target))
    (target : Coarse) :
    Represents holds
      ((SortedMap.mergeWith merge .empty
        (map.entries.map fun entry => (coarse entry.1, entry.2))).find? target)
      (under (fun item => coarse (key item)) (regrouped key items map.keys) target) := by
  have accumulated : List.Forall₂ (RunOf holds fun item => coarse (key item))
      (map.entries.map fun entry => (coarse entry.1, entry.2))
      (map.keys.map (under key items)) := by
    rw [SortedMap.keys, List.map_map, List.forall₂_map_left_iff, List.forall₂_map_right_iff]
    refine List.forall₂_same.mpr fun entry member => ?_
    have held := represented entry.1
    rw [SortedMap.find?_eq_some.mpr member] at held
    exact ⟨held.1, held.2, fun item found =>
      congrArg coarse (of_decide_eq_true (List.mem_filter.mp found).2)⟩
  have separate : ([] :: map.keys.map (under key items)).Pairwise fun mine theirs =>
      ∀ earlier ∈ mine, ∀ later ∈ theirs, follows earlier later := by
    refine List.pairwise_cons.mpr ⟨fun _ _ _ member => absurd member List.not_mem_nil, ?_⟩
    refine List.pairwise_map.mpr (List.pairwise_map.mpr (map.sorted.imp ?_))
    intro first second ascending earlier earlier_mem later later_mem
    obtain ⟨earlier_item, earlier_key⟩ := List.mem_filter.mp earlier_mem
    obtain ⟨later_item, later_key⟩ := List.mem_filter.mp later_mem
    refine apart earlier earlier_item later later_item ?_
    rw [of_decide_eq_true earlier_key, of_decide_eq_true later_key]
    exact ascending
  have start (other : Coarse) : Represents holds
      ((.empty : SortedMap Coarse Acc).find? other)
        (under (fun item => coarse (key item)) [] other) := rfl
  rw [← List.nil_append (regrouped key items map.keys)]
  exact represents_mergeWith merges accumulated separate start target

end KeyedRuns
