import Mathlib.Data.List.Sort
import WeftDb.Foundation.Preference

/-!
# Sequences which differ between their keys

Two sequences may list the items of different keys in a different order.  If they begin and end
with the same item under every key, then the items at their extreme keys are the same, and so are
the neighbours of different keys once both are sorted by a stable sort.
-/

namespace StableOrder

open Preference

variable {Item Key : Type*} [LinearOrder Key] {key : Item → Key}
variable {items : List Item} {left right : List Key}

/-- The items of a key, in their order. -/
def within (key : Item → Key) (items : List Item) (target : Key) : List Item :=
  items.filter fun item => decide (key item = target)

theorem mem_within {target : Key} {item : Item} :
    item ∈ within key items target ↔ item ∈ items ∧ key item = target := by
  rw [within, List.mem_filter, decide_eq_true_eq]

theorem within_append (left right : List Item) (target : Key) :
    within key (left ++ right) target = within key left target ++ within key right target :=
  List.filter_append _ _

theorem within_eq_nil {target : Key} (absent : ∀ item ∈ items, key item ≠ target) :
    within key items target = [] :=
  List.filter_eq_nil_iff.mpr fun item member same => absent item member (of_decide_eq_true same)

theorem within_cons_self (item : Item) (items : List Item) :
    within key (item :: items) (key item) = item :: within key items (key item) :=
  List.filter_cons_of_pos (decide_eq_true rfl)

theorem within_filter (keep : Key → Bool) (items : List Item) (target : Key) :
    within key (items.filter fun item => keep (key item)) target =
      if keep target then within key items target else [] := by
  rw [within, List.filter_filter, within]
  split
  · rename_i kept
    refine List.filter_congr fun item _ => ?_
    by_cases same : key item = target
    · simp [same, kept]
    · simp [same]
  · rename_i dropped
    refine List.filter_eq_nil_iff.mpr fun item _ both => dropped ?_
    obtain ⟨same, kept⟩ := Bool.and_eq_true_iff.mp both
    exact of_decide_eq_true same ▸ kept

/-- A stable sort by the key. -/
def sortBy (key : Item → Key) (items : List Item) : List Item :=
  items.mergeSort fun left right => decide (key left ≤ key right)

theorem sortBy_perm (key : Item → Key) (items : List Item) : (sortBy key items).Perm items :=
  List.mergeSort_perm _ _

theorem sorted_sortBy (key : Item → Key) (items : List Item) :
    (sortBy key items).Pairwise fun first second => key first ≤ key second := by
  refine (List.pairwise_mergeSort ?_ ?_ items).imp of_decide_eq_true
  · intro first second third below above
    exact decide_eq_true ((of_decide_eq_true below).trans (of_decide_eq_true above))
  · intro first second
    rcases le_total (key first) (key second) with below | above
    · simp [below]
    · simp [above]

theorem sortBy_of_sorted (sorted : items.Pairwise fun first second => key first ≤ key second) :
    sortBy key items = items :=
  List.mergeSort_of_pairwise (sorted.imp decide_eq_true)

theorem sortBy_map {Other : Type*} {other_key : Other → Key} {Image : Type*} [LinearOrder Image]
    {image_key : Item → Image} {image : Other → Item} (items : List Other)
    (keeps : ∀ first second, image_key (image first) ≤ image_key (image second) ↔
      other_key first ≤ other_key second) :
    sortBy image_key (items.map image) = (sortBy other_key items).map image := by
  refine (List.map_mergeSort fun first _ second _ => ?_).symm
  rw [decide_eq_decide]
  exact (keeps first second).symm

theorem within_sortBy (key : Item → Key) (items : List Item) (target : Key) :
    within key (sortBy key items) target = within key items target := by
  have kept : (within key items target).Sublist (sortBy key items) := by
    refine List.sublist_mergeSort ?_ ?_ ?_ List.filter_sublist
    · intro first second third below above
      exact decide_eq_true ((of_decide_eq_true below).trans (of_decide_eq_true above))
    · intro first second
      rcases le_total (key first) (key second) with below | above
      · simp [below]
      · simp [above]
    · refine List.pairwise_of_forall_mem_list fun first first_mem second second_mem => ?_
      rw [(mem_within.mp first_mem).2, (mem_within.mp second_mem).2]
      exact decide_eq_true le_rfl
  have filtered : (within key items target).Sublist (within key (sortBy key items) target) := by
    have again := kept.filter fun item => decide (key item = target)
    rwa [List.filter_eq_self.mpr fun item member =>
      decide_eq_true (mem_within.mp member).2] at again
  have length : (within key (sortBy key items) target).length =
      (within key items target).length := ((sortBy_perm key items).filter _).length_eq
  exact (filtered.eq_of_length length.symm).symm

theorem map_eq_of_sorted {left right : List Item} (perm : left.Perm right)
    (left_sorted : left.Pairwise fun first second => key first ≤ key second)
    (right_sorted : right.Pairwise fun first second => key first ≤ key second) :
    left.map key = right.map key :=
  (perm.map key).eq_of_pairwise (fun _ _ _ _ => le_antisymm) (List.pairwise_map.mpr left_sorted)
    (List.pairwise_map.mpr right_sorted)

theorem getLast?_within_self (items : List Item) (last : Item) :
    (within key (items ++ [last]) (key last)).getLast? = some last := by
  rw [within_append, within_cons_self, List.getLast?_append]
  rfl

theorem ends_of_sorted {earlier later : List Item} {first second : Item}
    (sorted : (earlier ++ first :: second :: later).Pairwise fun left right =>
      key left ≤ key right) (different : key first ≠ key second) :
    (within key (earlier ++ first :: second :: later) (key first)).getLast? = some first ∧
      (within key (earlier ++ first :: second :: later) (key second)).head? = some second := by
  obtain ⟨_, rest_sorted, before⟩ := List.pairwise_append.mp sorted
  obtain ⟨first_le, later_sorted⟩ := List.pairwise_cons.mp rest_sorted
  obtain ⟨second_le, _⟩ := List.pairwise_cons.mp later_sorted
  have below : key first < key second := (first_le second List.mem_cons_self).lt_of_ne different
  have none_after : within key (second :: later) (key first) = [] := by
    refine within_eq_nil fun item member same => ?_
    rcases List.mem_cons.mp member with rfl | member
    · exact different same.symm
    · exact absurd (below.trans_le (second_le item member)) (same ▸ lt_irrefl _)
  have none_before : within key (earlier ++ [first]) (key second) = [] := by
    refine within_eq_nil fun item member same => ?_
    rcases List.mem_append.mp member with member | member
    · exact absurd ((before item member first List.mem_cons_self).trans_lt below)
        (same ▸ lt_irrefl _)
    · exact different (List.mem_singleton.mp member ▸ same)
  constructor
  · rw [within_append, within_cons_self, none_after, List.getLast?_append]
    rfl
  · rw [List.append_cons, within_append, none_before, List.nil_append, within_cons_self]
    rfl

theorem best_least_spec {held : Item} (found : (least key).best items = some held) :
    (∀ item ∈ items, key held ≤ key item) ∧
      (within key items (key held)).head? = some held := by
  obtain ⟨before, behind, rfl, beats, under⟩ := exists_split_of_best found
  have none : within key before (key held) = [] := within_eq_nil fun item member same =>
    (beats item member).ne same.symm
  constructor
  · intro item member
    rcases List.mem_append.mp member with member | member
    · exact (beats item member).le
    · rcases List.mem_cons.mp member with rfl | member
      · exact le_rfl
      · exact not_lt.mp (under item member)
  · rw [within_append, none, List.nil_append, within_cons_self]
    rfl

theorem best_latest_spec {held : Item} (found : (latest key).best items = some held) :
    (∀ item ∈ items, key item ≤ key held) ∧
      (within key items (key held)).getLast? = some held := by
  obtain ⟨before, behind, rfl, beats, under⟩ := exists_split_of_best found
  have none : within key behind (key held) = [] := within_eq_nil fun item member same =>
    under item member same.ge
  constructor
  · intro item member
    rcases List.mem_append.mp member with member | member
    · exact beats item member
    · rcases List.mem_cons.mp member with rfl | member
      · exact le_rfl
      · exact (not_le.mp (under item member)).le
  · rw [within_append, within_cons_self, none, List.getLast?_concat]

theorem within_within (items : List Item) (target : Key) :
    within key (within key items target) target = within key items target :=
  List.filter_eq_self.mpr fun _ member => decide_eq_true (mem_within.mp member).2

theorem best_least_within (items : List Item) (target : Key) :
    (least key).best (within key items target) = (within key items target).head? := by
  cases found : (least key).best (within key items target) with
  | none =>
      rw [best_eq_none.mp found]
      rfl
  | some held =>
      have spec := (best_least_spec found).2
      rw [(mem_within.mp (mem_of_best found)).2, within_within] at spec
      exact spec.symm

theorem best_latest_within (items : List Item) (target : Key) :
    (latest key).best (within key items target) =
      (within key items target).getLast? := by
  cases found : (latest key).best (within key items target) with
  | none =>
      rw [best_eq_none.mp found]
      rfl
  | some held =>
      have spec := (best_latest_spec found).2
      rw [(mem_within.mp (mem_of_best found)).2, within_within] at spec
      exact spec.symm

/-- Sequences with the same items, which begin and end the same under every key. -/
structure SameEnds (key : Item → Key) (left right : List Item) : Prop where
  perm : left.Perm right
  first : ∀ target, (within key left target).head? = (within key right target).head?
  last : ∀ target, (within key left target).getLast? = (within key right target).getLast?

namespace SameEnds

variable {left right : List Item}

section

variable (same : SameEnds key left right)

include same

theorem symm : SameEnds key right left where
  perm := same.perm.symm
  first target := (same.first target).symm
  last target := (same.last target).symm

theorem filter (keep : Key → Bool) :
    SameEnds key (left.filter fun item => keep (key item))
      (right.filter fun item => keep (key item)) where
  perm := same.perm.filter _
  first target := by
    rw [within_filter, within_filter]
    split
    · exact same.first target
    · rfl
  last target := by
    rw [within_filter, within_filter]
    split
    · exact same.last target
    · rfl

theorem best_none_iff (preference : Preference Item) :
    preference.best left = none ↔ preference.best right = none := by
  rw [best_eq_none, best_eq_none]
  exact ⟨fun empty => (empty ▸ same.perm).nil_eq.symm, fun empty => (empty ▸ same.perm).eq_nil⟩

theorem best_least_eq : (least key).best left = (least key).best right := by
  cases first : (least key).best left with
  | none => exact ((same.best_none_iff _).mp first).symm
  | some held =>
      cases second : (least key).best right with
      | none => exact first.symm.trans ((same.best_none_iff _).mpr second)
      | some other =>
          obtain ⟨held_least, held_first⟩ := best_least_spec first
          obtain ⟨other_least, other_first⟩ := best_least_spec second
          have equal : key held = key other :=
            le_antisymm (held_least other (same.perm.mem_iff.mpr (mem_of_best second)))
              (other_least held (same.perm.mem_iff.mp (mem_of_best first)))
          rw [same.first, equal] at held_first
          exact held_first.symm.trans other_first

theorem best_latest_eq :
    (latest key).best left = (latest key).best right := by
  cases first : (latest key).best left with
  | none => exact ((same.best_none_iff _).mp first).symm
  | some held =>
      cases second : (latest key).best right with
      | none => exact first.symm.trans ((same.best_none_iff _).mpr second)
      | some other =>
          obtain ⟨held_greatest, held_last⟩ := best_latest_spec first
          obtain ⟨other_greatest, other_last⟩ := best_latest_spec second
          have equal : key held = key other :=
            le_antisymm
              (other_greatest held (same.perm.mem_iff.mp (mem_of_best first)))
              (held_greatest other (same.perm.mem_iff.mpr (mem_of_best second)))
          rw [same.last, equal] at held_last
          exact held_last.symm.trans other_last

theorem sortBy : SameEnds key (sortBy key left) (sortBy key right) where
  perm := (sortBy_perm key left).trans (same.perm.trans (sortBy_perm key right).symm)
  first target := by rw [within_sortBy, within_sortBy, same.first]
  last target := by rw [within_sortBy, within_sortBy, same.last]

end

theorem of_injective (injective : Function.Injective key) (perm : left.Perm right) :
    SameEnds key left right := by
  have same (target : Key) : within key left target = within key right target := by
    have both : (within key left target).Perm (within key right target) := perm.filter _
    cases listed : within key left target with
    | nil => rw [listed] at both; exact both.nil_eq
    | cons first later =>
        have alike (items : List Item) : ∀ item ∈ within key items target, item = first := by
          intro item member
          have first_mem : first ∈ within key left target := listed ▸ List.mem_cons_self
          exact injective ((mem_within.mp member).2.trans (mem_within.mp first_mem).2.symm)
        rw [← listed, List.eq_replicate_iff.mpr ⟨rfl, alike left⟩,
          List.eq_replicate_iff.mpr ⟨rfl, alike right⟩, both.length_eq]
  exact ⟨perm, fun target => by rw [same], fun target => by rw [same]⟩

end SameEnds

theorem best_least_perm (perm : left.Perm right) :
    (least id).best left = (least id).best right :=
  (SameEnds.of_injective Function.injective_id perm).best_least_eq

theorem best_greatest_perm (perm : left.Perm right) :
    (greatest id).best left = (greatest id).best right := by
  have dual (items : List Key) : (greatest id).best items =
      (least OrderDual.toDual).best items :=
    best_congr fun _ _ _ _ => Iff.rfl
  rw [dual, dual]
  exact (SameEnds.of_injective OrderDual.toDual.injective perm).best_least_eq

end StableOrder
