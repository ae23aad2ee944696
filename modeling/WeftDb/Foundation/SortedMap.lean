import Mathlib.Data.List.Sort
import Mathlib.Order.Basic

/-!
# Maps in the order of their keys

A sorted map lists its entries in ascending order of key, each key once.  Two maps with the same
lookups are the same map, so what a sequence of insertions gives can be read off the lookups.
-/

/-- Entries in strictly ascending order of key. -/
@[ext]
structure SortedMap (Key Value : Type*) [LinearOrder Key] where
  entries : List (Key × Value)
  sorted : entries.Pairwise fun left right => left.1 < right.1

namespace SortedMap

variable {Key Value : Type*} [LinearOrder Key]
variable {entries : List (Key × Value)} {value : Value} {target : Key} {Other : Type*}

/-- The map without entries. -/
def empty : SortedMap Key Value where
  entries := []
  sorted := .nil

section Lookup

/-- The value of the first entry under a key. -/
def lookup (target : Key) : List (Key × Value) → Option Value
  | [] => none
  | (key, value) :: entries => if key = target then some value else lookup target entries

/-- Put a value under a key, in place of the one which is there. -/
def insertEntry (target : Key) (value : Value) : List (Key × Value) → List (Key × Value)
  | [] => [(target, value)]
  | (key, old) :: entries =>
      if target < key then (target, value) :: (key, old) :: entries
      else if key = target then (target, value) :: entries
      else (key, old) :: insertEntry target value entries

theorem mem_insertEntry {entry : Key × Value} (member : entry ∈ insertEntry target value entries) :
    entry = (target, value) ∨ entry ∈ entries := by
  induction entries with
  | nil => exact .inl (List.mem_singleton.mp member)
  | cons head entries ih =>
      rw [insertEntry] at member
      split at member
      · exact List.mem_cons.mp member
      split at member
      · exact (List.mem_cons.mp member).imp_right fun later => List.mem_cons_of_mem _ later
      · rcases List.mem_cons.mp member with same | later
        · exact .inr (same ▸ List.mem_cons_self)
        · exact (ih later).imp_right fun old => List.mem_cons_of_mem _ old

theorem sorted_insertEntry (sorted : entries.Pairwise fun left right => left.1 < right.1) :
    (insertEntry target value entries).Pairwise fun left right => left.1 < right.1 := by
  induction entries with
  | nil => exact List.pairwise_singleton _ _
  | cons head entries ih =>
      obtain ⟨below, later⟩ := List.pairwise_cons.mp sorted
      rw [insertEntry]
      split
      · rename_i first
        refine List.pairwise_cons.mpr ⟨fun entry member => ?_, sorted⟩
        rcases List.mem_cons.mp member with rfl | member
        · exact first
        · exact first.trans (below entry member)
      split
      · rename_i same
        exact List.pairwise_cons.mpr ⟨fun entry member => same ▸ below entry member, later⟩
      · rename_i reaches differs
        refine List.pairwise_cons.mpr ⟨fun entry member => ?_, ih later⟩
        rcases mem_insertEntry member with rfl | member
        · exact lt_of_le_of_ne (not_lt.mp reaches) differs
        · exact below entry member

theorem lookup_insertEntry (target other : Key) (value : Value) (entries : List (Key × Value)) :
    lookup other (insertEntry target value entries) =
      if target = other then some value else lookup other entries := by
  induction entries with
  | nil => rfl
  | cons head entries ih =>
      rw [insertEntry]
      split
      · rfl
      split
      · rename_i same
        rw [lookup, lookup, same]
        split <;> rfl
      · rename_i differs
        rw [lookup, lookup, ih]
        split
        · rename_i reached
          rw [if_neg fun same => differs (reached.trans same.symm)]
        · rfl

theorem lookup_eq_some (sorted : entries.Pairwise fun left right => left.1 < right.1) :
    lookup target entries = some value ↔ (target, value) ∈ entries := by
  induction entries with
  | nil => simp [lookup]
  | cons head entries ih =>
      obtain ⟨below, later⟩ := List.pairwise_cons.mp sorted
      obtain ⟨key, first⟩ := head
      rw [lookup, List.mem_cons, Prod.mk.injEq]
      split
      · rename_i same
        constructor
        · intro found
          exact .inl ⟨same.symm, (Option.some.inj found).symm⟩
        · rintro (⟨_, rfl⟩ | member)
          · rfl
          · exact absurd (below _ member) (same ▸ lt_irrefl target)
      · rename_i differs
        rw [ih later]
        exact ⟨.inr, fun found => found.resolve_left fun same => differs same.1.symm⟩

end Lookup

/-- The value under a key. -/
def find? (map : SortedMap Key Value) (target : Key) : Option Value :=
  lookup target map.entries

/-- Put a value under a key. -/
def insert (map : SortedMap Key Value) (target : Key) (value : Value) : SortedMap Key Value where
  entries := insertEntry target value map.entries
  sorted := sorted_insertEntry map.sorted

/-- The keys, in ascending order. -/
def keys (map : SortedMap Key Value) : List Key :=
  map.entries.map Prod.fst

@[simp]
theorem find?_empty (target : Key) : (empty : SortedMap Key Value).find? target = none :=
  rfl

theorem find?_insert (map : SortedMap Key Value) (target other : Key) (value : Value) :
    (map.insert target value).find? other =
      if target = other then some value else map.find? other :=
  lookup_insertEntry target other value map.entries

theorem find?_eq_some {map : SortedMap Key Value} :
    map.find? target = some value ↔ (target, value) ∈ map.entries :=
  lookup_eq_some map.sorted

theorem nodup_keys (map : SortedMap Key Value) : map.keys.Nodup :=
  List.pairwise_map.mpr (map.sorted.imp ne_of_lt)

theorem nodup_entries (map : SortedMap Key Value) : map.entries.Nodup :=
  map.sorted.imp fun below same => absurd (same ▸ below) (lt_irrefl _)

theorem ext_find? {left right : SortedMap Key Value}
    (same : ∀ key, left.find? key = right.find? key) : left = right := by
  have perm : left.entries.Perm right.entries := by
    refine (List.perm_ext_iff_of_nodup left.nodup_entries right.nodup_entries).mpr ?_
    rintro ⟨key, value⟩
    rw [← find?_eq_some, ← find?_eq_some, same]
  refine SortedMap.ext (perm.eq_of_pairwise ?_ left.sorted right.sorted)
  intro first second _ _ below above
  exact absurd (below.trans above) (lt_irrefl _)

theorem lookup_eq_none (above : ∀ entry ∈ entries, target < entry.1) :
    lookup target entries = none := by
  induction entries with
  | nil => rfl
  | cons entry entries ih =>
      obtain ⟨first, later⟩ := List.forall_mem_cons.mp above
      rw [lookup, if_neg first.ne', ih later]

/-- Entries with the same keys, and related values under each of them. -/
theorem forall₂_of_lookup {relation : Value → Other → Prop} {others : List (Key × Other)}
    (sorted : entries.Pairwise fun left right => left.1 < right.1)
    (other_sorted : others.Pairwise fun left right => left.1 < right.1)
    (related : ∀ key, Option.Rel relation (lookup key entries) (lookup key others)) :
    List.Forall₂ (fun entry other => entry.1 = other.1 ∧ relation entry.2 other.2) entries
      others := by
  induction entries generalizing others with
  | nil =>
      cases others with
      | nil => exact .nil
      | cons other others =>
          have absurdity := related other.1
          rw [lookup, lookup, if_pos rfl] at absurdity
          cases absurdity
  | cons entry entries ih =>
      obtain ⟨below, later⟩ := List.pairwise_cons.mp sorted
      have here := related entry.1
      rw [lookup, if_pos rfl] at here
      cases others with
      | nil => cases here
      | cons other others =>
          obtain ⟨other_below, other_later⟩ := List.pairwise_cons.mp other_sorted
          have same : entry.1 = other.1 := by
            rcases lt_trichotomy entry.1 other.1 with lower | same | higher
            · have absent : lookup entry.1 (other :: others) = none :=
                lookup_eq_none (List.forall_mem_cons.mpr
                  ⟨lower, fun entry member => lower.trans (other_below entry member)⟩)
              rw [absent] at here
              cases here
            · exact same
            · have there := related other.1
              have absent : lookup other.1 (entry :: entries) = none :=
                lookup_eq_none (List.forall_mem_cons.mpr
                  ⟨higher, fun entry member => higher.trans (below entry member)⟩)
              rw [absent, lookup, if_pos rfl] at there
              cases there
          rw [lookup, if_pos same.symm] at here
          cases here with
          | some first =>
              refine .cons ⟨same, first⟩ (ih later other_later fun key => ?_)
              by_cases reached : entry.1 = key
              · subst reached
                rw [lookup_eq_none below, lookup_eq_none (same ▸ other_below)]
                exact .none
              · have rest := related key
                rwa [lookup, lookup, if_neg reached, if_neg (same ▸ reached)] at rest

/-- Fold the entries of a map into another one, putting together the values under one key. -/
def mergeWith (combine : Value → Value → Value) (map : SortedMap Key Value) :
    List (Key × Value) → SortedMap Key Value
  | [] => map
  | (key, value) :: later =>
      mergeWith combine
        (map.insert key (match map.find? key with
          | some mine => combine mine value
          | none => value)) later

/-- The value of a key which may be in either of two maps. -/
def combined (combine : Value → Value → Value) : Option Value → Option Value → Option Value
  | some mine, some theirs => some (combine mine theirs)
  | some mine, none => some mine
  | none, theirs => theirs

theorem find?_mergeWith (combine : Value → Value → Value) (map : SortedMap Key Value)
    (sorted : entries.Pairwise fun left right => left.1 < right.1) (target : Key) :
    (mergeWith combine map entries).find? target =
      combined combine (map.find? target) (lookup target entries) := by
  induction entries generalizing map with
  | nil =>
      rw [mergeWith, lookup]
      cases map.find? target <;> rfl
  | cons head entries ih =>
      obtain ⟨below, later⟩ := List.pairwise_cons.mp sorted
      obtain ⟨key, value⟩ := head
      rw [mergeWith, ih _ later, find?_insert, lookup]
      by_cases same : key = target
      · subst same
        rw [if_pos rfl, if_pos rfl, lookup_eq_none below]
        cases map.find? key <;> rfl
      · rw [if_neg same, if_neg same]

/-- Put entries into a map, in place of those which are there. -/
def extend (map : SortedMap Key Value) (entries : List (Key × Value)) : SortedMap Key Value :=
  mergeWith (fun _ new => new) map entries

theorem find?_extend (map : SortedMap Key Value)
    (sorted : entries.Pairwise fun left right => left.1 < right.1) (target : Key) :
    (map.extend entries).find? target = (lookup target entries).or (map.find? target) := by
  rw [extend, find?_mergeWith _ _ sorted]
  cases map.find? target <;> cases lookup target entries <;> rfl

theorem lookup_map (change : Value → Other) (entries : List (Key × Value)) (target : Key) :
    lookup target (entries.map fun entry => (entry.1, change entry.2)) =
      (lookup target entries).map change := by
  induction entries with
  | nil => rfl
  | cons head entries ih =>
      rw [List.map_cons, lookup, lookup, ih]
      split <;> rfl

section FilterMap

variable {Other : Type*} (pick : Key → Value → Option Other)

/-- The entries which are picked, with what they are picked as. -/
def filterMapEntries : List (Key × Value) → List (Key × Other)
  | [] => []
  | (key, value) :: entries =>
      match pick key value with
      | some other => (key, other) :: filterMapEntries entries
      | none => filterMapEntries entries

omit [LinearOrder Key] in
theorem exists_of_mem_filterMapEntries {entry : Key × Other}
    (member : entry ∈ filterMapEntries pick entries) : ∃ old ∈ entries, old.1 = entry.1 := by
  induction entries with
  | nil => cases member
  | cons head entries ih =>
      rw [filterMapEntries] at member
      split at member
      · rcases List.mem_cons.mp member with rfl | later
        · exact ⟨head, List.mem_cons_self, rfl⟩
        · obtain ⟨old, inside, same⟩ := ih later
          exact ⟨old, List.mem_cons_of_mem _ inside, same⟩
      · obtain ⟨old, inside, same⟩ := ih member
        exact ⟨old, List.mem_cons_of_mem _ inside, same⟩

theorem sorted_filterMapEntries (sorted : entries.Pairwise fun left right => left.1 < right.1) :
    (filterMapEntries pick entries).Pairwise fun left right => left.1 < right.1 := by
  induction entries with
  | nil => exact .nil
  | cons head entries ih =>
      obtain ⟨below, later⟩ := List.pairwise_cons.mp sorted
      rw [filterMapEntries]
      split
      · refine .cons (fun entry member => ?_) (ih later)
        obtain ⟨old, inside, same⟩ := exists_of_mem_filterMapEntries pick member
        exact same ▸ below old inside
      · exact ih later

/-- The part of a map which is picked. -/
def filterMap (map : SortedMap Key Value) : SortedMap Key Other where
  entries := filterMapEntries pick map.entries
  sorted := sorted_filterMapEntries pick map.sorted

theorem find?_filterMap (map : SortedMap Key Value) (target : Key) :
    (map.filterMap pick).find? target = (map.find? target).bind (pick target) := by
  obtain ⟨entries, sorted⟩ := map
  change lookup target (filterMapEntries pick entries) = (lookup target entries).bind (pick target)
  induction entries with
  | nil => rfl
  | cons head entries ih =>
      obtain ⟨below, later⟩ := List.pairwise_cons.mp sorted
      obtain ⟨key, value⟩ := head
      rw [filterMapEntries, lookup]
      by_cases same : key = target
      · subst same
        rw [if_pos rfl, Option.bind_some]
        split
        · rename_i other picked
          rw [lookup, if_pos rfl, picked]
        · rename_i dropped
          rw [ih later, lookup_eq_none below, dropped]
          rfl
      · rw [if_neg same]
        split
        · rw [lookup, if_neg same, ih later]
        · exact ih later

end FilterMap

end SortedMap
