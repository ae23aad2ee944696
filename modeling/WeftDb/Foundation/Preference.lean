import Mathlib.Data.List.Induction
import Mathlib.Order.Lattice

/-!
# The preferred item of a sequence

A sequence is read once, and each item replaces the held one when it is preferred to it.  What is
held after the parts of a sequence can be combined into what is held after all of it, in the order
of the parts.
-/

/-- When an item replaces the one which is held. -/
structure Preference (Item : Type*) where
  better : Item → Item → Prop
  decidable : DecidableRel better
  trans : ∀ {first second third}, better first second → better second third → better first third
  negTrans : ∀ {first second third},
    ¬better first second → ¬better second third → ¬better first third

namespace Preference

variable {Item Other Key : Type*}
variable {items : List Item}

instance (preference : Preference Item) : DecidableRel preference.better :=
  preference.decidable

section Keys

variable [LinearOrder Key]

/-- Prefer a strictly lower key: of equal keys the first one stays. -/
def least (key : Item → Key) : Preference Item where
  better new old := key new < key old
  decidable _ _ := inferInstance
  trans := lt_trans
  negTrans := fun first second => not_lt.mpr (le_trans (not_lt.mp second) (not_lt.mp first))

/-- Prefer a strictly higher key: of equal keys the first one stays. -/
def greatest (key : Item → Key) : Preference Item where
  better new old := key old < key new
  decidable _ _ := inferInstance
  trans := fun first second => lt_trans second first
  negTrans := fun first second => not_lt.mpr (le_trans (not_lt.mp first) (not_lt.mp second))

/-- Prefer a key which is at least as high: of equal keys the last one stays. -/
def latest (key : Item → Key) : Preference Item where
  better new old := key old ≤ key new
  decidable _ _ := inferInstance
  trans := fun first second => le_trans second first
  negTrans := fun first second => not_le.mpr (lt_trans (not_le.mp first) (not_le.mp second))

end Keys

/-- Compare the images of items. -/
def comap (preference : Preference Item) (image : Other → Item) : Preference Other where
  better new old := preference.better (image new) (image old)
  decidable _ _ := inferInstance
  trans := preference.trans
  negTrans := preference.negTrans

variable (preference : Preference Item)

/-- Hold the new item if nothing is held or if it is preferred. -/
def pick : Option Item → Item → Option Item
  | none, new => some new
  | some old, new => if preference.better new old then some new else some old

/-- What is held after a sequence. -/
def best (items : List Item) : Option Item :=
  items.foldl preference.pick none

/-- Combine what is held after two sequences. -/
def combine (held other : Option Item) : Option Item :=
  other.elim held (preference.pick held)

variable {preference}

theorem combine_pick (held other : Option Item) (new : Item) :
    preference.combine held (preference.pick other new) =
      preference.pick (preference.combine held other) new := by
  cases other with
  | none => rfl
  | some middle =>
      cases held with
      | none => rw [combine, pick]; split <;> simp_all [combine, pick]
      | some old =>
          simp only [combine, pick, Option.elim_some]
          by_cases new_middle : preference.better new middle
          · by_cases middle_old : preference.better middle old
            · simp [pick, new_middle, middle_old, preference.trans new_middle middle_old]
            · simp [pick, new_middle, middle_old]
          · by_cases middle_old : preference.better middle old
            · simp [pick, new_middle, middle_old]
            · simp [pick, new_middle, middle_old, preference.negTrans new_middle middle_old]

theorem combine_foldl (held other : Option Item) (items : List Item) :
    preference.combine held (items.foldl preference.pick other) =
      items.foldl preference.pick (preference.combine held other) := by
  induction items generalizing other with
  | nil => rfl
  | cons item items ih =>
      rw [List.foldl_cons, List.foldl_cons, ih, combine_pick]

theorem best_append (left right : List Item) :
    preference.best (left ++ right) =
      preference.combine (preference.best left) (preference.best right) := by
  rw [best, best, best, List.foldl_append, combine_foldl]
  rfl

theorem best_append_singleton (items : List Item) (item : Item) :
    preference.best (items ++ [item]) = preference.pick (preference.best items) item := by
  rw [best, best, List.foldl_append]
  rfl

theorem pick_isSome (held : Option Item) (new : Item) : (preference.pick held new).isSome := by
  unfold pick
  split
  · rfl
  · split <;> rfl

theorem best_eq_none : preference.best items = none ↔ items = [] := by
  induction items using List.reverseRecOn with
  | nil => exact ⟨fun _ => rfl, fun _ => rfl⟩
  | append_singleton items item _ =>
      rw [best_append_singleton]
      constructor
      · intro none
        have some : (preference.pick (preference.best items) item).isSome := pick_isSome _ _
        rw [none] at some
        cases some
      · intro empty
        exact absurd empty (List.append_ne_nil_of_right_ne_nil _ (List.cons_ne_nil _ _))

/-- What is held is preferred to every item before it, and no item behind it to that one. -/
theorem exists_split_of_best {held : Item} (found : preference.best items = some held) :
    ∃ before behind, items = before ++ held :: behind ∧
      (∀ item ∈ before, preference.better held item) ∧
        ∀ item ∈ behind, ¬preference.better item held := by
  induction items using List.reverseRecOn generalizing held with
  | nil => cases found
  | append_singleton items last ih =>
      rw [best_append_singleton] at found
      cases earlier : preference.best items with
      | none =>
          rw [earlier] at found
          cases found
          rw [best_eq_none.mp earlier]
          exact ⟨[], [], rfl, List.forall_mem_nil _, List.forall_mem_nil _⟩
      | some old =>
          obtain ⟨before, behind, rfl, beats, under⟩ := ih earlier
          rw [earlier, pick] at found
          split at found
          · rename_i preferred
            cases found
            refine ⟨_, [], rfl, fun item member => ?_, List.forall_mem_nil _⟩
            rcases List.mem_append.mp member with member | member
            · exact preference.trans preferred (beats item member)
            · rcases List.mem_cons.mp member with rfl | member
              · exact preferred
              · exact by_contra fun worse =>
                  preference.negTrans worse (under item member) preferred
          · rename_i kept
            cases found
            refine ⟨before, behind ++ [last], by rw [List.append_assoc, List.cons_append], beats, ?_⟩
            exact List.forall_mem_append.mpr ⟨under, List.forall_mem_singleton.mpr kept⟩

theorem mem_of_best {held : Item} (found : preference.best items = some held) : held ∈ items := by
  obtain ⟨before, behind, rfl, -, -⟩ := exists_split_of_best found
  exact List.mem_append_right _ List.mem_cons_self

theorem best_map (image : Other → Item) (items : List Other) :
    preference.best (items.map image) = ((preference.comap image).best items).map image := by
  induction items using List.reverseRecOn with
  | nil => rfl
  | append_singleton items last ih =>
      rw [List.map_append, List.map_singleton, best_append_singleton, best_append_singleton, ih]
      cases (preference.comap image).best items with
      | none => rfl
      | some old =>
          by_cases preferred : preference.better (image last) (image old)
          · simp [pick, comap, preferred]
          · simp [pick, comap, preferred]

theorem combine_map {other : Preference Other} {image : Other → Item} {held next : Option Other}
    (agree : ∀ old ∈ held, ∀ new ∈ next,
      preference.better (image new) (image old) ↔ other.better new old) :
    preference.combine (held.map image) (next.map image) = (other.combine held next).map image := by
  cases next with
  | none => rfl
  | some new =>
      cases held with
      | none => rfl
      | some old =>
          have same := agree old rfl new rfl
          simp only [combine, pick, Option.map_some, Option.elim_some, same]
          split <;> rfl

theorem best_congr {other : Preference Item}
    (agree : ∀ new ∈ items, ∀ old ∈ items, preference.better new old ↔ other.better new old) :
    preference.best items = other.best items := by
  induction items using List.reverseRecOn with
  | nil => rfl
  | append_singleton items last ih =>
      have earlier := ih fun new new_mem old old_mem =>
        agree new (List.mem_append_left _ new_mem) old (List.mem_append_left _ old_mem)
      rw [best_append_singleton, best_append_singleton, earlier]
      cases held : other.best items with
      | none => rfl
      | some old =>
          have old_mem : old ∈ items := mem_of_best held
          simp only [pick, agree last (List.mem_append_right _ (List.mem_singleton_self _)) old
            (List.mem_append_left _ old_mem)]

end Preference
