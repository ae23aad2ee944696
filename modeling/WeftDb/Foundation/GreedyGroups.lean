import Mathlib.Algebra.Order.BigOperators.Group.List
import Mathlib.Algebra.Order.Group.Nat
import Mathlib.Tactic.Ring

/-!
# Greedy groups

Items with a weight are grouped in order, each group closed as soon as it weighs the target.  The
groups are all single exactly when every item but the last weighs the target, and then they are as
few as the total weight allows, unless the last item weighs nothing.
-/

namespace GreedyGroups

variable {Item : Type*} (weight : Item → Nat) (target : Nat)

/-- Group the items behind a group of some weight. -/
def groupFrom (group : List Item) (total : Nat) : List Item → List (List Item)
  | [] => if group.isEmpty then [] else [group]
  | item :: items =>
      let total := total + weight item
      if target ≤ total then (group ++ [item]) :: groupFrom [] 0 items
      else groupFrom (group ++ [item]) total items

/-- The groups of some items. -/
def groups (items : List Item) : List (List Item) :=
  groupFrom weight target [] 0 items

variable {weight target}

theorem flatten_groupFrom (group : List Item) (total : Nat) (items : List Item) :
    (groupFrom weight target group total items).flatten = group ++ items := by
  induction items generalizing group total with
  | nil =>
      rw [groupFrom]
      split
      · rename_i empty
        rw [List.isEmpty_iff.mp empty]
        rfl
      · simp
  | cons item items ih =>
      rw [groupFrom]
      split
      · rw [List.flatten_cons, ih, List.nil_append, List.append_assoc, List.singleton_append]
      · rw [ih, List.append_assoc, List.singleton_append]

theorem flatten_groups (items : List Item) : (groups weight target items).flatten = items :=
  flatten_groupFrom [] 0 items

theorem exists_of_two_le {group : List Item} (long : 2 ≤ group.length) (total : Nat)
    (items : List Item) : ∃ found ∈ groupFrom weight target group total items,
      2 ≤ found.length := by
  induction items generalizing group total with
  | nil =>
      have filled : group.isEmpty = false := by
        cases group with
        | nil => simp at long
        | cons item group => rfl
      rw [groupFrom, filled]
      exact ⟨group, List.mem_singleton_self group, long⟩
  | cons item items ih =>
      have longer : 2 ≤ (group ++ [item]).length := by
        rw [List.length_append]
        omega
      rw [groupFrom]
      split
      · exact ⟨_, List.mem_cons_self, longer⟩
      · exact ih longer _

theorem single_iff (items : List Item) :
    (∀ group ∈ groups weight target items, group.length < 2) ↔
      ∀ item ∈ items.dropLast, target ≤ weight item := by
  induction items with
  | nil => simp [groups, groupFrom]
  | cons item items ih =>
      rw [groups, groupFrom]
      simp only [Nat.zero_add, List.nil_append]
      cases items with
      | nil => split <;> simp [groupFrom]
      | cons next items =>
          rw [List.dropLast_cons_cons, List.forall_mem_cons]
          split
          · rename_i heavy
            rw [List.forall_mem_cons, ← groups, ih]
            simp [heavy]
          · rename_i light
            have long : ∃ found ∈ groupFrom weight target [item] (weight item) (next :: items),
                2 ≤ found.length := by
              rw [groupFrom]
              split
              · exact ⟨_, List.mem_cons_self, by simp⟩
              · exact exists_of_two_le (by simp) _ _
            obtain ⟨found, member, two⟩ := long
            constructor
            · intro single
              have short := single found member
              omega
            · exact fun all => absurd all.1 light

/-- How many groups of the target hold a total, one at least. -/
def ideal (target total : Nat) : Nat :=
  max ((total + target - 1) / target) 1

theorem lt_ideal {count total : Nat} (positive : 0 < target) (more : count * target < total) :
    count < ideal target total := by
  refine lt_of_lt_of_le ?_ (le_max_left _ _)
  rw [Nat.lt_iff_add_one_le, Nat.le_div_iff_mul_le positive, Nat.add_mul]
  omega

theorem ideal_le {count total : Nat} (positive : 0 < target) (one : 0 < count)
    (enough : total ≤ count * target) : ideal target total ≤ count := by
  refine max_le ?_ one
  rw [Nat.div_le_iff_le_mul_add_pred positive]
  have swapped := Nat.mul_comm count target
  omega

theorem le_ideal_mul (positive : 0 < target) (total : Nat) :
    total ≤ ideal target total * target := by
  by_contra more
  exact absurd (lt_ideal positive (not_le.mp more)) (lt_irrefl _)

theorem ideal_pos (target total : Nat) : 0 < ideal target total :=
  lt_of_lt_of_le Nat.one_pos (le_max_right _ _)

theorem ideal_sum_le (positive : 0 < target) {totals : List Nat} (filled : totals ≠ []) :
    ideal target totals.sum ≤ (totals.map (ideal target)).sum := by
  have held : totals.sum ≤ (totals.map (ideal target)).sum * target := by
    clear filled
    induction totals with
    | nil => exact Nat.zero_le _
    | cons total totals ih =>
        rw [List.map_cons, List.sum_cons, List.sum_cons, Nat.add_mul]
        exact Nat.add_le_add (le_ideal_mul positive total) ih
  refine ideal_le positive ?_ held
  cases totals with
  | nil => exact absurd rfl filled
  | cons total totals =>
      rw [List.map_cons, List.sum_cons]
      exact Nat.add_pos_left (ideal_pos target total) _

theorem length_le_ideal (positive : 0 < target) {items : List Item}
    (heavy : ∀ item ∈ items.dropLast, target ≤ weight item)
    (weighs : ∀ item ∈ items.getLast?, 2 ≤ items.length → 0 < weight item) :
    items.length ≤ ideal target (items.map weight).sum := by
  rcases List.eq_nil_or_concat items with rfl | ⟨front, last, rfl⟩
  · exact Nat.zero_le _
  · rw [List.concat_eq_append] at heavy weighs ⊢
    rw [List.dropLast_concat] at heavy
    have front_heavy : front.length * target ≤ (front.map weight).sum := by
      have each := List.card_nsmul_le_sum (front.map weight) target (by simpa using heavy)
      simpa using each
    rw [List.length_append, List.length_singleton, List.map_append, List.map_singleton,
      List.sum_append, List.sum_singleton]
    by_cases alone : front = []
    · subst alone
      exact ideal_pos _ _
    · have several := List.length_pos_iff.mpr alone
      have last_weighs := weighs last (by simp) (by simp; omega)
      exact lt_ideal positive (by omega)

end GreedyGroups
