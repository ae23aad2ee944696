import Mathlib.Order.Lattice
import Mathlib.Order.Defs.LinearOrder
import Mathlib.Order.MinMax

/-!
# Hulls of closed intervals

An interval is recorded by its two endpoints and the empty collection by `none`.  The hull of two
intervals is the smallest interval containing both.  Hulls form a commutative monoid, so the hull
of a list is independent of the order in which it is accumulated.
-/

namespace Hull

variable {α : Type*} [LinearOrder α]

/-- The smallest interval containing both operands. -/
def join : Option (α × α) → Option (α × α) → Option (α × α)
  | none, right => right
  | some left, none => some left
  | some (low, high), some (low', high') => some (min low low', max high high')

@[simp]
theorem none_join (right : Option (α × α)) : join none right = right := by
  rfl

@[simp]
theorem join_none (left : Option (α × α)) : join left none = left := by
  cases left <;> rfl

theorem join_comm (left right : Option (α × α)) : join left right = join right left := by
  cases left with
  | none => simp
  | some left =>
      cases right with
      | none => simp
      | some right => simp [join, min_comm, max_comm]

theorem join_assoc (left middle right : Option (α × α)) :
    join (join left middle) right = join left (join middle right) := by
  cases left with
  | none => simp
  | some left =>
      cases middle with
      | none => simp
      | some middle =>
          cases right with
          | none => simp
          | some right => simp [join, min_assoc, max_assoc]

/-- The hull of a list, accumulated from the left. -/
def ofList (spans : List (Option (α × α))) : Option (α × α) :=
  spans.foldl join none

@[simp]
theorem ofList_nil : ofList ([] : List (Option (α × α))) = none := by
  rfl

theorem foldl_join (start : Option (α × α)) (spans : List (Option (α × α))) :
    spans.foldl join start = join start (ofList spans) := by
  induction spans generalizing start with
  | nil => simp
  | cons span spans ih =>
      have whole : ofList (span :: spans) = join span (ofList spans) := by
        rw [ofList, List.foldl_cons, none_join, ih]
      rw [List.foldl_cons, ih, whole, join_assoc]

theorem ofList_cons (span : Option (α × α)) (spans : List (Option (α × α))) :
    ofList (span :: spans) = join span (ofList spans) := by
  rw [ofList, List.foldl_cons, none_join, foldl_join]

theorem ofList_perm {left right : List (Option (α × α))} (same : left.Perm right) :
    ofList left = ofList right := by
  induction same with
  | nil => rfl
  | cons span _ ih => rw [ofList_cons, ofList_cons, ih]
  | swap first second spans =>
      simp only [ofList_cons]
      rw [← join_assoc, ← join_assoc, join_comm first]
  | trans _ _ first second => exact first.trans second

theorem le_foldl_max {Item : Type*} (measure : Item → α) (items : List Item) (start : α) :
    start ≤ items.foldl (fun reach item => max reach (measure item)) start ∧
      ∀ item ∈ items, measure item ≤
        items.foldl (fun reach item => max reach (measure item)) start := by
  induction items generalizing start with
  | nil => exact ⟨le_rfl, List.forall_mem_nil _⟩
  | cons item items ih =>
      obtain ⟨grows, covers⟩ := ih (max start (measure item))
      exact ⟨(le_max_left _ _).trans grows,
        List.forall_mem_cons.mpr ⟨(le_max_right _ _).trans grows, covers⟩⟩

end Hull
