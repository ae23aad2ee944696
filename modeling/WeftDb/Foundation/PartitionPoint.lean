import Mathlib.Data.List.TakeWhile
import Mathlib.Order.Lattice

/-!
# Partition points

A binary search for the place in a list up to which a predicate holds.  In a list that the predicate
cuts in two, the place found is where it first fails.
-/

namespace WeftDb

variable {Element : Type*} {elements : List Element} {before : Element → Bool}

/-- Halve the stretch of `size` elements from `base` on until one is left, keeping to the half that
holds the last element `before` the cut. -/
def narrow (before : Element → Bool) (elements : List Element) (base size : Nat) : Nat :=
  if size ≤ 1 then
    base
  else
    let half := size / 2
    let mid := base + half
    narrow before elements (if elements[mid]?.any before then mid else base) (size - half)
termination_by size
decreasing_by omega

/-- The index of the first element which is not `before` the cut. -/
def partitionPoint (before : Element → Bool) (elements : List Element) : Nat :=
  let base := narrow before elements 0 elements.length
  if elements[base]?.any before then base + 1 else base

/-- Whether a predicate holds of a front of a list and of nothing behind it. -/
def CutBy (before : Element → Bool) (elements : List Element) : Prop :=
  elements.Pairwise fun first second => before second → before first

theorem CutBy.of_sorted {Key : Type*} [LinearOrder Key] {key : Element → Key}
    (sorted : elements.Pairwise fun first second => key first ≤ key second) (bound : Key) :
    CutBy (fun element => decide (key element < bound)) elements := by
  refine sorted.imp fun in_order later => ?_
  simp only [decide_eq_true_eq] at later ⊢
  exact in_order.trans_lt later

variable (cut : CutBy before elements)

include cut

theorem any_getElem?_iff (place : Nat) :
    elements[place]?.any before = true ↔ place < (elements.takeWhile before).length := by
  induction elements generalizing place with
  | nil => simp
  | cons head tail ih =>
      obtain ⟨front, behind⟩ := List.pairwise_cons.mp cut
      by_cases held : before head
      · rw [List.takeWhile_cons_of_pos held]
        cases place with
        | zero => simp [held]
        | succ place => simpa using ih behind place
      · rw [List.takeWhile_cons_of_neg held]
        cases place with
        | zero => simp [held]
        | succ place =>
            have none_held : ¬ tail[place]?.any before := by
              intro found
              obtain ⟨element, here, before_cut⟩ := (Option.any_eq_true _ _).mp found
              exact held (front element (List.mem_of_getElem? here) before_cut)
            simpa using none_held

theorem narrow_spec (base size : Nat)
    (reached : base = 0 ∨ base < (elements.takeWhile before).length)
    (enough : (elements.takeWhile before).length ≤ base + size) :
    (narrow before elements base size = 0 ∨
      narrow before elements base size < (elements.takeWhile before).length) ∧
      (elements.takeWhile before).length ≤ narrow before elements base size + 1 := by
  induction base, size using narrow.induct before elements with
  | case1 base size small =>
      rw [narrow, if_pos small]
      exact ⟨reached, by omega⟩
  | case2 base size large half mid ih =>
      rw [narrow, if_neg large]
      have found := any_getElem?_iff cut mid
      by_cases held : elements[mid]?.any before
      · have onward := ih
        simp only [dif_pos held] at onward
        simp only [mid, half] at held found onward ⊢
        simp only [if_pos held]
        have below := found.mp held
        exact onward (.inr below) (by omega)
      · have onward := ih
        simp only [dif_neg held] at onward
        simp only [mid, half] at held found onward ⊢
        simp only [if_neg held]
        have above := mt found.mpr held
        exact onward reached (by omega)

theorem partitionPoint_eq :
    partitionPoint before elements = (elements.takeWhile before).length := by
  have front := (List.takeWhile_sublist (l := elements) before).length_le
  obtain ⟨reached, enough⟩ := narrow_spec cut 0 elements.length (.inl rfl) (by omega)
  have found := any_getElem?_iff cut (narrow before elements 0 elements.length)
  rw [partitionPoint]
  split
  · rename_i held
    have below := found.mp held
    omega
  · rename_i not_held
    have above := mt found.mpr not_held
    omega

theorem take_partitionPoint :
    elements.take (partitionPoint before elements) = elements.filter before := by
  rw [partitionPoint_eq cut]
  induction elements with
  | nil => rfl
  | cons head tail ih =>
      obtain ⟨front, behind⟩ := List.pairwise_cons.mp cut
      by_cases held : before head
      · rw [List.takeWhile_cons_of_pos held, List.filter_cons_of_pos held, List.length_cons,
          List.take_succ_cons, ih behind]
      · rw [List.takeWhile_cons_of_neg held, List.filter_cons_of_neg held, List.length_nil,
          List.take_zero, eq_comm, List.filter_eq_nil_iff]
        exact fun element inside found => held (front element inside found)

theorem drop_partitionPoint :
    elements.drop (partitionPoint before elements) =
      elements.filter fun element => !before element := by
  rw [partitionPoint_eq cut]
  induction elements with
  | nil => rfl
  | cons head tail ih =>
      obtain ⟨front, behind⟩ := List.pairwise_cons.mp cut
      by_cases held : before head
      · rw [List.takeWhile_cons_of_pos held, List.filter_cons_of_neg (by simpa using held),
          List.length_cons, List.drop_succ_cons, ih behind]
      · rw [List.takeWhile_cons_of_neg held, List.length_nil, List.drop_zero, eq_comm,
          List.filter_eq_self]
        intro element inside
        rcases List.mem_cons.mp inside with rfl | later
        · simpa using held
        · simpa using fun found => held (front element later found)

end WeftDb
