import Mathlib.Algebra.Order.Group.Int
import Mathlib.Data.List.Induction
import WeftDb.Foundation.Results

/-!
# A dense walk along sparse items

Items stand at some steps, in ascending order.  A walk visits one step after another: where an item
stands it is kept, and anywhere else a gap is filled from what came before and what is still to
come.  So each result depends on its own step only, and not on how the walk reached it.
-/

namespace DenseWalk

open WeftDb Option

variable {Item State Result Failure : Type}
variable {item : Item} {entries : List (Int × Item)}

/-- Consecutive steps. -/
def stepsFrom : Int → Nat → List Int
  | _, 0 => []
  | step, count + 1 => step :: stepsFrom (step + 1) count

theorem length_stepsFrom (step : Int) (count : Nat) : (stepsFrom step count).length = count := by
  induction count generalizing step with
  | zero => rfl
  | succ count ih => rw [stepsFrom, List.length_cons, ih]

theorem mem_stepsFrom {step other : Int} {count : Nat} :
    other ∈ stepsFrom step count ↔ step ≤ other ∧ other < step + count := by
  induction count generalizing step with
  | zero => simp [stepsFrom]
  | succ count ih =>
      rw [stepsFrom, List.mem_cons, ih]
      push_cast
      omega

/-- The item at a step, if the next one stands there. -/
def itemAt (step : Int) (later : List (Int × Item)) : Option Item :=
  later.head?.bind fun entry => if entry.1 = step then some entry.2 else none

section Walk

variable (advance : State → Int × Item → State)
  (gap : Int → State → List (Int × Item) → Except Failure Result) (keep : Item → Result)

/-- Visit some steps, with the items which are still to come. -/
def walk : Nat → Int → State → List (Int × Item) → Except Failure (List Result)
  | 0, _, _, _ => .ok []
  | count + 1, step, state, later =>
      match itemAt step later with
      | some item => do
          let results ← walk count (step + 1) (advance state (step, item)) later.tail
          return keep item :: results
      | none => do
          let result ← gap step state later
          let results ← walk count (step + 1) state later
          return result :: results

/-- What stands at a step: its item, or what a gap is filled with there. -/
def Stands (start : State) (entries : List (Int × Item)) (step : Int) (result : Result) : Prop :=
  (∃ item, (step, item) ∈ entries ∧ keep item = result) ∨
    (∀ entry ∈ entries, entry.1 ≠ step) ∧
      gap step ((entries.filter (·.1 < step)).foldl advance start)
        (entries.filter (step < ·.1)) = .ok result

variable {advance gap keep} {start : State} {earlier later : List (Int × Item)} {step : Int}

theorem itemAt_eq_some : itemAt step later = some item ↔ ∃ rest, later = (step, item) :: rest := by
  cases later with
  | nil => simp [itemAt]
  | cons entry rest =>
      rw [itemAt, List.head?_cons, bind_some]
      constructor
      · intro found
        split at found
        · rename_i here
          cases found
          exact ⟨rest, by rw [← here]⟩
        · cases found
      · rintro ⟨rest, shape⟩
        cases shape
        exact if_pos rfl

theorem itemAt_eq_none (ascending : later.Pairwise (·.1 < ·.1))
    (behind : ∀ entry ∈ later, step ≤ entry.1) (absent : itemAt step later = none) :
    ∀ entry ∈ later, step < entry.1 := by
  cases later with
  | nil => exact fun _ member => absurd member List.not_mem_nil
  | cons first rest =>
      have elsewhere : first.1 ≠ step := fun here => by
        rw [itemAt, List.head?_cons, bind_some, if_pos here] at absent
        cases absent
      have reached := behind first List.mem_cons_self
      have above := (List.pairwise_cons.mp ascending).1
      refine List.forall_mem_cons.mpr ⟨by omega, fun entry member => ?_⟩
      have beyond := above entry member
      omega

theorem stands_iff_of_gap (before : ∀ entry ∈ earlier, entry.1 < step)
    (behind : ∀ entry ∈ later, step < entry.1) (result : Result) :
    Stands advance gap keep start (earlier ++ later) step result ↔
      gap step (earlier.foldl advance start) later = .ok result := by
  have elsewhere : ∀ entry ∈ earlier ++ later, entry.1 ≠ step := fun entry member =>
    (List.mem_append.mp member).elim (fun inside => (before entry inside).ne)
      fun inside => (behind entry inside).ne'
  have front : (earlier ++ later).filter (·.1 < step) = earlier := by
    rw [List.filter_append, List.filter_eq_self.mpr fun entry member =>
      decide_eq_true (before entry member), List.filter_eq_nil_iff.mpr fun entry member =>
      by simpa using (behind entry member).le, List.append_nil]
  have back : (earlier ++ later).filter (step < ·.1) = later := by
    rw [List.filter_append, List.filter_eq_nil_iff.mpr fun entry member =>
      by simpa using (before entry member).le, List.nil_append, List.filter_eq_self.mpr
      fun entry member => decide_eq_true (behind entry member)]
  rw [Stands, front, back]
  constructor
  · rintro (⟨item, member, -⟩ | ⟨-, filled⟩)
    · exact absurd rfl (elsewhere _ member)
    · exact filled
  · exact fun filled => .inr ⟨elsewhere, filled⟩

theorem stands_iff_of_item {rest : List (Int × Item)}
    (ascending : (earlier ++ (step, item) :: rest).Pairwise (·.1 < ·.1)) (result : Result) :
    Stands advance gap keep start (earlier ++ (step, item) :: rest) step result ↔
      keep item = result := by
  have here : (step, item) ∈ earlier ++ (step, item) :: rest :=
    List.mem_append_right _ List.mem_cons_self
  obtain ⟨-, later_ascending, across⟩ := List.pairwise_append.mp ascending
  have only {other : Item} (member : (step, other) ∈ earlier ++ (step, item) :: rest) :
      other = item := by
    rcases List.mem_append.mp member with inside | inside
    · exact absurd (across _ inside _ List.mem_cons_self) (lt_irrefl step)
    rcases List.mem_cons.mp inside with same | inside
    · exact congrArg Prod.snd same
    · exact absurd ((List.pairwise_cons.mp later_ascending).1 _ inside) (lt_irrefl step)
  constructor
  · rintro (⟨other, member, same⟩ | ⟨elsewhere, -⟩)
    · exact only member ▸ same
    · exact absurd rfl (elsewhere _ here)
  · exact fun same => .inl ⟨item, here, same⟩

theorem walk_eq_ok_iff (ascending : (earlier ++ later).Pairwise (·.1 < ·.1))
    (before : ∀ entry ∈ earlier, entry.1 < step) (behind : ∀ entry ∈ later, step ≤ entry.1)
    (count : Nat) (results : List Result) :
    walk advance gap keep count step (earlier.foldl advance start) later = .ok results ↔
      List.Forall₂ (Stands advance gap keep start (earlier ++ later)) (stepsFrom step count)
        results := by
  induction count generalizing earlier later step results with
  | zero =>
      rw [walk, stepsFrom, List.forall₂_nil_left_iff]
      exact ⟨fun same => (Except.ok.inj same).symm, fun same => same ▸ rfl⟩
  | succ count ih =>
      rw [walk, stepsFrom, List.forall₂_cons_left_iff]
      cases found : itemAt step later with
      | some item =>
          obtain ⟨rest, rfl⟩ := itemAt_eq_some.mp found
          have shape : earlier ++ (step, item) :: rest = (earlier ++ [(step, item)]) ++ rest := by
            rw [List.append_assoc, List.singleton_append]
          have advanced : advance (earlier.foldl advance start) (step, item) =
              (earlier ++ [(step, item)]).foldl advance start := by
            rw [List.foldl_append, List.foldl_cons, List.foldl_nil]
          obtain ⟨-, later_ascending, -⟩ := List.pairwise_append.mp ascending
          have onward := @ih (earlier ++ [(step, item)]) rest (step + 1) (shape ▸ ascending)
            (fun entry member => by
              rcases List.mem_append.mp member with inside | inside
              · exact (before entry inside).trans (Int.lt_succ step)
              · rw [List.mem_singleton.mp inside]
                exact Int.lt_succ step)
            (fun entry member => (List.pairwise_cons.mp later_ascending).1 entry member)
          simp only [bind_eq_ok, pure_eq_ok, List.tail_cons, advanced, onward, ← shape,
            stands_iff_of_item ascending]
          constructor
          · rintro ⟨others, each, rfl⟩
            exact ⟨_, others, rfl, each, rfl⟩
          · rintro ⟨_, others, rfl, each, rfl⟩
            exact ⟨others, each, rfl⟩
      | none =>
          have beyond := itemAt_eq_none (List.pairwise_append.mp ascending).2.1 behind found
          have onward := @ih earlier later (step + 1) ascending
            (fun entry member => (before entry member).trans (Int.lt_succ step)) beyond
          simp only [bind_eq_ok, pure_eq_ok, onward, stands_iff_of_gap before beyond]
          constructor
          · rintro ⟨result, filled, others, each, rfl⟩
            exact ⟨result, others, filled, each, rfl⟩
          · rintro ⟨result, others, filled, each, rfl⟩
            exact ⟨result, filled, others, each, rfl⟩

theorem forall₂_congr_of_mem {Left Right : Type} {related other : Left → Right → Prop}
    {left : List Left} {right : List Right}
    (same : ∀ item ∈ left, ∀ partner, related item partner ↔ other item partner) :
    List.Forall₂ related left right ↔ List.Forall₂ other left right := by
  induction left generalizing right with
  | nil => rw [List.forall₂_nil_left_iff, List.forall₂_nil_left_iff]
  | cons item left ih =>
      obtain ⟨here, rest⟩ := List.forall_mem_cons.mp same
      simp only [List.forall₂_cons_left_iff, here, ih rest]

end Walk

/-- The items at some consecutive steps. -/
def window (entries : List (Int × Item)) (step : Int) (count : Nat) : List (Int × Item) :=
  entries.filter fun entry => step ≤ entry.1 ∧ entry.1 < step + count

theorem window_succ (ascending : entries.Pairwise (·.1 < ·.1)) (step : Int) (count : Nat) :
    window entries step (count + 1) =
      entries.filter (·.1 = step) ++ window entries (step + 1) count := by
  induction entries with
  | nil => rfl
  | cons first entries ih =>
      obtain ⟨above, later⟩ := List.pairwise_cons.mp ascending
      have rest := ih later
      simp only [window, List.filter_cons, decide_eq_true_eq] at rest ⊢
      rw [rest]
      by_cases here : first.1 = step
      · rw [if_pos (by omega), if_pos here, if_neg (by omega), List.cons_append]
      · rw [if_neg here]
        by_cases beyond : step < first.1
        · have behind : entries.filter (·.1 = step) = [] :=
            List.filter_eq_nil_iff.mpr fun entry member => by
              have higher := above entry member
              simp only [decide_eq_true_eq]
              omega
          rw [behind, List.nil_append, List.nil_append]
          exact if_congr (by omega) rfl rfl
        · rw [if_neg (by omega), if_neg (by omega)]

theorem filter_step_of_mem (ascending : entries.Pairwise (·.1 < ·.1)) {step : Int}
    (member : (step, item) ∈ entries) : entries.filter (·.1 = step) = [(step, item)] := by
  induction entries with
  | nil => cases member
  | cons first entries ih =>
      obtain ⟨above, later⟩ := List.pairwise_cons.mp ascending
      simp only [List.filter_cons, decide_eq_true_eq]
      rcases List.mem_cons.mp member with rfl | inside
      · rw [if_pos rfl, List.filter_eq_nil_iff.mpr]
        intro entry member
        have higher := above entry member
        simp only [decide_eq_true_eq]
        omega
      · have lower := above _ inside
        rw [if_neg (by omega), ih later inside]

section Nearest

variable {Value : Type} (pick : Item → Option Value)

/-- The last value which items have before a step. -/
structure NearestBefore (entries : List (Int × Item)) (step place : Int) (value : Value) :
    Prop where
  found : ∃ item, (place, item) ∈ entries ∧ pick item = some value
  before : place < step
  nearest : ∀ entry ∈ entries, place < entry.1 → entry.1 < step → pick entry.2 = none

/-- The first value which items have behind a step. -/
structure NearestBehind (entries : List (Int × Item)) (step place : Int) (value : Value) :
    Prop where
  found : ∃ item, (place, item) ∈ entries ∧ pick item = some value
  behind : step < place
  nearest : ∀ entry ∈ entries, step < entry.1 → entry.1 < place → pick entry.2 = none

/-- Note the value of an item, if it has one. -/
def noteLast (found : Option (Int × Value)) (entry : Int × Item) : Option (Int × Value) :=
  ((pick entry.2).map fun value => (entry.1, value)).or found

/-- The value of the first item which has one. -/
def findFirst (entries : List (Int × Item)) : Option (Int × Value) :=
  entries.findSome? fun entry => (pick entry.2).map fun value => (entry.1, value)

variable {pick} {entries : List (Int × Item)} {step place : Int} {value : Value}

variable (ascending : entries.Pairwise (·.1 < ·.1))

include ascending

theorem foldl_noteLast_eq_some :
    entries.foldl (noteLast pick) none = some (place, value) ↔
      (∃ item, (place, item) ∈ entries ∧ pick item = some value) ∧
        ∀ entry ∈ entries, place < entry.1 → pick entry.2 = none := by
  induction entries using List.reverseRecOn with
  | nil => simp
  | append_singleton entries last ih =>
      obtain ⟨front, -, below⟩ := List.pairwise_append.mp ascending
      rw [List.foldl_append, List.foldl_cons, List.foldl_nil, noteLast]
      cases picked : pick last.2 with
      | none =>
          rw [map_none, none_or, ih front]
          constructor
          · rintro ⟨⟨item, member, found⟩, nearest⟩
            refine ⟨⟨item, List.mem_append_left _ member, found⟩, fun entry inside beyond => ?_⟩
            rcases List.mem_append.mp inside with inside | inside
            · exact nearest entry inside beyond
            · rw [List.mem_singleton.mp inside, picked]
          · rintro ⟨⟨item, member, found⟩, nearest⟩
            rcases List.mem_append.mp member with inside | inside
            · exact ⟨⟨item, inside, found⟩,
                fun entry member => nearest entry (List.mem_append_left _ member)⟩
            · rw [← List.mem_singleton.mp inside, found] at picked
              cases picked
      | some other =>
          have at_end : last ∈ entries ++ [last] :=
            List.mem_append_right _ (List.mem_singleton_self last)
          rw [map_some, some_or, some.injEq, Prod.mk.injEq]
          constructor
          · rintro ⟨rfl, rfl⟩
            refine ⟨⟨last.2, at_end, picked⟩, fun entry inside beyond => ?_⟩
            rcases List.mem_append.mp inside with inside | inside
            · exact absurd (below entry inside last (List.mem_singleton_self last)) beyond.not_gt
            · rw [List.mem_singleton.mp inside] at beyond
              exact absurd beyond (lt_irrefl _)
          · rintro ⟨⟨item, member, found⟩, nearest⟩
            rcases List.mem_append.mp member with inside | inside
            · have absent := nearest last at_end
                (below _ inside last (List.mem_singleton_self last))
              rw [picked] at absent
              cases absent
            · rw [← List.mem_singleton.mp inside] at picked ⊢
              exact ⟨rfl, some.inj (picked.symm.trans found)⟩

theorem nearestBefore_iff :
    (entries.filter (·.1 < step)).foldl (noteLast pick) none = some (place, value) ↔
      NearestBefore pick entries step place value := by
  rw [foldl_noteLast_eq_some (ascending.filter _)]
  simp only [List.mem_filter, decide_eq_true_eq]
  constructor
  · rintro ⟨⟨item, ⟨member, before⟩, found⟩, nearest⟩
    exact ⟨⟨item, member, found⟩, before,
      fun entry inside beyond within => nearest entry ⟨inside, within⟩ beyond⟩
  · rintro ⟨⟨item, member, found⟩, before, nearest⟩
    exact ⟨⟨item, ⟨member, before⟩, found⟩,
      fun entry inside beyond => nearest entry inside.1 beyond inside.2⟩

theorem findFirst_eq_some :
    findFirst pick entries = some (place, value) ↔
      (∃ item, (place, item) ∈ entries ∧ pick item = some value) ∧
        ∀ entry ∈ entries, entry.1 < place → pick entry.2 = none := by
  induction entries with
  | nil => simp [findFirst]
  | cons first entries ih =>
      obtain ⟨above, rest⟩ := List.pairwise_cons.mp ascending
      rw [findFirst, List.findSome?_cons]
      cases picked : pick first.2 with
      | none =>
          rw [map_none]
          refine (ih rest).trans ?_
          rw [List.forall_mem_cons]
          constructor
          · rintro ⟨⟨item, member, found⟩, nearest⟩
            exact ⟨⟨item, List.mem_cons_of_mem _ member, found⟩, fun _ => picked, nearest⟩
          · rintro ⟨⟨item, member, found⟩, -, nearest⟩
            rcases List.mem_cons.mp member with same | inside
            · rw [← same, found] at picked
              cases picked
            · exact ⟨⟨item, inside, found⟩, nearest⟩
      | some other =>
          rw [map_some, some.injEq, Prod.mk.injEq]
          constructor
          · rintro ⟨rfl, rfl⟩
            refine ⟨⟨first.2, List.mem_cons_self, picked⟩, fun entry member beyond => ?_⟩
            rcases List.mem_cons.mp member with rfl | inside
            · exact absurd beyond (lt_irrefl _)
            · exact absurd (above entry inside) beyond.not_gt
          · rintro ⟨⟨item, member, found⟩, nearest⟩
            rcases List.mem_cons.mp member with same | inside
            · rw [← same] at picked ⊢
              exact ⟨rfl, some.inj (picked.symm.trans found)⟩
            · have absent := nearest first List.mem_cons_self (above _ inside)
              rw [picked] at absent
              cases absent

theorem nearestBehind_iff :
    findFirst pick (entries.filter (step < ·.1)) = some (place, value) ↔
      NearestBehind pick entries step place value := by
  rw [findFirst_eq_some (ascending.filter _)]
  simp only [List.mem_filter, decide_eq_true_eq]
  constructor
  · rintro ⟨⟨item, ⟨member, behind⟩, found⟩, nearest⟩
    exact ⟨⟨item, member, found⟩, behind,
      fun entry inside beyond within => nearest entry ⟨inside, beyond⟩ within⟩
  · rintro ⟨⟨item, member, found⟩, behind, nearest⟩
    exact ⟨⟨item, ⟨member, behind⟩, found⟩,
      fun entry inside within => nearest entry inside.1 inside.2 within⟩

end Nearest

end DenseWalk
