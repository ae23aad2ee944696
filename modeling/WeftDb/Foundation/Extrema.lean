import WeftDb.Foundation.Turns
import Mathlib.Algebra.Order.Group.Unbundled.Basic
import Mathlib.Data.Sign.Basic

/-!
# Turns of a path of values

The points of a path come in order of time and each has a value.  A step rises, falls or stays
level; seen coarsely, a step which is not wide enough is level.  The coarse turns keep every strict
extremum, with values which move one way from each turn to the next, exactly where two steps which
seem alike are, and they stay turns of themselves exactly where two adjoining runs also differ from
end to end.
-/

namespace Turns

variable {Point Time Value : Type*} [LinearOrder Time] [AddCommGroup Value] [LinearOrder Value]
  [IsOrderedAddMonoid Value]
variable {heading : SignType} {points path inner : List Point}
  {start point first second finish : Point}

/-- The way in which the value moves from one point to another. -/
def rise (value : Point → Value) (from_point to_point : Point) : SignType :=
  SignType.sign (value to_point - value from_point)

/-- The way in which the value moves over a step which is wide enough. -/
def coarseRise (wide : Point → Point → Prop) [DecidableRel wide] (value : Point → Value)
    (from_point to_point : Point) : SignType :=
  if wide from_point to_point then rise value from_point to_point else 0

/-- Values which strictly rise, strictly fall or stay. -/
def OneWay (value : Point → Value) (points : List Point) : Prop :=
  points.IsChain (value · < value ·) ∨ points.IsChain (value · > value ·) ∨
    points.IsChain (value · = value ·)

/-- What a simplification of a path keeps: a subsequence with both ends of the path, one way of the
values from each kept point to the next, and all strict extrema.  Done again it keeps all. -/
structure KeepsTurns (time : Point → Time) (value : Point → Value)
    (points kept again : List Point) : Prop where
  sublist : kept.Sublist points
  first : kept.head? = points.head?
  last : kept.getLast? = points.getLast?
  oneWay : ∀ start finish, [start, finish] <:+: kept →
    OneWay value (points.filter fun point =>
      time start ≤ time point ∧ time point ≤ time finish)
  extremum : ∀ before point after, [before, point, after] <:+: points →
    value before < value point ∧ value after < value point ∨
      value point < value before ∧ value point < value after → point ∈ kept
  idempotent : again = kept

section

variable {value : Point → Value}
variable {from_point to_point : Point}

theorem rise_eq_one : rise value from_point to_point = 1 ↔ value from_point < value to_point := by
  rw [rise, sign_eq_one_iff, sub_pos]

theorem rise_eq_neg_one :
    rise value from_point to_point = -1 ↔ value to_point < value from_point := by
  rw [rise, sign_eq_neg_one_iff, sub_neg]

omit [IsOrderedAddMonoid Value] in
theorem rise_eq_zero : rise value from_point to_point = 0 ↔ value from_point = value to_point := by
  rw [rise, sign_eq_zero_iff, sub_eq_zero, eq_comm]

theorem oneWay_iff : OneWay value points ↔ ∃ heading, Straight (rise value) heading points := by
  constructor
  · rintro (up | down | level)
    · exact ⟨1, up.imp fun _ _ => rise_eq_one.mpr⟩
    · exact ⟨-1, down.imp fun _ _ => rise_eq_neg_one.mpr⟩
    · exact ⟨0, level.imp fun _ _ => rise_eq_zero.mpr⟩
  · rintro ⟨heading, straight⟩
    cases heading with
    | zero => exact .inr (.inr (straight.imp fun _ _ => rise_eq_zero.mp))
    | neg => exact .inr (.inl (straight.imp fun _ _ => rise_eq_neg_one.mp))
    | pos => exact .inl (straight.imp fun _ _ => rise_eq_one.mp)

theorem rise_trans {third : Point} (one : rise value first second = heading)
    (two : rise value second third = heading) : rise value first third = heading := by
  cases heading with
  | zero => exact rise_eq_zero.mpr ((rise_eq_zero.mp one).trans (rise_eq_zero.mp two))
  | neg => exact rise_eq_neg_one.mpr ((rise_eq_neg_one.mp two).trans (rise_eq_neg_one.mp one))
  | pos => exact rise_eq_one.mpr ((rise_eq_one.mp one).trans (rise_eq_one.mp two))

theorem rise_of_straight (straight : Straight (rise value) heading (start :: points))
    (member : point ∈ points) : rise value start point = heading := by
  induction points generalizing start with
  | nil => cases member
  | cons next points ih =>
      obtain ⟨step, onward⟩ := List.isChain_cons_cons.mp straight
      rcases List.mem_cons.mp member with rfl | later
      · exact step
      · exact rise_trans step (ih onward later)

end

theorem exists_turns_around {value : Point → Value} {kept : List Point}
    (cut : Cut (rise value) points kept) (member : point ∈ points) :
    ∃ low ∈ kept, ∃ high ∈ kept, value low ≤ value point ∧ value point ≤ value high := by
  induction cut with
  | last only => exact ⟨point, member, point, member, le_rfl, le_rfl⟩
  | @run first turn inner rest kept heading straight _ _ ih =>
      have later (behind : point ∈ turn :: rest) :
          ∃ low ∈ first :: turn :: kept, ∃ high ∈ first :: turn :: kept,
            value low ≤ value point ∧ value point ≤ value high := by
        obtain ⟨low, low_kept, high, high_kept, around⟩ := ih behind
        exact ⟨low, .tail _ low_kept, high, .tail _ high_kept, around⟩
      rcases List.mem_cons.mp member with rfl | onward
      · exact ⟨point, List.mem_cons_self, point, List.mem_cons_self, le_rfl, le_rfl⟩
      rcases List.mem_append.mp onward with inside | behind
      · -- A point of the run lies between its ends, whichever way the run goes.
        have from_first := rise_of_straight straight (List.mem_append_left _ inside)
        have to_turn : rise value point turn = heading := by
          obtain ⟨front, back, rfl⟩ := List.append_of_mem inside
          have part : Straight (rise value) heading (point :: (back ++ [turn])) :=
            straight.part ⟨first :: front, [], by simp⟩
          exact rise_of_straight part (by simp)
        cases heading with
        | zero =>
            have level := rise_eq_zero.mp from_first
            exact ⟨first, List.mem_cons_self, first, List.mem_cons_self, level.le, level.ge⟩
        | neg =>
            exact ⟨turn, .tail _ List.mem_cons_self, first, List.mem_cons_self,
              (rise_eq_neg_one.mp to_turn).le, (rise_eq_neg_one.mp from_first).le⟩
        | pos =>
            exact ⟨first, List.mem_cons_self, turn, .tail _ List.mem_cons_self,
              (rise_eq_one.mp from_first).le, (rise_eq_one.mp to_turn).le⟩
      · exact later behind

variable {time : Point → Time} {value : Point → Value} {wide : Point → Point → Prop}
  [DecidableRel wide] {points : List Point}

/-- Two steps one after the other which seem alike are alike. -/
def SeenAlike (wide : Point → Point → Prop) [DecidableRel wide] (value : Point → Value)
    (points : List Point) : Prop :=
  ∀ first second third, [first, second, third] <:+: points →
    coarseRise wide value first second = coarseRise wide value second third →
      rise value first second = rise value second third

/-- Two adjoining runs which seem to go different ways also seem so from end to end. -/
def SeenApart (wide : Point → Point → Prop) [DecidableRel wide] (value : Point → Value)
    (points : List Point) : Prop :=
  ∀ start inner turn inner' finish heading heading',
    start :: (inner ++ turn :: (inner' ++ [finish])) <:+: points →
    Straight (coarseRise wide value) heading (start :: (inner ++ [turn])) →
    Straight (coarseRise wide value) heading' (turn :: (inner' ++ [finish])) →
    heading ≠ heading' → coarseRise wide value start turn ≠ coarseRise wide value turn finish

omit [IsOrderedAddMonoid Value] in
theorem straight_of_seenAlike (alike : SeenAlike wide value points) (within : path <:+: points)
    (straight : Straight (coarseRise wide value) heading path) :
    ∃ true_heading, Straight (rise value) true_heading path := by
  induction path with
  | nil => exact ⟨0, .nil⟩
  | cons first path ih =>
      match path with
      | [] => exact ⟨0, .singleton _⟩
      | [second] => exact ⟨rise value first second, .cons_cons rfl (.singleton _)⟩
      | second :: third :: path =>
          obtain ⟨step, onward⟩ := List.isChain_cons_cons.mp straight
          obtain ⟨true_heading, onward'⟩ := ih ((List.suffix_cons _ _).isInfix.trans within) onward
          have next := (List.isChain_cons_cons.mp onward).1
          have steps : [first, second, third] <:+: points :=
            List.IsInfix.trans ⟨[], path, rfl⟩ within
          have same := alike first second third steps (step.trans next.symm)
          exact ⟨true_heading,
            .cons_cons (same.trans (List.isChain_cons_cons.mp onward').1) onward'⟩

omit [IsOrderedAddMonoid Value] in
theorem coarseRise_of_wide (step : wide first second) :
    coarseRise wide value first second = rise value first second :=
  if_pos step

omit [IsOrderedAddMonoid Value] in
theorem straight_of_wide (steps : path.IsChain wide)
    (straight : Straight (coarseRise wide value) heading path) :
    Straight (rise value) heading path := by
  induction path with
  | nil => exact .nil
  | cons first path ih =>
      match path with
      | [] => exact .singleton _
      | second :: path =>
          obtain ⟨wide_step, later_steps⟩ := List.isChain_cons_cons.mp steps
          obtain ⟨step, later⟩ := List.isChain_cons_cons.mp straight
          rw [coarseRise_of_wide wide_step] at step
          exact .cons_cons step (ih later_steps later)

theorem seen_of_wide (all_wide : points.Pairwise wide) :
    SeenAlike wide value points ∧ SeenApart wide value points := by
  constructor
  · intro first second third steps same
    have wide_steps := (all_wide.sublist steps.sublist).isChain
    obtain ⟨one, onward⟩ := List.isChain_cons_cons.mp wide_steps
    obtain ⟨two, -⟩ := List.isChain_cons_cons.mp onward
    rwa [coarseRise_of_wide one, coarseRise_of_wide two] at same
  · intro start inner turn inner' finish heading heading' within straight straight' differ
    have order := all_wide.sublist within.sublist
    have left : (start :: (inner ++ [turn])).Pairwise wide :=
      order.sublist (.cons_cons _ (.append_left (.cons_cons _ (List.nil_sublist _)) _))
    have right : (turn :: (inner' ++ [finish])).Pairwise wide :=
      order.sublist (.cons _ (List.sublist_append_right _ _))
    have left_rise := rise_of_straight (straight_of_wide left.isChain straight)
      (show turn ∈ inner ++ [turn] by simp)
    have right_rise := rise_of_straight (straight_of_wide right.isChain straight')
      (show finish ∈ inner' ++ [finish] by simp)
    rw [coarseRise_of_wide (List.rel_of_pairwise_cons left (by simp)),
      coarseRise_of_wide (List.rel_of_pairwise_cons right (by simp)), left_rise, right_rise]
    exact differ

omit [IsOrderedAddMonoid Value] in
theorem coarseRise_widen
    (wider : ∀ p p' q q', time p' ≤ time p → time q ≤ time q' → wide p q → wide p' q')
    {start' finish' : Point} (earlier : time start' ≤ time start)
    (later : time finish ≤ time finish')
    (same : rise value start' finish' = rise value start finish)
    (moves : coarseRise wide value start finish ≠ 0) :
    coarseRise wide value start' finish' = coarseRise wide value start finish := by
  unfold coarseRise at moves ⊢
  split at moves
  · next part =>
      rw [if_pos part, if_pos (wider _ _ _ _ earlier later part), same]
  · exact absurd rfl moves

omit [AddCommGroup Value] [LinearOrder Value] [IsOrderedAddMonoid Value] in
theorem first_le (sorted : points.Pairwise (time · < time ·)) (within : start :: path <:+: points)
    (member : point ∈ start :: path) : time start ≤ time point := by
  have order := List.pairwise_cons.mp (sorted.sublist within.sublist)
  rcases List.mem_cons.mp member with rfl | later
  · exact le_rfl
  · exact (order.1 point later).le

omit [AddCommGroup Value] [LinearOrder Value] [IsOrderedAddMonoid Value] in
theorem le_last (sorted : points.Pairwise (time · < time ·)) (path : List Point)
    (within : path ++ [finish] <:+: points) (member : point ∈ path ++ [finish]) :
    time point ≤ time finish := by
  have order := List.pairwise_append.mp (sorted.sublist within.sublist)
  rcases List.mem_append.mp member with earlier | last
  · exact (order.2.2 point earlier finish List.mem_cons_self).le
  · exact List.mem_singleton.mp last ▸ le_rfl

theorem coarseRise_of_straight
    (wider : ∀ p p' q q', time p' ≤ time p → time q ≤ time q' → wide p q → wide p' q')
    (sorted : points.Pairwise (time · < time ·)) (alike : SeenAlike wide value points)
    (moves : heading ≠ 0) (within : start :: (inner ++ [finish]) <:+: points)
    (straight : Straight (coarseRise wide value) heading (start :: (inner ++ [finish]))) :
    coarseRise wide value start finish = heading := by
  obtain ⟨next, later, path⟩ := List.exists_cons_of_ne_nil
    (show inner ++ [finish] ≠ [] by simp)
  have step : coarseRise wide value start next = heading := heading_of_straight path.symm straight
  obtain ⟨true_heading, truly⟩ := straight_of_seenAlike alike within straight
  have from_start {point : Point} (member : point ∈ inner ++ [finish]) :=
    rise_of_straight truly member
  have next_first : time next ≤ time finish :=
    le_last sorted (start :: inner) within (by simp [path])
  rw [← step]
  refine coarseRise_widen wider le_rfl next_first ?_ (step ▸ moves)
  exact (from_start (by simp)).trans (from_start (by simp [path])).symm

omit [AddCommGroup Value] [LinearOrder Value] [IsOrderedAddMonoid Value] in
theorem filter_between (sorted : points.Pairwise (time · < time ·))
    (within : start :: (inner ++ [finish]) <:+: points) :
    (points.filter fun point => time start ≤ time point ∧ time point ≤ time finish) =
      start :: (inner ++ [finish]) := by
  obtain ⟨front, back, rfl⟩ := within
  rw [List.append_assoc, List.pairwise_append] at sorted
  obtain ⟨-, sorted, from_front⟩ := sorted
  obtain ⟨sorted, -, to_back⟩ := List.pairwise_append.mp sorted
  have before : ∀ point ∈ front, time point < time start := fun point member =>
    from_front point member start (by simp)
  have after : ∀ point ∈ back, time finish < time point := fun point member =>
    to_back finish (by simp) point member
  rw [List.append_assoc, List.filter_append, List.filter_append,
    List.filter_eq_nil_iff.mpr, List.filter_eq_self.mpr, List.filter_eq_nil_iff.mpr,
    List.append_nil, List.nil_append]
  · exact fun point member => by simpa using fun _ => after point member
  · intro point member
    rw [decide_eq_true_iff]
    exact ⟨first_le sorted List.infix_rfl member,
      le_last sorted (start :: inner) List.infix_rfl member⟩
  · exact fun point member => by simpa using fun late => absurd late (before point member).not_ge

/-- **The turns seen coarsely are what a simplification should keep** exactly where two steps which
seem alike are and adjoining runs stay apart from end to end. -/
theorem keepsTurns_iff
    (wider : ∀ p p' q q', time p' ≤ time p → time q ≤ time q' → wide p q → wide p' q')
    (sorted : points.Pairwise (time · < time ·)) :
    KeepsTurns time value points (turns (coarseRise wide value) points)
        (turns (coarseRise wide value) (turns (coarseRise wide value) points)) ↔
      SeenAlike wide value points ∧ SeenApart wide value points := by
  rcases eq_or_ne points [] with rfl | nonempty
  · refine iff_of_true ⟨.slnil, rfl, rfl, ?_, ?_, rfl⟩ ⟨?_, ?_⟩
    · exact fun _ _ adjacent => absurd adjacent.length_le (by simp [turns])
    · exact fun _ _ _ steps => absurd steps.length_le (by simp)
    · exact fun _ _ _ steps => absurd steps.length_le (by simp)
    · exact fun _ _ _ _ _ _ _ within => absurd within.length_le (by simp)
  have cut := cut_turns (coarseRise wide value) nonempty
  constructor
  · intro keeps
    have alike : SeenAlike wide value points := by
      intro first second third steps same
      obtain ⟨start, inner, finish, _, adjacent, -, inside, within⟩ := cut.within steps same
      have one_way := keeps.oneWay start finish adjacent
      rw [filter_between sorted within, oneWay_iff] at one_way
      obtain ⟨heading, straight⟩ := one_way
      exact (straight.step (List.IsInfix.trans ⟨[], [third], rfl⟩ inside)).trans
        (straight.step (List.IsInfix.trans ⟨[first], [], rfl⟩ inside)).symm
    refine ⟨alike, ?_⟩
    intro start inner turn inner' finish heading heading' within straight straight' differ same
    obtain ⟨front, back, path⟩ := within
    obtain ⟨start', inner₁, inner₂, finish', adjacent, on_left, on_right, left, right, part⟩ :=
      cut.around (show points =
          front ++ ((start :: inner) ++ turn :: ((inner' ++ [finish]) ++ back)) by simp [← path])
        (List.cons_ne_nil _ _) (by simp) straight straight' differ
    -- One of the two runs is seen to move, and then both are from end to end.
    have left_in : start :: (inner ++ [turn]) <:+: points :=
      ⟨front, inner' ++ [finish] ++ back, by simp [← path]⟩
    have right_in : turn :: (inner' ++ [finish]) <:+: points :=
      ⟨front ++ start :: inner, back, by simp [← path]⟩
    have moves : coarseRise wide value start turn ≠ 0 := by
      by_cases level : heading = 0
      · have other : heading' ≠ 0 := fun level' => differ (level.trans level'.symm)
        rwa [same, coarseRise_of_straight wider sorted alike other right_in straight']
      · rwa [coarseRise_of_straight wider sorted alike level left_in straight]
    have whole_left : start' :: (inner₁ ++ [turn]) <:+: points :=
      List.IsInfix.trans ⟨[], inner₂ ++ [finish'], by simp⟩ part
    have whole_right : turn :: (inner₂ ++ [finish']) <:+: points :=
      List.IsInfix.trans ⟨start' :: inner₁, [], by simp⟩ part
    obtain ⟨way, truly⟩ := straight_of_seenAlike alike whole_left left
    obtain ⟨way', truly'⟩ := straight_of_seenAlike alike whole_right right
    refine turns_eq_self_iff.mp keeps.idempotent start' turn finish' adjacent ?_
    calc
      coarseRise wide value start' turn = coarseRise wide value start turn := by
        refine coarseRise_widen wider ?_ le_rfl ?_ moves
        · exact first_le sorted whole_left (on_left.subset List.mem_cons_self)
        · exact (rise_of_straight truly (by simp)).trans
            (rise_of_straight (truly.part on_left.isInfix) (by simp)).symm
      _ = coarseRise wide value turn finish := same
      _ = coarseRise wide value turn finish' := by
        refine (coarseRise_widen wider le_rfl ?_ ?_ (same ▸ moves)).symm
        · exact le_last sorted (turn :: inner₂) whole_right
            (on_right.subset (by simp))
        · exact (rise_of_straight truly' (by simp)).trans
            (rise_of_straight (truly'.part on_right.isInfix) (by simp)).symm
  · rintro ⟨alike, apart⟩
    refine ⟨cut.sublist, cut.head?, cut.getLast?, fun start finish adjacent => ?_,
      fun before point after steps extreme => ?_, turns_eq_self_iff.mpr ?_⟩
    · obtain ⟨inner, heading, within, straight⟩ := cut.between adjacent
      rw [filter_between sorted within, oneWay_iff]
      exact straight_of_seenAlike alike within straight
    · refine cut.mem_of_turning steps fun same => ?_
      have moves := alike before point after steps same
      rcases extreme with ⟨up, down⟩ | ⟨down, up⟩
      · rw [rise_eq_one.mpr up, rise_eq_neg_one.mpr down] at moves
        exact absurd moves (by decide)
      · rw [rise_eq_neg_one.mpr down, rise_eq_one.mpr up] at moves
        exact absurd moves (by decide)
    · intro first second third adjacent
      obtain ⟨inner, inner', heading, heading', differ, straight, straight', within⟩ :=
        cut.adjoining adjacent
      exact apart first inner second inner' third heading heading' within straight straight' differ

end Turns
