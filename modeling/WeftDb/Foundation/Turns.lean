import Mathlib.Data.List.Chain
import Mathlib.Data.List.Infix
import Mathlib.Order.Basic

/-!
# The turns of a path

A path is a list of points, and each step from one point to the next has a direction.  The turns of
a path are its ends and the points between steps of different directions.  They cut the path into
runs of one direction.
-/

namespace Turns

variable {Point Direction : Type*}
variable {points : List Point} {first second turn before point : Point}
  {heading heading' : Direction} {other : Point → Point → Direction} {Source : Type*}

/-- Whether every step has one direction. -/
def Straight (direction : Point → Point → Direction) (heading : Direction) (points : List Point) :
    Prop :=
  points.IsChain fun from_point to_point => direction from_point to_point = heading

section

variable [DecidableEq Direction] (direction : Point → Point → Direction)

/-- The turns from a point on, given the one before it. -/
def turnsFrom : Point → Point → List Point → List Point
  | _, last, [] => [last]
  | before, point, next :: points =>
      if direction before point = direction point next then turnsFrom point next points
      else point :: turnsFrom point next points

/-- The turns of a path. -/
def turns : List Point → List Point
  | first :: second :: points => first :: turnsFrom direction first second points
  | points => points

end

variable {direction : Point → Point → Direction}
variable (direction) in
/-- The points of a path and its turns: from each turn to the next the path is straight, and it does
not go on that way. -/
inductive Cut : List Point → List Point → Prop
  | last (point : Point) : Cut [point] [point]
  | run {first turn : Point} {inner rest kept : List Point} {heading : Direction} :
      Straight direction heading (first :: (inner ++ [turn])) →
      (∀ next ∈ rest.head?, direction turn next ≠ heading) →
      Cut (turn :: rest) (turn :: kept) →
      Cut (first :: (inner ++ turn :: rest)) (first :: turn :: kept)

theorem Cut.first_run {kept : List Point} (cut : Cut direction (first :: second :: points) kept) :
    ∃ inner turn rest later heading,
      second :: points = inner ++ turn :: rest ∧ kept = first :: turn :: later ∧
      Straight direction heading (first :: (inner ++ [turn])) ∧
      (∀ next ∈ rest.head?, direction turn next ≠ heading) ∧
      Cut direction (turn :: rest) (turn :: later) := by
  generalize path : first :: second :: points = all at cut
  cases cut with
  | last point => cases path
  | run straight ends later =>
      obtain ⟨rfl, tail⟩ := List.cons.inj path
      exact ⟨_, _, _, _, _, tail, rfl, straight, ends, later⟩

theorem Straight.part {path : List Point} (straight : Straight direction heading points)
    (within : path <:+: points) : Straight direction heading path :=
  List.IsChain.infix straight within

theorem Straight.step (straight : Straight direction heading points) {from_point to_point : Point}
    (adjacent : [from_point, to_point] <:+: points) : direction from_point to_point = heading :=
  (List.isChain_cons_cons.mp (straight.part adjacent)).1

theorem heading_of_straight {inner : List Point} {rest : List Point}
    (path : second :: points = inner ++ turn :: rest)
    (straight : Straight direction heading (first :: (inner ++ [turn]))) :
    direction first second = heading := by
  cases inner with
  | nil =>
      cases path
      exact (List.isChain_cons_cons.mp straight).1
  | cons head inner =>
      cases path
      exact (List.isChain_cons_cons.mp straight).1

theorem Straight.heading_eq {points' common : List Point}
    (straight : Straight direction heading points) (straight' : Straight direction heading' points')
    (several : 2 ≤ common.length) (within : common <:+: points) (within' : common <:+: points') :
    heading = heading' := by
  match common, several with
  | first :: second :: rest, _ =>
      have adjacent : [first, second] <:+: first :: second :: rest := ⟨[], rest, rfl⟩
      exact (straight.step (adjacent.trans within)).symm.trans
        (straight'.step (adjacent.trans within'))

theorem cut_turnsFrom [DecidableEq Direction] (before point : Point) (points : List Point) :
    Cut direction (before :: point :: points)
      (before :: turnsFrom direction before point points) := by
  induction points generalizing before point with
  | nil =>
      have straight : Straight direction (direction before point) [before, point] :=
        .cons_cons rfl (.singleton _)
      have ends : ∀ next ∈ ([] : List Point).head?, direction point next ≠ direction before point :=
        fun next member => absurd member (by simp)
      exact .run (show Straight direction _ (before :: ([] ++ [point])) from straight) ends
        (.last point)
  | cons next points ih =>
      unfold turnsFrom
      split
      · next same =>
          obtain ⟨inner, turn, rest, later, heading, path, kept, straight, ends, cut⟩ :=
            (ih point next).first_run
          have onward := heading_of_straight path straight
          rw [path, (List.cons.inj kept).2]
          have longer : Straight direction heading (before :: (point :: inner ++ [turn])) :=
            .cons_cons (same.trans onward) straight
          exact .run longer ends cut
      · next turned =>
          have straight : Straight direction (direction before point) (before :: ([] ++ [point])) :=
            .cons_cons rfl (.singleton _)
          refine .run straight ?_ (ih point next)
          rintro _ ⟨⟩
          exact fun same => turned same.symm

theorem turnsFrom_congr [DecidableEq Direction]
    (agree : (before :: point :: points).IsChain fun p q => direction p q = other p q) :
    turnsFrom direction before point points = turnsFrom other before point points := by
  induction points generalizing before point with
  | nil => rfl
  | cons next points ih =>
      obtain ⟨step, onward⟩ := List.isChain_cons_cons.mp agree
      rw [turnsFrom, turnsFrom, step, (List.isChain_cons_cons.mp onward).1, ih onward]

theorem turns_congr [DecidableEq Direction]
    (agree : points.IsChain fun p q => direction p q = other p q) :
    turns direction points = turns other points := by
  match points with
  | [] | [_] => rfl
  | first :: second :: points => rw [turns, turns, turnsFrom_congr agree]

variable (direction) in
theorem cut_turns [DecidableEq Direction] (nonempty : points ≠ []) :
    Cut direction points (turns direction points) := by
  match points, nonempty with
  | [point], _ => exact .last point
  | first :: second :: points, _ => exact cut_turnsFrom first second points

namespace Cut

variable {points kept : List Point}
variable {start finish : Point} {right back : List Point}

section

variable (cut : Cut direction points kept)

include cut

theorem head? : kept.head? = points.head? := by
  cases cut with
  | last => rfl
  | run => rfl

theorem getLast? : kept.getLast? = points.getLast? := by
  induction cut with
  | last => rfl
  | @run first turn inner rest kept heading _ _ _ ih =>
      rw [List.getLast?_cons_cons, ih, ← List.cons_append, List.getLast?_append_cons]

theorem sublist : kept.Sublist points := by
  induction cut with
  | last => exact List.Sublist.refl _
  | run _ _ _ ih => exact .cons_cons _ (ih.trans (List.sublist_append_right _ _))

theorem between (adjacent : [start, finish] <:+: kept) :
    ∃ inner heading, start :: (inner ++ [finish]) <:+: points ∧
      Straight direction heading (start :: (inner ++ [finish])) := by
  induction cut with
  | last point => exact absurd adjacent.length_le (by simp)
  | @run first turn inner rest kept heading straight _ _ ih =>
      rcases List.infix_cons_iff.mp adjacent with front | later
      · obtain ⟨rfl, rfl⟩ : start = first ∧ finish = turn := by
          obtain ⟨_, path⟩ := front
          cases path
          exact ⟨rfl, rfl⟩
        refine ⟨inner, heading, ⟨[], rest, by simp⟩, straight⟩
      · obtain ⟨inner', heading', within, straight'⟩ := ih later
        exact ⟨inner', heading', within.trans ⟨first :: inner, [], by simp⟩, straight'⟩

theorem within {third : Point} (steps : [first, second, third] <:+: points)
    (same : direction first second = direction second third) :
    ∃ start inner finish heading, [start, finish] <:+: kept ∧
      Straight direction heading (start :: (inner ++ [finish])) ∧
      [first, second, third] <:+: start :: (inner ++ [finish]) ∧
      start :: (inner ++ [finish]) <:+: points := by
  induction cut with
  | last point => exact absurd steps.length_le (by simp)
  | @run start turn inner rest kept heading straight ends _ ih =>
      obtain ⟨front, back, path⟩ := steps
      rw [List.append_assoc, ← List.cons_append, List.append_eq_append_iff] at path
      rcases path with ⟨more, run, tail⟩ | ⟨more, -, tail⟩
      · have whole : start :: (inner ++ [turn]) = front ++ (more ++ [turn]) := by
          rw [← List.append_assoc, ← run, List.cons_append]
        match more, tail with
        | [], tail =>
            obtain ⟨_, _, _, _, adjacent, straight', inside, part⟩ := ih ⟨[], back, tail⟩
            exact ⟨_, _, _, _, adjacent.trans (List.suffix_cons _ _).isInfix, straight', inside,
              part.trans (List.suffix_append (start :: inner) _).isInfix⟩
        | [_], tail =>
            cases tail
            have last_step := straight.step (whole ▸ (List.suffix_append front _).isInfix)
            exact absurd (same.symm.trans last_step) (ends third rfl)
        | [_, _], tail =>
            cases tail
            exact ⟨start, inner, _, heading, ⟨[], kept, rfl⟩, straight,
              whole ▸ (List.suffix_append front _).isInfix, ⟨[], back, by simp⟩⟩
        | _ :: _ :: _ :: more, tail =>
            cases tail
            exact ⟨start, inner, turn, heading, ⟨[], kept, rfl⟩, straight,
              ⟨front, more ++ [turn], by simp [whole]⟩, ⟨[], rest, by simp⟩⟩
      · obtain ⟨_, _, _, _, adjacent, straight', inside, part⟩ := ih ⟨more, back, by simp [tail]⟩
        exact ⟨_, _, _, _, adjacent.trans (List.suffix_cons _ _).isInfix, straight', inside,
          part.trans (List.suffix_append (start :: inner) _).isInfix⟩

theorem adjoining (adjacent : [start, turn, finish] <:+: kept) :
    ∃ inner inner' heading heading', heading ≠ heading' ∧
      Straight direction heading (start :: (inner ++ [turn])) ∧
      Straight direction heading' (turn :: (inner' ++ [finish])) ∧
      start :: (inner ++ turn :: (inner' ++ [finish])) <:+: points := by
  induction cut with
  | last point => exact absurd adjacent.length_le (by simp)
  | @run first turn' inner rest kept heading straight ends cut ih =>
      rcases List.infix_cons_iff.mp adjacent with ⟨_, front⟩ | later
      · cases front
        cases rest with
        | nil => exact absurd cut.sublist.length_le (by simp)
        | cons next rest =>
            obtain ⟨inner', _, rest', _, heading', path, same, straight', -, -⟩ := cut.first_run
            cases same
            refine ⟨inner, inner', heading, heading', ?_, straight, straight', ?_⟩
            · exact fun same => ends next rfl ((heading_of_straight path straight').trans same.symm)
            · exact ⟨[], rest', by simp [path]⟩
      · obtain ⟨_, _, _, _, differ, straight₁, straight₂, part⟩ := ih later
        exact ⟨_, _, _, _, differ, straight₁, straight₂,
          part.trans (List.suffix_append (first :: inner) _).isInfix⟩

end

theorem first_run_extends (cut : Cut direction (turn :: (right ++ back)) kept)
    (right_run : right ≠ []) (straight : Straight direction heading (turn :: right)) :
    ∃ inner finish later, kept = turn :: finish :: later ∧
      turn :: right <+: turn :: (inner ++ [finish]) ∧
      Straight direction heading (turn :: (inner ++ [finish])) ∧
      turn :: (inner ++ [finish]) <+: turn :: (right ++ back) := by
  obtain ⟨next, right, rfl⟩ := List.exists_cons_of_ne_nil right_run
  obtain ⟨inner, finish, rest, later, heading', path, rfl, straight', ends, -⟩ := cut.first_run
  obtain rfl : heading' = heading := (heading_of_straight path straight').symm.trans
    (straight.step ⟨[], right, rfl⟩)
  have path : next :: right ++ back = inner ++ finish :: rest := path
  refine ⟨inner, finish, later, rfl, ?_, straight', ⟨rest, by simpa using path.symm⟩⟩
  rw [List.prefix_cons_inj]
  rcases List.append_eq_append_iff.mp path with ⟨more, run, -⟩ | ⟨more, run, tail⟩
  · exact run ▸ ⟨more ++ [finish], by simp⟩
  · match more, tail with
    | [], _ => exact run ▸ ⟨[finish], by simp⟩
    | [_], tail =>
        cases tail
        exact run ▸ List.prefix_rfl
    | _ :: beyond :: more, tail =>
        cases tail
        have onward : [finish, beyond] <:+: turn :: next :: right :=
          ⟨turn :: inner, more, by simp [run]⟩
        exact absurd (straight.step onward) (ends beyond rfl)

/-- Two straight runs which adjoin at a turn lie within the runs of the path from the turn before it
and to the turn after it. -/
theorem around (cut : Cut direction points kept) {front left : List Point}
    (path : points = front ++ (left ++ turn :: (right ++ back))) (left_run : left ≠ [])
    (right_run : right ≠ []) (straight_left : Straight direction heading (left ++ [turn]))
    (straight_right : Straight direction heading' (turn :: right)) (differ : heading ≠ heading') :
    ∃ start inner inner' finish, [start, turn, finish] <:+: kept ∧
      left ++ [turn] <:+ start :: (inner ++ [turn]) ∧
      turn :: right <+: turn :: (inner' ++ [finish]) ∧
      Straight direction heading (start :: (inner ++ [turn])) ∧
      Straight direction heading' (turn :: (inner' ++ [finish])) ∧
      start :: (inner ++ turn :: (inner' ++ [finish])) <:+: points := by
  obtain ⟨first_left, left, rfl⟩ := List.exists_cons_of_ne_nil left_run
  obtain ⟨first_right, right, rfl⟩ := List.exists_cons_of_ne_nil right_run
  induction cut generalizing front with
  | last point =>
      have lengths := congrArg List.length path
      simp only [List.length_append, List.length_cons, List.length_nil] at lengths
      omega
  | @run start turn' inner rest kept heading₀ straight ends cut ih =>
      rw [← List.cons_append, List.append_eq_append_iff] at path
      rcases path with ⟨more, -, tail⟩ | ⟨more, run, tail⟩
      · obtain ⟨_, _, _, _, adjacent, on_left, on_right, straight₁, straight₂, part⟩ := ih tail
        exact ⟨_, _, _, _, adjacent.trans (List.suffix_cons _ _).isInfix, on_left, on_right,
          straight₁, straight₂, part.trans (List.suffix_append (start :: inner) _).isInfix⟩
      have whole : start :: (inner ++ [turn']) = front ++ (more ++ [turn']) := by
        rw [← List.append_assoc, ← run, List.cons_append]
      have in_run : more ++ [turn'] <:+: start :: (inner ++ [turn']) :=
        whole ▸ (List.suffix_append front _).isInfix
      rcases List.eq_nil_or_concat' more with rfl | ⟨before, last, rfl⟩
      · obtain ⟨_, _, _, _, adjacent, on_left, on_right, straight₁, straight₂, part⟩ :=
          ih (show turn' :: rest = [] ++ _ from tail.symm)
        exact ⟨_, _, _, _, adjacent.trans (List.suffix_cons _ _).isInfix, on_left, on_right,
          straight₁, straight₂, part.trans (List.suffix_append (start :: inner) _).isInfix⟩
      -- The run of the path ends where the two runs adjoin: not before it, and not behind.
      obtain ⟨same_run, same_rest⟩ : before ++ [last] = first_left :: left ∧
          turn :: (first_right :: right ++ back) = turn' :: rest := by
        rcases List.append_eq_append_iff.mp tail with
          ⟨_ | ⟨passed, beyond⟩, passing, tail⟩ | ⟨_ | ⟨passed, beyond⟩, passing, tail⟩
        · exact ⟨by simpa using passing, tail⟩
        · obtain ⟨rfl, after⟩ := List.cons.inj tail
          have path : first_right :: (right ++ back) = beyond ++ turn' :: rest := after
          have left_in : first_left :: left ++ [turn] <:+: start :: (inner ++ [turn']) :=
            List.IsInfix.trans ⟨[], beyond ++ [turn'], by simp [passing]⟩ in_run
          have right_in : turn :: (beyond ++ [turn']) <:+: start :: (inner ++ [turn']) :=
            List.IsInfix.trans ⟨first_left :: left, [], by simp [passing]⟩ in_run
          have same := straight.heading_eq straight_left (by simp) left_in List.infix_rfl
          have onward : direction turn first_right = heading₀ :=
            heading_of_straight path (straight.part right_in)
          exact absurd (same.symm.trans (onward.symm.trans (straight_right.step ⟨[], right, rfl⟩)))
            differ
        · exact ⟨by simpa using passing.symm, tail.symm⟩
        · obtain ⟨rfl, after⟩ := List.cons.inj tail
          have path : rest = beyond ++ turn :: (first_right :: (right ++ back)) := after
          have before_in : before ++ [last] ++ [turn'] <:+: first_left :: left ++ [turn] :=
            ⟨[], beyond ++ [turn], by simp [passing]⟩
          have onward_in : turn' :: (beyond ++ [turn]) <:+: first_left :: left ++ [turn] :=
            ⟨before ++ [last], [], by simp [passing]⟩
          have same := straight.heading_eq straight_left (by simp) in_run before_in
          obtain ⟨next, later, rfl⟩ := List.exists_cons_of_ne_nil (show rest ≠ [] by simp [path])
          have onward := heading_of_straight path (straight_left.part onward_in)
          exact absurd (onward.trans same.symm) (ends next rfl)
      cases same_rest
      rw [same_run] at whole in_run
      obtain rfl : heading₀ = heading :=
        straight.heading_eq straight_left (by simp) in_run List.infix_rfl
      obtain ⟨inner', finish, later, same, onward, straight', ⟨after, path⟩⟩ :=
        first_run_extends cut right_run straight_right
      cases same
      exact ⟨start, inner, inner', finish, ⟨[], later, rfl⟩, ⟨front, whole.symm⟩, onward,
        straight, straight', ⟨[], after, by simpa using path⟩⟩

theorem mem_of_turning (cut : Cut direction points kept) {after : Point}
    (steps : [before, point, after] <:+: points)
    (turning : direction before point ≠ direction point after) : point ∈ kept := by
  obtain ⟨front, back, path⟩ := steps
  obtain ⟨_, _, _, _, adjacent, -⟩ := cut.around
    (show points = front ++ ([before] ++ point :: ([after] ++ back)) by rw [← path]; simp) (List.cons_ne_nil _ _) (List.cons_ne_nil _ _)
    (.cons_cons rfl (.singleton _)) (.cons_cons rfl (.singleton _)) turning
  exact adjacent.subset (by simp)

end Cut

variable (direction) in
theorem length_turnsFrom_le [DecidableEq Direction] (before point : Point) (points : List Point) :
    (turnsFrom direction before point points).length ≤ points.length + 1 := by
  induction points generalizing before point with
  | nil => simp [turnsFrom]
  | cons next points ih =>
      have rest := ih point next
      unfold turnsFrom
      split
      · rw [List.length_cons]
        omega
      · simp only [List.length_cons]
        omega

theorem turnsFrom_eq_iff [DecidableEq Direction] (before point : Point) (points : List Point) :
    turnsFrom direction before point points = point :: points ↔
      ∀ first second third, [first, second, third] <:+: before :: point :: points →
        direction first second ≠ direction second third := by
  induction points generalizing before point with
  | nil =>
      refine iff_of_true rfl fun first second third steps => ?_
      exact absurd steps.length_le (by simp)
  | cons next points ih =>
      unfold turnsFrom
      split
      · next same =>
          refine iff_of_false (fun path => ?_) fun all => all before point next ⟨[], points, rfl⟩ same
          have short := length_turnsFrom_le direction point next points
          rw [path] at short
          simp only [List.length_cons] at short
          omega
      · next turned =>
          rw [List.cons_inj_right, ih]
          constructor
          · intro later first second third steps
            rcases List.infix_cons_iff.mp steps with ⟨_, path⟩ | after
            · cases path
              exact turned
            · exact later first second third after
          · exact fun all first second third steps =>
              all first second third (steps.trans (List.suffix_cons _ _).isInfix)

theorem turns_eq_self_iff [DecidableEq Direction] :
    turns direction points = points ↔
      ∀ first second third, [first, second, third] <:+: points →
        direction first second ≠ direction second third := by
  match points with
  | [] => exact iff_of_true rfl fun _ _ _ steps => absurd steps.length_le (by simp)
  | [point] => exact iff_of_true rfl fun _ _ _ steps => absurd steps.length_le (by simp)
  | first :: second :: points =>
      rw [turns, List.cons_inj_right, turnsFrom_eq_iff]

theorem turnsFrom_map [DecidableEq Direction] (place : Source → Point) (before point : Source)
    (points : List Source) :
    turnsFrom direction (place before) (place point) (points.map place) =
      (turnsFrom (fun p q => direction (place p) (place q)) before point points).map place := by
  induction points generalizing before point with
  | nil => rfl
  | cons next points ih =>
      rw [List.map_cons, turnsFrom, turnsFrom, ih]
      split <;> rfl

theorem turns_map [DecidableEq Direction] (place : Source → Point) (points : List Source) :
    turns direction (points.map place) =
      (turns (fun p q => direction (place p) (place q)) points).map place := by
  match points with
  | [] | [_] => rfl
  | first :: second :: points => exact congrArg (place first :: ·) (turnsFrom_map place ..)

variable (direction) in
theorem turns_sublist [DecidableEq Direction] (points : List Point) :
    (turns direction points).Sublist points := by
  rcases eq_or_ne points [] with rfl | nonempty
  · exact .slnil
  · exact (cut_turns direction nonempty).sublist

end Turns
