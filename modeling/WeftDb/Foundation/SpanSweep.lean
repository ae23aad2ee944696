import Mathlib.Data.List.Pairwise
import Mathlib.Logic.Relation
import Mathlib.Order.Lattice
import Mathlib.Order.Defs.LinearOrder
import Mathlib.Order.MinMax

/-!
# Sweeping closed spans

Items with a closed span, in the order of their starts, are swept into groups: a new group begins
where an item starts after the reach of the current one.  The groups are the classes of the items
which a chain of meeting spans joins.
-/

namespace SpanSweep

variable {Item Time : Type*} [LinearOrder Time] {low high : Item → Time}
variable {left right : Item} {items group : List Item} {reach : Time}

/-- Whether two spans share a point. -/
def Meets (low high : Item → Time) (left right : Item) : Prop :=
  low left ≤ high right ∧ low right ≤ high left

theorem Meets.symm (meets : Meets low high left right) : Meets low high right left :=
  ⟨meets.2, meets.1⟩

/-- Whether a chain of items of a list, each meeting the next, joins two items. -/
def Joined (low high : Item → Time) (items : List Item) : Item → Item → Prop :=
  Relation.ReflTransGen fun left right => left ∈ items ∧ right ∈ items ∧ Meets low high left right

theorem Joined.symm (joined : Joined low high items left right) :
    Joined low high items right left := by
  induction joined with
  | refl => exact .refl
  | tail _ step ih => exact .head ⟨step.2.1, step.1, step.2.2.symm⟩ ih

theorem Joined.mono {more : List Item} (subset : items ⊆ more)
    (joined : Joined low high items left right) : Joined low high more left right := by
  induction joined with
  | refl => exact .refl
  | tail _ step ih => exact ih.tail ⟨subset step.1, subset step.2.1, step.2.2⟩

/-- Whether every item of one group ends before every item of another starts. -/
def Before (low high : Item → Time) (first second : List Item) : Prop :=
  ∀ left ∈ first, ∀ right ∈ second, high left < low right

theorem Before.not_meets {first second : List Item} (before : Before low high first second)
    (left_mem : left ∈ first) (right_mem : right ∈ second) : ¬Meets low high left right :=
  fun meets => absurd (before left left_mem right right_mem) (not_lt.mpr meets.2)

variable (low high) in
/-- Sweep the items behind a group which reaches up to a point. -/
def sweepFrom (group : List Item) (reach : Time) : List Item → List (List Item)
  | [] => [group]
  | item :: items =>
      if low item ≤ reach then sweepFrom (group ++ [item]) (max reach (high item)) items
      else group :: sweepFrom [item] (high item) items

variable (low high) in
/-- The groups of items in the order of their starts. -/
def sweep : List Item → List (List Item)
  | [] => []
  | item :: items => sweepFrom low high [item] (high item) items

/-- A group on the way: its items are joined, and one of them has its reach. -/
structure Grouped (low high : Item → Time) (group : List Item) (reach : Time) : Prop where
  bound : ∀ item ∈ group, high item ≤ reach
  reached : ∃ item ∈ group, high item = reach
  joined : ∀ left ∈ group, ∀ right ∈ group, Joined low high group left right

theorem grouped_singleton (item : Item) : Grouped low high [item] (high item) where
  bound := List.forall_mem_singleton.mpr le_rfl
  reached := ⟨item, List.mem_singleton_self item, rfl⟩
  joined := by
    simp only [List.mem_singleton]
    rintro left rfl right rfl
    exact .refl

theorem Grouped.ne_nil (grouped : Grouped low high group reach) : group ≠ [] := by
  obtain ⟨item, member, -⟩ := grouped.reached
  exact List.ne_nil_of_mem member

theorem Grouped.push (grouped : Grouped low high group reach) {item : Item}
    (inside : low item ≤ reach) (ordered : low item ≤ high item)
    (later : ∀ other ∈ group, low other ≤ low item) :
    Grouped low high (group ++ [item]) (max reach (high item)) where
  bound := by
    intro other member
    rcases List.mem_append.mp member with held | last
    · exact (grouped.bound other held).trans (le_max_left _ _)
    · rw [List.mem_singleton.mp last]
      exact le_max_right _ _
  reached := by
    rcases le_total reach (high item) with above | below
    · exact ⟨item, by simp, (max_eq_right above).symm⟩
    · obtain ⟨other, member, same⟩ := grouped.reached
      exact ⟨other, List.mem_append_left _ member, same.trans (max_eq_left below).symm⟩
  joined := by
    obtain ⟨farthest, member, same⟩ := grouped.reached
    have meets : Meets low high farthest item :=
      ⟨(later farthest member).trans ordered, same ▸ inside⟩
    have link : ∀ other ∈ group, Joined low high (group ++ [item]) other item :=
      fun other held =>
        ((grouped.joined other held farthest member).mono (List.subset_append_left _ _)).tail
          ⟨List.mem_append_left _ member, by simp, meets⟩
    intro left left_mem right right_mem
    rcases List.mem_append.mp left_mem with left_held | left_last
    · rcases List.mem_append.mp right_mem with right_held | right_last
      · exact (grouped.joined left left_held right right_held).mono (List.subset_append_left _ _)
      · rw [List.mem_singleton.mp right_last]
        exact link left left_held
    · rw [List.mem_singleton.mp left_last]
      rcases List.mem_append.mp right_mem with right_held | right_last
      · exact (link right right_held).symm
      · rw [List.mem_singleton.mp right_last]
        exact .refl

variable (low high) in
theorem flatten_sweepFrom (group : List Item) (reach : Time) (items : List Item) :
    (sweepFrom low high group reach items).flatten = group ++ items := by
  induction items generalizing group reach with
  | nil => simp [sweepFrom]
  | cons item items ih =>
      rw [sweepFrom]
      split
      · rw [ih, List.append_assoc]
        rfl
      · rw [List.flatten_cons, ih]
        rfl

variable (low high) in
theorem flatten_sweep (items : List Item) : (sweep low high items).flatten = items := by
  cases items with
  | nil => rfl
  | cons item items => exact flatten_sweepFrom low high [item] (high item) items

variable (low high) in
theorem exists_mem_sweep {item : Item} (member : item ∈ items) :
    ∃ group ∈ sweep low high items, item ∈ group := by
  rw [← flatten_sweep low high items] at member
  exact List.mem_flatten.mp member

theorem sweepFrom_spec (grouped : Grouped low high group reach)
    (ordered : ∀ item ∈ items, low item ≤ high item)
    (sorted : (group ++ items).Pairwise fun left right => low left ≤ low right) :
    (∀ swept ∈ sweepFrom low high group reach items, ∃ reach, Grouped low high swept reach) ∧
      (sweepFrom low high group reach items).Pairwise (Before low high) := by
  induction items generalizing group reach with
  | nil => exact ⟨List.forall_mem_singleton.mpr ⟨reach, grouped⟩, List.pairwise_singleton _ _⟩
  | cons item items ih =>
      obtain ⟨own, others⟩ := List.forall_mem_cons.mp ordered
      obtain ⟨-, tail_sorted, across⟩ := List.pairwise_append.mp sorted
      rw [sweepFrom]
      split
      · rename_i inside
        exact ih (grouped.push inside own fun other member =>
          across other member item List.mem_cons_self) others (by rwa [List.append_assoc])
      · rename_i beyond
        obtain ⟨swept, apart⟩ := ih (grouped_singleton item) others tail_sorted
        refine ⟨List.forall_mem_cons.mpr ⟨⟨reach, grouped⟩, swept⟩, .cons ?_ apart⟩
        intro later member left left_mem right right_mem
        have behind : right ∈ item :: items := by
          have flat := List.mem_flatten_of_mem member right_mem
          rwa [flatten_sweepFrom] at flat
        have start : low item ≤ low right := by
          rcases List.mem_cons.mp behind with rfl | after
          · exact le_rfl
          · exact (List.pairwise_cons.mp tail_sorted).1 right after
        exact ((grouped.bound left left_mem).trans_lt (not_le.mp beyond)).trans_le start

section Sweep

variable {items : List Item} (ordered : ∀ item ∈ items, low item ≤ high item)
  (sorted : items.Pairwise fun left right => low left ≤ low right)

include ordered sorted

theorem sweep_spec :
    (∀ group ∈ sweep low high items, ∃ reach, Grouped low high group reach) ∧
      (sweep low high items).Pairwise (Before low high) := by
  cases items with
  | nil => exact ⟨List.forall_mem_nil _, .nil⟩
  | cons item items =>
      exact sweepFrom_spec (grouped_singleton item) (List.forall_mem_cons.mp ordered).2 sorted

theorem before_or_after {other : List Item} (group_mem : group ∈ sweep low high items)
    (other_mem : other ∈ sweep low high items) (apart : group ≠ other) :
    Before low high group other ∨ Before low high other group := by
  have either : (sweep low high items).Pairwise fun first second =>
      Before low high first second ∨ Before low high second first :=
    (sweep_spec ordered sorted).2.imp .inl
  have : Std.Symm fun first second : List Item =>
      Before low high first second ∨ Before low high second first := ⟨fun _ _ => Or.symm⟩
  exact either.forall group_mem other_mem apart

theorem mem_of_meets (group_mem : group ∈ sweep low high items) (left_mem : left ∈ group)
    (right_mem : right ∈ items) (meets : Meets low high left right) : right ∈ group := by
  obtain ⟨other, other_mem, inside⟩ := exists_mem_sweep low high right_mem
  by_contra outside
  have apart : group ≠ other := by
    rintro rfl
    exact outside inside
  rcases before_or_after ordered sorted group_mem other_mem apart with before | after
  · exact before.not_meets left_mem inside meets
  · exact after.not_meets inside left_mem meets.symm

theorem exists_group_iff (left_mem : left ∈ items) :
    (∃ group ∈ sweep low high items, left ∈ group ∧ right ∈ group) ↔
      Joined low high items left right := by
  constructor
  · rintro ⟨group, member, left_held, right_held⟩
    obtain ⟨reach, grouped⟩ := (sweep_spec ordered sorted).1 group member
    refine (grouped.joined left left_held right right_held).mono fun item held => ?_
    rw [← flatten_sweep low high items]
    exact List.mem_flatten_of_mem member held
  · intro joined
    obtain ⟨group, member, held⟩ := exists_mem_sweep low high left_mem
    refine ⟨group, member, held, ?_⟩
    induction joined with
    | refl => exact held
    | tail _ step inside => exact mem_of_meets ordered sorted member inside step.2.1 step.2.2

end Sweep

variable (low high) in
/-- Whether each item starts in the reach of those before it. -/
def reachedFlags (reach : Time) : List Item → List Bool
  | [] => []
  | item :: items => decide (low item ≤ reach) :: reachedFlags (max reach (high item)) items

variable (low high) in
/-- Whether each item starts in the reach of those before it, the first one never. -/
def predecessorFlags : List Item → List Bool
  | [] => []
  | item :: items => false :: reachedFlags low high (high item) items

variable (low high) in
/-- Whether the next item starts in the span of each. -/
def successorFlags : List Item → List Bool
  | first :: second :: items =>
      decide (low second ≤ high first) :: successorFlags (second :: items)
  | [_] => [false]
  | [] => []

theorem two_le_length_sweepFrom (filled : group ≠ [])
    (ordered : ∀ item ∈ items, low item ≤ high item) :
    (∃ swept ∈ sweepFrom low high group reach items, 2 ≤ swept.length) ↔
      2 ≤ group.length ∨ true ∈ reachedFlags low high reach items := by
  induction items generalizing group reach with
  | nil => simp [sweepFrom, reachedFlags]
  | cons item items ih =>
      obtain ⟨own, others⟩ := List.forall_mem_cons.mp ordered
      have positive := List.length_pos_iff.mpr filled
      rw [sweepFrom, reachedFlags]
      split
      · rename_i inside
        rw [ih (by simp) others, decide_eq_true inside]
        simp only [List.length_append, List.length_singleton, List.mem_cons, true_or, or_true,
          iff_true]
        exact .inl (by omega)
      · rename_i beyond
        have same : max reach (high item) = high item :=
          max_eq_right ((not_le.mp beyond).le.trans own)
        have alone := @ih [item] (high item) (List.cons_ne_nil item []) others
        rw [decide_eq_false beyond, same]
        simp only [List.mem_cons, exists_eq_or_imp, alone, List.length_singleton,
          Bool.true_eq_false, false_or]
        simp

theorem two_le_length_sweep (ordered : ∀ item ∈ items, low item ≤ high item) :
    (∃ group ∈ sweep low high items, 2 ≤ group.length) ↔
      true ∈ predecessorFlags low high items := by
  cases items with
  | nil => simp [sweep, predecessorFlags]
  | cons item items =>
      rw [sweep, two_le_length_sweepFrom (List.cons_ne_nil _ _) (List.forall_mem_cons.mp ordered).2,
        predecessorFlags]
      simp

theorem reached_of_successor {first : Item} (far : high first ≤ reach)
    (flagged : true ∈ successorFlags low high (first :: items)) :
    true ∈ reachedFlags low high reach items := by
  induction items generalizing first reach with
  | nil => simp [successorFlags] at flagged
  | cons second items ih =>
      rw [successorFlags, List.mem_cons] at flagged
      rw [reachedFlags, List.mem_cons]
      rcases flagged with next | later
      · have inside := of_decide_eq_true next.symm
        exact .inl (decide_eq_true (inside.trans far)).symm
      · exact .inr (ih (le_max_right _ _) later)

theorem true_mem_zipWith_or {left right : List Bool} (heights : left.length = right.length) :
    true ∈ left.zipWith (· || ·) right ↔ true ∈ left ∨ true ∈ right := by
  induction left generalizing right with
  | nil =>
      obtain rfl := List.length_eq_zero_iff.mp heights.symm
      simp
  | cons flag left ih =>
      cases right with
      | nil => cases heights
      | cons other right =>
          rw [List.zipWith_cons_cons, List.mem_cons, List.mem_cons, List.mem_cons,
            ih (Nat.succ.inj heights)]
          cases flag <;> simp [or_left_comm]

theorem length_reachedFlags (reach : Time) (items : List Item) :
    (reachedFlags low high reach items).length = items.length := by
  induction items generalizing reach with
  | nil => rfl
  | cons item items ih => rw [reachedFlags, List.length_cons, ih, List.length_cons]

variable (low high) in
theorem length_flags (items : List Item) :
    (predecessorFlags low high items).length = items.length ∧
      (successorFlags low high items).length = items.length := by
  induction items with
  | nil => exact ⟨rfl, rfl⟩
  | cons item items ih =>
      refine ⟨congrArg (· + 1) (length_reachedFlags _ _), ?_⟩
      cases items with
      | nil => rfl
      | cons second items => exact congrArg (· + 1) ih.2

variable (low high) in
theorem length_zipWith_flags (items : List Item) :
    ((predecessorFlags low high items).zipWith (· || ·) (successorFlags low high items)).length =
      items.length := by
  obtain ⟨predecessors, successors⟩ := length_flags low high items
  rw [List.length_zipWith, predecessors, successors, Nat.min_self]

theorem flagged_iff (items : List Item) :
    true ∈ (predecessorFlags low high items).zipWith (· || ·) (successorFlags low high items) ↔
      true ∈ predecessorFlags low high items := by
  obtain ⟨predecessors, successors⟩ := length_flags low high items
  rw [true_mem_zipWith_or (predecessors.trans successors.symm), or_iff_left_of_imp]
  cases items with
  | nil => simp [successorFlags]
  | cons item items =>
      exact fun flagged => List.mem_cons_of_mem _ (reached_of_successor le_rfl flagged)

theorem two_le_length_of_flagged (flagged : true ∈ predecessorFlags low high items) :
    2 ≤ items.length := by
  cases items with
  | nil => cases flagged
  | cons first items =>
      cases items with
      | nil => simp [predecessorFlags, reachedFlags] at flagged
      | cons second items => exact Nat.succ_le_succ (Nat.succ_pos _)

theorem predecessorFlags_map {Other : Type*} {low' high' : Other → Time} {others : List Other}
    (same : items.map (fun item => (low item, high item)) =
      others.map fun item => (low' item, high' item)) :
    predecessorFlags low high items = predecessorFlags low' high' others := by
  have general : ∀ reach, ∀ {items : List Item} {others : List Other},
      items.map (fun item => (low item, high item)) =
        (others.map fun item => (low' item, high' item)) →
      reachedFlags low high reach items = reachedFlags low' high' reach others := by
    intro reach items
    induction items generalizing reach with
    | nil =>
        intro others same
        obtain rfl := List.map_eq_nil_iff.mp same.symm
        rfl
    | cons item items ih =>
        intro others same
        cases others with
        | nil => cases same
        | cons other others =>
            obtain ⟨own, rest⟩ := List.cons.inj same
            obtain ⟨lows, highs⟩ := Prod.mk.inj own
            rw [reachedFlags, reachedFlags, lows, highs, ih _ rest]
  cases items with
  | nil =>
      obtain rfl := List.map_eq_nil_iff.mp same.symm
      rfl
  | cons item items =>
      cases others with
      | nil => cases same
      | cons other others =>
          obtain ⟨own, rest⟩ := List.cons.inj same
          rw [predecessorFlags, predecessorFlags, (Prod.mk.inj own).2, general _ rest]

instance : DecidableRel (Meets low high) := fun left right =>
  inferInstanceAs (Decidable (low left ≤ high right ∧ low right ≤ high left))

variable (low high) in
/-- The items which start in the reach of those before them or in whose span the next one starts. -/
def flagged (items : List Item) : List Item :=
  ((items.zip ((predecessorFlags low high items).zipWith (· || ·)
    (successorFlags low high items))).filter Prod.snd).map Prod.fst

theorem successorFlags_cons (item : Item) (items : List Item) :
    successorFlags low high (item :: items) =
      (items.head?.any fun second => decide (low second ≤ high item)) ::
        successorFlags low high items := by
  cases items with
  | nil => rfl
  | cons second items => rfl

theorem filter_zip_cons (item : Item) (items : List Item) (flag : Bool) (flags : List Bool) :
    (((item :: items).zip (flag :: flags)).filter Prod.snd).map Prod.fst =
      if flag then item :: ((items.zip flags).filter Prod.snd).map Prod.fst
      else ((items.zip flags).filter Prod.snd).map Prod.fst := by
  rw [List.zip_cons_cons]
  cases flag with
  | true => rw [List.filter_cons_of_pos rfl, List.map_cons, if_pos rfl]
  | false => rw [List.filter_cons_of_neg Bool.false_ne_true, if_neg Bool.false_ne_true]

theorem reached_or_next_iff {earlier items : List Item} {item : Item}
    (own : low item ≤ high item) (ordered : ∀ other ∈ items, low other ≤ high other)
    (sorted : (earlier ++ item :: items).Pairwise fun left right => low left ≤ low right)
    (distinct : (earlier ++ item :: items).Nodup) :
    ((∃ other ∈ earlier, low item ≤ high other) ∨
        (items.head?.any fun second => decide (low second ≤ high item)) = true) ↔
      ∃ other ∈ earlier ++ item :: items, other ≠ item ∧ Meets low high item other := by
  obtain ⟨-, tail_sorted, across⟩ := List.pairwise_append.mp sorted
  obtain ⟨-, tail_distinct, apart⟩ := List.pairwise_append.mp distinct
  obtain ⟨start, later_sorted⟩ := List.pairwise_cons.mp tail_sorted
  obtain ⟨fresh, -⟩ := List.pairwise_cons.mp tail_distinct
  constructor
  · rintro (⟨other, member, inside⟩ | next)
    · exact ⟨other, List.mem_append_left _ member, apart other member item List.mem_cons_self,
        inside, (across other member item List.mem_cons_self).trans own⟩
    · obtain ⟨second, first, inside⟩ := (Option.any_eq_true _ _).mp next
      have member : second ∈ items := List.mem_of_mem_head? first
      exact ⟨second, List.mem_append_right _ (List.mem_cons_of_mem _ member),
        (fresh second member).symm, (start second member).trans (ordered second member),
        of_decide_eq_true inside⟩
  · rintro ⟨other, member, different, below, above⟩
    rcases List.mem_append.mp member with before | behind
    · exact .inl ⟨other, before, below⟩
    · rcases List.mem_cons.mp behind with rfl | after
      · exact (different rfl).elim
      · -- The next item starts no later than any other behind this one.
        refine .inr ((Option.any_eq_true _ _).mpr ?_)
        cases items with
        | nil => cases after
        | cons second items =>
            refine ⟨second, rfl, decide_eq_true ?_⟩
            rcases List.mem_cons.mp after with rfl | beyond
            · exact above
            · exact ((List.pairwise_cons.mp later_sorted).1 other beyond).trans above

variable [DecidableEq Item]

theorem filter_flags_from {earlier : List Item}
    (reached : ∀ time, time ≤ reach ↔ ∃ other ∈ earlier, time ≤ high other)
    (ordered : ∀ item ∈ items, low item ≤ high item)
    (sorted : (earlier ++ items).Pairwise fun left right => low left ≤ low right)
    (distinct : (earlier ++ items).Nodup) :
    ((items.zip ((reachedFlags low high reach items).zipWith (· || ·)
        (successorFlags low high items))).filter Prod.snd).map Prod.fst =
      items.filter fun item =>
        ∃ other ∈ earlier ++ items, other ≠ item ∧ Meets low high item other := by
  induction items generalizing earlier reach with
  | nil => rfl
  | cons item items ih =>
      obtain ⟨own, others⟩ := List.forall_mem_cons.mp ordered
      have whole : earlier ++ item :: items = earlier ++ [item] ++ items := by simp
      have reached_next : ∀ time, time ≤ max reach (high item) ↔
          ∃ other ∈ earlier ++ [item], time ≤ high other := by
        intro time
        rw [le_max_iff, reached time]
        simp [or_and_right, exists_or]
      have rest := ih reached_next others (whole ▸ sorted) (whole ▸ distinct)
      have meets := reached_or_next_iff own others sorted distinct
      rw [← reached (low item)] at meets
      rw [reachedFlags, successorFlags_cons, List.zipWith_cons_cons, filter_zip_cons, rest, ← whole,
        List.filter_cons]
      refine if_congr ?_ rfl rfl
      rw [Bool.or_eq_true, decide_eq_true_iff, meets, decide_eq_true_iff]

theorem flagged_eq (ordered : ∀ item ∈ items, low item ≤ high item)
    (sorted : items.Pairwise fun left right => low left ≤ low right) (distinct : items.Nodup) :
    flagged low high items =
      items.filter fun item => ∃ other ∈ items, other ≠ item ∧ Meets low high item other := by
  cases items with
  | nil => rfl
  | cons item items =>
      obtain ⟨own, others⟩ := List.forall_mem_cons.mp ordered
      have reached : ∀ time, time ≤ high item ↔ ∃ other ∈ [item], time ≤ high other := by simp
      have rest := filter_flags_from reached others sorted distinct
      have meets := @reached_or_next_iff _ _ _ low high [] items item own others sorted distinct
      rw [flagged, predecessorFlags, successorFlags_cons, List.zipWith_cons_cons, filter_zip_cons,
        rest, List.filter_cons]
      refine if_congr ?_ rfl rfl
      rw [Bool.false_or, decide_eq_true_iff]
      simpa using meets

end SpanSweep
