import Mathlib.Data.Prod.Lex
import WeftDb.Reduce.Sketch

/-!
# Merged sketches and their quantiles

However samples are split into parts and the parts' sketches merged, the result is the sketch of all
samples.  It keeps the highest buckets within its budget and counts every lower sample in the lowest
one kept, so a quantile reads the bucket of the sample of its rank, or the lowest one kept.
-/

namespace WeftDb.Reduce

/-- Walk counts until so many samples have been seen: their number, and the bucket reached. -/
def reach (ordinal : Nat) : Nat → List (Int × Nat) → Nat × Option Int
  | seen, [] => (seen, none)
  | seen, (index, count) :: entries =>
      if ordinal ≤ seen + count then (seen + count, some index)
      else reach ordinal (seen + count) entries

/-- The bucket which a quantile reads; `rank` rounds the quantile's share of a count up, in floating
point. -/
def DdSketch.quantile (rank : Nat → Nat) (sketch : DdSketch) : Option SketchBin :=
  if sketch.count = 0 then none
  else
    let ordinal := max 1 (min (rank sketch.count) sketch.count)
    -- The most negative samples are those of the highest buckets.
    match reach ordinal 0 sketch.negative.entries.reverse with
    | (_, some index) => some (.negative index)
    | (negatives, none) =>
        let seen := negatives + sketch.zeros
        if 0 < sketch.zeros ∧ ordinal ≤ seen then some .zero
        else
          match reach ordinal seen sketch.positive.entries with
          | (_, some index) => some (.positive index)
          | (_, none) =>
              match sketch.positive.keys.getLast? with
              | some index => some (.positive index)
              | none =>
                  if 0 < sketch.zeros then some .zero
                  else sketch.negative.keys.head?.map .negative

/-- Samples in parts which are merged two by two. -/
inductive SketchParts (Sample : Type*)
  | part (samples : List Sample)
  | node (left right : SketchParts Sample)

namespace SketchParts

variable {Sample : Type*}

def samples : SketchParts Sample → List Sample
  | part samples => samples
  | node left right => left.samples ++ right.samples

/-- Sketch the parts, and merge the sketches. -/
def build (bin : Sample → SketchBin) (budget : BinBudget) : SketchParts Sample → DdSketch
  | part samples => (samples.map bin).foldl DdSketch.add (.bare budget)
  | node left right => (left.build bin budget).merge (right.build bin budget)

theorem build_eq (bin : Sample → SketchBin) (budget : BinBudget) (tree : SketchParts Sample) :
    tree.build bin budget = .ofBins budget (tree.samples.map bin) := by
  induction tree with
  | part samples => exact DdSketch.foldl_add budget _
  | node left right left_ih right_ih =>
      rw [build, left_ih, right_ih, DdSketch.merge_ofBins, samples, List.map_append]

end SketchParts

namespace DdSketch

open HighCounts

theorem spread_reverse (entries : List (Int × Nat)) :
    spread entries.reverse = (spread entries).reverse := by
  induction entries with
  | nil => rfl
  | cons entry entries ih =>
      obtain ⟨index, count⟩ := entry
      have last : spread [(index, count)] = List.replicate count index := by
        rw [spread_cons, spread, List.flatMap_nil, List.append_nil]
      rw [List.reverse_cons, spread, List.flatMap_append, ← spread, ih, ← spread, last, spread_cons,
        List.reverse_append, List.reverse_replicate]

theorem reach_eq {ordinal seen : Nat} (entries : List (Int × Nat)) (before : seen < ordinal) :
    (reach ordinal seen entries).2 = (spread entries)[ordinal - seen - 1]? ∧
      ((reach ordinal seen entries).2 = none →
        (reach ordinal seen entries).1 = seen + (spread entries).length ∧
          seen + (spread entries).length < ordinal) := by
  induction entries generalizing seen with
  | nil => exact ⟨rfl, fun _ => ⟨rfl, before⟩⟩
  | cons entry entries ih =>
      obtain ⟨index, count⟩ := entry
      rw [reach, spread_cons]
      by_cases reached : ordinal ≤ seen + count
      · rw [if_pos reached]
        refine ⟨?_, fun missing => by cases missing⟩
        rw [List.getElem?_append_left (by rw [List.length_replicate]; omega),
          List.getElem?_replicate_of_lt (by omega)]
      · obtain ⟨found, passed⟩ := ih (not_le.mp reached)
        rw [if_neg reached, found,
          List.getElem?_append_right (by rw [List.length_replicate]; omega),
          List.length_replicate, List.length_append, List.length_replicate]
        refine ⟨congrArg _ (by omega), fun missing => ?_⟩
        obtain ⟨counted, short⟩ := passed (found.trans missing)
        omega

/-- The buckets of all samples, from the most negative to the most positive. -/
def ordered (sketch : DdSketch) : List SketchBin :=
  (spread sketch.negative.entries).reverse.map .negative ++
    (List.replicate sketch.zeros .zero ++ (spread sketch.positive.entries).map .positive)

/-- A quantile reads the bucket at its rank. -/
theorem quantile_eq {sketch : DdSketch} (rank : Nat → Nat)
    (counted : sketch.count = sketch.ordered.length) :
    sketch.quantile rank =
      sketch.ordered[max 1 (min (rank sketch.count) sketch.count) - 1]? := by
  rw [quantile]
  split
  · rename_i bare
    rw [bare] at counted ⊢
    rw [List.length_eq_zero_iff.mp counted.symm]
    rfl
  · rename_i filled
    dsimp only
    have within : max 1 (min (rank sketch.count) sketch.count) ≤ sketch.count := by omega
    have positive : 0 < max 1 (min (rank sketch.count) sketch.count) := by omega
    generalize max 1 (min (rank sketch.count) sketch.count) = ordinal at within positive ⊢
    obtain ⟨negative, passed⟩ := reach_eq sketch.negative.entries.reverse positive
    rw [spread_reverse, Nat.sub_zero] at negative
    rw [spread_reverse, List.length_reverse, Nat.zero_add] at passed
    simp only [ordered, List.length_append, List.length_map, List.length_reverse,
      List.length_replicate] at counted
    generalize reach ordinal 0 sketch.negative.entries.reverse = walked at negative passed ⊢
    obtain ⟨negatives, _ | index⟩ := walked
    · obtain ⟨rfl, beyond⟩ := passed rfl
      dsimp only
      rw [ordered, List.getElem?_append_right (by simp; omega), List.length_map,
        List.length_reverse]
      split
      · rename_i zero
        rw [List.getElem?_append_left (by rw [List.length_replicate]; omega),
          List.getElem?_replicate_of_lt (by omega)]
      · rename_i not_zero
        have above : (spread sketch.negative.entries).length + sketch.zeros < ordinal := by omega
        rw [List.getElem?_append_right (by rw [List.length_replicate]; omega),
          List.length_replicate, List.getElem?_map]
        obtain ⟨found, exhausted⟩ := reach_eq sketch.positive.entries above
        generalize reach ordinal ((spread sketch.negative.entries).length + sketch.zeros)
          sketch.positive.entries = later at found exhausted ⊢
        obtain ⟨positives, _ | index⟩ := later
        · -- All samples have been walked, and the rank is one of them.
          obtain ⟨-, short⟩ := exhausted rfl
          omega
        · have place : ordinal - 1 - (spread sketch.negative.entries).length - sketch.zeros =
              ordinal - ((spread sketch.negative.entries).length + sketch.zeros) - 1 := by omega
          rw [place, ← found]
          rfl
    · have inside := (List.getElem?_eq_some_iff.mp negative.symm).1
      rw [List.length_reverse] at inside
      rw [ordered, List.getElem?_append_left (by simpa using inside), List.getElem?_map, ← negative]
      rfl

/-- Whether an index is one of the highest ones, as many as a budget allows. -/
def Survives (budget : BinBudget) (indices : List Int) (index : Int) : Prop :=
  index ∈ indices ∧
    ∀ most ∈ budget.maxBins, (indices.filter (index ≤ ·)).toFinset.card ≤ most

instance (budget : BinBudget) (indices : List Int) : DecidablePred (Survives budget indices) :=
  fun _ => inferInstanceAs (Decidable (_ ∧ _))

def lowestSurvivor (budget : BinBudget) (indices : List Int) : Option Int :=
  (indices.filter fun index => Survives budget indices index).min?

/-- The bucket which counts the samples of an index: its own or the lowest one kept. -/
def home (budget : BinBudget) (indices : List Int) (index : Int) : Int :=
  if Survives budget indices index then index
  else (lowestSurvivor budget indices).getD index

/-- The store of samples with some indices. -/
def storeOf (budget : BinBudget) (indices : List Int) : SortedMap Int Nat :=
  budget.collapseLowest (addAll .empty (indices.map fun index => (index, 1)))

variable {budget : BinBudget} {indices : List Int} {index : Int}

theorem map_fst_ones (indices : List Int) :
    (indices.map fun index => (index, 1)).map Prod.fst = indices := by
  rw [List.map_map]
  exact List.map_id _

theorem keysFrom_ones (indices : List Int) (index : Int) :
    keysFrom (addAll .empty (indices.map fun index => (index, 1))).entries index =
      (indices.filter (index ≤ ·)).toFinset := by
  rw [keysFrom_addAll, keysFrom, keysFrom, map_fst_ones]
  exact Finset.empty_union _

theorem mem_keys_storeOf :
    index ∈ (storeOf budget indices).keys ↔ Survives budget indices index := by
  obtain ⟨_ | most, positive⟩ := budget
  · rw [storeOf, BinBudget.collapseLowest, mem_keys_addAll_empty, map_fst_ones, Survives]
    simp
  · rw [storeOf, BinBudget.collapseLowest, mem_keys_collapse (positive most rfl),
      mem_keys_addAll_empty, map_fst_ones, keysFrom_ones, Survives]
    simp

theorem mem_survivors :
    index ∈ indices.filter (fun index => Survives budget indices index) ↔
      Survives budget indices index := by
  rw [List.mem_filter, decide_eq_true_iff]
  exact ⟨And.right, fun survives => ⟨survives.1, survives⟩⟩

theorem head_keys_storeOf :
    (storeOf budget indices).keys.head? = lowestSurvivor budget indices := by
  rw [lowestSurvivor]
  cases lowest : (storeOf budget indices).keys.head? with
  | none =>
      have bare := List.head?_eq_none_iff.mp lowest
      rw [eq_comm, List.min?_eq_none_iff, List.eq_nil_iff_forall_not_mem]
      intro index member
      rw [mem_survivors, ← mem_keys_storeOf, bare] at member
      exact List.not_mem_nil member
  | some floor =>
      rw [eq_comm, List.min?_eq_some_iff]
      refine ⟨mem_survivors.mpr (mem_keys_storeOf.mp (List.mem_of_mem_head? lowest)), ?_⟩
      exact fun index member =>
        le_of_head_keys lowest (mem_keys_storeOf.mpr (mem_survivors.mp member))

theorem home_eq_max {floor : Int} (lowest : lowestSurvivor budget indices = some floor)
    (member : index ∈ indices) : home budget indices index = max floor index := by
  obtain ⟨floor_mem, least⟩ := List.min?_eq_some_iff.mp lowest
  rw [home, lowest, Option.getD_some]
  split
  · rename_i survives
    exact (max_eq_right (least index (mem_survivors.mpr survives))).symm
  · rename_i dropped
    refine (max_eq_left (not_lt.mp fun above => dropped ⟨member, fun most held => ?_⟩)).symm
    refine (Finset.card_le_card fun other higher => ?_).trans
      ((mem_survivors.mp floor_mem).2 most held)
    rw [List.mem_toFinset, List.mem_filter, decide_eq_true_iff] at higher ⊢
    exact ⟨higher.1, above.le.trans higher.2⟩

theorem home_mono {left right : Int} (left_mem : left ∈ indices) (right_mem : right ∈ indices)
    (below : left ≤ right) : home budget indices left ≤ home budget indices right := by
  cases lowest : lowestSurvivor budget indices with
  | none =>
      have own (index : Int) : home budget indices index = index := by
        rw [home, lowest, Option.getD_none, ite_self]
      rwa [own, own]
  | some floor =>
      rw [home_eq_max lowest left_mem, home_eq_max lowest right_mem]
      exact max_le_max_left floor below

theorem exists_lowestSurvivor (filled : indices ≠ []) :
    ∃ floor, lowestSurvivor budget indices = some floor := by
  have greatest := List.max?_eq_some_max filled
  obtain ⟨member, above⟩ := List.max?_eq_some_iff.mp greatest
  have survives : Survives budget indices (indices.max filled) := by
    refine ⟨member, fun most held => ?_⟩
    have alone : (indices.filter (indices.max filled ≤ ·)).toFinset ⊆ {indices.max filled} := by
      intro other higher
      rw [List.mem_toFinset, List.mem_filter, decide_eq_true_iff] at higher
      exact Finset.mem_singleton.mpr (le_antisymm (above other higher.1) higher.2)
    exact (Finset.card_le_card alone).trans (budget.positive most held)
  exact ⟨_, List.min?_eq_some_min (List.ne_nil_of_mem (mem_survivors.mpr survives))⟩

theorem spread_storeOf :
    (spread (storeOf budget indices).entries).Perm (indices.map (home budget indices)) := by
  have ones : (spread (addAll .empty (indices.map fun index => (index, 1))).entries).Perm
      indices := by
    have written := spread_addAll .empty (indices.map fun index => (index, 1))
    rwa [spread_ones] at written
  rcases eq_or_ne indices [] with rfl | filled
  · obtain ⟨_ | most, positive⟩ := budget <;> exact .refl _
  · obtain ⟨floor, lowest⟩ := @exists_lowestSurvivor budget _ filled
    have raised : indices.map (home budget indices) = indices.map (max floor) :=
      List.map_congr_left fun index member => home_eq_max lowest member
    have head := lowest
    rw [← head_keys_storeOf] at head
    obtain ⟨_ | most, positive⟩ := budget
    · have unchanged : indices.map (home ⟨none, positive⟩ indices) = indices := by
        refine (List.map_congr_left fun index member => ?_).trans (List.map_id _)
        exact if_pos ⟨member, fun most held => (Option.not_mem_none _ held).elim⟩
      rw [unchanged]
      exact ones
    · have kept : storeOf ⟨some most, positive⟩ indices = _ :=
        collapse_eq_raised (positive most rfl) head
      rw [raised, kept]
      refine (spread_addAll .empty _).trans ?_
      rw [spread_map (max floor)]
      exact ones.map _

theorem find?_storeOf (budget : BinBudget) (indices : List Int) (index : Int) :
    (storeOf budget indices).find? index =
      if Survives budget indices index then some ((indices.map (home budget indices)).count index)
      else none := by
  have counted := count_spread (storeOf budget indices).sorted index
  rw [spread_storeOf.count_eq] at counted
  split
  · rename_i survives
    obtain ⟨entry, member, rfl⟩ := List.mem_map.mp (mem_keys_storeOf.mpr survives)
    have found : (storeOf budget indices).find? entry.1 = some entry.2 :=
      SortedMap.find?_eq_some.mpr member
    rw [counted, ← SortedMap.find?, found]
    rfl
  · rename_i dropped
    rw [Option.eq_none_iff_forall_ne_some]
    intro count found
    exact dropped (mem_keys_storeOf.mp (List.mem_map_of_mem (SortedMap.find?_eq_some.mp found)))

end DdSketch

namespace SketchBin

/-- The order of the values in two buckets: negative ones by falling index, zero, positive ones. -/
def Below : SketchBin → SketchBin → Prop
  | .negative left, .negative right => right ≤ left
  | .positive left, .positive right => left ≤ right
  | .negative _, _ => True
  | .zero, .zero => True
  | .zero, .positive _ => True
  | _, _ => False

variable {left right : SketchBin}

theorem Below.antisymm (below : Below left right) (above : Below right left) : left = right := by
  cases left <;> cases right <;> simp_all [Below]
  · exact le_antisymm above below
  · exact le_antisymm below above

def positiveIndex : SketchBin → Option Int
  | .positive index => some index
  | .zero | .negative _ => none

def negativeIndex : SketchBin → Option Int
  | .negative index => some index
  | .zero | .positive _ => none

/-- The bucket which counts a sample among the samples of a sketch. -/
def home (budget : BinBudget) (bins : List SketchBin) : SketchBin → SketchBin
  | .positive index => .positive (DdSketch.home budget (bins.filterMap positiveIndex) index)
  | .negative index => .negative (DdSketch.home budget (bins.filterMap negativeIndex) index)
  | .zero => .zero

variable {budget : BinBudget} {bins : List SketchBin}

theorem home_mono (left_mem : left ∈ bins) (right_mem : right ∈ bins) (below : Below left right) :
    Below (home budget bins left) (home budget bins right) := by
  cases left with
  | negative low =>
      cases right with
      | negative high =>
          exact DdSketch.home_mono (List.mem_filterMap.mpr ⟨_, right_mem, rfl⟩)
            (List.mem_filterMap.mpr ⟨_, left_mem, rfl⟩) below
      | zero => trivial
      | positive high => trivial
  | zero =>
      cases right with
      | negative high => exact below
      | zero => trivial
      | positive high => trivial
  | positive low =>
      cases right with
      | negative high => exact below
      | zero => exact below
      | positive high =>
          exact DdSketch.home_mono (List.mem_filterMap.mpr ⟨_, left_mem, rfl⟩)
            (List.mem_filterMap.mpr ⟨_, right_mem, rfl⟩) below

theorem perm_split (bins : List SketchBin) :
    bins.Perm ((bins.filterMap negativeIndex).map .negative ++
      (List.replicate (DdSketch.zeroCount bins) .zero ++
        (bins.filterMap positiveIndex).map .positive)) := by
  induction bins with
  | nil => exact .refl _
  | cons bin bins ih =>
      cases bin with
      | negative index => exact ih.cons _
      | zero =>
          rw [DdSketch.zeroCount, List.count_cons_self, List.replicate_succ, List.cons_append]
          exact (ih.cons _).trans List.perm_middle.symm
      | positive index =>
          have positives : (positive index :: bins).filterMap positiveIndex =
              index :: bins.filterMap positiveIndex := rfl
          have zeros : DdSketch.zeroCount (positive index :: bins) = DdSketch.zeroCount bins :=
            List.count_cons_of_ne (by simp)
          rw [positives, zeros, List.map_cons, ← List.append_assoc]
          refine (ih.cons _).trans ?_
          rw [← List.append_assoc]
          exact List.perm_middle.symm

end SketchBin

namespace DdSketch

open HighCounts SketchBin

variable {budget : BinBudget} {bins : List SketchBin}

theorem filterMap_positiveCount (bins : List SketchBin) :
    bins.filterMap positiveCount =
      (bins.filterMap positiveIndex).map fun index => (index, 1) := by
  rw [List.map_filterMap]
  refine List.filterMap_congr fun bin _ => ?_
  cases bin <;> rfl

theorem filterMap_negativeCount (bins : List SketchBin) :
    bins.filterMap negativeCount =
      (bins.filterMap negativeIndex).map fun index => (index, 1) := by
  rw [List.map_filterMap]
  refine List.filterMap_congr fun bin _ => ?_
  cases bin <;> rfl

theorem positive_ofBins :
    (ofBins budget bins).positive = storeOf budget (bins.filterMap positiveIndex) := by
  rw [storeOf, ← filterMap_positiveCount]
  rfl

theorem negative_ofBins :
    (ofBins budget bins).negative = storeOf budget (bins.filterMap negativeIndex) := by
  rw [storeOf, ← filterMap_negativeCount]
  rfl

theorem ordered_perm :
    (ofBins budget bins).ordered.Perm (bins.map (SketchBin.home budget bins)) := by
  have split := (perm_split bins).map (SketchBin.home budget bins)
  rw [List.map_append, List.map_append, List.map_map, List.map_map, List.map_replicate] at split
  refine List.Perm.trans ?_ split.symm
  have negatives := (List.reverse_perm _).trans
    (@spread_storeOf budget (bins.filterMap negativeIndex))
  have positives := @spread_storeOf budget (bins.filterMap positiveIndex)
  have negative_part := negatives.map SketchBin.negative
  have positive_part := positives.map SketchBin.positive
  rw [List.map_map] at negative_part positive_part
  rw [ordered, negative_ofBins, positive_ofBins]
  exact negative_part.append (positive_part.append_left _)

theorem ordered_sorted (sketch : DdSketch) : sketch.ordered.Pairwise Below := by
  refine List.pairwise_append.mpr ⟨?_, List.pairwise_append.mpr ⟨?_, ?_, ?_⟩, ?_⟩
  · exact List.pairwise_map.mpr (List.pairwise_reverse.mpr (pairwise_spread sketch.negative.sorted))
  · exact List.pairwise_replicate.mpr (.inr trivial)
  · exact List.pairwise_map.mpr (pairwise_spread sketch.positive.sorted)
  · intro left left_mem right right_mem
    rw [List.eq_of_mem_replicate left_mem]
    obtain ⟨index, -, rfl⟩ := List.mem_map.mp right_mem
    trivial
  · intro left left_mem right right_mem
    obtain ⟨index, -, rfl⟩ := List.mem_map.mp left_mem
    rcases List.mem_append.mp right_mem with zero | positive
    · rw [List.eq_of_mem_replicate zero]
      trivial
    · obtain ⟨other, -, rfl⟩ := List.mem_map.mp positive
      trivial

theorem count_ofBins : (ofBins budget bins).count = (ofBins budget bins).ordered.length := by
  rw [ordered_perm.length_eq, List.length_map]
  rfl

theorem quantile_ofBins (rank : Nat → Nat) {sorted : List SketchBin} (perm : sorted.Perm bins)
    (in_order : sorted.Pairwise Below) :
    (ofBins budget bins).quantile rank =
      (sorted[max 1 (min (rank bins.length) bins.length) - 1]?).map
        (SketchBin.home budget bins) := by
  have homes : (sorted.map (SketchBin.home budget bins)).Pairwise Below :=
    List.pairwise_map.mpr (in_order.imp_of_mem fun left_mem right_mem =>
      SketchBin.home_mono (perm.subset left_mem) (perm.subset right_mem))
  have same : (ofBins budget bins).ordered = sorted.map (SketchBin.home budget bins) :=
    (ordered_perm.trans (perm.map _).symm).eq_of_pairwise
      (fun _ _ _ _ => Below.antisymm) (ordered_sorted _) homes
  rw [quantile_eq rank count_ofBins, same, List.getElem?_map]
  rfl

end DdSketch

section Merge

variable {Sample : Type*} (bin : Sample → SketchBin)

/-- Samples in any parts, merged in any way, give the sketch of all of them, which has the highest
buckets of each sign with every lower sample counted in the lowest one kept; and a quantile reads
the bucket which counts the sample of its rank. -/
theorem sketch_merges_exactly (budget : BinBudget) (tree : SketchParts Sample)
    {samples : List Sample} (parts : tree.samples.Perm samples) :
    let sketch := tree.build bin budget
    let bins := samples.map bin
    let positives := bins.filterMap SketchBin.positiveIndex
    let negatives := bins.filterMap SketchBin.negativeIndex
    sketch = bins.foldl DdSketch.add (.bare budget) ∧
      (∀ index, sketch.positive.find? index =
        if DdSketch.Survives budget positives index then
          some ((positives.map (DdSketch.home budget positives)).count index) else none) ∧
      (∀ index, sketch.negative.find? index =
        if DdSketch.Survives budget negatives index then
          some ((negatives.map (DdSketch.home budget negatives)).count index) else none) ∧
      sketch.zeros = bins.count .zero ∧ sketch.count = samples.length ∧
      ∀ (rank : Nat → Nat) (sorted : List Sample), sorted.Perm samples →
        (sorted.map bin).Pairwise SketchBin.Below →
          sketch.quantile rank =
            (sorted[max 1 (min (rank samples.length) samples.length) - 1]?).map
              fun sample => SketchBin.home budget bins (bin sample) := by
  intro sketch bins positives negatives
  have whole : sketch = .ofBins budget bins :=
    (tree.build_eq bin budget).trans (DdSketch.ofBins_perm budget (parts.map bin))
  rw [whole]
  refine ⟨(DdSketch.foldl_add budget bins).symm, fun index => ?_, fun index => ?_, rfl,
    List.length_map _, fun rank sorted perm in_order => ?_⟩
  · rw [DdSketch.positive_ofBins]
    exact DdSketch.find?_storeOf budget positives index
  · rw [DdSketch.negative_ofBins]
    exact DdSketch.find?_storeOf budget negatives index
  · rw [DdSketch.quantile_ofBins rank (perm.map bin) in_order, List.getElem?_map, Option.map_map,
      List.length_map]
    rfl

/-- Three buckets within a budget of two, merged out of order. -/
theorem sketch_merges_exactly_folded :
    (SketchParts.node (.part [5, 1]) (.part [3, (1 : Int)])).build SketchBin.positive
        (.atMost 2 (by decide)) =
      ([1, 1, 3, 5].map SketchBin.positive).foldl DdSketch.add
        (.bare (.atMost 2 (by decide))) := by
  have parts :
      (SketchParts.node (.part [5, 1]) (.part [3, (1 : Int)])).samples.Perm [1, 1, 3, 5] := by
    decide
  exact (sketch_merges_exactly SketchBin.positive (.atMost 2 (by decide)) _ parts).1

end Merge

end WeftDb.Reduce
