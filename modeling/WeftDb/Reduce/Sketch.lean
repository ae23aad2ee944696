import WeftDb.Foundation.HighCounts

/-!
# Quantile sketches

A sketch counts its samples by the bucket of their logarithm, the positive and the negative ones
each in a store of its own, and zeros apart.  A store keeps at most `sketchMaxBins` buckets and
folds the lowest ones together.  Merging two sketches gives the sketch of all their samples, even
where buckets were folded.
-/

namespace WeftDb.Reduce

/-- The bucket of a sample, computed in floating point. -/
inductive SketchBin
  | negative (index : Int)
  | zero
  | positive (index : Int)
  deriving DecidableEq

/-- How many buckets a store keeps at most, one or more, or none for any number. -/
@[ext]
structure BinBudget where
  maxBins : Option Nat
  positive : ∀ most ∈ maxBins, 0 < most

namespace BinBudget

def unbounded : BinBudget where
  maxBins := none
  positive := fun _ held => (Option.not_mem_none _ held).elim

def atMost (most : Nat) (positive : 0 < most) : BinBudget where
  maxBins := some most
  positive := fun _ held => Option.some.inj held ▸ positive

/-- Fold the lowest buckets of a store together until it is within the budget. -/
def collapseLowest (budget : BinBudget) (store : SortedMap Int Nat) : SortedMap Int Nat :=
  match budget.maxBins with
  | none => store
  | some most => HighCounts.collapse most store

end BinBudget

/-- The bucket budget of the reductions. -/
def sketchMaxBins : Nat := 2048

theorem sketchMaxBins_pos : 0 < sketchMaxBins := by
  decide

@[ext]
structure DdSketch where
  positive : SortedMap Int Nat
  negative : SortedMap Int Nat
  zeros : Nat
  count : Nat
  budget : BinBudget

namespace DdSketch

/-- The sketch without samples. -/
def bare (budget : BinBudget) : DdSketch where
  positive := .empty
  negative := .empty
  zeros := 0
  count := 0
  budget := budget

/-- A sketch of any number of buckets. -/
def new : DdSketch := bare .unbounded

/-- A sketch of at most so many buckets a store, refused if it may have none. -/
def withMaxBins (maxBins : Nat) : Option DdSketch :=
  if positive : 0 < maxBins then some (bare (.atMost maxBins positive)) else none

/-- A sketch at the default accuracy, without samples. -/
def withDefaultAccuracy : DdSketch := bare (.atMost sketchMaxBins sketchMaxBins_pos)

/-- Fold the lowest buckets of both stores together. -/
def enforceMaxBins (sketch : DdSketch) : DdSketch :=
  { sketch with
    positive := sketch.budget.collapseLowest sketch.positive
    negative := sketch.budget.collapseLowest sketch.negative }

/-- Fold the sample of a bucket in. -/
def add (sketch : DdSketch) (bin : SketchBin) : DdSketch :=
  let counted : DdSketch :=
    match bin with
    | .positive index => { sketch with positive := HighCounts.add sketch.positive (index, 1) }
    | .negative index => { sketch with negative := HighCounts.add sketch.negative (index, 1) }
    | .zero => { sketch with zeros := sketch.zeros + 1 }
  enforceMaxBins { counted with count := counted.count + 1 }

/-- Merge another sketch of the same accuracy in. -/
def merge (sketch other : DdSketch) : DdSketch :=
  enforceMaxBins
    { positive := HighCounts.addAll sketch.positive other.positive.entries
      negative := HighCounts.addAll sketch.negative other.negative.entries
      zeros := sketch.zeros + other.zeros
      count := sketch.count + other.count
      budget := sketch.budget }

/-- The count which a sample adds to the positive store. -/
def positiveCount : SketchBin → Option (Int × Nat)
  | .positive index => some (index, 1)
  | .zero | .negative _ => none

/-- The count which a sample adds to the negative store. -/
def negativeCount : SketchBin → Option (Int × Nat)
  | .negative index => some (index, 1)
  | .zero | .positive _ => none

/-- The zeros of a list of samples. -/
def zeroCount (bins : List SketchBin) : Nat :=
  bins.count .zero

/-- The sketch of a list of samples, collapsed once. -/
def ofBins (budget : BinBudget) (bins : List SketchBin) : DdSketch :=
  enforceMaxBins
    { positive := HighCounts.addAll .empty (bins.filterMap positiveCount)
      negative := HighCounts.addAll .empty (bins.filterMap negativeCount)
      zeros := zeroCount bins
      count := bins.length
      budget := budget }

theorem addAll_append (map : SortedMap Int Nat) (left right : List (Int × Nat)) :
    HighCounts.addAll map (left ++ right) = HighCounts.addAll (HighCounts.addAll map left) right :=
  List.foldl_append

variable (budget : BinBudget)

include budget

theorem collapse_addAll_collapse (store : SortedMap Int Nat) (entries : List (Int × Nat)) :
    budget.collapseLowest (HighCounts.addAll (budget.collapseLowest store) entries) =
      budget.collapseLowest (HighCounts.addAll store entries) := by
  obtain ⟨_ | most, positive⟩ := budget
  · rfl
  · exact HighCounts.collapse_addAll_collapse (positive most rfl) entries

theorem collapse_collapse (store : SortedMap Int Nat) :
    budget.collapseLowest (budget.collapseLowest store) = budget.collapseLowest store :=
  collapse_addAll_collapse budget store []

theorem ofBins_append_singleton (bins : List SketchBin) (bin : SketchBin) :
    ofBins budget (bins ++ [bin]) = (ofBins budget bins).add bin := by
  have collapses (counts : List (Int × Nat)) (entry : Int × Nat) :
      budget.collapseLowest (HighCounts.add (budget.collapseLowest
          (HighCounts.addAll .empty counts)) entry) =
        budget.collapseLowest (HighCounts.addAll .empty (counts ++ [entry])) := by
    rw [addAll_append]
    exact collapse_addAll_collapse budget _ [entry]
  cases bin with
  | positive index =>
      simp [ofBins, add, enforceMaxBins, zeroCount, positiveCount, negativeCount,
        List.filterMap_cons, collapses, collapse_collapse]
  | negative index =>
      simp [ofBins, add, enforceMaxBins, zeroCount, positiveCount, negativeCount,
        List.filterMap_cons, collapses, collapse_collapse]
  | zero =>
      simp [ofBins, add, enforceMaxBins, zeroCount, positiveCount, negativeCount,
        List.filterMap_cons, collapse_collapse]

theorem ofBins_nil : ofBins budget [] = bare budget := by
  obtain ⟨_ | most, positive⟩ := budget <;> rfl

theorem foldl_add (bins : List SketchBin) : bins.foldl add (bare budget) = ofBins budget bins := by
  induction bins using List.reverseRecOn with
  | nil => exact (ofBins_nil budget).symm
  | append_singleton bins bin ih =>
      rw [List.foldl_append, ih, ofBins_append_singleton]
      rfl

theorem merge_ofBins (left right : List SketchBin) :
    (ofBins budget left).merge (ofBins budget right) = ofBins budget (left ++ right) := by
  have collapses (mine theirs : List (Int × Nat)) :
      budget.collapseLowest (HighCounts.addAll (budget.collapseLowest
            (HighCounts.addAll .empty mine))
          (budget.collapseLowest (HighCounts.addAll .empty theirs)).entries) =
        budget.collapseLowest (HighCounts.addAll .empty (mine ++ theirs)) := by
    rw [collapse_addAll_collapse, HighCounts.addAll_comm, collapse_addAll_collapse,
      HighCounts.addAll_comm, addAll_append]
    refine congrArg _ (HighCounts.addAll_congr (fun bound => ?_) fun bound => ?_)
    · rw [HighCounts.keysFrom_addAll]
      exact Finset.empty_union _
    · rw [HighCounts.sumFrom_addAll]
      exact Nat.zero_add _
  simp only [ofBins, merge, enforceMaxBins, zeroCount, List.filterMap_append, List.count_append,
    List.length_append, collapses]

theorem ofBins_perm {left right : List SketchBin} (perm : left.Perm right) :
    ofBins budget left = ofBins budget right := by
  have counts {mine theirs : List (Int × Nat)} (perm : mine.Perm theirs) :
      HighCounts.addAll .empty mine = HighCounts.addAll .empty theirs := by
    refine HighCounts.addAll_congr (fun bound => ?_) fun bound => ?_
    · ext key
      rw [HighCounts.mem_keysFrom, HighCounts.mem_keysFrom, (perm.map Prod.fst).mem_iff]
    · exact ((perm.filter _).map Prod.snd).sum_eq
  rw [ofBins, ofBins, counts (perm.filterMap positiveCount), counts (perm.filterMap negativeCount),
    zeroCount, zeroCount, perm.count_eq, perm.length_eq]

end DdSketch

end WeftDb.Reduce
