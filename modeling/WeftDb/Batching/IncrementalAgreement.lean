import WeftDb.Batching.IncrementalLog
import WeftDb.Batching.IncrementalQueue

/-!
# Incremental batching against a rebuild

Every commit holds only instants behind all stored ones.  A window whose instants all fall between
two commits is interpolated across the gap by a rebuild, but neither consumer finds it affected.
So the incremental runs leave those of a rebuild's batches which some commit reaches, as long as
each range they interpolate holds the rows next to its points.
-/

namespace WeftDb.Rebuild

open ChangeConsumer Outputs

variable {Value : Type} [DecidableEq Value] {bracketing : Bracketing Value} {grid : WindowGrid}
  {base : Int}

/-- Steps of a second, and four points a window. -/
def fourPointGrid : WindowGrid := { threePointGrid with batchSize := 4 }

/-- Two commits with a gap of five steps between them. -/
def gapped : List (Capture Rat) :=
  [⟨rowsAt [0, 1000, 2000, 3000], 0, 0⟩, ⟨rowsAt [8000, 9000, 10000, 11000], 1, 1⟩]

theorem appendOnly_gapped : AppendOnly fourPointGrid [] (gapped.map Capture.rows) :=
  ⟨⟨by decide, by decide, by decide⟩, ⟨by decide, by decide, by decide⟩, trivial⟩

theorem queueBacked_gapped : Execution.Meets (QueueBacked.step .linear fourPointGrid)
    (QueueBacked.ReadsBracketed fourPointGrid) (QueueBacked.empty Rat) gapped := by
  decide +kernel

theorem sealBacked_gapped : Execution.Meets (SealBacked.step .linear fourPointGrid)
    (SealBacked.ReadsBracketed fourPointGrid) (SealBacked.empty Rat)
      (gapped.map Capture.rows) := by
  decide +kernel

end WeftDb.Rebuild
