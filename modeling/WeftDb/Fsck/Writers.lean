import WeftDb.Fsck.Claims
import WeftDb.Fsck.Pass
import WeftDb.Foundation.Execution
import WeftDb.Store.Swap

/-!
# Recovery among the writers

Seals, ingests and maintenance swaps hand themselves a generation, write their frames under their
final names a piece at a time and commit their rows last.  A pass runs among them, one request at
a time.  The frames which the pass moves, records as quarantined or takes the row of are noted
as harmed.
-/

namespace WeftDb.Fsck

/-- A frame which a writer is to write. -/
structure Output where
  name : FrameName
  /-- The whole frame. -/
  bytes : List UInt8
  /-- Whether its file was created. -/
  created : Bool
  /-- Whether every byte of it is written. -/
  written : Bool
  deriving DecidableEq

/-- What a writer does. -/
inductive Work
  | seal (written : List WrittenSegment)
  | ingest (batch : IngestBatch) (fingerprint : UInt64) (written : List WrittenSegment)
  | swap (plans : List PreparedPlan) (journaled : Bool)
  deriving DecidableEq

/-- A write under way. -/
structure Writer where
  aspect : AspectName
  work : Work
  /-- The frames handed out to it. -/
  outputs : List Output
  /-- The transaction it is about to commit. -/
  ops : Option (List IndexOp)
  deriving DecidableEq

abbrev WriterId := Nat

/-- The members which a write keeps in their place. -/
def Work.kept (aspect : AspectName) : Work → List (AspectName × IndexRow)
  | .swap plans _ =>
      plans.flatMap fun plan =>
        if plan.keep then (plan.members.take 1).map (aspect, ·) else []
  | _ => []

/-- Whether the files may be created: a swap journals its outputs first. -/
def Work.writable : Work → Bool
  | .swap _ journaled => journaled
  | _ => true

namespace Writer

def names (writer : Writer) : List FrameName :=
  writer.outputs.map (·.name)

def kept (writer : Writer) : List (AspectName × IndexRow) :=
  writer.work.kept writer.aspect

/-- Change one output. -/
def setOutput (writer : Writer) (name : FrameName) (set : Output → Output) : Writer :=
  { writer with
    outputs := writer.outputs.map fun output =>
      if output.name = name then set output else output }

end Writer

/-- Everything but the pass. -/
structure Shared where
  root : Root
  /-- The next generation of each stem.  Two aspects share a stem only if both are hashed to it. -/
  nextGen : String → Nat
  writers : WriterId → Option Writer
  /-- The frames which the pass moved, recorded as quarantined or took the row of. -/
  harmed : List FrameName

structure System where
  shared : Shared
  /-- What is left of the pass under way. -/
  pass : Option (Recovery RecoveryReport)

/-- What a frame to be written holds. -/
structure FrameSpec where
  desc : SegmentDescriptor
  crc : Nat
  bytes : List UInt8
  deriving DecidableEq

inductive Action
  /-- Start a pass which repairs. -/
  | startPass
  /-- The pass's next access. -/
  | pass
  /-- The pass ends with a failure of a disk or of the control plane. -/
  | failPass
  | beginSeal (id : WriterId) (aspect : AspectName)
  | beginIngest (id : WriterId) (aspect : AspectName) (batch : IngestBatch)
      (fingerprint : UInt64)
  /-- Read the members of each plan; a plan may keep its first one. -/
  | beginSwap (id : WriterId) (aspect : AspectName) (selections : List (List IndexRow × Bool))
  /-- Hand a seal or an ingest its next frame. -/
  | nameFrame (id : WriterId) (spec : FrameSpec)
  /-- Hand a swap the outputs of each plan. -/
  | nameOutputs (id : WriterId) (specs : List (List FrameSpec))
  /-- Journal a swap's outputs as pending. -/
  | journalOutputs (id : WriterId)
  | createFile (id : WriterId) (name : FrameName)
  /-- Write what the file holds from now on, in part or whole. -/
  | writeFile (id : WriterId) (name : FrameName) (content : List UInt8)
  /-- Build the transaction under the commit lock. -/
  | prepare (id : WriterId)
  | land (id : WriterId)
  /-- End without a commit, removing some of its own files. -/
  | giveUp (id : WriterId) (removed : List FrameName)
  | tick (now : Int)

namespace Shared

def setWriter (shared : Shared) (id : WriterId) (writer : Option Writer) : Shared :=
  { shared with writers := Function.update shared.writers id writer }

/-- Start a write, unless its id is in use. -/
def begin (shared : Shared) (id : WriterId) (aspect : AspectName) (work : Work) :
    Option Shared :=
  match shared.writers id with
  | some _ => none
  | none => some (shared.setWriter id (some ⟨aspect, work, [], none⟩))

/-- The frames of a plan's outputs under consecutive generations. -/
def planOutputs (aspect : AspectName) (prec : Nat) :
    Nat → List FrameSpec → List (WrittenOutput × Output)
  | _, [] => []
  | gen, spec :: specs =>
      let name := frameName aspect gen prec
      (⟨name, gen, prec, spec.crc, { spec.desc with path := .segments name }⟩,
        ⟨name, spec.bytes, false, false⟩) :: planOutputs aspect prec (gen + 1) specs

/-- The plans with their outputs, and the frames to write.  A plan which keeps its first member
writes none. -/
def plansOutputs (aspect : AspectName) :
    Nat → List PreparedPlan → List (List FrameSpec) → List PreparedPlan × List Output
  | _, [], _ => ([], [])
  | gen, plan :: plans, specs =>
      let own := if plan.keep then [] else specs.headD []
      let outputs := planOutputs aspect plan.prec gen own
      let (plans, later) := plansOutputs aspect (gen + own.length) plans specs.tail
      ({ plan with outputs := outputs.map Prod.fst } :: plans, outputs.map Prod.snd ++ later)

/-- Put content into a created file, also when it was moved to the quarantine meanwhile. -/
def writeThrough (root : Root) (name : FrameName) (content : List UInt8) : Root :=
  if (contents root.files name).isSome then
    { root with files := root.files.put (name, content) }
  else if (contents root.quarantined name).isSome then
    { root with quarantined := root.quarantined.put (name, content) }
  else
    root

/-- The transaction of a write whose frames are all written. -/
def prepareOps (catalog : Catalog) (root : Root) (writer : Writer) :
    Option (AspectState × List IndexOp) :=
  let state := root.allocator writer.aspect
  if writer.outputs.all (·.written) then
    match writer.work with
    | .seal [frame] =>
        match publishSeal root.db writer.aspect state frame with
        | (state, some publication) => some (state, publication.ops)
        | (_, none) => none
    | .seal _ => none
    | .ingest batch fingerprint written =>
        match publishIngest catalog root.db writer.aspect state batch fingerprint written
            root.now with
        | (state, .ok (.publish publication _)) => some (state, publication.ops)
        | _ => none
    | .swap plans _ =>
        let (state, ready) := allocatePlans (root.db.rows writer.aspect) state plans
        some (state, (commitPlans root.db writer.aspect state ready root.now).ops)
  else
    none

/-- A step of the writers. -/
def advance (catalog : Catalog) (shared : Shared) : Action → Option Shared
  | .beginSeal id aspect => shared.begin id aspect (.seal [])
  | .beginIngest id aspect batch fingerprint =>
      shared.begin id aspect (.ingest batch fingerprint [])
  | .beginSwap id aspect selections =>
      if selections.all fun selection => selection.1.all fun member =>
          decide (member ∈ shared.root.db.rows aspect) then
        (allSome (selections.map fun selection =>
          preparePlan selection.1 selection.2)).bind fun plans =>
            shared.begin id aspect (.swap plans false)
      else
        none
  | .nameFrame id spec =>
      (shared.writers id).bind fun writer =>
        let gen := shared.nextGen (stem writer.aspect)
        let name := frameName writer.aspect gen gen
        let frame : WrittenSegment :=
          ⟨{ spec.desc with path := .segments name }, gen, spec.crc⟩
        let work : Option Work :=
          match writer.work with
          | .seal [] => some (.seal [frame])
          | .ingest batch fingerprint written =>
              some (.ingest batch fingerprint (written ++ [frame]))
          | _ => none
        if writer.ops = none then
          work.map fun work =>
            { shared.setWriter id (some
                { writer with
                  work, outputs := writer.outputs ++ [⟨name, spec.bytes, false, false⟩] }) with
              nextGen := Function.update shared.nextGen (stem writer.aspect) (gen + 1) }
        else
          none
  | .nameOutputs id specs =>
      (shared.writers id).bind fun writer =>
        match writer.work with
        | .swap plans false =>
            if writer.outputs = [] ∧ writer.ops = none then
              let gen := shared.nextGen (stem writer.aspect)
              let (plans, outputs) := plansOutputs writer.aspect gen plans specs
              some
                { shared.setWriter id (some { writer with work := .swap plans false, outputs }) with
                  nextGen := Function.update shared.nextGen (stem writer.aspect)
                    (gen + outputs.length) }
            else
              none
        | _ => none
  | .journalOutputs id =>
      (shared.writers id).bind fun writer =>
        match writer.work with
        | .swap plans false =>
            let publication := WeftDb.journalOutputs writer.aspect
              (shared.root.allocator writer.aspect) (plans.flatMap (·.outputs)) shared.root.now
            match shared.root.db.applyAll publication.ops with
            | .ok db =>
                some
                  { shared.setWriter id (some { writer with work := .swap plans true }) with
                    root := { shared.root with db } }
            | .error _ => none
        | _ => none
  | .createFile id name =>
      (shared.writers id).bind fun writer =>
        if (writer.outputs.any fun output => decide (output.name = name) && !output.created) &&
            writer.work.writable && (contents shared.root.files name).isNone then
          some
            { shared.setWriter id (some
                (writer.setOutput name fun output => { output with created := true })) with
              root := { shared.root with files := shared.root.files.put (name, []) } }
        else
          none
  | .writeFile id name content =>
      (shared.writers id).bind fun writer =>
        if writer.outputs.any fun output => decide (output.name = name) && output.created then
          some
            { shared.setWriter id (some (writer.setOutput name fun output =>
                { output with written := decide (content = output.bytes) })) with
              root := writeThrough shared.root name content }
        else
          none
  | .prepare id =>
      (shared.writers id).bind fun writer =>
        (prepareOps catalog shared.root writer).map fun (state, ops) =>
          { shared.setWriter id (some { writer with ops := some ops }) with
            root := shared.root.setAllocator writer.aspect state }
  | .land id =>
      (shared.writers id).bind fun writer =>
        writer.ops.bind fun ops =>
          match shared.root.db.applyAll ops with
          | .ok db => some { shared.setWriter id none with root := { shared.root with db } }
          | .error _ => none
  | .giveUp id removed =>
      (shared.writers id).bind fun writer =>
        if removed.all fun name => decide (name ∈ writer.names) then
          some
            { shared.setWriter id none with
              root :=
                { shared.root with
                  files := shared.root.files.filter fun file => decide (file.1 ∉ removed) } }
        else
          none
  | .tick now => some { shared with root := { shared.root with now } }
  | _ => none

end Shared

section Pass

variable (reader : FrameReader)

/-- The frames which rows name. -/
def claimed (db : IndexDb) : List FrameName :=
  db.segments.rows.filterMap fun stored => reader.rowName stored.2

/-- The frames which a transaction records as quarantined. -/
def recorded (ops : List IndexOp) : List FrameName :=
  ops.filterMap fun op =>
    match op with
    | .quarantineInsert record => some record.name
    | _ => none

/-- The frames which an access of the pass moves, records or takes the row of. -/
def harms (root : Root) : Request → List FrameName
  | .commitIndex ops =>
      match root.db.applyAll ops with
      | .ok db =>
          recorded ops ++ (claimed reader root.db).filter fun name =>
            decide (name ∉ claimed reader db)
      | .error _ => []
  | .rename name => if (contents root.files name).isSome then [name] else []
  | _ => []

/-- Answer a request of the pass and note what it harms. -/
def Shared.answer (request : Request) (shared : Shared) : Reply request × Shared :=
  ((Root.answer request shared.root).1,
    { shared with
      root := (Root.answer request shared.root).2
      harmed := shared.harmed ++ harms reader shared.root request })

variable (catalog : Catalog)

/-- One step of the store: the pass's or a writer's. -/
def step (before : System) : Action → Option System
  | .startPass =>
      match before.pass with
      | some _ => none
      | none =>
          some ⟨{ before.shared with harmed := [] }, some (fsck reader false)⟩
  | .pass =>
      match before.pass with
      | some (.ask request next) =>
          let (reply, shared) := before.shared.answer reader request
          some ⟨shared, some (next reply)⟩
      | some _ => some { before with pass := none }
      | none => none
  | .failPass => before.pass.map fun _ => { before with pass := none }
  | action => (before.shared.advance catalog action).map fun shared => { before with shared }

/-- A write under way owns the frame. -/
def Owned (shared : Shared) (name : FrameName) : Prop :=
  ∃ id writer, shared.writers id = some writer ∧ name ∈ writer.names

/-- No frame which the pass harmed is named by a live row or owned by a write under way. -/
def System.Unharmed (system : System) : Prop :=
  ∀ name ∈ system.shared.harmed,
    ¬Named reader system.shared.root.db name ∧ ¬Owned system.shared name

/-- The transaction which a step commits. -/
def committed (system : System) : Action → List IndexOp
  | .pass =>
      match system.pass with
      | some (.ask (.commitIndex ops) _) => ops
      | _ => []
  | .land id => ((system.shared.writers id).bind (·.ops)).getD []
  | _ => []

/-- The file which the orphan pass reads in a step. -/
def orphanRead (system : System) : Action → Option FrameName
  | .pass =>
      match system.pass with
      | some (.ask (.read .orphan name) _) => some name
      | _ => none
  | _ => none

/-- When the orphan pass reads a file which a row names or which a write under way owns, the file
is whole; and no commit gives another frame's row the id, the generation and the checksum of a
member which a swap keeps in its place. -/
structure Whole (system : System) (action : Action) : Prop where
  orphans : ∀ name, orphanRead system action = some name →
    Named reader system.shared.root.db name ∨ Owned system.shared name →
      ∀ bytes, contents system.shared.root.files name = some bytes →
        ∃ desc, reader.readFull name bytes = .ok desc
  versions : ∀ id writer, system.shared.writers id = some writer →
    ∀ member ∈ writer.kept, ∀ op ∈ committed system action, SparesVersion reader op member

end Pass

end WeftDb.Fsck
