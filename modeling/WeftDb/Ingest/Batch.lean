import WeftDb.Foundation.Integers
import WeftDb.Index.IndexTxn

/-!
# Ingest batches and their fingerprints

A batch carries an idempotency key, a tag set and nullable rows.  Its fingerprint is the FNV-1a
hash of `preimage`, which feeds the series key, the page height when one is set, the row count and
every row in order.  A value outside the decimal domain has no fingerprint.
-/

namespace WeftDb

/-- An arbitrary-precision decimal, `mantissa * 10 ^ (-scale)`. -/
structure BigDecimal where
  mantissa : Int
  scale : Int
  deriving DecidableEq

namespace BigDecimal

/-- The digits of the mantissa, without its sign. -/
def digits (value : BigDecimal) : List Char :=
  Nat.toDigits 10 value.mantissa.natAbs

/-- The plain form, without an exponent. -/
def toPlainString (value : BigDecimal) : List Char :=
  let sign := if value.mantissa < 0 then ['-'] else []
  let digits := value.digits
  if value.scale ≤ 0 then
    sign ++ digits ++ List.replicate value.scale.natAbs '0'
  else
    let scale := value.scale.toNat
    if digits.length > scale then
      sign ++ digits.take (digits.length - scale) ++ '.' :: digits.drop (digits.length - scale)
    else
      sign ++ '0' :: '.' :: List.replicate (scale - digits.length) '0' ++ digits

/-- How many digits the plain form carries. -/
def plainDigitCount (value : BigDecimal) : Nat :=
  if 0 ≤ value.scale then
    if value.digits.length > value.scale.toNat then value.digits.length else value.scale.toNat + 1
  else
    value.digits.length + value.scale.natAbs

end BigDecimal

/-- The bound on plain digits. -/
def maxPlainDigits : Nat := 1024

/-- Whether a value lies in the decimal domain. -/
def checkDecimalDomain (value : BigDecimal) : Bool :=
  decide (value.plainDigitCount ≤ maxPlainDigits)

/-- A set of tags, in ascending order of key. -/
structure TagSet where
  tags : List (String × String)
  deriving DecidableEq

namespace TagSet

def isEmpty (groups : TagSet) : Bool :=
  groups.tags.isEmpty

/-- The canonical key: the pairs joined by `0x1E`, each key and value by `0x1F`. -/
def seriesKey (groups : TagSet) : SeriesKey :=
  String.intercalate "\x1e" (groups.tags.map fun tag => tag.1 ++ "\x1f" ++ tag.2)

/-- The first key with the reserved prefix. -/
def reserved? (groups : TagSet) : Option String :=
  (groups.tags.map Prod.fst).find? fun key => key.startsWith "__"

/-- The first key which a declaration of upsert keys does not name. -/
def firstOutside (groups : TagSet) (declared : List String) : Option String :=
  (groups.tags.map Prod.fst).find? fun key => decide (key ∉ declared)

end TagSet

/-- One batch offered to `ingest`. -/
structure IngestBatch where
  /-- The idempotency key. -/
  key : String
  groups : TagSet
  /-- The page height, for a paged batch. -/
  rowsPerPage : Option Nat
  timestamps : List Int
  /-- The values, parallel to the timestamps; `none` is a null row. -/
  values : List (Option BigDecimal)
  deriving DecidableEq

/-- The eight little-endian bytes of a 64-bit word. -/
def leBytes (word : Nat) : List UInt8 :=
  (List.range 8).map fun index => UInt8.ofNat (word / 256 ^ index)

/-- A field with its length in front of it. -/
def lengthPrefixed (text : List Char) : List UInt8 :=
  let bytes := text.flatMap String.utf8EncodeChar
  leBytes bytes.length ++ bytes

namespace IngestBatch

/-- The bytes one row feeds to the hash; `none` for a value outside the decimal domain. -/
def rowPreimage (timestamp : Int) : Option BigDecimal → Option (List UInt8)
  | none => some (leBytes (timestamp % 2 ^ 64).toNat ++ [0])
  | some value =>
      if checkDecimalDomain value then
        some (leBytes (timestamp % 2 ^ 64).toNat ++ 1 :: lengthPrefixed value.toPlainString)
      else
        none

/-- The bytes of all rows, in order. -/
def rowsPreimage : List (Int × Option BigDecimal) → Option (List UInt8)
  | [] => some []
  | (timestamp, value) :: later =>
      match rowPreimage timestamp value, rowsPreimage later with
      | some row, some rest => some (row ++ rest)
      | _, _ => none

/-- The bytes fed to the fingerprint hash. -/
def preimage (batch : IngestBatch) : Option (List UInt8) :=
  (rowsPreimage (batch.timestamps.zip batch.values)).map fun rows =>
    lengthPrefixed batch.groups.seriesKey.toList ++
      (match batch.rowsPerPage with
      | some height => 2 :: leBytes height
      | none => []) ++
      leBytes batch.timestamps.length ++ rows

/-- The fingerprint which the ledger records and compares. -/
def fingerprint (batch : IngestBatch) : Option UInt64 :=
  batch.preimage.map (Fnv1a.feed Fnv1a.new)

/-- The earliest and the latest timestamp. -/
def span (batch : IngestBatch) : Option (Int × Int) :=
  match batch.timestamps.min?, batch.timestamps.max? with
  | some low, some high => some (low, high)
  | _, _ => none

end IngestBatch

/-- Why `ingest` refuses a batch. -/
inductive StoreError
  | invalidAspect (aspect : AspectName)
  | unknownAspect (aspect : AspectName)
  | reservedTagKey (aspect : AspectName) (key : String)
  | notAnUpsertKey (aspect : AspectName) (key : String) (declared : List String)
  | ingestLengthMismatch (timestamps values : Nat)
  | emptyIngestBatch (aspect : AspectName)
  | ingestValueOutOfRange
  | idempotencyConflict (aspect : AspectName) (key : String) (recorded offered : UInt64)
  | seriesLimit (aspect : AspectName) (limit : Nat)
  /-- The store refuses writes after an ambiguous commit. -/
  | poisoned
  /-- The index refused the transaction, or its commit failed. -/
  | index (kind : TxnErrorKind)
  /-- Encoding, file I/O or an index read failed. -/
  | fault
  deriving DecidableEq

/-- The declarations which an ingest is checked against. -/
structure Catalog where
  validName : AspectName → Bool
  hasSchema : AspectName → Bool
  upsertKeys : AspectName → Option (List String)
  maxSeriesPerAspect : Nat

/-- The checks made before the ledger is consulted, in the source's order; a batch which passes
them has a fingerprint. -/
def validateIngest (catalog : Catalog) (aspect : AspectName) (batch : IngestBatch) :
    Except StoreError UInt64 :=
  if !catalog.validName aspect then
    .error (.invalidAspect aspect)
  else if !catalog.hasSchema aspect then
    .error (.unknownAspect aspect)
  else
    match batch.groups.reserved? with
    | some key => .error (.reservedTagKey aspect key)
    | none =>
        match if batch.groups.isEmpty then none else
            (catalog.upsertKeys aspect).bind fun declared =>
              (batch.groups.firstOutside declared).map fun key => (key, declared) with
        | some (key, declared) => .error (.notAnUpsertKey aspect key declared)
        | none =>
            if batch.timestamps.length ≠ batch.values.length then
              .error (.ingestLengthMismatch batch.timestamps.length batch.values.length)
            else if batch.timestamps = [] then
              .error (.emptyIngestBatch aspect)
            else
              match batch.fingerprint with
              | some fingerprint => .ok fingerprint
              | none => .error .ingestValueOutOfRange

theorem validateIngest_fingerprint {catalog : Catalog} {aspect : AspectName}
    {batch : IngestBatch} {fingerprint : UInt64}
    (valid : validateIngest catalog aspect batch = .ok fingerprint) :
    batch.fingerprint = some fingerprint := by
  unfold validateIngest at valid
  repeat' split at valid
  all_goals first
    | cases valid; assumption
    | cases valid

/-- The ledger's answer to an offered batch: nothing recorded, a replay, or a conflict. -/
def checkLedger (db : IndexDb) (aspect : AspectName) (key : String) (fingerprint : UInt64) :
    Except StoreError (Option IngestReceipt) :=
  match db.ledgerEntry aspect key with
  | none => .ok none
  | some entry =>
      if entry.fingerprint ≠ fingerprint then
        .error (.idempotencyConflict aspect key entry.fingerprint fingerprint)
      else
        .ok (some { entry.receipt with duplicate := true })

section Ledger

variable {db : IndexDb} {aspect : AspectName} {key : String} {fingerprint : UInt64}

theorem checkLedger_new :
    checkLedger db aspect key fingerprint = .ok none ↔ db.ledgerEntry aspect key = none := by
  unfold checkLedger
  cases db.ledgerEntry aspect key with
  | none => simp
  | some entry => by_cases same : entry.fingerprint = fingerprint <;> simp [same]

theorem checkLedger_replay {receipt : IngestReceipt} :
    checkLedger db aspect key fingerprint = .ok (some receipt) ↔
      ∃ entry, db.ledgerEntry aspect key = some entry ∧ entry.fingerprint = fingerprint ∧
        { entry.receipt with duplicate := true } = receipt := by
  unfold checkLedger
  cases db.ledgerEntry aspect key with
  | none => simp
  | some entry => by_cases same : entry.fingerprint = fingerprint <;> simp [same]

theorem checkLedger_refused {refused : StoreError} :
    checkLedger db aspect key fingerprint = .error refused ↔
      ∃ entry, db.ledgerEntry aspect key = some entry ∧ entry.fingerprint ≠ fingerprint ∧
        .idempotencyConflict aspect key entry.fingerprint fingerprint = refused := by
  unfold checkLedger
  cases db.ledgerEntry aspect key with
  | none => simp
  | some entry => by_cases same : entry.fingerprint = fingerprint <;> simp [same]

end Ledger

end WeftDb
