import Loku.Lib.Table
import Loku.Lib.Like
import Loku.Scalar
import Mathlib.Data.List.Sort

/-!
# The media index

The index is a database of four tables and one counter: `videos` (one row per library and
relative path), `probe_cache`, `derivation_failures`, `disc_set_overrides`, and the text under
`scan_generation` in `meta`. A table is a `Lib.Table` keyed as the schema's uniqueness
constraint says, so the constraint holds in every state. Enumeration columns and the genre
list are kept as the values that reading their text gives back; `last_scan_completed` and
`failed_at` are left out, no query reads them.

Each method below is one statement or one transaction. A transaction that fails leaves the
index as it was, so it returns an error and no new index.
-/

namespace Loku

inductive TitleSource
  | nfo
  | infoJson
  | ripName
deriving DecidableEq

inductive CodecSource
  | infoJson
  | ffprobe
deriving DecidableEq

/-- One indexed video. -/
structure VideoRecord where
  library : String
  relPath : String
  parent : String
  fileName : String
  size : Int
  mtime : Int
  title : Option String
  titleSource : Option TitleSource
  durationSecs : Option F64
  uploadDate : Option String
  year : Option Int
  description : Option String
  channel : Option String
  channelUrl : Option String
  webpageUrl : Option String
  viewCount : Option Int
  genres : List String
  container : String
  vcodec : Option String
  acodec : Option String
  vprofile : Option String
  fieldOrder : Option String
  codecSource : Option CodecSource
  thumbRelPath : Option String
  compatRelPath : Option String
  discSet : Option String
  discTitleIndex : Option Int
  /-- Joined in from `derivation_failures` by the queries; not a column of `videos`. -/
  derivationError : Option String
deriving DecidableEq

/-- A video of which only its place, its size and its modification time are known. -/
def VideoRecord.placed (library relPath parent fileName : String) (size mtime : Int) :
    VideoRecord where
  library := library
  relPath := relPath
  parent := parent
  fileName := fileName
  size := size
  mtime := mtime
  title := none
  titleSource := none
  durationSecs := none
  uploadDate := none
  year := none
  description := none
  channel := none
  channelUrl := none
  webpageUrl := none
  viewCount := none
  genres := []
  container := ""
  vcodec := none
  acodec := none
  vprofile := none
  fieldOrder := none
  codecSource := none
  thumbRelPath := none
  compatRelPath := none
  discSet := none
  discTitleIndex := none
  derivationError := none

/-- Codec and container facts ffprobe reports for one file. -/
structure ProbeResult where
  vcodec : Option String := none
  acodec : Option String := none
  vprofile : Option String := none
  fieldOrder : Option String := none
  durationSecs : Option F64 := none
  width : Option Int := none
  height : Option Int := none
deriving DecidableEq

structure ProbeCandidate where
  library : String
  relPath : String
  size : Int
  mtime : Int
deriving DecidableEq

/-- The key of every table: library and relative path. -/
abbrev RowKey := String × String

def VideoRecord.key (r : VideoRecord) : RowKey := (r.library, r.relPath)

def ProbeCandidate.key (c : ProbeCandidate) : RowKey := (c.library, c.relPath)

/-- A row of `videos`. -/
structure Row where
  id : Nat
  record : VideoRecord
  lastSeen : Int
deriving DecidableEq

def Row.key (r : Row) : RowKey := r.record.key

def ProbeCandidate.ofRecord (r : VideoRecord) : ProbeCandidate :=
  { library := r.library, relPath := r.relPath, size := r.size, mtime := r.mtime }

/-- A row of `probe_cache`. -/
structure ProbeEntry where
  candidate : ProbeCandidate
  probe : ProbeResult
deriving DecidableEq

def ProbeEntry.key (e : ProbeEntry) : RowKey := e.candidate.key

/-- A row of `derivation_failures`. -/
structure Failure where
  library : String
  relPath : String
  size : Int
  mtime : Int
  error : String
deriving DecidableEq

def Failure.key (f : Failure) : RowKey := (f.library, f.relPath)

/-- A row of `disc_set_overrides`. -/
structure DiscSetOverride where
  library : String
  discSet : String
  mainRelPath : String
deriving DecidableEq

def DiscSetOverride.key (o : DiscSetOverride) : RowKey := (o.library, o.discSet)

structure Index where
  videos : Lib.Table Row.key
  probeCache : Lib.Table ProbeEntry.key
  derivationFailures : Lib.Table Failure.key
  discSetOverrides : Lib.Table DiscSetOverride.key
  scanGeneration : Option String
deriving DecidableEq

inductive SqlError
  | tooManyVariables
  /-- What the full-text engine says of an expression that it cannot read. -/
  | syntaxError (text : String)
deriving DecidableEq

def SqlError.text : SqlError → String
  | .tooManyVariables => "too many SQL variables"
  | .syntaxError text => text

inductive IndexError
  | indexQuery (context : String) (source : SqlError)
deriving DecidableEq

def IndexError.text : IndexError → String
  | .indexQuery context source =>
    "Media index query failed while " ++ context ++ ": " ++ source.text

namespace Index

/-- A freshly created database. -/
def openInMemory : Index := ⟨.empty, .empty, .empty, .empty, none⟩

/-- The record under a key, without the failure join. -/
def recordAt (index : Index) (k : RowKey) : Option VideoRecord :=
  (index.videos.find? k).map Row.record

/-! ## The upsert -/

/-- Binding a NaN stores NULL. -/
def sqlReal : Option F64 → Option F64
  | some .nan => none
  | x => x

/-- The row values an insert of `record` binds. -/
def stored (record : VideoRecord) : VideoRecord :=
  { record with durationSecs := sqlReal record.durationSecs, derivationError := none }

/-- `excluded.size = videos.size AND excluded.mtime = videos.mtime`. -/
def unchanged (excluded old : VideoRecord) : Bool :=
  excluded.size == old.size && excluded.mtime == old.mtime

/-- The `CASE` rule of the codec columns. -/
def keepCodec {α : Type} (excluded old : VideoRecord) (column : VideoRecord → Option α) :
    Option α :=
  if excluded.codecSource.isSome then column excluded
  else if unchanged excluded old then column old
  else none

/-- The `CASE` rule of `duration_secs`. -/
def keepDuration (excluded old : VideoRecord) : Option F64 :=
  if excluded.durationSecs.isSome then excluded.durationSecs
  else if unchanged excluded old then old.durationSecs
  else none

/-- The conflict clause of `UPSERT_SQL`; the key columns are not assigned. -/
def conflictUpdate (excluded old : VideoRecord) : VideoRecord :=
  { excluded with
    library := old.library
    relPath := old.relPath
    durationSecs := keepDuration excluded old
    vcodec := keepCodec excluded old VideoRecord.vcodec
    acodec := keepCodec excluded old VideoRecord.acodec
    vprofile := keepCodec excluded old VideoRecord.vprofile
    fieldOrder := keepCodec excluded old VideoRecord.fieldOrder
    codecSource := keepCodec excluded old VideoRecord.codecSource }

/-- The rowid an insert without one receives. -/
def nextId (videos : Lib.Table Row.key) : Nat := (videos.rows.map Row.id).foldr max 0 + 1

/-- `UPSERT_SQL` for one record. -/
def upsertRecord (generation : Int) (videos : Lib.Table Row.key) (record : VideoRecord) :
    Lib.Table Row.key :=
  videos.upsert { id := nextId videos, record := stored record, lastSeen := generation }
    (fun old =>
      { old with record := conflictUpdate (stored record) old.record, lastSeen := generation })
    (fun _ => rfl)

/-- `UPDATE videos SET f WHERE library = ?1 AND rel_path = ?2`. -/
def updateRecord (videos : Lib.Table Row.key) (k : RowKey) (f : VideoRecord → VideoRecord)
    (hf : ∀ r, (f r).key = r.key) : Lib.Table Row.key :=
  videos.update (fun r => r.key = k) (fun r => { r with record := f r.record })
    (fun r => hf r.record)

/-! ## Scanning -/

/-- The stored counter: no row, or junk, counts as zero. -/
def currentGeneration (index : Index) : Int :=
  match index.scanGeneration with
  | none => 0
  | some value => (parseI64 value).getD 0

/-- The text of a generation. -/
def generationText (n : Int) : String := toString n

/-- Advance and return the generation. The addition is a plain `+`, so that the successor of the
largest `i64` is the smallest. -/
def nextGeneration (index : Index) : Index × Int :=
  let next := wrapI64 (currentGeneration index + 1)
  ({ index with scanGeneration := some (generationText next) }, next)

/-- The parameters one SQLite statement can bind. -/
def maxVariables : Nat := 32766

/-- Upsert one directory's records, then delete the rows of that directory that are not among
them. -/
def reconcileDirectory (index : Index) (library parent : String) (records : List VideoRecord)
    (generation : Int) : Except IndexError Index :=
  let upserted := records.foldl (upsertRecord generation) index.videos
  let seen := records.map VideoRecord.relPath
  if seen.isEmpty then
    .ok { index with
      videos := upserted.delete fun r => r.record.library == library && r.record.parent == parent }
  else if seen.length + 2 ≤ maxVariables then
    .ok { index with
      videos := upserted.delete fun r =>
        r.record.library == library && r.record.parent == parent &&
          !seen.contains r.record.relPath }
  else .error (.indexQuery "reconciling a library directory" .tooManyVariables)

/-- Delete the rows whose stamp predates a generation; also how many there were. -/
def removeUnseen (index : Index) (library : String) (generation : Int) : Index × Nat :=
  let unseen := fun r : Row => r.record.library == library && decide (r.lastSeen < generation)
  ({ index with videos := index.videos.delete unseen }, index.videos.rows.countP unseen)

/-- `escape_like`. -/
def escapeLike (input : String) : String := String.ofList (Lib.escapeLike '\\' input.toList)

/-- Whether `parent` is `dirRel` or matches `escape_like(dir_rel) + "/%"`. -/
def inTree (dirRel parent : String) : Bool :=
  parent == dirRel || Lib.like '\\' (escapeLike dirRel ++ "/%").toList parent.toList

/-- Delete the rows in a vanished directory's tree. -/
def removeTree (index : Index) (library dirRel : String) : Index × Nat :=
  let below := fun r : Row => r.record.library == library && inTree dirRel r.record.parent
  ({ index with videos := index.videos.delete below }, index.videos.rows.countP below)

/-! ## Probing -/

/-- `ORDER BY library, rel_path`. -/
def keyLe (k k' : RowKey) : Prop := k.1 < k'.1 ∨ (k.1 = k'.1 ∧ k.2 ≤ k'.2)

instance : DecidableRel keyLe := fun _ _ => inferInstanceAs (Decidable (_ ∨ (_ ∧ _)))

/-- The videos without codec facts. -/
def videosNeedingProbe (index : Index) : List ProbeCandidate :=
  ((index.videos.rows.filter fun r => r.record.codecSource.isNone).insertionSort
    fun r r' => keyLe r.key r'.key).map fun r => ProbeCandidate.ofRecord r.record

/-- A prior probe of this size and mtime. -/
def cachedProbe (index : Index) (candidate : ProbeCandidate) : Option ProbeResult :=
  ((index.probeCache.find? candidate.key).filter fun e =>
    e.candidate.size == candidate.size && e.candidate.mtime == candidate.mtime).map
      ProbeEntry.probe

/-- The row after its probe: a duration that is there stays. -/
def withProbe (probe : ProbeResult) (r : VideoRecord) : VideoRecord :=
  { r with
    vcodec := probe.vcodec
    acodec := probe.acodec
    vprofile := probe.vprofile
    fieldOrder := probe.fieldOrder
    durationSecs := r.durationSecs.or (sqlReal probe.durationSecs)
    codecSource := some .ffprobe }

/-- The cache entry of a probe outcome. -/
def probeEntry (candidate : ProbeCandidate) (probe : ProbeResult) : ProbeEntry :=
  { candidate := candidate, probe := { probe with durationSecs := sqlReal probe.durationSecs } }

/-- Store a probe outcome in the cache and apply it to the row. -/
def recordProbe (index : Index) (candidate : ProbeCandidate) (probe : ProbeResult) : Index :=
  { index with
    probeCache := index.probeCache.upsert (probeEntry candidate probe)
      (fun old => probeEntry
        { candidate with library := old.candidate.library, relPath := old.candidate.relPath } probe)
      (fun _ => rfl)
    videos := updateRecord index.videos candidate.key (withProbe probe) (fun _ => rfl) }

/-! ## Deriving -/

/-- `FAILURE_JOIN`: the failure recorded for the row's current size and mtime. -/
def failureOf (index : Index) (r : VideoRecord) : Option Failure :=
  (index.derivationFailures.find? r.key).filter fun f => f.size == r.size && f.mtime == r.mtime

/-- `record_from_row`: the columns with the joined failure. -/
def recordFromRow (index : Index) (r : Row) : VideoRecord :=
  { r.record with derivationError := (index.failureOf r.record).map Failure.error }

/-- The rows without compat copy, with codec facts and without a recorded failure. -/
def isCandidate (index : Index) (r : Row) : Bool :=
  r.record.compatRelPath.isNone && r.record.codecSource.isSome && (index.failureOf r.record).isNone

def derivationCandidates (index : Index) : List VideoRecord :=
  ((index.videos.rows.filter index.isCandidate).insertionSort
    fun r r' => keyLe r.key r'.key).map index.recordFromRow

def recordDerivationFailure (index : Index) (library relPath : String) (size mtime : Int)
    (error : String) : Index :=
  { index with
    derivationFailures := index.derivationFailures.upsert
      { library := library, relPath := relPath, size := size, mtime := mtime, error := error }
      (fun old => { old with size := size, mtime := mtime, error := error }) (fun _ => rfl) }

def withCompat (compatRelPath : String) (r : VideoRecord) : VideoRecord :=
  { r with compatRelPath := some compatRelPath }

def withThumb (thumbRelPath : String) (r : VideoRecord) : VideoRecord :=
  { r with thumbRelPath := some thumbRelPath }

/-- Point a row at its compat copy. -/
def setCompat (index : Index) (library relPath compatRelPath : String) : Index :=
  { index with
    videos := updateRecord index.videos (library, relPath) (withCompat compatRelPath)
      (fun _ => rfl) }

/-- Point a row at its thumbnail. -/
def setThumb (index : Index) (library relPath thumbRelPath : String) : Index :=
  { index with
    videos := updateRecord index.videos (library, relPath) (withThumb thumbRelPath)
      (fun _ => rfl) }

/-- Record a main-title pick. -/
def setMainTitle (index : Index) (library discSet mainRelPath : String) : Index :=
  { index with
    discSetOverrides := index.discSetOverrides.upsert
      { library := library, discSet := discSet, mainRelPath := mainRelPath }
      (fun old => { old with mainRelPath := mainRelPath }) (fun _ => rfl) }

/-- One video by its key. -/
def video (index : Index) (library relPath : String) : Option VideoRecord :=
  (index.videos.find? (library, relPath)).map index.recordFromRow

end Index

end Loku
