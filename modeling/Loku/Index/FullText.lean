import Loku.Index.Rows
import Loku.Lib.Mirror
import Loku.Lib.Run

/-!
# The full-text mirror

`videos_fts` is an external-content table: it holds one entry for each row of `videos`, put
there and taken away by three triggers, and a deletion that does not repeat the indexed values
corrupts it silently. A `Database` is an index with that mirror. A call on the index changes
rows in the order its statements do (`StoreCall.changes`), each change fires its trigger
(`fired`), and a call either commits or is rolled back, after any number of the statements it
issues.

The main result is `fullText_mirrors`: after any sequence of calls the entries are those of the
rows, under distinct ids, and every deletion that a call issues, committed or not, repeats the
one entry of its id.
-/

namespace Loku

/-- An entry of `videos_fts`: a rowid and the four indexed columns. -/
structure FtsEntry where
  rowid : Nat
  title : Option String
  description : Option String
  channel : Option String
  fileName : String
deriving DecidableEq

def FtsEntry.ofRow (r : Row) : FtsEntry where
  rowid := r.id
  title := r.record.title
  description := r.record.description
  channel := r.record.channel
  fileName := r.record.fileName

abbrev FtsStatement := Lib.MirrorStatement FtsEntry

/-! ## The triggers -/

def videosAi (new : Row) : List FtsStatement := [.insert (FtsEntry.ofRow new)]

def videosAd (old : Row) : List FtsStatement := [.delete (FtsEntry.ofRow old)]

def videosAu (old new : Row) : List FtsStatement :=
  [.delete (FtsEntry.ofRow old), .insert (FtsEntry.ofRow new)]

def fired : Lib.Change Row → List FtsStatement
  | .inserted new => videosAi new
  | .deleted old => videosAd old
  | .updated old new => videosAu old new

theorem fired_eq : fired = Lib.statements FtsEntry.ofRow := by
  funext c
  cases c <;> rfl

/-! ## The calls -/

/-- A call on the index that writes. -/
inductive StoreCall
  | nextGeneration
  | reconcileDirectory (library parent : String) (records : List VideoRecord) (generation : Int)
  | removeUnseen (library : String) (generation : Int)
  | removeTree (library dirRel : String)
  | recordProbe (candidate : ProbeCandidate) (probe : ProbeResult)
  | setCompat (library relPath compatRelPath : String)
  | setThumb (library relPath thumbRelPath : String)
  | recordDerivationFailure (library relPath : String) (size mtime : Int) (error : String)
  | setMainTitle (library discSet mainRelPath : String)
deriving DecidableEq

namespace StoreCall

/-- The index after the call. -/
def run (index : Index) : StoreCall → Except IndexError Index
  | .nextGeneration => .ok index.nextGeneration.1
  | .reconcileDirectory library parent records generation =>
    index.reconcileDirectory library parent records generation
  | .removeUnseen library generation => .ok (index.removeUnseen library generation).1
  | .removeTree library dirRel => .ok (index.removeTree library dirRel).1
  | .recordProbe candidate probe => .ok (index.recordProbe candidate probe)
  | .setCompat library relPath compat => .ok (index.setCompat library relPath compat)
  | .setThumb library relPath thumb => .ok (index.setThumb library relPath thumb)
  | .recordDerivationFailure library relPath size mtime error =>
    .ok (index.recordDerivationFailure library relPath size mtime error)
  | .setMainTitle library discSet mainRelPath =>
    .ok (index.setMainTitle library discSet mainRelPath)

def upsertChanges (generation : Int) (videos : Lib.Table Row.key) (record : VideoRecord) :
    List (Lib.Change Row) :=
  videos.upsertChanges
    { id := Index.nextId videos, record := Index.stored record, lastSeen := generation }
    fun old => { old with
      record := Index.conflictUpdate (Index.stored record) old.record, lastSeen := generation }

/-- The upserts of a directory's records, one after the other. -/
def upsertsChanges (generation : Int) :
    Lib.Table Row.key → List VideoRecord → List (Lib.Change Row)
  | _, [] => []
  | videos, record :: records =>
    upsertChanges generation videos record ++
      upsertsChanges generation (Index.upsertRecord generation videos record) records

def updateRecordChanges (videos : Lib.Table Row.key) (k : RowKey)
    (f : VideoRecord → VideoRecord) : List (Lib.Change Row) :=
  videos.updateChanges (fun r => r.key = k) fun r => { r with record := f r.record }

/-- The rows the call changes, in order. A reconcile with too many records for one statement
stops before its deletion. -/
def changes (index : Index) : StoreCall → List (Lib.Change Row)
  | .reconcileDirectory library parent records generation =>
    let upserted := records.foldl (Index.upsertRecord generation) index.videos
    let seen := records.map VideoRecord.relPath
    upsertsChanges generation index.videos records ++
      if seen.isEmpty then
        upserted.deleteChanges fun r => r.record.library == library && r.record.parent == parent
      else if seen.length + 2 ≤ Index.maxVariables then
        upserted.deleteChanges fun r =>
          r.record.library == library && r.record.parent == parent &&
            !seen.contains r.record.relPath
      else []
  | .removeUnseen library generation =>
    index.videos.deleteChanges fun r =>
      r.record.library == library && decide (r.lastSeen < generation)
  | .removeTree library dirRel =>
    index.videos.deleteChanges fun r =>
      r.record.library == library && Index.inTree dirRel r.record.parent
  | .recordProbe candidate probe =>
    updateRecordChanges index.videos candidate.key (Index.withProbe probe)
  | .setCompat library relPath compat =>
    updateRecordChanges index.videos (library, relPath) (Index.withCompat compat)
  | .setThumb library relPath thumb =>
    updateRecordChanges index.videos (library, relPath) (Index.withThumb thumb)
  | .nextGeneration | .recordDerivationFailure .. | .setMainTitle .. => []

/-- What the triggers issue during the call. -/
def issued (index : Index) (call : StoreCall) : List FtsStatement :=
  (call.changes index).flatMap fired

end StoreCall

structure Database where
  index : Index
  videosFts : Multiset FtsEntry

/-- A freshly created database. -/
def Database.created : Database := ⟨Index.openInMemory, 0⟩

inductive CallStep : Database → StoreCall → Database → Prop
  | committed {db : Database} {call : StoreCall} {index' : Index}
      (h : call.run db.index = .ok index') :
      CallStep db call ⟨index', (call.issued db.index).foldl Lib.applyStatement db.videosFts⟩
  | rolledBack (db : Database) (call : StoreCall) : CallStep db call db

/-! ## The changes of each call -/

theorem id_lt_nextId {videos : Lib.Table Row.key} {r : Row} (h : r ∈ videos) :
    r.id < Index.nextId videos := by
  have hle : ∀ ids : List Nat, r.id ∈ ids → r.id ≤ ids.foldr max 0 := by
    intro ids hmem
    induction ids with
    | nil => cases hmem
    | cons n ids ih =>
      rw [List.foldr_cons]
      rcases List.mem_cons.mp hmem with rfl | hmem
      · exact Nat.le_max_left _ _
      · exact (ih hmem).trans (Nat.le_max_right _ _)
  have := hle _ (List.mem_map_of_mem h)
  unfold Index.nextId
  omega

theorem changes_upsertRecord (generation : Int) (videos : Lib.Table Row.key)
    (record : VideoRecord) :
    Lib.Changes Row.id ↑videos.rows (StoreCall.upsertChanges generation videos record)
      ↑(Index.upsertRecord generation videos record).rows := by
  refine Lib.Table.changes_upsert videos _
    (fun old => { old with
      record := Index.conflictUpdate (Index.stored record) old.record, lastSeen := generation })
    (fun _ => rfl) (fun _ => rfl) ?_
  intro r hr
  have := id_lt_nextId hr
  show r.id ≠ Index.nextId videos
  omega

theorem changes_upserts (generation : Int) :
    ∀ (records : List VideoRecord) (videos : Lib.Table Row.key),
      Lib.Changes Row.id ↑videos.rows (StoreCall.upsertsChanges generation videos records)
        ↑(records.foldl (Index.upsertRecord generation) videos).rows
  | [], _ => .nil _
  | record :: records, videos =>
    (changes_upsertRecord generation videos record).append
      (changes_upserts generation records (Index.upsertRecord generation videos record))

theorem changes_updateRecord (videos : Lib.Table Row.key) (k : RowKey)
    {f : VideoRecord → VideoRecord} (hf : ∀ r, (f r).key = r.key) :
    Lib.Changes Row.id ↑videos.rows (StoreCall.updateRecordChanges videos k f)
      ↑(Index.updateRecord videos k f hf).rows :=
  Lib.Table.changes_update videos _ (fun r => { r with record := f r.record })
    (fun r => hf r.record) (fun _ => rfl)

/-- The changes of a call that succeeds lead to the rows it leaves. -/
theorem changes_run {index index' : Index} {call : StoreCall} (h : call.run index = .ok index') :
    Lib.Changes Row.id ↑index.videos.rows (call.changes index) ↑index'.videos.rows := by
  cases call with
  | nextGeneration =>
    rw [← Except.ok.inj h]
    exact .nil _
  | reconcileDirectory library parent records generation =>
    simp only [StoreCall.run, Index.reconcileDirectory] at h
    simp only [StoreCall.changes]
    split at h
    · rename_i hempty
      rw [if_pos hempty, ← Except.ok.inj h]
      exact (changes_upserts generation records _).append (Lib.Table.changes_delete _ _)
    · rename_i hempty
      split at h
      · rename_i hfits
        rw [if_neg hempty, if_pos hfits, ← Except.ok.inj h]
        exact (changes_upserts generation records _).append (Lib.Table.changes_delete _ _)
      · cases h
  | removeUnseen library generation =>
    rw [← Except.ok.inj h]
    exact Lib.Table.changes_delete _ _
  | removeTree library dirRel =>
    rw [← Except.ok.inj h]
    exact Lib.Table.changes_delete _ _
  | recordProbe candidate probe =>
    rw [← Except.ok.inj h]
    exact changes_updateRecord (f := Index.withProbe probe) _ _ fun _ => rfl
  | setCompat library relPath compat =>
    rw [← Except.ok.inj h]
    exact changes_updateRecord (f := Index.withCompat compat) _ _ fun _ => rfl
  | setThumb library relPath thumb =>
    rw [← Except.ok.inj h]
    exact changes_updateRecord (f := Index.withThumb thumb) _ _ fun _ => rfl
  | recordDerivationFailure library relPath size mtime error =>
    rw [← Except.ok.inj h]
    exact .nil _
  | setMainTitle library discSet mainRelPath =>
    rw [← Except.ok.inj h]
    exact .nil _

/-- The changes of any call, refused ones included, lead somewhere. -/
theorem exists_changes (index : Index) (call : StoreCall) :
    ∃ rows, Lib.Changes Row.id ↑index.videos.rows (call.changes index) rows := by
  cases hrun : call.run index with
  | ok index' => exact ⟨_, changes_run hrun⟩
  | error e =>
    cases call with
    | nextGeneration => exact ⟨_, .nil _⟩
    | reconcileDirectory library parent records generation =>
      simp only [StoreCall.run, Index.reconcileDirectory] at hrun
      split at hrun
      · cases hrun
      · rename_i hempty
        split at hrun
        · cases hrun
        · rename_i hfits
          simp only [StoreCall.changes]
          rw [if_neg hempty, if_neg hfits, List.append_nil]
          exact ⟨_, changes_upserts generation records index.videos⟩
    | _ => cases hrun

/-! ## The invariant -/

/-- The entries are those of the rows, whose ids are distinct. -/
structure Mirrors (db : Database) : Prop where
  entries : db.videosFts = (db.index.videos.rows : Multiset Row).map FtsEntry.ofRow
  ids : ((db.index.videos.rows : Multiset Row).map Row.id).Nodup

theorem mirrors_created : Mirrors Database.created := ⟨rfl, Multiset.nodup_zero⟩

theorem Mirrors.mirrored {db : Database} (h : Mirrors db) {call : StoreCall} {rows : Multiset Row}
    (hchanges : Lib.Changes Row.id ↑db.index.videos.rows (call.changes db.index) rows) :
    (rows.map Row.id).Nodup ∧
      Lib.Matched FtsEntry.rowid db.videosFts (call.issued db.index) ∧
      (call.issued db.index).foldl Lib.applyStatement db.videosFts =
        rows.map FtsEntry.ofRow := by
  have := hchanges.mirrored FtsEntry.ofRow FtsEntry.rowid (fun _ => rfl) h.ids
  rwa [← fired_eq, ← h.entries] at this

theorem Mirrors.step {db db' : Database} {call : StoreCall} (h : Mirrors db)
    (hstep : CallStep db call db') : Mirrors db' := by
  cases hstep with
  | committed hrun =>
    obtain ⟨hids, -, hentries⟩ := h.mirrored (changes_run hrun)
    exact ⟨hentries, hids⟩
  | rolledBack => exact h

/-- However far a call gets, each deletion it has issued repeats the one entry of its id. -/
theorem Mirrors.matched {db : Database} (h : Mirrors db) (call : StoreCall) (k : Nat) :
    Lib.Matched FtsEntry.rowid db.videosFts ((call.issued db.index).take k) := by
  obtain ⟨_, hchanges⟩ := exists_changes db.index call
  exact (h.mirrored hchanges).2.1.take k

/-- The full-text index mirrors the table. -/
theorem fullText_mirrors {db : Database} {calls : List StoreCall}
    (hrun : Lib.Run CallStep Database.created calls db) :
    (db.videosFts = (db.index.videos.rows : Multiset Row).map FtsEntry.ofRow ∧
      ((db.index.videos.rows : Multiset Row).map Row.id).Nodup) ∧
    ∀ (call : StoreCall) (k : Nat),
      Lib.Matched FtsEntry.rowid db.videosFts ((call.issued db.index).take k) := by
  have h : Mirrors db := hrun.invariant (fun _ _ _ h hstep => h.step hstep) mirrors_created
  exact ⟨⟨h.entries, h.ids⟩, h.matched⟩

/-! ## A video retitled -/

namespace Retitled

def before : VideoRecord := .placed "movies" "Movie.mkv" "" "Movie.mkv" 3 5

def retitled : VideoRecord := { before with title := some "The Movie" }

/-- A scan, a scan with a title and a removal that is rolled back. -/
def calls : List StoreCall :=
  [.reconcileDirectory "movies" "" [before] 1, .reconcileDirectory "movies" "" [retitled] 1,
    .removeTree "movies" ""]

def after : Database :=
  ⟨⟨⟨[⟨1, retitled, 1⟩], by decide⟩, .empty, .empty, .empty, none⟩,
    {⟨1, some "The Movie", none, none, "Movie.mkv"⟩}⟩

theorem run_calls : Lib.Run CallStep Database.created calls after :=
  .cons (.committed rfl) (.cons (.committed rfl) (.cons (.rolledBack _ _) (.nil _)))

theorem fullText_mirrors_retitled :
    (after.videosFts = (after.index.videos.rows : Multiset Row).map FtsEntry.ofRow ∧
      ((after.index.videos.rows : Multiset Row).map Row.id).Nodup) ∧
    ∀ (call : StoreCall) (k : Nat),
      Lib.Matched FtsEntry.rowid after.videosFts ((call.issued after.index).take k) :=
  fullText_mirrors run_calls

end Retitled

end Loku
