import Loku.Index.Scan
import Loku.Index.Rows

/-!
# What a directory contributes

The records collected from a directory are those of its master videos, one for each
(`mem_collectDirectory`), under keys that no other directory of the library uses
(`collect_key_inj`). `copied` keeps the columns of a record that the upsert copies
unconditionally; a reconcile leaves exactly these columns of the collected records
(`copied_written`).
-/

namespace Loku

/-! ## Columns that the upsert copies -/

/-- A record without the columns that the conflict clause may keep. -/
def copied (r : VideoRecord) : VideoRecord :=
  { r with
    durationSecs := none
    vcodec := none
    acodec := none
    vprofile := none
    fieldOrder := none
    codecSource := none
    derivationError := none }

theorem copied_key (r : VideoRecord) : (copied r).key = r.key := rfl

theorem key_eq_of_copied {r r' : VideoRecord} (h : copied r = copied r') : r.key = r'.key := by
  rw [← copied_key r, h, copied_key]

/-- Records with the same copied columns agree on each of these columns. -/
theorem column_of_copied {α : Type} (column : VideoRecord → α)
    (hcolumn : ∀ r, column (copied r) = column r) {r r' : VideoRecord}
    (h : copied r = copied r') : column r = column r' := by
  rw [← hcolumn r, h, hcolumn]

/-- The upsert copies those columns, whatever was there. -/
theorem copied_written {record : VideoRecord} {old : Option VideoRecord}
    (h : ∀ o ∈ old, o.key = record.key) : copied (Index.written record old) = copied record := by
  cases old with
  | none => rfl
  | some o =>
    have hkey := h o rfl
    have hlib : o.library = record.library := congrArg Prod.fst hkey
    have hrel : o.relPath = record.relPath := congrArg Prod.snd hkey
    unfold Index.written Index.conflictUpdate copied
    dsimp only
    rw [hlib, hrel]
    rfl

/-! ## The master videos of a directory -/

/-- The master videos that a listing of `dir` gives. -/
def masters (t : FileTree) (dir : Path) : List FileName :=
  masterVideos t dir ((t.readDir dir).getD [])

/-- Whether the folder's NFO document belongs to the videos of `dir`. -/
def folderNfoAllowed (t : FileTree) (dir : Path) : Bool := (masters t dir).length == 1

section Collect
variable {decoders : Decoders} {t : FileTree} {library : Library} {root dir : Path}

theorem collectDirectory_eq :
    collectDirectory decoders t library root dir = (masters t dir).filterMap fun video =>
      buildRecord decoders t library root dir video (folderNfoAllowed t dir) := by
  unfold collectDirectory masters folderNfoAllowed masters
  cases t.readDir dir <;> rfl

theorem nodup_masters (t : FileTree) (dir : Path) : (masters t dir).Nodup := by
  unfold masters masterVideos
  apply List.Nodup.filter
  exact t.nodup_readDir dir

/-- In a directory, the masters are the regular files (or links to one) with a master's name. -/
theorem mem_masters_of_node (h : t.node dir = some .dir) {video : FileName} :
    video ∈ masters t dir ↔ (t.readFile (dir ++ [video])).isSome ∧
      t.node (dir ++ [video]) ≠ none ∧ isMasterVideo video = true := by
  unfold masters masterVideos
  rw [FileTree.readDir_of_node h, Option.getD_some, List.mem_filter, Lib.PathTree.mem_children,
    Bool.and_eq_true, Option.ne_none_iff_exists']
  exact ⟨fun h => ⟨h.2.1, h.1, h.2.2⟩, fun h => ⟨h.2.1, h.1, h.2.2⟩⟩

theorem isMasterVideo_of_mem_masters {video : FileName} (h : video ∈ masters t dir) :
    isMasterVideo video = true := by
  unfold masters masterVideos at h
  rw [List.mem_filter, Bool.and_eq_true] at h
  exact h.2.2

theorem readFile_of_mem_masters {video : FileName} (h : video ∈ masters t dir) :
    ∃ data, t.readFile (dir ++ [video]) = some data := by
  unfold masters masterVideos at h
  rw [List.mem_filter, Bool.and_eq_true] at h
  exact Option.isSome_iff_exists.mp h.2.1

section BuildRecord
variable {video : FileName} {allow : Bool} {record : VideoRecord}

theorem buildRecord_isSome_iff :
    (buildRecord decoders t library root dir video allow).isSome =
      (t.readFile (dir ++ [video])).isSome := by
  unfold buildRecord
  rw [Option.isSome_map]

theorem buildRecord_columns
    (h : buildRecord decoders t library root dir video allow = some record) :
    record.key = (library.name, relativeOf (dir ++ [video]) root) ∧
      record.parent = relativeOf dir root ∧ record.fileName = video.text ∧
      record.thumbRelPath = findThumbnail t dir video root ∧
      record.compatRelPath = findCompat t dir video root := by
  unfold buildRecord at h
  obtain ⟨metadata, -, rfl⟩ := Option.map_eq_some_iff.mp h
  exact ⟨rfl, rfl, rfl, rfl, rfl⟩

/-- Size and mtime are those of the file that is read. -/
theorem buildRecord_content
    (h : buildRecord decoders t library root dir video allow = some record) :
    ∃ data, t.readFile (dir ++ [video]) = some data ∧
      record.size = i64OrMax data.bytes.length ∧ record.mtime = mtimeSecs data := by
  unfold buildRecord at h
  obtain ⟨data, hdata, rfl⟩ := Option.map_eq_some_iff.mp h
  exact ⟨data, hdata, rfl, rfl⟩

end BuildRecord

theorem mem_collectDirectory {record : VideoRecord} :
    record ∈ collectDirectory decoders t library root dir ↔ ∃ video ∈ masters t dir,
      buildRecord decoders t library root dir video (folderNfoAllowed t dir) = some record := by
  rw [collectDirectory_eq, List.mem_filterMap]

/-- Every master is collected. -/
theorem exists_collect_of_mem_masters (decoders : Decoders) (library : Library) (root : Path)
    {video : FileName} (h : video ∈ masters t dir) :
    ∃ record ∈ collectDirectory decoders t library root dir,
      buildRecord decoders t library root dir video (folderNfoAllowed t dir) = some record := by
  obtain ⟨data, hdata⟩ := readFile_of_mem_masters h
  have hsome : (buildRecord decoders t library root dir video (folderNfoAllowed t dir)).isSome =
      (t.readFile (dir ++ [video])).isSome := buildRecord_isSome_iff
  rw [hdata, Option.isSome_some, Option.isSome_iff_exists] at hsome
  obtain ⟨record, hrecord⟩ := hsome
  exact ⟨record, mem_collectDirectory.mpr ⟨video, h, hrecord⟩, hrecord⟩

theorem length_collectDirectory :
    (collectDirectory decoders t library root dir).length = (masters t dir).length := by
  rw [collectDirectory_eq, List.filterMap_length_eq_length]
  intro video hvideo
  obtain ⟨data, hdata⟩ := readFile_of_mem_masters hvideo
  rw [buildRecord_isSome_iff, hdata]
  rfl

/-- Collected keys tell the directory and the video. -/
theorem collect_key_inj {t' : FileTree} {dir' : Path} (hdir : root <+: dir)
    (hdir' : root <+: dir') {record record' : VideoRecord}
    (h : record ∈ collectDirectory decoders t library root dir)
    (h' : record' ∈ collectDirectory decoders t' library root dir')
    (hkey : record.key = record'.key) : dir = dir' ∧ record.fileName = record'.fileName := by
  obtain ⟨video, -, hbuild⟩ := mem_collectDirectory.mp h
  obtain ⟨video', -, hbuild'⟩ := mem_collectDirectory.mp h'
  obtain ⟨hk, -, hname, -⟩ := buildRecord_columns hbuild
  obtain ⟨hk', -, hname', -⟩ := buildRecord_columns hbuild'
  rw [hk, hk'] at hkey
  have hpath := (relativeOf_inj (hdir.trans (List.prefix_append _ _))
    (hdir'.trans (List.prefix_append _ _))).mp (congrArg Prod.snd hkey)
  obtain ⟨rfl, hvideo⟩ := List.append_inj' hpath rfl
  cases hvideo
  exact ⟨rfl, hname.trans hname'.symm⟩

theorem library_of_mem_collect {record : VideoRecord}
    (h : record ∈ collectDirectory decoders t library root dir) :
    record.library = library.name := by
  obtain ⟨video, -, hbuild⟩ := mem_collectDirectory.mp h
  exact congrArg Prod.fst (buildRecord_columns hbuild).1

/-- A scan never claims to have probed. -/
theorem codecSource_of_mem_collect {record : VideoRecord}
    (h : record ∈ collectDirectory decoders t library root dir) :
    record.codecSource ≠ some .ffprobe := by
  obtain ⟨video, -, hbuild⟩ := mem_collectDirectory.mp h
  unfold buildRecord at hbuild
  obtain ⟨metadata, -, rfl⟩ := Option.map_eq_some_iff.mp hbuild
  dsimp only
  split <;> simp

theorem parent_of_mem_collect {record : VideoRecord}
    (h : record ∈ collectDirectory decoders t library root dir) :
    record.parent = relativeOf dir root := by
  obtain ⟨video, -, hbuild⟩ := mem_collectDirectory.mp h
  exact (buildRecord_columns hbuild).2.1

/-- What the store asks of the records of one directory. -/
theorem directoryRecords_collectDirectory (decoders : Decoders) (t : FileTree)
    (library : Library) (hdir : root <+: dir) :
    Index.DirectoryRecords library.name (relativeOf dir root)
      (collectDirectory decoders t library root dir) where
  library_eq _ hr := library_of_mem_collect hr
  parent_eq _ hr := parent_of_mem_collect hr
  nodup := by
    have hkeys : (collectDirectory decoders t library root dir).map VideoRecord.key =
        (masters t dir).filterMap fun video =>
          (buildRecord decoders t library root dir video (folderNfoAllowed t dir)).map
            VideoRecord.key := by
      rw [collectDirectory_eq, List.map_filterMap]
    rw [hkeys]
    refine (nodup_masters t dir).filterMap ?_
    intro video video' k hk hk'
    obtain ⟨record, hbuild, rfl⟩ := Option.map_eq_some_iff.mp hk
    obtain ⟨record', hbuild', hkey⟩ := Option.map_eq_some_iff.mp hk'
    rw [(buildRecord_columns hbuild).1, (buildRecord_columns hbuild').1] at hkey
    have hpath := (relativeOf_inj (hdir.trans (List.prefix_append _ _))
      (hdir.trans (List.prefix_append _ _))).mp (congrArg Prod.snd hkey)
    have := List.append_cancel_left hpath
    cases this
    rfl

end Collect

end Loku
