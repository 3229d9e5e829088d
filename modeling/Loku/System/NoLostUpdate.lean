import Loku.System.Maintenance

/-!
# No update is lost

Whenever the rows of a directory disagree with its files, something still has to happen that
sets them right: the walk has not reached the directory, records of its current files are about
to be written, an event that touches it is on its way, or it is pending (`Accounted`). Every
step keeps this, so once nothing is left to happen the rows and the files agree
(`no_update_lost`).

Two kinds of paths need care. The path of a file is a candidate of its own, and a flush removes
the tree of that path; what the removal takes away lies beneath the directory of the file,
which is pending as well and reconciled afterwards. And a name that the watcher ignores makes
no directory dirty, but no record depends on it.
-/

namespace Loku

/-! ## What the worker records -/

theorem findSidecar_of_exists {t : FileTree} {root rel : Path} {video : FileName} {suffix : Suffix}
    (h : t.pathExists (root ++ rel ++ [video.sidecar suffix]) = true) :
    findSidecar t (root ++ rel) video root suffix =
      some (Path.relText (rel ++ [video.sidecar suffix])) := by
  unfold findSidecar sidecarPath
  rw [if_pos h, List.append_assoc, Path.stripPrefix_append]
  rfl

/-- Of the thumbnails beside a video, the worker's own comes first. -/
theorem findThumbnail_of_jpg {t : FileTree} {dir root : Path} {video : FileName} {rel : String}
    (h : findSidecar t dir video root jpgSuffix = some rel) :
    findThumbnail t dir video root = some rel := by
  unfold findThumbnail thumbSuffixes
  rw [List.findSome?_cons, h]

theorem withCompat_of_eq {r : VideoRecord} {compat : String} (h : r.compatRelPath = some compat) :
    Index.withCompat compat r = r := by
  unfold Index.withCompat
  rw [← h]

theorem withThumb_of_eq {r : VideoRecord} {thumb : String} (h : r.thumbRelPath = some thumb) :
    Index.withThumb thumb r = r := by
  unfold Index.withThumb
  rw [← h]

/-- The sidecar that a job has put in place for a video lies beside it. -/
def Beside (t : FileTree) (root : Path) (placed : Placed) : Prop :=
  ∀ rel video, placed.job.record.relPath = Path.relText (rel ++ [video]) →
    t.node (root ++ rel) = some .dir →
    placed.path = root ++ rel ++ [video.sidecar placed.output.suffix]

section Record
variable {decoders : Decoders} {t : FileTree} {library : Library} {root dir : Path}
  {generation : Int} {index : Index}

/-- What a job records of a sidecar that is there is what a reconcile would find. -/
theorem InStep.record (h : InStep decoders t library root generation index dir)
    (hplain : PlainDir t dir) (hdir : root <+: dir) {placed : Placed}
    (hbeside : Beside t root placed) (hexists : (t.node placed.path).isSome = true) :
    InStep decoders t library root generation (placed.output.record index placed.job) dir := by
  -- the row of the job has the columns of a current record, whose sidecar is found
  have hrecord : ∀ row ∈ index.videos,
      row.key = (placed.job.record.library, placed.job.record.relPath) →
      row.record.library = library.name → row.record.parent = relativeOf dir root →
      ∃ record ∈ collectDirectory decoders t library root dir, ∃ video,
        copied row.record = copied record ∧
        record.thumbRelPath = findThumbnail t dir video root ∧
        record.compatRelPath = findCompat t dir video root ∧
        findSidecar t dir video root placed.output.suffix =
          some (siblingRel placed.job.record.relPath
            (siblingName (sourcePath placed.job.library placed.job.record)
              placed.output.suffix)) := by
    intro row hrow hkey hlib hparent
    obtain ⟨record, hrecord, hcopied, -⟩ := h.exists_record hrow hlib hparent
    obtain ⟨video, hvideo, hbuild⟩ := mem_collectDirectory.mp hrecord
    obtain ⟨hrecordKey, -, -, hthumb, hcompat⟩ := buildRecord_columns hbuild
    obtain ⟨rel, rfl⟩ := hdir
    have hrel : placed.job.record.relPath = Path.relText (rel ++ [video]) := by
      have hsame := congrArg Prod.snd (hkey.symm.trans
        ((key_eq_of_copied hcopied).trans hrecordKey))
      rwa [List.append_assoc, relativeOf_append] at hsame
    have hpath := hbeside rel video hrel hplain.node
    refine ⟨record, hrecord, video, hcopied, hthumb, hcompat, ?_⟩
    unfold sourcePath
    rw [hrel, siblingRel_relText]
    have hname : RecordName (video.sidecar placed.output.suffix) :=
      .sidecar (isMasterVideo_of_mem_masters hvideo) placed.output.suffix_mem_recordSuffixes
    refine findSidecar_of_exists ?_
    rw [hplain.pathExists hname, ← hpath, hexists]
  refine h.of_rows ?_
  cases houtput : placed.output with
  | compat =>
    refine directoryRows_updateRecord (f := Index.withCompat _) (fun _ => rfl) rfl (fun _ => rfl) ?_
    intro row hrow hkey hlib hparent
    obtain ⟨record, -, video, hcopied, -, hcompat, hfound⟩ := hrecord row hrow hkey hlib hparent
    rw [houtput] at hfound
    have hcolumn := column_of_copied VideoRecord.compatRelPath (fun _ => rfl) hcopied
    exact congrArg copied (withCompat_of_eq (hcolumn.trans (hcompat.trans hfound)))
  | thumb =>
    unfold WorkerOutput.record thumbnailStep
    dsimp only
    split
    · refine directoryRows_updateRecord (f := Index.withThumb _) (fun _ => rfl) rfl
        (fun _ => rfl) ?_
      intro row hrow hkey hlib hparent
      obtain ⟨record, -, video, hcopied, hthumb, -, hfound⟩ := hrecord row hrow hkey hlib hparent
      rw [houtput] at hfound
      have hcolumn := column_of_copied VideoRecord.thumbRelPath (fun _ => rfl) hcopied
      exact congrArg copied
        (withThumb_of_eq (hcolumn.trans (hthumb.trans (findThumbnail_of_jpg hfound))))
    · rfl

end Record

/-! ## What is outstanding -/

/-- A directory of the library. -/
structure LibraryDir (t : FileTree) (root dir : Path) : Prop where
  under : root <+: dir
  node : t.node dir = some .dir

/-- An event that makes a directory dirty because of a file in it. -/
def Event.Touches (event : Event) (dir : Path) : Prop :=
  event.kind ≠ .access ∧ ∃ n, isPartName n = false ∧ dir ++ [n] ∈ event.paths

/-- An event on its way touches the directory, or it is pending. -/
def Outstanding (s : WatchSystem) (dir : Path) : Prop :=
  (∃ event, (event ∈ s.inFlight ∨ event ∈ s.queue) ∧ event.Touches dir) ∨
    (0, dir) ∈ s.debounce.pending

/-- A live entry that is still to be walked lies at or above the directory. -/
def CoveredBy (live : List Dirty) (dir : Path) : Prop := ∃ d ∈ live, d.2 <+: dir

def Rest.Covers : Rest → Path → Prop
  | .scan, _ => False
  | .flush live, dir => CoveredBy live dir

section Invariant
variable (decoders : Decoders) (library : Library) (root : Path)

/-- Records that a collection would find again. -/
def Fresh (t : FileTree) (dir : Path) (records : List VideoRecord) : Prop :=
  ∀ record, record ∈ records ↔ record ∈ collectDirectory decoders t library root dir

/-- The maintenance task has still to reconcile the directory. -/
def Ahead (t : FileTree) : MaintenancePhase → Path → Prop
  | .start, _ => True
  | .walk, _ => True
  | .collect todo rest, dir => dir ∈ todo ∨ rest.Covers dir
  | .reconcile dir' records todo rest, dir =>
    (dir = dir' ∧ Fresh decoders library root t dir records) ∨ dir ∈ todo ∨ rest.Covers dir
  | .idle, _ => False
  | .remove _ live, dir => CoveredBy live dir

/-- The rows of a directory are in step with its files, or something will set them right. -/
def Accounted (s : WatchSystem) (dir : Path) : Prop :=
  InStep decoders s.tree library root s.generation s.index dir ∨
    Ahead decoders library root s.tree s.maintenance dir ∨ Outstanding s dir

/-! ## The invariant -/

/-- The library: a directory that its path leads to, without directories that only differ in
case and without links in place of the files of a record, behind which files change that no
event in the directory names. -/
structure Ground (t : FileTree) : Prop where
  node : t.node root = some .dir
  resolves : t.canonicalize library.path = some root
  free : ∀ dir n target, root <+: dir → RecordName n →
    t.node (dir ++ [n]) ≠ some (.symlink target)
  distinct : DistinctUpToCase t root

/-- Live directories of a flush. -/
def LiveOk (t : FileTree) (live : List Dirty) : Prop := ∀ d ∈ live, d.1 = 0 ∧ LibraryDir t root d.2

def RestOk (t : FileTree) : Rest → Prop
  | .scan => True
  | .flush live => LiveOk root t live

/-- What the maintenance task holds is right for where it is: directories of the library,
records that are fresh or will be replaced, and vanished paths whose trees are covered. -/
def PhaseOk (s : WatchSystem) : MaintenancePhase → Prop
  | .start => True
  | .walk => True
  | .collect todo rest => (∀ dir ∈ todo, LibraryDir s.tree root dir) ∧ RestOk root s.tree rest
  | .reconcile dir records todo rest =>
    (LibraryDir s.tree root dir ∧ ∃ t, records = collectDirectory decoders t library root dir) ∧
      (Fresh decoders library root s.tree dir records ∨ Outstanding s dir) ∧
      (∀ dir ∈ todo, LibraryDir s.tree root dir) ∧ RestOk root s.tree rest
  | .idle => True
  | .remove vanished live => LiveOk root s.tree live ∧ ∀ v ∈ vanished, ∀ dir,
      LibraryDir s.tree root dir →
      Index.inTree (relativeOf v.2 root) (relativeOf dir root) = true → CoveredBy live dir

/-- A pending path is one of a directory, or one of a file whose directory is pending too. -/
structure PendingOk (t : FileTree) (pending : List Dirty) (d : Dirty) : Prop where
  first : d.1 = 0
  under : root <+: d.2
  dir_or_file : t.node d.2 = some .dir ∨ (FilePath t d.2 ∧ (0, d.2.dropLast) ∈ pending)

structure WatchInvariant (s : WatchSystem) : Prop where
  ground : Ground library root s.tree
  generation : s.maintenance ≠ .start → s.index.currentGeneration = s.generation
  events : ∀ event, event ∈ s.inFlight ∨ event ∈ s.queue → event.kind ≠ .access →
    ∀ p ∈ event.paths, FilePath s.tree p
  pending : ∀ d ∈ s.debounce.pending, PendingOk root s.tree s.debounce.pending d
  phase : PhaseOk decoders library root s s.maintenance
  placed : ∀ placed ∈ s.placed, Beside s.tree root placed ∧ (s.tree.node placed.path).isSome = true
  accounted : ∀ dir, LibraryDir s.tree root dir → Accounted decoders library root s dir

end Invariant

section Ground
variable {library : Library} {root dir : Path} {t t' : FileTree}

theorem LibraryDir.plainDir (h : LibraryDir t root dir) (hground : Ground library root t) :
    PlainDir t dir where
  node := h.node
  free n target hn := hground.free dir n target h.under hn

theorem Ground.node_nil (h : Ground library root t) : t.node [] = some .dir :=
  (Lib.PathTree.node_of_prefix (List.nil_prefix) h.node).elim id And.right

theorem Ground.root_dir (h : Ground library root t) : LibraryDir t root root :=
  ⟨List.prefix_rfl, h.node⟩

/-- The library after an operation on files. -/
theorem Ground.apply (h : Ground library root t) {op : FileOp} (hop : op.apply t = some t')
    (hroot : t'.canonicalize library.path = some root) : Ground library root t' where
  node := (FileOp.dir_apply h.node_nil hop root).mpr h.node
  resolves := hroot
  free dir n target hdir hn hlink := h.free dir n target hdir hn (FileOp.link_apply hop hlink)
  distinct d d' hd hd' hnode hnode' :=
    h.distinct d d' hd hd' ((FileOp.dir_apply h.node_nil hop d).mp hnode)
      ((FileOp.dir_apply h.node_nil hop d').mp hnode')

theorem LibraryDir.apply_iff (h : Ground library root t) {op : FileOp}
    (hop : op.apply t = some t') : LibraryDir t' root dir ↔ LibraryDir t root dir :=
  ⟨fun hdir => ⟨hdir.under, (FileOp.dir_apply h.node_nil hop dir).mp hdir.node⟩,
    fun hdir => ⟨hdir.under, (FileOp.dir_apply h.node_nil hop dir).mpr hdir.node⟩⟩

theorem LiveOk.imp {live : List Dirty} (h : LiveOk root t live)
    (hdirs : ∀ dir, LibraryDir t root dir → LibraryDir t' root dir) : LiveOk root t' live :=
  fun d hd => ⟨(h d hd).1, hdirs _ (h d hd).2⟩

theorem RestOk.imp {rest : Rest} (h : RestOk root t rest)
    (hdirs : ∀ dir, LibraryDir t root dir → LibraryDir t' root dir) : RestOk root t' rest := by
  cases rest with
  | scan => trivial
  | flush live => exact LiveOk.imp h hdirs

theorem PendingOk.apply {pending : List Dirty} {d : Dirty} (h : PendingOk root t pending d)
    (hroot : t.node [] = some .dir) {op : FileOp} (hop : op.apply t = some t') :
    PendingOk root t' pending d where
  first := h.first
  under := h.under
  dir_or_file := h.dir_or_file.imp (FileOp.dir_apply hroot hop _).mpr
    (And.imp_left fun hfile => hfile.apply hroot hop)

theorem Beside.apply {placed : Placed} (h : Beside t root placed)
    (hdirs : ∀ q, t'.node q = some .dir ↔ t.node q = some .dir) : Beside t' root placed :=
  fun rel video hrel hdir => h rel video hrel ((hdirs _).mp hdir)

/-- An operation whose event does not touch a directory changes none of its files. -/
theorem sameFiles_of_not_touches {op : FileOp} {event : Event} (hop : op.apply t = some t')
    (hkind : event.kind ≠ .access) (hpaths : event.paths = op.paths)
    (h : ¬ event.Touches dir) : SameFiles t t' dir := by
  intro n hn
  refine FileOp.node_apply hop fun hmem => h ⟨hkind, n, hn, ?_⟩
  rw [hpaths]
  exact hmem

end Ground

/-! ## Steps on files -/

section Steps
variable {decoders : Decoders} {library : Library} {root : Path} {s s' : WatchSystem}

/-- What is ahead stays ahead while the records about to be written stay fresh. -/
theorem Ahead.imp {t t' : FileTree} {phase : MaintenancePhase} {dir : Path} {p : Prop}
    (h : Ahead decoders library root t phase dir)
    (hfresh : ∀ records, Fresh decoders library root t dir records →
      Fresh decoders library root t' dir records ∨ p) :
    Ahead decoders library root t' phase dir ∨ p := by
  cases phase with
  | reconcile dir' records todo rest =>
    rcases h with ⟨rfl, hrecords⟩ | h
    · exact (hfresh records hrecords).imp_left fun hrecords' => Or.inl ⟨rfl, hrecords'⟩
    · exact Or.inl (Or.inr h)
  | start => exact Or.inl h
  | walk => exact Or.inl h
  | collect todo rest => exact Or.inl h
  | idle => exact Or.inl h
  | remove vanished live => exact Or.inl h

/-- After an operation, with its event in flight. -/
theorem WatchInvariant.apply (h : WatchInvariant decoders library root s) {op : FileOp}
    {t : FileTree} {event : Event} (hop : op.apply s.tree = some t)
    (hroot : t.canonicalize library.path = some root) (hkind : event.kind ≠ .access)
    (hpaths : event.paths = op.paths) {placed : Option Placed}
    (hplaced : ∀ p ∈ placed, Beside t root p ∧ (t.node p.path).isSome = true) :
    WatchInvariant decoders library root
      { s with tree := t, inFlight := event :: s.inFlight, placed := placed } := by
  have hground := h.ground.apply hop hroot
  have hlibraryDir : ∀ dir, LibraryDir t root dir ↔ LibraryDir s.tree root dir :=
    fun _ => LibraryDir.apply_iff h.ground hop
  have houtstanding : ∀ dir, Outstanding s dir → Outstanding
      { s with tree := t, inFlight := event :: s.inFlight, placed := placed } dir := by
    rintro dir (⟨e, he, htouches⟩ | hpending)
    · exact Or.inl ⟨e, he.imp_left (List.mem_cons_of_mem _), htouches⟩
    · exact Or.inr hpending
  -- a directory is touched by the new event, or its files are the same
  have htouched : ∀ dir, event.Touches dir ∨ SameFiles s.tree t dir := by
    intro dir
    by_cases htouches : event.Touches dir
    · exact Or.inl htouches
    · exact Or.inr (sameFiles_of_not_touches hop hkind hpaths htouches)
  have hfresh : ∀ dir, LibraryDir s.tree root dir → ∀ records,
      Fresh decoders library root s.tree dir records →
      Fresh decoders library root t dir records ∨ Outstanding
        { s with tree := t, inFlight := event :: s.inFlight, placed := placed } dir := by
    intro dir hdir records hrecords
    rcases htouched dir with htouches | hsame
    · exact Or.inr (Or.inl ⟨event, Or.inl List.mem_cons_self, htouches⟩)
    · refine Or.inl fun record => (hrecords record).trans ?_
      exact (mem_collectDirectory_congr hsame (hdir.plainDir h.ground)
        (((hlibraryDir dir).mpr hdir).plainDir hground)).symm
  refine ⟨hground, h.generation, ?_, fun d hd => (h.pending d hd).apply h.ground.node_nil hop, ?_,
    hplaced, ?_⟩
  · intro e he hekind p hp
    rcases he with he | he
    · rcases List.mem_cons.mp he with rfl | he
      · exact FileOp.filePath_of_mem_paths h.ground.node_nil hop (hpaths ▸ hp)
      · exact (h.events e (Or.inl he) hekind p hp).apply h.ground.node_nil hop
    · exact (h.events e (Or.inr he) hekind p hp).apply h.ground.node_nil hop
  · have hphase := h.phase
    dsimp only
    cases hmaintenance : s.maintenance with
    | start => trivial
    | walk => trivial
    | idle => trivial
    | collect todo rest =>
      rw [hmaintenance] at hphase
      exact ⟨fun dir hdir => (hlibraryDir dir).mpr (hphase.1 dir hdir),
        hphase.2.imp fun dir => (hlibraryDir dir).mpr⟩
    | reconcile dir records todo rest =>
      rw [hmaintenance] at hphase
      obtain ⟨⟨hdir, hrecords⟩, hcause, htodo, hrest⟩ := hphase
      refine ⟨⟨(hlibraryDir _).mpr hdir, hrecords⟩, ?_,
        fun d hd => (hlibraryDir d).mpr (htodo d hd),
        hrest.imp fun d => (hlibraryDir d).mpr⟩
      rcases hcause with hcause | hcause
      · exact hfresh dir hdir records hcause
      · exact Or.inr (houtstanding dir hcause)
    | remove vanished live =>
      rw [hmaintenance] at hphase
      exact ⟨hphase.1.imp fun d => (hlibraryDir d).mpr,
        fun v hv dir hdir => hphase.2 v hv dir ((hlibraryDir dir).mp hdir)⟩
  · intro dir hdir
    have hdir' := (hlibraryDir dir).mp hdir
    rcases h.accounted dir hdir' with hstep | hahead | hout
    · rcases htouched dir with htouches | hsame
      · exact Or.inr (Or.inr (Or.inl ⟨event, Or.inl List.mem_cons_self, htouches⟩))
      · exact Or.inl (hstep.of_sameFiles hsame (hdir'.plainDir h.ground) (hdir.plainDir hground))
    · exact Or.inr (hahead.imp (hfresh dir hdir'))
    · exact Or.inr (Or.inr (houtstanding dir hout))

/-- A job's path leads beside its video. -/
theorem beside_of_locate {t : FileTree} (hground : Ground library root t) {placed : Placed}
    (hjob : placed.job.library = library)
    (hpath : t.locate
      (siblingPaths (sourcePath placed.job.library placed.job.record) placed.output.suffix).2 =
        some placed.path) : Beside t root placed := by
  intro rel video hrel hdir
  unfold sourcePath at hpath
  rw [hjob, hrel, siblingPaths_relText, FileTree.locate_append hground.resolves hdir] at hpath
  exact (Option.some.inj hpath).symm

theorem WatchInvariant.place (h : WatchInvariant decoders library root s) {job : Job}
    {output : WorkerOutput} {src dst : Path} {t : FileTree} {event : Event}
    (hjob : job.library = library)
    (hdst : s.tree.locate (siblingPaths (sourcePath job.library job.record) output.suffix).2 =
      some dst)
    (hop : (FileOp.rename src dst).apply s.tree = some t)
    (hroot : t.canonicalize library.path = some root) (hkind : event.kind ≠ .access)
    (hpaths : event.paths = (FileOp.rename src dst).paths) :
    WatchInvariant decoders library root
      { s with tree := t, inFlight := event :: s.inFlight, placed := some ⟨job, output, dst⟩ } := by
  refine h.apply hop hroot hkind hpaths fun placed hplaced => ?_
  cases hplaced
  refine ⟨?_, ?_⟩
  · have hbeside : Beside s.tree root ⟨job, output, dst⟩ := beside_of_locate h.ground hjob hdst
    exact hbeside.apply (FileOp.dir_apply h.ground.node_nil hop)
  · obtain ⟨data, -, hnode⟩ := FileTree.node_renameFile hop
    rw [hnode, if_pos rfl]
    rfl

/-! ## Steps on events -/

/-- After a step that leaves the files and the maintenance task alone. -/
theorem WatchInvariant.of_events (h : WatchInvariant decoders library root s)
    {inFlight queue : List Event}
    (hmore : ∀ event, event ∈ s.inFlight ∨ event ∈ s.queue → event ∈ inFlight ∨ event ∈ queue)
    (hold : ∀ event, event ∈ inFlight ∨ event ∈ queue →
      (event ∈ s.inFlight ∨ event ∈ s.queue) ∨ event.kind = .access) :
    WatchInvariant decoders library root { s with inFlight := inFlight, queue := queue } := by
  have houtstanding : ∀ dir, Outstanding s dir →
      Outstanding { s with inFlight := inFlight, queue := queue } dir := by
    rintro dir (⟨event, hevent, htouches⟩ | hpending)
    · exact Or.inl ⟨event, hmore event hevent, htouches⟩
    · exact Or.inr hpending
  refine ⟨h.ground, h.generation, ?_, h.pending, ?_, h.placed, ?_⟩
  · intro event hevent hkind
    rcases hold event hevent with hevent | haccess
    · exact h.events event hevent hkind
    · exact absurd haccess hkind
  · have hphase := h.phase
    dsimp only
    cases hmaintenance : s.maintenance with
    | reconcile dir records todo rest =>
      rw [hmaintenance] at hphase
      exact ⟨hphase.1, hphase.2.1.imp_right (houtstanding dir), hphase.2.2⟩
    | start => trivial
    | walk => trivial
    | idle => trivial
    | collect todo rest =>
      rw [hmaintenance] at hphase
      exact hphase
    | remove vanished live =>
      rw [hmaintenance] at hphase
      exact hphase
  · intro dir hdir
    exact (h.accounted dir hdir).imp_right (Or.imp_right (houtstanding dir))

theorem WatchInvariant.deliver (h : WatchInvariant decoders library root s) {event : Event}
    {before after : List Event} (hflight : s.inFlight = before ++ event :: after) :
    WatchInvariant decoders library root
      { s with inFlight := before ++ after, queue := s.queue ++ [event] } := by
  refine h.of_events ?_ ?_
  · intro e he
    rw [hflight] at he
    simp only [List.mem_append, List.mem_cons, List.not_mem_nil, or_false] at he ⊢
    tauto
  · intro e he
    left
    rw [hflight]
    simp only [List.mem_append, List.mem_cons, List.not_mem_nil, or_false] at he ⊢
    tauto

theorem WatchInvariant.access (h : WatchInvariant decoders library root s) {event : Event}
    (hkind : event.kind = .access) :
    WatchInvariant decoders library root { s with queue := s.queue ++ [event] } := by
  refine h.of_events ?_ ?_
  · intro e he
    exact he.imp_right (List.mem_append_left _)
  · rintro e (he | he)
    · exact Or.inl (Or.inl he)
    · rcases List.mem_append.mp he with he | he
      · exact Or.inl (Or.inr he)
      · exact Or.inr (List.mem_singleton.mp he ▸ hkind)

/-! ## Calls on the index -/

/-- After a call that leaves the directories that are in step so. -/
theorem WatchInvariant.of_index (h : WatchInvariant decoders library root s) (index : Index)
    (hgeneration : index.scanGeneration = s.index.scanGeneration)
    (hstep : ∀ dir, LibraryDir s.tree root dir →
      InStep decoders s.tree library root s.generation s.index dir →
      InStep decoders s.tree library root s.generation index dir)
    {placed : Option Placed} (hplaced : ∀ p ∈ placed, p ∈ s.placed) :
    WatchInvariant decoders library root { s with index := index, placed := placed } where
  ground := h.ground
  generation hne := (Index.currentGeneration_congr hgeneration).trans (h.generation hne)
  events := h.events
  pending := h.pending
  phase := h.phase
  placed p hp := h.placed p (hplaced p hp)
  accounted dir hdir := (h.accounted dir hdir).imp_left (hstep dir hdir)

theorem WatchInvariant.record (h : WatchInvariant decoders library root s) {placed : Placed}
    (hplaced : s.placed = some placed) : WatchInvariant decoders library root
      { s with index := placed.output.record s.index placed.job, placed := none } := by
  obtain ⟨hbeside, hexists⟩ := h.placed placed hplaced
  refine h.of_index _ ?_ ?_ ?_
  · unfold WorkerOutput.record thumbnailStep
    cases placed.output with
    | compat => rfl
    | thumb =>
      dsimp only
      split <;> rfl
  · intro dir hdir hstep
    exact hstep.record (hdir.plainDir h.ground) hdir.under hbeside hexists
  · intro p hp
    cases hp

theorem WatchInvariant.recordProbe (h : WatchInvariant decoders library root s)
    (candidate : ProbeCandidate) (probe : ProbeResult) :
    WatchInvariant decoders library root
      { s with index := s.index.recordProbe candidate probe } :=
  h.of_index (s.index.recordProbe candidate probe) rfl
    (fun _ _ hstep => hstep.of_rows directoryRows_recordProbe) fun _ hp => hp

theorem WatchInvariant.recordFailure (h : WatchInvariant decoders library root s)
    (record : VideoRecord) (error : JobError) :
    WatchInvariant decoders library root
      { s with index := recordJobFailure {} s.index record error } :=
  h.of_index (recordJobFailure {} s.index record error) rfl
    (fun _ _ hstep => hstep.of_rows (directoryRows_congr rfl)) fun _ hp => hp

/-! ## The maintenance task -/

theorem WatchInvariant.nextGeneration (h : WatchInvariant decoders library root s) {index : Index}
    {generation : Int} (hok : s.index.nextGeneration = (index, generation)) :
    WatchInvariant decoders library root
      { s with index := index, generation := generation, maintenance := .walk } where
  ground := h.ground
  generation _ := (Index.nextGeneration_spec hok).2.1
  events := h.events
  pending := h.pending
  phase := trivial
  placed := h.placed
  accounted _ _ := Or.inr (Or.inl trivial)

/-- The directories that a walk from a directory of the library visits. -/
theorem mem_walkDir_iff {t : FileTree} {dir d : Path} (hdir : LibraryDir t root dir) :
    d ∈ t.walkDir dir ↔ LibraryDir t root d ∧ dir <+: d := by
  rw [FileTree.mem_walkDir hdir.node]
  exact ⟨fun hd => ⟨⟨hdir.under.trans hd.1, hd.2⟩, hd.1⟩, fun hd => ⟨hd.2, hd.1.node⟩⟩

theorem WatchInvariant.walkRoot (h : WatchInvariant decoders library root s)
    (hphase : s.maintenance = .walk) : WatchInvariant decoders library root
      { s with maintenance := .collect (s.tree.walkDir root) .scan } where
  ground := h.ground
  generation _ := h.generation (by simp [hphase])
  events := h.events
  pending := h.pending
  phase := ⟨fun _ hd => ((mem_walkDir_iff h.ground.root_dir).mp hd).1, trivial⟩
  placed := h.placed
  accounted _ hdir := Or.inr (Or.inl (Or.inl
    ((mem_walkDir_iff h.ground.root_dir).mpr ⟨hdir, hdir.under⟩)))

theorem WatchInvariant.collect (h : WatchInvariant decoders library root s) {dir : Path}
    {todo : List Path} {rest : Rest} (hphase : s.maintenance = .collect (dir :: todo) rest) :
    WatchInvariant decoders library root
      { s with
        maintenance :=
          .reconcile dir (collectDirectory decoders s.tree library root dir) todo rest } := by
  obtain ⟨htodo, hrest⟩ : PhaseOk decoders library root s (.collect (dir :: todo) rest) :=
    hphase ▸ h.phase
  refine ⟨h.ground, fun _ => h.generation (by simp [hphase]), h.events, h.pending, ?_, h.placed, ?_⟩
  · exact ⟨⟨htodo dir List.mem_cons_self, s.tree, rfl⟩, Or.inl fun _ => Iff.rfl,
      fun d hd => htodo d (List.mem_cons_of_mem _ hd), hrest⟩
  · intro d hd
    rcases h.accounted d hd with hstep | hahead | hout
    · exact Or.inl hstep
    · rw [hphase] at hahead
      right
      left
      rcases hahead with hmem | hcovers
      · rcases List.mem_cons.mp hmem with rfl | hmem
        · exact Or.inl ⟨rfl, fun _ => Iff.rfl⟩
        · exact Or.inr (Or.inl hmem)
      · exact Or.inr (Or.inr hcovers)
    · exact Or.inr (Or.inr hout)

theorem WatchInvariant.reconcile (h : WatchInvariant decoders library root s) {dir : Path}
    {records : List VideoRecord} {todo : List Path} {rest : Rest} {index : Index}
    (hphase : s.maintenance = .reconcile dir records todo rest)
    (hok : s.index.reconcileDirectory library.name (relativeOf dir root) records s.generation =
      .ok index) :
    WatchInvariant decoders library root
      { s with index := index, maintenance := .collect todo rest } := by
  obtain ⟨⟨hdir, t, rfl⟩, hcause, htodo, hrest⟩ :
      PhaseOk decoders library root s (.reconcile dir records todo rest) := hphase ▸ h.phase
  have hgeneration := (Index.reconcileDirectory_frame hok).2.2.2
  refine ⟨h.ground, fun _ => ?_, h.events, h.pending, ⟨htodo, hrest⟩, h.placed, ?_⟩
  · exact (Index.currentGeneration_congr hgeneration).trans (h.generation (by simp [hphase]))
  · intro d hd
    by_cases heq : d = dir
    · subst heq
      rcases hcause with hfresh | hout
      · exact Or.inl (.of_reconcile hdir.under hfresh hok)
      · exact Or.inr (Or.inr hout)
    · rcases h.accounted d hd with hstep | hahead | hout
      · exact Or.inl (hstep.reconcile_other hd.under hdir.under heq hok)
      · rw [hphase] at hahead
        rcases hahead with ⟨hsame, -⟩ | hahead
        · exact absurd hsame heq
        · exact Or.inr (Or.inl hahead)
      · exact Or.inr (Or.inr hout)

theorem WatchInvariant.sweep (h : WatchInvariant decoders library root s)
    (hphase : s.maintenance = .collect [] .scan) : WatchInvariant decoders library root
      { s with
        index := (s.index.removeUnseen library.name s.generation).1
        maintenance := .idle } := by
  refine ⟨h.ground, fun _ => ?_, h.events, h.pending, trivial, h.placed, ?_⟩
  · have hgeneration := h.generation (by simp [hphase])
    exact hgeneration
  · intro dir hdir
    rcases h.accounted dir hdir with hstep | hahead | hout
    · exact Or.inl hstep.removeUnseen
    · rw [hphase] at hahead
      rcases hahead with hmem | hcovers
      · cases hmem
      · cases hcovers
    · exact Or.inr (Or.inr hout)

/-! ## Receiving and flushing -/

/-- The paths that an event makes pending. -/
theorem pendingOk_of_mem_dirtyDirectories {t : FileTree} (hground : Ground library root t)
    {event : Event} (hpaths : event.kind ≠ .access → ∀ p ∈ event.paths, FilePath t p) {d : Dirty}
    {pending : List Dirty} (hd : d ∈ dirtyDirectories event [(library, root)])
    (hpending : ∀ e ∈ dirtyDirectories event [(library, root)], e ∈ pending) :
    PendingOk root t pending d := by
  obtain ⟨hkind, hfirst, hunder, p, hp, hpart, hpath⟩ := mem_dirtyDirectories.mp hd
  have hfile := hpaths hkind p hp
  refine ⟨hfirst, hunder, ?_⟩
  rcases hpath with hpath | ⟨hne, hpath⟩
  · -- the file itself, whose directory the event reports too
    rw [hpath] at hunder ⊢
    refine Or.inr ⟨hfile, hpending _ (mem_dirtyDirectories.mpr
      ⟨hkind, rfl, ?_, p, hp, hpart, Or.inr ⟨hfile.ne_nil, rfl⟩⟩)⟩
    have hroot : p ≠ root := fun heq => hfile.not_dir (heq ▸ hground.node)
    obtain ⟨r, rfl⟩ := hunder
    have hr : r ≠ [] := by
      rintro rfl
      exact hroot (List.append_nil root)
    rw [List.dropLast_append_of_ne_nil hr]
    exact List.prefix_append _ _
  · rw [hpath]
    exact Or.inl hfile.parent

theorem PendingOk.mono {t : FileTree} {pending pending' : List Dirty} {d : Dirty}
    (h : PendingOk root t pending d) (hmore : ∀ e ∈ pending, e ∈ pending') :
    PendingOk root t pending' d :=
  ⟨h.first, h.under, h.dir_or_file.imp_right (And.imp_right (hmore _))⟩

theorem WatchInvariant.receive (h : WatchInvariant decoders library root s) {event : Event}
    {queue : List Event} {now : Nat} (hphase : s.maintenance = .idle)
    (hqueue : s.queue = event :: queue) : WatchInvariant decoders library root
      { s with
        queue := queue
        debounce := s.debounce.recordAll (dirtyDirectories event [(library, root)]) now } := by
  have hpending : ∀ d, d ∈ s.debounce.pending ∨ d ∈ dirtyDirectories event [(library, root)] →
      d ∈ (s.debounce.recordAll (dirtyDirectories event [(library, root)]) now).pending :=
    fun d => Debounce.mem_pending_recordAll.mpr
  have hmem : event ∈ s.queue := hqueue ▸ List.mem_cons_self
  refine ⟨h.ground, h.generation, ?_, ?_, ?_, h.placed, ?_⟩
  · intro e he
    exact h.events e (he.imp_right fun hq => hqueue ▸ List.mem_cons_of_mem _ hq)
  · intro d hd
    rcases Debounce.mem_pending_recordAll.mp hd with hd | hd
    · exact (h.pending d hd).mono fun e he => hpending e (Or.inl he)
    · exact pendingOk_of_mem_dirtyDirectories h.ground (h.events event (Or.inr hmem)) hd
        fun e he => hpending e (Or.inr he)
  · dsimp only
    rw [hphase]
    trivial
  · intro dir hdir
    rcases h.accounted dir hdir with hstep | hahead | ⟨e, he, htouches⟩ | hdirty
    · exact Or.inl hstep
    · rw [hphase] at hahead
      cases hahead
    · right
      right
      rcases he with he | he
      · exact Or.inl ⟨e, Or.inl he, htouches⟩
      · rw [hqueue] at he
        rcases List.mem_cons.mp he with rfl | he
        · -- the event that is received makes the directory pending
          obtain ⟨hkind, n, hn, hpath⟩ := htouches
          refine Or.inr (hpending _ (Or.inr (mem_dirtyDirectories.mpr
            ⟨hkind, rfl, hdir.under, dir ++ [n], hpath, ?_, Or.inr ⟨by simp, by simp⟩⟩)))
          rw [isPart_concat, hn]
        · exact Or.inl ⟨e, Or.inr he, htouches⟩
    · exact Or.inr (Or.inr (Or.inr (hpending _ (Or.inl hdirty))))

/-- Of the pending paths the flush recognises the directories. -/
theorem PendingOk.isDir_iff {t : FileTree} {pending : List Dirty} {d : Dirty}
    (h : PendingOk root t pending d) : t.isDir d.2 = true ↔ t.node d.2 = some .dir := by
  rcases h.dir_or_file with hdir | ⟨hfile, -⟩
  · exact iff_of_true (FileTree.isDir_of_node hdir) hdir
  · exact iff_of_false (by rw [hfile.isDir_eq_false]; decide) hfile.not_dir

/-- A pending directory is at or beneath one that the flush walks. -/
theorem coveredBy_of_pending {t : FileTree} {pending : List Dirty} {dir : Path}
    (hdir : t.node dir = some .dir) (hpending : (0, dir) ∈ pending) :
    CoveredBy (pruneNested (liveDirty t pending)) dir := by
  have hlive : (0, dir) ∈ liveDirty t pending :=
    List.mem_filter.mpr ⟨hpending, FileTree.isDir_of_node hdir⟩
  obtain ⟨k, hk, -, hpre⟩ := exists_pruneNested hlive
  exact ⟨k, hk, hpre⟩

theorem WatchInvariant.flush (h : WatchInvariant decoders library root s)
    (hphase : s.maintenance = .idle) : WatchInvariant decoders library root
      { s with
        generation := s.index.currentGeneration
        debounce := s.debounce.take.2
        maintenance := .remove (pruneNested (vanishedDirty s.tree s.debounce.take.1))
          (pruneNested (liveDirty s.tree s.debounce.take.1)) } := by
  have hgeneration := h.generation (by simp [hphase])
  refine ⟨h.ground, fun _ => rfl, h.events, ?_, ⟨?_, ?_⟩, h.placed, ?_⟩
  · intro d hd
    cases hd
  · intro d hd
    obtain ⟨hmem, hlive⟩ := List.mem_filter.mp (mem_of_mem_pruneNested hd)
    have hok := h.pending d hmem
    exact ⟨hok.first, hok.under, hok.isDir_iff.mp hlive⟩
  · intro v hv dir hdir htree
    obtain ⟨hmem, hgone⟩ := List.mem_filter.mp (mem_of_mem_pruneNested hv)
    have hok := h.pending v hmem
    rcases hok.dir_or_file with hnode | ⟨hfile, hparent⟩
    · simp [FileTree.isDir_of_node hnode] at hgone
    · -- the removed rows lie beneath the directory of the file
      have hne : v.2 ≠ root := fun heq => hfile.not_dir (heq ▸ h.ground.node)
      have hpre := prefix_of_inTree h.ground.distinct hok.under hne hfile.parent hdir.under
        hdir.node htree
      obtain ⟨k, hk, hkv⟩ := coveredBy_of_pending hfile.parent hparent
      exact ⟨k, hk, hkv.trans hpre⟩
  · intro dir hdir
    rcases h.accounted dir hdir with hstep | hahead | ⟨e, he, htouches⟩ | hdirty
    · refine Or.inl ?_
      rw [← hgeneration] at hstep
      exact hstep
    · rw [hphase] at hahead
      cases hahead
    · exact Or.inr (Or.inr (Or.inl ⟨e, he, htouches⟩))
    · exact Or.inr (Or.inl (coveredBy_of_pending hdir.node hdirty))

theorem removeVanished_eq (index : Index) (v : Dirty) :
    removeVanished Faults.none [(library, root)] index v =
      if v.1 = 0 then (index.removeTree library.name (relativeOf v.2 root)).1 else index := by
  unfold removeVanished
  cases v.1 with
  | zero => rfl
  | succ i => rfl

theorem WatchInvariant.removeTree (h : WatchInvariant decoders library root s) {v : Dirty}
    {vanished live : List Dirty} (hphase : s.maintenance = .remove (v :: vanished) live) :
    WatchInvariant decoders library root
      { s with
        index := removeVanished Faults.none [(library, root)] s.index v
        maintenance := .remove vanished live } := by
  obtain ⟨hlive, hcovered⟩ : PhaseOk decoders library root s (.remove (v :: vanished) live) :=
    hphase ▸ h.phase
  rw [removeVanished_eq]
  refine ⟨h.ground, fun _ => ?_, h.events, h.pending,
    ⟨hlive, fun u hu => hcovered u (List.mem_cons_of_mem _ hu)⟩, h.placed, ?_⟩
  · have hgeneration := h.generation (by simp [hphase])
    dsimp only
    split
    · exact hgeneration
    · exact hgeneration
  · intro dir hdir
    rcases h.accounted dir hdir with hstep | hahead | hout
    · by_cases htree : Index.inTree (relativeOf v.2 root) (relativeOf dir root) = true
      · exact Or.inr (Or.inl (hcovered v List.mem_cons_self dir hdir htree))
      · left
        dsimp only
        split
        · exact hstep.of_rows (directoryRows_removeTree (Bool.eq_false_iff.mpr htree))
        · exact hstep
    · rw [hphase] at hahead
      exact Or.inr (Or.inl hahead)
    · exact Or.inr (Or.inr hout)

theorem WatchInvariant.removed (h : WatchInvariant decoders library root s) {live : List Dirty}
    (hphase : s.maintenance = .remove [] live) : WatchInvariant decoders library root
      { s with maintenance := .collect [] (.flush live) } := by
  obtain ⟨hlive, -⟩ : PhaseOk decoders library root s (.remove [] live) := hphase ▸ h.phase
  refine ⟨h.ground, fun _ => h.generation (by simp [hphase]), h.events, h.pending,
    ⟨fun _ hd => absurd hd List.not_mem_nil, hlive⟩, h.placed, ?_⟩
  intro dir hdir
  refine (h.accounted dir hdir).imp_right (Or.imp_left fun hahead => ?_)
  rw [hphase] at hahead
  exact Or.inr hahead

theorem WatchInvariant.walkLive (h : WatchInvariant decoders library root s) {d : Dirty}
    {live : List Dirty} (hphase : s.maintenance = .collect [] (.flush (d :: live))) :
    WatchInvariant decoders library root
      { s with maintenance := .collect (s.tree.walkDir d.2) (.flush live) } := by
  obtain ⟨-, hlive⟩ : PhaseOk decoders library root s (.collect [] (.flush (d :: live))) :=
    hphase ▸ h.phase
  have hd := (hlive d List.mem_cons_self).2
  refine ⟨h.ground, fun _ => h.generation (by simp [hphase]), h.events, h.pending,
    ⟨fun _ he => ((mem_walkDir_iff hd).mp he).1, fun e he => hlive e (List.mem_cons_of_mem _ he)⟩,
    h.placed, ?_⟩
  intro dir hdir
  refine (h.accounted dir hdir).imp_right (Or.imp_left fun hahead => ?_)
  rw [hphase] at hahead
  rcases hahead with hmem | ⟨e, he, hpre⟩
  · cases hmem
  · rcases List.mem_cons.mp he with rfl | he
    · exact Or.inl ((mem_walkDir_iff hd).mpr ⟨hdir, hpre⟩)
    · exact Or.inr ⟨e, he, hpre⟩

theorem WatchInvariant.flushed (h : WatchInvariant decoders library root s)
    (hphase : s.maintenance = .collect [] (.flush [])) :
    WatchInvariant decoders library root { s with maintenance := .idle } := by
  refine ⟨h.ground, fun _ => h.generation (by simp [hphase]), h.events, h.pending, trivial,
    h.placed, ?_⟩
  intro dir hdir
  refine (h.accounted dir hdir).imp_right (Or.imp_left fun hahead => ?_)
  rw [hphase] at hahead
  rcases hahead with hmem | ⟨e, he, -⟩
  · cases hmem
  · cases he

/-! ## Runs -/

theorem WatchInvariant.step {action : WatchAction} (h : WatchInvariant decoders library root s)
    (hstep : WatchStep decoders library root s action s') :
    WatchInvariant decoders library root s' := by
  cases hstep with
  | files hop hroot hkept hkind hpaths =>
    refine h.apply hop hroot hkind hpaths fun placed hplaced => ⟨?_, hkept placed hplaced⟩
    exact (h.placed placed hplaced).1.apply (FileOp.dir_apply h.ground.node_nil hop)
  | place _ hjob _ hdst hop hroot hkind hpaths => exact h.place hjob hdst hop hroot hkind hpaths
  | record hplaced => exact h.record hplaced
  | deliver hflight => exact h.deliver hflight
  | access hkind => exact h.access hkind
  | nextGeneration _ hok => exact h.nextGeneration hok
  | walkRoot hphase => exact h.walkRoot hphase
  | collect hphase _ => exact h.collect hphase
  | reconcile hphase hok => exact h.reconcile hphase hok
  | sweep hphase => exact h.sweep hphase
  | receive now hphase hqueue => exact h.receive hphase hqueue
  | flush hphase _ => exact h.flush hphase
  | removeTree hphase => exact h.removeTree hphase
  | removed hphase => exact h.removed hphase
  | walkLive hphase _ => exact h.walkLive hphase
  | flushed hphase => exact h.flushed hphase
  | recordProbe candidate probe => exact h.recordProbe candidate probe
  | recordFailure record error => exact h.recordFailure record error

theorem watchInvariant_start {t : FileTree} (hground : Ground library root t) (index : Index)
    (quiet : Nat) : WatchInvariant decoders library root (watchStart t index quiet) where
  ground := hground
  generation hne := absurd rfl hne
  events _ he := absurd he (by simp [watchStart])
  pending _ hd := absurd hd (by simp [watchStart, Debounce.new])
  phase := trivial
  placed _ hp := absurd hp (by simp [watchStart])
  accounted _ _ := Or.inr (Or.inl trivial)

/-- In a quiet state every directory is in step. -/
theorem WatchInvariant.inStep (h : WatchInvariant decoders library root s) (hquiet : s.Quiescent)
    {dir : Path} (hdir : LibraryDir s.tree root dir) :
    InStep decoders s.tree library root s.generation s.index dir := by
  rcases h.accounted dir hdir with hstep | hahead | ⟨e, he, -⟩ | hpending
  · exact hstep
  · rw [hquiet.maintenance] at hahead
    cases hahead
  · rw [hquiet.inFlight, hquiet.queue] at he
    rcases he with he | he
    · cases he
    · cases he
  · rw [hquiet.pending] at hpending
    cases hpending

end Steps

/-- Whenever nothing is under way, queued or pending, the rows of every directory have exactly
the keys and the copied columns that its current files give. In no directory of the library may
a link stand in place of a file that records are built from. -/
theorem no_update_lost {decoders : Decoders} {library : Library} {root : Path} {t : FileTree}
    {index : Index} {quiet : Nat} {actions : List WatchAction} {s : WatchSystem}
    (hnode : t.node root = some .dir) (hroot : t.canonicalize library.path = some root)
    (hfree : ∀ dir n target, root <+: dir → RecordName n →
      t.node (dir ++ [n]) ≠ some (.symlink target))
    (hdistinct : DistinctUpToCase t root)
    (hrun : Lib.Run (WatchStep decoders library root) (watchStart t index quiet) actions s)
    (hquiet : s.Quiescent) {dir : Path} (hunder : root <+: dir)
    (hdir : s.tree.node dir = some .dir) (columns : VideoRecord) :
    (∃ row ∈ s.index.videos, row.record.library = library.name ∧
        row.record.parent = relativeOf dir root ∧ copied row.record = columns) ↔
      ∃ record ∈ collectDirectory decoders s.tree library root dir, copied record = columns := by
  have hinvariant := hrun.invariant (I := WatchInvariant decoders library root)
    (fun _ _ _ hs hstep => hs.step hstep)
    (watchInvariant_start ⟨hnode, hroot, hfree, hdistinct⟩ index quiet)
  have hstep := hinvariant.inStep hquiet ⟨hunder, hdir⟩
  constructor
  · rintro ⟨row, hrow, hlibrary, hparent, rfl⟩
    obtain ⟨record, hrecord, hcopied, -⟩ := hstep.exists_record hrow hlibrary hparent
    exact ⟨record, hrecord, hcopied.symm⟩
  · rintro ⟨record, hrecord, rfl⟩
    have hmem : (copied record, s.generation) ∈
        stampedRows (collectDirectory decoders s.tree library root dir) s.generation :=
      ⟨record, hrecord, rfl⟩
    rw [← hstep] at hmem
    obtain ⟨row, hrow, hlibrary, hparent, heq⟩ := hmem
    exact ⟨row, hrow, hlibrary, hparent, congrArg Prod.fst heq⟩

namespace WatchedLibrary

open OneVideo (lib library decoders)

def collected (t : FileTree) (dir : Path) : List VideoRecord :=
  collectDirectory decoders t library [lib] dir

def reconciled (t : FileTree) (index : Index) (dir : Path) : Index :=
  match index.reconcileDirectory library.name (relativeOf dir [lib]) (collected t dir) 1 with
  | .ok index' => index'
  | .error _ => index

def begun : Index := { Index.openInMemory with scanGeneration := some "1" }

/-- Nothing is left to happen. -/
def quiet (t : FileTree) (index : Index) : WatchSystem where
  tree := t
  index := index
  inFlight := []
  queue := []
  debounce := .new 2
  generation := 1
  maintenance := .idle
  placed := none

theorem quiescent_quiet (t : FileTree) (index : Index) : (quiet t index).Quiescent :=
  ⟨rfl, rfl, rfl, rfl, rfl⟩

end WatchedLibrary

/-! ## A file that comes while the scan is writing -/

namespace LateFile

open OneVideo (lib tree library decoders)
open WatchedLibrary

def late : FileName := ⟨"Late.mkv", by decide⟩

/-- The file is created between the collection of its directory and the writing. -/
def create : FileOp := .write [lib, late] ⟨[4], 9⟩

def created : FileTree := (create.apply tree).get (by decide)

def event : Event := ⟨.create, [[lib, late]]⟩

def scanned : Index := ((reconciled tree begun [lib]).removeUnseen library.name 1).1

def removed : Index := removeVanished Faults.none [(library, [lib])] scanned (0, [lib, late])

def caughtUp : WatchSystem := quiet created (reconciled created removed [lib])

theorem run_caughtUp : Lib.Run (WatchStep decoders library [lib]) (watchStart tree .openInMemory 2)
    [.nextGeneration, .walk, .collect, .files, .reconcile, .deliver, .sweep, .receive, .flush,
      .removeTree, .removeTree, .walk, .collect, .reconcile, .flushed] caughtUp := by
  have hbegun : Index.openInMemory.nextGeneration = (begun, 1) := rfl
  have hcreate : create.apply tree = some created := (Option.some_get _).symm
  have hevent : event.kind ≠ .access := by decide
  refine .cons (.nextGeneration rfl hbegun) ?_
  refine .cons (.walkRoot rfl) ?_
  refine .cons (.collect (show _ = MaintenancePhase.collect [[lib]] .scan from rfl) (by decide)) ?_
  refine .cons (.files hcreate (by decide) (fun _ h => by cases h) hevent rfl) ?_
  refine .cons (.reconcile rfl (show _ = Except.ok (reconciled tree begun [lib]) from rfl)) ?_
  refine .cons (.deliver (show _ = [] ++ event :: [] from rfl)) ?_
  refine .cons (.sweep rfl) ?_
  refine .cons (.receive 7 rfl rfl) ?_
  refine .cons (.flush rfl (show _ = some 9 from rfl)) ?_
  refine .cons (.removeTree
    (show _ = MaintenancePhase.remove [(0, [lib, late])] [(0, [lib])] from rfl)) ?_
  refine .cons (.removed rfl) ?_
  refine .cons (.walkLive
    (show _ = MaintenancePhase.collect [] (.flush [(0, [lib])]) from rfl) rfl) ?_
  refine .cons (.collect
    (show _ = MaintenancePhase.collect [[lib]] (.flush []) from rfl) (by decide)) ?_
  refine .cons (.reconcile rfl (show _ = Except.ok (reconciled created removed [lib]) from rfl)) ?_
  exact .single (.flushed rfl)

def lateRecord : VideoRecord := (collected created [lib]).head (by decide)

theorem no_update_lost_lateFile :
    (∃ row ∈ caughtUp.index.videos, row.record.library = library.name ∧
        row.record.parent = relativeOf [lib] [lib] ∧ copied row.record = copied lateRecord) ↔
      ∃ record ∈ collectDirectory decoders caughtUp.tree library [lib] [lib],
        copied record = copied lateRecord :=
  have hfree : tree.LinkFree := by decide
  no_update_lost (by decide) (by decide) (fun _ _ target _ _ => hfree _ target) (by decide)
    run_caughtUp (quiescent_quiet _ _) List.prefix_rfl (by decide) (copied lateRecord)

end LateFile

/-! ## A link in place of a thumbnail -/

namespace LinkedThumbnail

open OneVideo (lib movie library decoders)
open WatchedLibrary

def art : FileName := ⟨"art", by decide⟩

def cover : FileName := ⟨"cover.jpg", by decide⟩

/-- Under the name of the thumbnail lies a link to a picture that is not there yet. -/
def linked : FileTree :=
  .ofNodes [([], .dir), ([lib], .dir), ([lib, movie], .file ⟨[1, 2, 3], 5⟩),
    ([lib, movie.sidecar jpgSuffix], .symlink [lib, art, cover]), ([lib, art], .dir)]
    (by decide) (by decide)

def create : FileOp := .write [lib, art, cover] ⟨[7], 9⟩

def created : FileTree := (create.apply linked).get (by decide)

def event : Event := ⟨.create, [[lib, art, cover]]⟩

def scanned : Index :=
  ((reconciled linked (reconciled linked begun [lib]) [lib, art]).removeUnseen library.name 1).1

def removed : Index := removeVanished Faults.none [(library, [lib])] scanned (0, [lib, art, cover])

def caughtUp : WatchSystem := quiet created (reconciled created removed [lib, art])

theorem run_caughtUp : Lib.Run (WatchStep decoders library [lib])
    (watchStart linked .openInMemory 2)
    [.nextGeneration, .walk, .collect, .reconcile, .collect, .reconcile, .sweep, .files, .deliver,
      .receive, .flush, .removeTree, .removeTree, .walk, .collect, .reconcile, .flushed]
    caughtUp := by
  have hbegun : Index.openInMemory.nextGeneration = (begun, 1) := rfl
  have hcreate : create.apply linked = some created := (Option.some_get _).symm
  have hevent : event.kind ≠ .access := by decide
  refine .cons (.nextGeneration rfl hbegun) ?_
  refine .cons (.walkRoot rfl) ?_
  refine .cons (.collect
    (show _ = MaintenancePhase.collect [[lib], [lib, art]] .scan from rfl) (by decide +kernel)) ?_
  refine .cons (.reconcile rfl (show _ = Except.ok (reconciled linked begun [lib]) from rfl)) ?_
  refine .cons (.collect
    (show _ = MaintenancePhase.collect [[lib, art]] .scan from rfl) (by decide +kernel)) ?_
  refine .cons (.reconcile rfl (show _ = Except.ok
    (reconciled linked (reconciled linked begun [lib]) [lib, art]) from rfl)) ?_
  refine .cons (.sweep rfl) ?_
  refine .cons (.files hcreate (by decide +kernel) (fun _ h => by cases h) hevent rfl) ?_
  refine .cons (.deliver (show _ = [] ++ event :: [] from rfl)) ?_
  refine .cons (.receive 7 rfl rfl) ?_
  refine .cons (.flush rfl (show _ = some 9 from rfl)) ?_
  refine .cons (.removeTree
    (show _ = MaintenancePhase.remove [(0, [lib, art, cover])] [(0, [lib, art])] from rfl)) ?_
  refine .cons (.removed rfl) ?_
  refine .cons (.walkLive
    (show _ = MaintenancePhase.collect [] (.flush [(0, [lib, art])]) from rfl) rfl) ?_
  refine .cons (.collect
    (show _ = MaintenancePhase.collect [[lib, art]] (.flush []) from rfl) (by decide +kernel)) ?_
  refine .cons (.reconcile rfl
    (show _ = Except.ok (reconciled created removed [lib, art]) from rfl)) ?_
  exact .single (.flushed rfl)

/-- The picture is there, the row of the video has no thumbnail. -/
theorem update_lost : ¬ ∀ (decoders : Decoders) (library : Library) (root : Path) (t : FileTree)
    (index : Index) (quiet : Nat) (actions : List WatchAction) (s : WatchSystem),
    t.node root = some .dir → t.canonicalize library.path = some root →
    DistinctUpToCase t root →
    Lib.Run (WatchStep decoders library root) (watchStart t index quiet) actions s →
    s.Quiescent → ∀ dir, root <+: dir → s.tree.node dir = some .dir → ∀ columns,
    ((∃ row ∈ s.index.videos, row.record.library = library.name ∧
        row.record.parent = relativeOf dir root ∧ copied row.record = columns) ↔
      ∃ record ∈ collectDirectory decoders s.tree library root dir, copied record = columns) := by
  intro h
  have hrows := h decoders library [lib] linked .openInMemory 2 _ caughtUp (by decide)
    (by decide +kernel) (by decide +kernel) run_caughtUp (quiescent_quiet _ _) [lib]
    List.prefix_rfl (by decide +kernel)
  have hnone : ∀ row ∈ caughtUp.index.videos.rows, row.record.thumbRelPath = none := by
    decide +kernel
  have hfound : ∃ record ∈ collected created [lib], (copied record).thumbRelPath ≠ none := by
    decide +kernel
  obtain ⟨record, hrecord, hthumb⟩ := hfound
  obtain ⟨row, hrow, -, -, hcopied⟩ := (hrows (copied record)).mpr ⟨record, hrecord, rfl⟩
  refine hthumb ?_
  rw [← hcopied]
  exact hnone row hrow

end LinkedThumbnail

end Loku
