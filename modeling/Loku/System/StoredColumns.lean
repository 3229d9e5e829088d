import Loku.Media.Drain
import Loku.Media.Ownership
import Loku.System.WorkerFiles

/-!
# What a job stores of its outputs

A job that goes well stores the names of its outputs in the row of its master, before any scan has
seen them. These are the values that a scan finds: the outputs lie where the scan looks
(`Working.done`), and a thumbnail named `.jpg` goes before every other.

A job that makes no compat copy leaves that column alone. What a scan finds there is still the
same (`columns_agree_after_job`), unless a symbolic link under the name of the compat copy leads
to the thumbnail: the thumbnail then appears as a compat copy as well.
-/

namespace Loku

/-! ## Single changes -/

/-- A path in a directory becomes a file or nothing, and nothing else changes. -/
structure LeafChange (t t' : FileTree) (q : Path) : Prop where
  parent : t.node q.dropLast = some .dir
  leaf : ∀ a, t'.node q = some a → ∃ data, a = .file data
  same : ∀ p, p ≠ q → t'.node p = t.node p

section Changes

variable {t t' : FileTree} {q : Path}

theorem LeafChange.unlink (hq : q ≠ []) (h : t.unlink q = some t') : LeafChange t t' q where
  parent := by
    unfold FileTree.unlink at h
    split at h
    · rename_i hnode
      exact Lib.PathTree.node_dropLast hnode hq
    · rename_i hnode
      exact Lib.PathTree.node_dropLast hnode hq
    · cases h
  leaf := by
    intro a ha
    rw [FileTree.node_unlink h, if_pos rfl] at ha
    cases ha
  same := by
    intro p hp
    rw [FileTree.node_unlink h, if_neg hp]

theorem LeafChange.writeFile {data : FileData} (h : t.writeFile q data = some t') :
    LeafChange t t' q where
  parent := by
    unfold FileTree.writeFile at h
    split at h
    · rename_i hput
      exact hput.2.1
    · cases h
  leaf := by
    intro a ha
    rw [FileTree.node_writeFile h, if_pos rfl] at ha
    exact ⟨data, (Option.some.inj ha).symm⟩
  same := by
    intro p hp
    rw [FileTree.node_writeFile h, if_neg hp]

/-- One more of the paths that may have changed. -/
theorem LeafChange.differs {t₀ : FileTree} {P : Path → Prop} (hchange : LeafChange t t' q)
    (hq : P q) (h : ∀ p, t.node p ≠ t₀.node p → P p) : ∀ p, t'.node p ≠ t₀.node p → P p := by
  intro p hp
  by_cases heq : p = q
  · rwa [heq]
  · rw [hchange.same p heq] at hp
    exact h p hp

/-- A rename removes the source and writes the destination. -/
theorem leafChanges_renameFile {src dst : Path} (hsrc : src ≠ [])
    (h : t.renameFile src dst = some t') : ∃ mid, LeafChange t mid src ∧ LeafChange mid t' dst := by
  unfold FileTree.renameFile at h
  split at h
  · rename_i data hnode
    refine ⟨t.remove src, ⟨Lib.PathTree.node_dropLast hnode hsrc, ?_, ?_⟩, .writeFile h⟩
    · intro a ha
      rw [FileTree.node_remove_file hnode, if_pos rfl] at ha
      cases ha
    · intro p hp
      rw [FileTree.node_remove_file hnode, if_neg hp]
  · cases h

/-- Where `base` is a directory, it is `dir`. -/
def Leads (t : FileTree) (base dir : Path) : Prop :=
  ∀ e, t.canonicalize base = some e → t.node e = some .dir → e = dir

theorem Leads.of_leafChange {base dir : Path} (h : Leads t base dir)
    (hchange : LeafChange t t' q) : Leads t' base dir := by
  intro e he hdir
  have hne : e ≠ q := by
    rintro rfl
    obtain ⟨data, hfile⟩ := hchange.leaf _ hdir
    cases hfile
  have hback : t.canonicalize base = some e :=
    FileTree.canonicalize_congr hchange.leaf (fun p hp => (hchange.same p hp).symm) hne he
  exact h e hback ((hchange.same e hne) ▸ hdir)

theorem Leads.locate_eq {base dir : Path} {n : FileName} (h : Leads t base dir)
    (hq : t.locate (base ++ [n]) = some q) (hparent : t.node q.dropLast = some .dir) :
    q = dir ++ [n] := by
  unfold FileTree.locate at hq
  rw [List.getLast?_concat, Option.bind_some, List.dropLast_concat] at hq
  obtain ⟨e, he, rfl⟩ := Option.map_eq_some_iff.mp hq
  rw [List.dropLast_concat] at hparent
  rw [h e he hparent]

end Changes

/-! ## A job that goes well -/

/-- The steps of a job in which nothing fails and no link stays at a staging path. -/
def ownActions : List WorkerAction := [.removeStale, .write, .discard, .succeed, .rename]

theorem cleared_of_own {action : WorkerAction} (h : action ∈ ownActions) : action.Cleared := by
  revert action
  decide

/-- A worker that has taken a job. -/
def jobStart (t : FileTree) (job : Job) : WorkerFiles := ⟨t, .next job.attempts, [], [], []⟩

/-- The outputs still to be put in place. -/
def WorkPhase.remaining : WorkPhase → List Attempt
  | idle => []
  | ready a rest => a :: rest
  | running a rest => a :: rest
  | finished a rest => a :: rest

@[simp]
theorem WorkPhase.remaining_next (rest : List Attempt) :
    (WorkPhase.next rest).remaining = rest := by
  cases rest <;> rfl

theorem ne_nil_of_locate {t : FileTree} {p q : Path} (h : t.locate p = some q) : q ≠ [] := by
  unfold FileTree.locate at h
  obtain ⟨n, -, hq⟩ := Option.bind_eq_some_iff.mp h
  obtain ⟨d, -, rfl⟩ := Option.map_eq_some_iff.mp hq
  simp

/-- What a step can do to the files: change the staging file of the first output, or move it into
place. -/
theorem own_step_cases {s s' : WorkerFiles} {action : WorkerAction} (hinv : s.Inv)
    (hstep : WorkerStep s action s') (hown : action ∈ ownActions) :
    ∃ a rest, s.phase.remaining = a :: rest ∧
      ((s'.phase.remaining = a :: rest ∧ (s'.tree = s.tree ∨
          ∃ q, s.tree.locate a.part = some q ∧ LeafChange s.tree s'.tree q)) ∨
        (s'.phase.remaining = rest ∧ ∃ src dst mid data, s.tree.locate a.part = some src ∧
          s.tree.locate a.dest = some dst ∧ LeafChange s.tree mid src ∧
          LeafChange mid s'.tree dst ∧ s'.tree.node dst = some (.file data))) := by
  cases hstep with
  | files => simp [ownActions] at hown
  | take => simp [ownActions] at hown
  | fail => simp [ownActions] at hown
  | renameFails => simp [ownActions] at hown
  | crash => simp [ownActions] at hown
  | @removeStale a rest q t hphase hpart hop =>
    exact ⟨a, rest, by rw [hphase]; rfl,
      Or.inl ⟨rfl, Or.inr ⟨q, hpart, .unlink (ne_nil_of_locate hpart) hop⟩⟩⟩
  | @keepStale a rest hphase hlink =>
    exact ⟨a, rest, by rw [hphase]; rfl, Or.inl ⟨rfl, Or.inl rfl⟩⟩
  | keepLink => simp [ownActions] at hown
  | renameDir => simp [ownActions] at hown
  | @write a rest q data t hphase hopen hop =>
    have hpart := hopen.locate (hinv.unlinked a (by rw [hphase]; rfl))
    have hremaining : s.phase.remaining = a :: rest := by rw [hphase]; rfl
    exact ⟨a, rest, hremaining, Or.inl ⟨hremaining, Or.inr ⟨q, hpart, .writeFile hop⟩⟩⟩
  | @discard a rest q t hphase hpart hop =>
    have hremaining : s.phase.remaining = a :: rest := by rw [hphase]; rfl
    exact ⟨a, rest, hremaining,
      Or.inl ⟨hremaining, Or.inr ⟨q, hpart, .unlink (ne_nil_of_locate hpart) hop⟩⟩⟩
  | @succeed a rest hphase =>
    exact ⟨a, rest, by rw [hphase]; rfl, Or.inl ⟨rfl, Or.inl rfl⟩⟩
  | @rename a rest src dst t hphase hsrc hdst hdir hop =>
    have hfile := hinv.rename_eq hphase hsrc hdir hop
    obtain ⟨data, -, hnode⟩ := FileTree.node_renameFile hfile
    obtain ⟨mid, hremove, hwrite⟩ := leafChanges_renameFile (ne_nil_of_locate hsrc) hfile
    have hplaced : t.node dst = some (.file data) := by rw [hnode, if_pos rfl]
    exact ⟨a, rest, by rw [hphase]; rfl,
      Or.inr ⟨WorkPhase.remaining_next rest, src, dst, mid, data, hsrc, hdst, hremove, hwrite,
        hplaced⟩⟩

theorem Attempt.part_eq {a : Attempt} {base : Path} (h : a.source.dropLast = base) :
    a.part = base ++ [a.partName] := by
  rw [← h]
  rfl

theorem Attempt.dest_eq {a : Attempt} {base : Path} (h : a.source.dropLast = base) :
    a.dest = base ++ [a.destName] := by
  rw [← h]
  rfl

/-- In the middle of a job: only its outputs have changed in the directory `dir`, where `base`
leads, and the outputs that are not still to come lie there. -/
structure Working (t : FileTree) (base dir : Path) (attempts : List Attempt) (s : WorkerFiles) :
    Prop where
  inv : s.Inv
  leads : Leads s.tree base dir
  remaining : ∀ a ∈ s.phase.remaining, a ∈ attempts
  changed : ∀ q, s.tree.node q ≠ t.node q →
    ∃ a ∈ attempts, q = dir ++ [a.partName] ∨ q = dir ++ [a.destName]
  done : ∀ a ∈ attempts, a ∈ s.phase.remaining ∨
    ∃ data, s.tree.node (dir ++ [a.destName]) = some (.file data)

section Working

variable {t : FileTree} {base dir : Path} {attempts : List Attempt} {s s' : WorkerFiles}

theorem destName_ne_partName (a b : Attempt) : dir ++ [a.destName] ≠ dir ++ [b.partName] := by
  intro h
  exact partName_ne_destName b a (List.singleton_inj.mp (List.append_cancel_left h)).symm

theorem Working.step {action : WorkerAction} (hbase : ∀ a ∈ attempts, a.source.dropLast = base)
    (h : Working t base dir attempts s) (hstep : WorkerStep s action s')
    (hown : action ∈ ownActions) : Working t base dir attempts s' := by
  have hinv' := h.inv.step hstep (cleared_of_own hown)
  obtain ⟨a, rest, hremaining, hcase⟩ := own_step_cases h.inv hstep hown
  have ha : a ∈ attempts := h.remaining a (hremaining ▸ List.mem_cons_self)
  have hpart := a.part_eq (hbase a ha)
  have hdest := a.dest_eq (hbase a ha)
  rcases hcase with ⟨hremaining', htree | ⟨q, hq, hchange⟩⟩ |
    ⟨hremaining', src, dst, mid, data, hsrc, hdst, hremove, hwrite, hplaced⟩
  · have hsame : s'.phase.remaining = s.phase.remaining := hremaining'.trans hremaining.symm
    exact ⟨hinv', htree ▸ h.leads, hsame ▸ h.remaining, htree ▸ h.changed,
      by rw [hsame, htree]; exact h.done⟩
  · have hsame : s'.phase.remaining = s.phase.remaining := hremaining'.trans hremaining.symm
    obtain rfl : q = dir ++ [a.partName] := h.leads.locate_eq (hpart ▸ hq) hchange.parent
    refine ⟨hinv', h.leads.of_leafChange hchange, hsame ▸ h.remaining,
      hchange.differs ⟨a, ha, Or.inl rfl⟩ h.changed, ?_⟩
    intro b hb
    rw [hsame, hchange.same _ (destName_ne_partName b a)]
    exact h.done b hb
  · obtain rfl : src = dir ++ [a.partName] := h.leads.locate_eq (hpart ▸ hsrc) hremove.parent
    have hmid := h.leads.of_leafChange hremove
    have hne : dst.dropLast ≠ dir ++ [a.partName] := by
      intro heq
      obtain ⟨data', hfile⟩ := hremove.leaf _ (heq ▸ hwrite.parent)
      cases hfile
    obtain rfl : dst = dir ++ [a.destName] :=
      h.leads.locate_eq (hdest ▸ hdst) (hremove.same _ hne ▸ hwrite.parent)
    have hchanged := hremove.differs ⟨a, ha, Or.inl rfl⟩ h.changed
    refine ⟨hinv', hmid.of_leafChange hwrite, ?_,
      hwrite.differs ⟨a, ha, Or.inr rfl⟩ hchanged, ?_⟩
    · intro b hb
      exact h.remaining b (hremaining ▸ List.mem_cons_of_mem _ (hremaining' ▸ hb))
    · intro b hb
      by_cases heq : dir ++ [b.destName] = dir ++ [a.destName]
      · exact Or.inr ⟨data, heq ▸ hplaced⟩
      · rw [hremaining', hwrite.same _ heq, hremove.same _ (destName_ne_partName b a)]
        refine (h.done b hb).imp_left fun hmem => ?_
        rw [hremaining] at hmem
        refine (List.mem_cons.mp hmem).resolve_left fun hba => heq ?_
        rw [hba]

theorem Working.run {actions : List WorkerAction}
    (hbase : ∀ a ∈ attempts, a.source.dropLast = base) (h : Working t base dir attempts s)
    (hrun : Lib.Run WorkerStep s actions s') (hown : ∀ action ∈ actions, action ∈ ownActions) :
    Working t base dir attempts s' :=
  hrun.invariant_of_actions (fun _ _ _ hw hstep hok => hw.step hbase hstep hok) hown h

theorem working_jobStart {job : Job} (hleads : Leads t base dir) :
    Working t base dir job.attempts (jobStart t job) where
  inv := WorkerFiles.inv_of_no_staging (WorkerFiles.staging_next _) nofun nofun
  leads := hleads
  remaining := by simp [jobStart]
  changed := fun _ hq => absurd rfl hq
  done := fun a ha => Or.inl (by simpa [jobStart] using ha)

end Working

/-! ## The columns -/

/-- Looking for the compat copy of `video` leads neither to its thumbnail nor to the thumbnail's
staging file. -/
def CompatApart (t : FileTree) (dir : Path) (video : FileName) : Prop :=
  ∀ q ∈ t.via (sidecarPath dir video compatSuffix),
    q ≠ sidecarPath dir video jpgSuffix ∧ q ≠ sidecarPath dir video jpgSuffix.part

/-- Only a symbolic link can lead there. -/
theorem compatApart_of_no_link {t : FileTree} {dir : Path} {video : FileName}
    (hdir : t.node dir = some .dir)
    (hlink : ∀ target, t.node (sidecarPath dir video compatSuffix) ≠ some (.symlink target)) :
    CompatApart t dir video := by
  intro q hq
  have hpre := FileTree.prefix_of_mem_via hdir hlink hq
  have hne : ∀ s ∈ [jpgSuffix, jpgSuffix.part], q ≠ sidecarPath dir video s := by
    rintro s hs rfl
    have heq := hpre.eq_of_length (by simp [sidecarPath])
    have hmem : s ∈ sidecarSuffixes := by
      have hall : ∀ s ∈ [jpgSuffix, jpgSuffix.part], s ∈ sidecarSuffixes := by decide
      exact hall s hs
    obtain ⟨-, rfl⟩ := (sidecarPath_inj hmem (by decide)).mp heq
    revert hs
    decide
  exact ⟨hne _ (by simp), hne _ (by simp)⟩

theorem recordAt_setCompat {index : Index} {library relPath : String} {record : VideoRecord}
    (compat : String) (h : index.recordAt (library, relPath) = some record) :
    (index.setCompat library relPath compat).recordAt (library, relPath) =
      some (Index.withCompat compat record) := by
  unfold Index.recordAt at h ⊢
  obtain ⟨row, hrow, rfl⟩ := Option.map_eq_some_iff.mp h
  rw [Index.find?_setCompat, hrow, Option.map_some, if_pos rfl]
  rfl

theorem recordAt_setThumb {index : Index} {library relPath : String} {record : VideoRecord}
    (thumb : String) (h : index.recordAt (library, relPath) = some record) :
    (index.setThumb library relPath thumb).recordAt (library, relPath) =
      some (Index.withThumb thumb record) := by
  unfold Index.recordAt at h ⊢
  obtain ⟨row, hrow, rfl⟩ := Option.map_eq_some_iff.mp h
  rw [Index.find?_setThumb, hrow, Option.map_some, if_pos rfl]
  rfl

section Reconcile

variable {decoders : Decoders} {t : FileTree} {library : Library} {root dir : Path}
  {video : FileName} {index index' : Index} {generation : Int}

/-- The row of a master has the columns that the reconcile has found. -/
theorem columns_of_master (hdir : root <+: dir) (hmaster : video ∈ masters t dir)
    (h : index.reconcileDirectory library.name (relativeOf dir root)
      (collectDirectory decoders t library root dir) generation = .ok index') :
    ∃ r, index'.recordAt (library.name, relativeOf (dir ++ [video]) root) = some r ∧
      r.thumbRelPath = findThumbnail t dir video root ∧
      r.compatRelPath = findCompat t dir video root := by
  obtain ⟨record, hrecord, hbuild⟩ := exists_collect_of_mem_masters decoders library root hmaster
  obtain ⟨rowId, hfind, -⟩ := Index.find?_reconcileDirectory_of_mem
    (directoryRecords_collectDirectory decoders t library hdir) h hrecord
  obtain ⟨hkey, -, -, hthumb, hcompat⟩ := buildRecord_columns hbuild
  have hcopied : copied (Index.written record (index.recordAt record.key)) = copied record :=
    copied_written fun o ho => Index.recordAt_key ho
  rw [← hkey]
  refine ⟨_, Index.recordAt_of_find? hfind, ?_, ?_⟩
  · rw [← hthumb]
    exact column_of_copied VideoRecord.thumbRelPath (fun _ => rfl) hcopied
  · rw [← hcompat]
    exact column_of_copied VideoRecord.compatRelPath (fun _ => rfl) hcopied

/-- A reconcile leaves a row as it was, or with the columns that it has found. -/
theorem columns_of_reconcileDirectory {before after : VideoRecord} (hdir : root <+: dir)
    (hbefore : index.recordAt (library.name, relativeOf (dir ++ [video]) root) = some before)
    (h : index.reconcileDirectory library.name (relativeOf dir root)
      (collectDirectory decoders t library root dir) generation = .ok index')
    (hafter : index'.recordAt (library.name, relativeOf (dir ++ [video]) root) = some after) :
    after = before ∨ after.thumbRelPath = findThumbnail t dir video root ∧
      after.compatRelPath = findCompat t dir video root := by
  by_cases hmaster : video ∈ masters t dir
  · right
    obtain ⟨r, hr, hthumb, hcompat⟩ := columns_of_master hdir hmaster h
    rw [hafter] at hr
    rw [Option.some.inj hr]
    exact ⟨hthumb, hcompat⟩
  · -- the row of another directory is as it was
    left
    have hrecords := directoryRecords_collectDirectory decoders t library hdir
    obtain ⟨row, hrow, rfl, hkey⟩ := Index.recordAt_eq_some_iff.mp hafter
    rcases Index.row_of_reconcileDirectory hrecords h hrow with
      ⟨record, hrecord, hsame, -⟩ | ⟨hold, -⟩
    · obtain ⟨video', hvideo', hbuild⟩ := mem_collectDirectory.mp hrecord
      have hpath : relativeOf (dir ++ [video']) root = relativeOf (dir ++ [video]) root :=
        congrArg Prod.snd ((buildRecord_columns hbuild).1.symm.trans (hsame.trans hkey))
      rw [relativeOf_inj (hdir.trans (List.prefix_append _ _))
        (hdir.trans (List.prefix_append _ _))] at hpath
      obtain rfl : video' = video := List.singleton_inj.mp (List.append_cancel_left hpath)
      exact absurd hvideo' hmaster
    · have hsame : index.recordAt (library.name, relativeOf (dir ++ [video]) root) =
          some row.record := Index.recordAt_eq_some_iff.mpr ⟨row, hold, rfl, hkey⟩
      rw [hbefore] at hsame
      exact (Option.some.inj hsame).symm

end Reconcile

/-- A worker has taken on the job for a row whose compat column is as a scan has found it, and
every output has gone into place. No link has stayed at a staging path when the runner was
called. -/
structure JobDone (library : Library) (root rel : Path) (video : FileName) (t : FileTree)
    (index : Index) (job : Job) (s : WorkerFiles) : Prop where
  root_eq : t.canonicalize library.path = some root
  dir : t.node (root ++ rel) = some .dir
  row : index.recordAt (library.name, relativeOf (root ++ rel ++ [video]) root) = some job.record
  no_thumb : job.record.thumbRelPath = none
  scanned : job.record.compatRelPath = findCompat t (root ++ rel) video root
  job_eq : jobFor library job.record = some job
  run : ∃ actions, Lib.Run WorkerStep (jobStart t job) actions s ∧
    ∀ action ∈ actions, action ∈ ownActions
  done : s.phase = .idle

namespace JobDone

variable {library : Library} {root rel : Path} {video : FileName} {t : FileTree} {index : Index}
  {job : Job} {s : WorkerFiles}

theorem relPath_eq (h : JobDone library root rel video t index job s) :
    job.record.relPath = Path.relText (rel ++ [video]) := by
  have hkey := congrArg Prod.snd (Index.recordAt_key h.row)
  rwa [List.append_assoc, relativeOf_append] at hkey

theorem source_eq (h : JobDone library root rel video t index job s) :
    sourcePath job.library job.record = library.path ++ rel ++ [video] := by
  unfold sourcePath
  rw [(jobFor_eq_some h.job_eq).1, h.relPath_eq, Path.join_relText, List.append_assoc]

/-- The stored value of an output. -/
theorem siblingRel_eq (h : JobDone library root rel video t index job s) (suffix : Suffix) :
    siblingRel job.record.relPath (siblingName (sourcePath job.library job.record) suffix) =
      relativeOf (sidecarPath (root ++ rel) video suffix) root := by
  unfold sourcePath sidecarPath
  rw [(jobFor_eq_some h.job_eq).1, h.relPath_eq, siblingRel_relText, List.append_assoc,
    relativeOf_append]

theorem mem_attempts (h : JobDone library root rel video t index job s) {a : Attempt} :
    a ∈ job.attempts ↔ a.source = library.path ++ rel ++ [video] ∧
      (a.output = .compat → job.plan ≠ none) := by
  obtain ⟨source, output⟩ := a
  unfold Job.attempts
  rw [h.source_eq, h.no_thumb]
  cases job.plan <;> cases output <;> simp

theorem working (h : JobDone library root rel video t index job s) :
    Working t (library.path ++ rel) (root ++ rel) job.attempts s := by
  obtain ⟨actions, hrun, hown⟩ := h.run
  have hbase : ∀ a ∈ job.attempts, a.source.dropLast = library.path ++ rel := by
    intro a ha
    rw [(h.mem_attempts.mp ha).1, List.dropLast_concat]
  have hleads : Leads t (library.path ++ rel) (root ++ rel) := by
    intro e he _
    rw [FileTree.canonicalize_append h.root_eq h.dir] at he
    exact (Option.some.inj he).symm
  exact (working_jobStart hleads).run hbase hrun hown

theorem sibling_eq {a : Attempt} (hsource : a.source = library.path ++ rel ++ [video])
    (suffix : Suffix) : root ++ rel ++ [siblingName a.source suffix] =
      sidecarPath (root ++ rel) video suffix := by
  unfold sidecarPath siblingName
  rw [hsource, List.getLast?_concat]

/-- What the job has made lies where the scan looks. -/
theorem findSidecar_eq (h : JobDone library root rel video t index job s) (output : WorkerOutput)
    (houtput : output = .compat → job.plan ≠ none) :
    findSidecar s.tree (root ++ rel) video root output.suffix =
      some (relativeOf (sidecarPath (root ++ rel) video output.suffix) root) := by
  have ha : (⟨library.path ++ rel ++ [video], output⟩ : Attempt) ∈ job.attempts :=
    h.mem_attempts.mpr ⟨rfl, houtput⟩
  obtain ⟨data, hdata⟩ : ∃ data,
      s.tree.node (sidecarPath (root ++ rel) video output.suffix) = some (.file data) := by
    rcases h.working.done _ ha with hremaining | hdone
    · rw [h.done] at hremaining
      cases hremaining
    · rwa [Attempt.destName, sibling_eq rfl] at hdone
  rw [findSidecar_eq_some_iff (List.prefix_append _ _)]
  refine ⟨?_, rfl⟩
  unfold FileTree.pathExists
  rw [FileTree.stat_of_node hdata (by simp)]
  rfl

theorem findThumbnail_eq (h : JobDone library root rel video t index job s) :
    findThumbnail s.tree (root ++ rel) video root =
      some (relativeOf (sidecarPath (root ++ rel) video jpgSuffix) root) := by
  have hjpg : findSidecar s.tree (root ++ rel) video root jpgSuffix = _ :=
    h.findSidecar_eq .thumb nofun
  unfold findThumbnail thumbSuffixes
  rw [List.findSome?_cons, hjpg]
  rfl

/-- A job without a compat copy changes nothing that the search for one looks at. -/
theorem findCompat_eq (h : JobDone library root rel video t index job s) (hplan : job.plan = none)
    (hapart : CompatApart t (root ++ rel) video) :
    findCompat s.tree (root ++ rel) video root = findCompat t (root ++ rel) video root := by
  have hsame : ∀ q, q ≠ sidecarPath (root ++ rel) video jpgSuffix →
      q ≠ sidecarPath (root ++ rel) video jpgSuffix.part → s.tree.node q = t.node q := by
    intro q hdest hpart
    by_contra hne
    obtain ⟨a, ha, hq⟩ := h.working.changed q hne
    obtain ⟨hsource, hcompat⟩ := h.mem_attempts.mp ha
    have hthumb : a.output = .thumb := by
      cases houtput : a.output with
      | compat => exact absurd hplan (hcompat houtput)
      | thumb => rfl
    rw [Attempt.partName, Attempt.destName, hthumb] at hq
    rcases hq with hq | hq
    · exact hpart (hq.trans (sibling_eq hsource _))
    · exact hdest (hq.trans (sibling_eq hsource _))
  have hstat : s.tree.stat (sidecarPath (root ++ rel) video compatSuffix) =
      t.stat (sidecarPath (root ++ rel) video compatSuffix) := by
    apply FileTree.stat_congr_via
    · exact hsame [] (by simp [sidecarPath]) (by simp [sidecarPath])
    · exact fun q hq => hsame q (hapart q hq).1 (hapart q hq).2
  unfold findCompat findSidecar FileTree.pathExists
  rw [hstat]

theorem recordAt_thumbnailStep (h : JobDone library root rel video t index job s) {index₁ : Index}
    {record : VideoRecord} (hrow : index₁.recordAt job.record.key = some record) :
    (thumbnailStep {} ⟨.ok (), .ok ()⟩ index₁ job).recordAt job.record.key = some
      (Index.withThumb (relativeOf (sidecarPath (root ++ rel) video jpgSuffix) root) record) := by
  have hstep : thumbnailStep {} ⟨.ok (), .ok ()⟩ index₁ job = index₁.setThumb job.record.library
      job.record.relPath (relativeOf (sidecarPath (root ++ rel) video jpgSuffix) root) := by
    unfold thumbnailStep
    rw [if_pos (by rw [h.no_thumb]; rfl), h.siblingRel_eq]
    rfl
  rw [hstep]
  exact recordAt_setThumb _ hrow

/-- The columns that the job leaves. -/
theorem recordAt_runJob (h : JobDone library root rel video t index job s) :
    ∃ after, (runJob {} ⟨.ok (), .ok ()⟩ index job).recordAt job.record.key = some after ∧
      after.thumbRelPath = findThumbnail s.tree (root ++ rel) video root ∧
      (job.plan = none → after.compatRelPath = job.record.compatRelPath) ∧
      (job.plan ≠ none → after.compatRelPath = findCompat s.tree (root ++ rel) video root) := by
  have hrow : index.recordAt job.record.key = some job.record := by
    rw [Index.recordAt_key h.row]
    exact h.row
  cases hplan : job.plan with
  | none =>
    have hrun : runJob {} ⟨.ok (), .ok ()⟩ index job =
        thumbnailStep {} ⟨.ok (), .ok ()⟩ index job := by
      unfold runJob
      rw [hplan]
    rw [hrun]
    exact ⟨_, h.recordAt_thumbnailStep hrow, h.findThumbnail_eq.symm, fun _ => rfl,
      fun hne => absurd rfl hne⟩
  | some plan =>
    have hrun : runJob {} ⟨.ok (), .ok ()⟩ index job =
        thumbnailStep {} ⟨.ok (), .ok ()⟩ (recordCompat {} index job) job := by
      unfold runJob
      rw [hplan]
    have hcompat : (recordCompat {} index job).recordAt job.record.key = some (Index.withCompat
        (relativeOf (sidecarPath (root ++ rel) video compatSuffix) root) job.record) := by
      unfold recordCompat
      rw [h.siblingRel_eq]
      exact recordAt_setCompat _ hrow
    have hfound : findCompat s.tree (root ++ rel) video root = _ :=
      h.findSidecar_eq .compat fun _ => by simp [hplan]
    rw [hrun]
    exact ⟨_, h.recordAt_thumbnailStep hcompat, h.findThumbnail_eq.symm, nofun,
      fun _ => hfound.symm⟩

end JobDone

/-- After a job that goes well the thumbnail column is what a scan finds, and a reconcile of the
directory leaves it so. The same holds of the compat column, provided that the job has made a
compat copy or that the search for one does not lead to the thumbnail. -/
theorem columns_agree_after_job {library : Library} {root rel : Path} {video : FileName}
    {t : FileTree} {index : Index} {job : Job} {s : WorkerFiles}
    (h : JobDone library root rel video t index job s) :
    ∃ after, (runJob {} ⟨.ok (), .ok ()⟩ index job).recordAt
        (library.name, relativeOf (root ++ rel ++ [video]) root) = some after ∧
      after.thumbRelPath = findThumbnail s.tree (root ++ rel) video root ∧
      (job.plan ≠ none ∨ CompatApart t (root ++ rel) video →
        after.compatRelPath = findCompat s.tree (root ++ rel) video root) ∧
      ∀ decoders generation index',
        (runJob {} ⟨.ok (), .ok ()⟩ index job).reconcileDirectory library.name
          (relativeOf (root ++ rel) root)
          (collectDirectory decoders s.tree library root (root ++ rel)) generation =
            .ok index' →
        (video ∈ masters s.tree (root ++ rel) →
          (index'.recordAt (library.name, relativeOf (root ++ rel ++ [video]) root)).isSome) ∧
        ∀ r, index'.recordAt (library.name, relativeOf (root ++ rel ++ [video]) root) = some r →
          r.thumbRelPath = after.thumbRelPath ∧
            (job.plan ≠ none ∨ CompatApart t (root ++ rel) video →
              r.compatRelPath = after.compatRelPath) := by
  obtain ⟨after, hafter, hthumb, hkept, hmade⟩ := h.recordAt_runJob
  rw [Index.recordAt_key h.row] at hafter
  have hcompat : job.plan ≠ none ∨ CompatApart t (root ++ rel) video →
      after.compatRelPath = findCompat s.tree (root ++ rel) video root := by
    intro hcondition
    by_cases hplan : job.plan = none
    · have hapart := hcondition.resolve_left fun hne => hne hplan
      rw [hkept hplan, h.scanned, h.findCompat_eq hplan hapart]
    · exact hmade hplan
  have hdir : root <+: root ++ rel := List.prefix_append _ _
  refine ⟨after, hafter, hthumb, hcompat, fun decoders generation index' hreconcile =>
    ⟨fun hmaster => ?_, fun r hr => ?_⟩⟩
  · obtain ⟨r, hr, -⟩ := columns_of_master hdir hmaster hreconcile
    exact Option.isSome_of_eq_some hr
  · rcases columns_of_reconcileDirectory hdir hafter hreconcile hr with rfl | ⟨hthumb', hcompat'⟩
    · exact ⟨rfl, fun _ => rfl⟩
    · exact ⟨hthumb'.trans hthumb.symm, fun hcondition =>
        hcompat'.trans (hcompat hcondition).symm⟩

/-! ### A compat copy that is a link to the thumbnail -/

namespace LinkedCompat
open OneVideo (lib library)

def movie : FileName := ⟨"Movie.mp4", by decide⟩

def compat : FileName := ⟨"Movie.compat.mp4", by decide⟩

/-- Nothing lies beside the video. -/
def alone : FileTree :=
  .ofNodes [([], .dir), ([lib], .dir), ([lib, movie], .file ⟨[1, 2, 3], 5⟩)] (by decide) (by decide)

/-- Under the name of the compat copy lies a link to the thumbnail that is not there yet. -/
def linked : FileTree :=
  .ofNodes [([], .dir), ([lib], .dir), ([lib, movie], .file ⟨[1, 2, 3], 5⟩),
    ([lib, compat], .symlink [lib, ⟨"Movie.jpg", by decide⟩])] (by decide) (by decide)

/-- A video that a browser can play as it is. -/
def record : VideoRecord :=
  { VideoRecord.placed "movies" "Movie.mp4" "" "Movie.mp4" 3 5 with
    container := "mp4"
    vcodec := some "h264"
    acodec := some "aac"
    codecSource := some .ffprobe }

def index : Index := { Index.openInMemory with videos := ⟨[⟨1, record, 1⟩], by decide⟩ }

def job : Job := ⟨library, record, none⟩

def thumb : Attempt := ⟨sourcePath library record, .thumb⟩

/-- The worker behind its thumbnail. -/
def finished (written renamed : FileTree) : WorkerFiles where
  tree := renamed
  phase := .next []
  touched := [thumb.part, thumb.dest, thumb.part]
  placed := [thumb.dest]
  succeeded := [⟨thumb, written.fileAt thumb.part⟩]

theorem jobDone {t written renamed : FileTree} (hdir : t.node [lib] = some .dir)
    (hcompat : findCompat t [lib] movie [lib] = none) (hpart : t.node thumb.part = none)
    (hwrite : t.writeFile thumb.part ⟨[7], 10⟩ = some written)
    (hrename : written.renameFile thumb.part thumb.dest = some renamed) :
    JobDone library [lib] [] movie t index job (finished written renamed) := by
  have hwritten : written.node [lib] = some .dir := by
    rw [FileTree.node_writeFile hwrite, if_neg (by decide)]
    exact hdir
  have hlocate : ∀ {t : FileTree}, t.node [lib] = some .dir →
      t.locate thumb.part = some thumb.part ∧ t.locate thumb.dest = some thumb.dest := by
    intro t h
    have hname : ∀ n, t.locate ([lib] ++ [] ++ [n]) = some ([lib] ++ [] ++ [n]) := fun n =>
      FileTree.locate_append (FileTree.canonicalize_of_node_dir h) h
    exact ⟨hname thumb.partName, hname thumb.destName⟩
  have hlink : t.NoLinkAt thumb.part := by
    intro q target hq htarget
    cases (hlocate hdir).1.symm.trans hq
    rw [hpart] at htarget
    cases htarget
  obtain ⟨hsrc, hdst⟩ := hlocate hwritten
  refine ⟨FileTree.canonicalize_of_node_dir hdir, hdir, by decide, rfl, hcompat.symm, by decide,
    ⟨[.removeStale, .write, .succeed, .rename], ?_, by decide⟩, rfl⟩
  refine .cons (.keepStale (a := thumb) rfl hlink) ?_
  refine .cons (.write (t := written) rfl ⟨_, (hlocate hdir).1, Or.inr rfl⟩ hwrite) ?_
  have hdata : written.node thumb.part = some (.file ⟨[7], 10⟩) := by
    rw [FileTree.node_writeFile hwrite, if_pos rfl]
  refine .cons (.succeed rfl) (.single (.rename (t := renamed) rfl hsrc hdst ?_ ?_))
  · rw [hdata]
    simp
  · rwa [FileTree.rename_of_file hdata]

def aloneWritten : FileTree := (alone.writeFile thumb.part ⟨[7], 10⟩).get (by decide)

def aloneRenamed : FileTree := (aloneWritten.renameFile thumb.part thumb.dest).get (by decide)

theorem jobDone_alone : JobDone library [lib] [] movie alone index job
    (finished aloneWritten aloneRenamed) :=
  jobDone (by decide) (by decide) (by decide) (Option.some_get _).symm (Option.some_get _).symm

def linkedWritten : FileTree := (linked.writeFile thumb.part ⟨[7], 10⟩).get (by decide)

def linkedRenamed : FileTree := (linkedWritten.renameFile thumb.part thumb.dest).get (by decide)

theorem jobDone_linked : JobDone library [lib] [] movie linked index job
    (finished linkedWritten linkedRenamed) :=
  jobDone (by decide) (by decide) (by decide) (Option.some_get _).symm (Option.some_get _).symm

theorem columns_agree_after_job_alone :
    ∃ after, (runJob {} ⟨.ok (), .ok ()⟩ index job).recordAt
        (library.name, relativeOf ([lib] ++ [] ++ [movie]) [lib]) = some after ∧
      after.thumbRelPath = findThumbnail aloneRenamed ([lib] ++ []) movie [lib] ∧
      (job.plan ≠ none ∨ CompatApart alone ([lib] ++ []) movie →
        after.compatRelPath = findCompat aloneRenamed ([lib] ++ []) movie [lib]) ∧
      ∀ decoders generation index',
        (runJob {} ⟨.ok (), .ok ()⟩ index job).reconcileDirectory library.name
          (relativeOf ([lib] ++ []) [lib])
          (collectDirectory decoders aloneRenamed library [lib] ([lib] ++ [])) generation =
            .ok index' →
        (movie ∈ masters aloneRenamed ([lib] ++ []) →
          (index'.recordAt (library.name, relativeOf ([lib] ++ [] ++ [movie]) [lib])).isSome) ∧
        ∀ r, index'.recordAt (library.name, relativeOf ([lib] ++ [] ++ [movie]) [lib]) = some r →
          r.thumbRelPath = after.thumbRelPath ∧
            (job.plan ≠ none ∨ CompatApart alone ([lib] ++ []) movie →
              r.compatRelPath = after.compatRelPath) :=
  columns_agree_after_job jobDone_alone

/-- The job leaves the compat column empty, and the reconcile finds the thumbnail under the name of
the compat copy. -/
theorem linked_column_changes :
    ¬ ∀ (library : Library) (root rel : Path) (video : FileName) (t : FileTree) (index : Index)
      (job : Job) (s : WorkerFiles), JobDone library root rel video t index job s →
      ∀ decoders generation after index' r, (runJob {} ⟨.ok (), .ok ()⟩ index job).recordAt
          (library.name, relativeOf (root ++ rel ++ [video]) root) = some after →
        (runJob {} ⟨.ok (), .ok ()⟩ index job).reconcileDirectory library.name
          (relativeOf (root ++ rel) root)
          (collectDirectory decoders s.tree library root (root ++ rel)) generation = .ok index' →
        index'.recordAt (library.name, relativeOf (root ++ rel ++ [video]) root) = some r →
        r.thumbRelPath = after.thumbRelPath ∧ r.compatRelPath = after.compatRelPath := by
  intro h
  have hmasters : masters linkedRenamed ([lib] ++ []) = [movie] := by decide +kernel
  obtain ⟨after, hafter, -, hkept, -⟩ := jobDone_linked.recordAt_runJob
  obtain ⟨index', hreconcile⟩ : ∃ index', (runJob {} ⟨.ok (), .ok ()⟩ index job).reconcileDirectory
      library.name (relativeOf ([lib] ++ []) [lib])
      (collectDirectory OneVideo.decoders linkedRenamed library [lib] ([lib] ++ [])) 1 =
        .ok index' := by
    rw [Index.reconcileDirectory_isOk_iff, length_collectDirectory, hmasters]
    decide
  obtain ⟨r, hr, -, hcompat⟩ := columns_of_master (List.prefix_append [lib] [])
    (hmasters ▸ List.mem_singleton_self movie) hreconcile
  have hcolumns := h library [lib] [] movie linked index job _ jobDone_linked OneVideo.decoders 1
    after index' r hafter hreconcile hr
  rw [hcompat, hkept rfl] at hcolumns
  exact absurd hcolumns.2 (by decide)

end LinkedCompat

end Loku
