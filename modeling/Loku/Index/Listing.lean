import Loku.Index.ScanSpec
import Loku.Index.Watch
import Mathlib.Data.Set.Basic

/-!
# The set of videos that a library's rows list

`Lists index library root videos` says that the rows of a library are those of a set of videos,
one for each. The set is determined by the rows (`Lists.unique`). Removing a tree takes a part
of the set away, reconciling a directory puts its masters in the place of what was there, and
neither touches the set of another library; so a flush is described by what it removes and
what it visits.
-/

namespace Loku

/-- A directory and the name of a video in it. -/
abbrev Video := Path × FileName

/-- The videos that a full scan finds beneath a root. -/
def videosOf (t : FileTree) (root : Path) : Set Video :=
  {p | t.ReachableDir root p.1 ∧ p.2 ∈ masters t p.1}

/-- Whether the reconcile of a directory stays within the parameters of one statement. -/
def Fits (t : FileTree) (dir : Path) : Prop := (masters t dir).length + 2 ≤ Index.maxVariables

instance (t : FileTree) (dir : Path) : Decidable (Fits t dir) := inferInstanceAs (Decidable (_ ≤ _))

theorem fits_iff (decoders : Decoders) {t : FileTree} (library : Library) (root : Path)
    {dir : Path} (generation : Int) (index : Index) : Fits t dir ↔
      ∃ index', index.reconcileDirectory library.name (relativeOf dir root)
        (collectDirectory decoders t library root dir) generation = .ok index' := by
  rw [Index.reconcileDirectory_isOk_iff, length_collectDirectory]
  rfl

/-- On a disk that does not change, what a flush does in one directory. -/
theorem reconcileOrSkip_of_ok {decoders : Decoders} {t : FileTree} {library : Library}
    {root dir : Path} {generation : Int} {index index' : Index}
    (hroot : t.canonicalize library.path = some root)
    (hok : index.reconcileDirectory library.name (relativeOf dir root)
      (collectDirectory decoders t library root dir) generation = .ok index') :
    reconcileOrSkip decoders Faults.none (.still t) library generation index dir = index' := by
  have hcanonical : (Disk.still t).walk.canonicalize library.path = some root := hroot
  have hcall : callIndex Faults.none (.reconcileDirectory library.name (relativeOf dir root))
      (index.reconcileDirectory library.name (relativeOf dir root)
        (collectDirectory decoders ((Disk.still t).collect dir) library root dir) generation) =
      .ok index' := callIndex_ok_iff.mpr ⟨rfl, hok⟩
  unfold reconcileOrSkip reconcileDirectory
  rw [hcanonical]
  dsimp only
  rw [hcall]

structure Lists (index : Index) (library : String) (root : Path) (videos : Set Video) : Prop where
  under : ∀ p ∈ videos, root <+: p.1
  sound : ∀ row ∈ index.videos, row.record.library = library → ∃ p ∈ videos,
    row.record.relPath = relativeOf (p.1 ++ [p.2]) root ∧ row.record.parent = relativeOf p.1 root
  complete : ∀ p ∈ videos, ∃ row ∈ index.videos,
    row.key = (library, relativeOf (p.1 ++ [p.2]) root)

/-- A path names one video. -/
theorem eq_of_relativeOf_eq {root : Path} {p q : Video} (hp : root <+: p.1) (hq : root <+: q.1)
    (h : relativeOf (p.1 ++ [p.2]) root = relativeOf (q.1 ++ [q.2]) root) : p = q := by
  have hpath := (relativeOf_inj (hp.trans (List.prefix_append _ _))
    (hq.trans (List.prefix_append _ _))).mp h
  obtain ⟨hdir, hvideo⟩ := List.append_inj' hpath rfl
  exact Prod.ext hdir (List.singleton_inj.mp hvideo)

namespace Lists

section Lists
variable {index index' : Index} {library : String} {root : Path} {videos videos' : Set Video}

theorem subset (h : Lists index library root videos) (h' : Lists index library root videos') :
    videos ⊆ videos' := by
  intro p hp
  obtain ⟨row, hrow, hkey⟩ := h.complete p hp
  obtain ⟨q, hq, hrel, -⟩ := h'.sound row hrow (congrArg Prod.fst hkey)
  have hsame := eq_of_relativeOf_eq (h.under p hp) (h'.under q hq)
    ((congrArg Prod.snd hkey).symm.trans hrel)
  exact hsame ▸ hq

theorem unique (h : Lists index library root videos) (h' : Lists index library root videos') :
    videos = videos' :=
  Set.Subset.antisymm (h.subset h') (h'.subset h)

/-- The row of a listed video is in its directory. -/
theorem parent (h : Lists index library root videos) {p : Video} (hp : p ∈ videos) {row : Row}
    (hrow : row ∈ index.videos) (hkey : row.key = (library, relativeOf (p.1 ++ [p.2]) root)) :
    row.record.parent = relativeOf p.1 root := by
  obtain ⟨q, hq, hrel, hparent⟩ := h.sound row hrow (congrArg Prod.fst hkey)
  have hsame := eq_of_relativeOf_eq (h.under p hp) (h.under q hq)
    ((congrArg Prod.snd hkey).symm.trans hrel)
  rw [hparent, hsame]

/-- What leaves the keys of a library alone leaves its list alone. -/
theorem congr (h : Lists index library root videos)
    (hsame : ∀ k : RowKey, k.1 = library → index'.videos.find? k = index.videos.find? k) :
    Lists index' library root videos where
  under := h.under
  sound row hrow hlib := by
    have hfind := Lib.Table.find?_key hrow
    rw [hsame _ hlib] at hfind
    exact h.sound row (Lib.Table.find?_eq_some_iff.mp hfind).1 hlib
  complete p hp := by
    obtain ⟨row, hrow, hkey⟩ := h.complete p hp
    have hfind := Lib.Table.find?_key hrow
    rw [← hsame _ (congrArg Prod.fst hkey)] at hfind
    exact ⟨row, (Lib.Table.find?_eq_some_iff.mp hfind).1, hkey⟩

/-! ## Removing a tree -/

theorem removeTree (h : Lists index library root videos) (dirRel : String) :
    Lists (index.removeTree library dirRel).1 library root
      {p ∈ videos | ¬ Index.inTree dirRel (relativeOf p.1 root)} where
  under p hp := h.under p hp.1
  sound row hrow hlib := by
    obtain ⟨hmem, hkept⟩ := Lib.Table.mem_delete.mp hrow
    obtain ⟨p, hp, hrel, hparent⟩ := h.sound row hmem hlib
    refine ⟨p, ⟨hp, ?_⟩, hrel, hparent⟩
    rw [← hparent]
    simpa [hlib] using hkept
  complete p hp := by
    obtain ⟨row, hrow, hkey⟩ := h.complete p hp.1
    refine ⟨row, Lib.Table.mem_delete.mpr ⟨hrow, ?_⟩, hkey⟩
    rw [h.parent hp.1 hrow hkey]
    simp [hp.2]

theorem removeTree_other (h : Lists index library root videos) {other : String}
    (hne : other ≠ library) (dirRel : String) :
    Lists (index.removeTree other dirRel).1 library root videos := by
  refine h.congr fun k hk => ?_
  rw [Index.find?_removeTree]
  cases hrow : index.videos.find? k with
  | none => rfl
  | some row =>
    have hlib : row.record.library ≠ other := by
      have hkey := (Lib.Table.find?_eq_some_iff.mp hrow).2
      intro heq
      exact hne (heq.symm.trans ((congrArg Prod.fst hkey).trans hk))
    rw [Option.filter_some, if_pos]
    simp [hlib]

end Lists

/-! ## Reconciling directories -/

section Reconcile
variable {decoders : Decoders} {t : FileTree} {library : Library} {root dir : Path}
  {generation : Int} {index index' : Index} {videos : Set Video}

theorem reconcile (h : Lists index library.name root videos) (hdir : root <+: dir)
    (hok : index.reconcileDirectory library.name (relativeOf dir root)
      (collectDirectory decoders t library root dir) generation = .ok index') :
    Lists index' library.name root
      {p | if p.1 = dir then p.2 ∈ masters t dir else p ∈ videos} := by
  have hrecords := directoryRecords_collectDirectory decoders t library hdir
  refine ⟨?_, ?_, ?_⟩
  · intro p hp
    by_cases hpdir : p.1 = dir
    · exact hpdir ▸ hdir
    · rw [Set.mem_ofPred_eq, if_neg hpdir] at hp
      exact h.under p hp
  · intro row hrow hlib
    rcases Index.row_of_reconcileDirectory hrecords hok hrow with
      ⟨record, hrecord, hkey, hwritten, -⟩ | ⟨hold, helsewhere⟩
    · -- written from the record of a master
      obtain ⟨video, hvideo, hbuild⟩ := mem_collectDirectory.mp hrecord
      obtain ⟨hrecordKey, hparent, -⟩ := buildRecord_columns hbuild
      refine ⟨(dir, video), ?_, ?_, ?_⟩
      · rw [Set.mem_ofPred_eq, if_pos rfl]
        exact hvideo
      · exact congrArg Prod.snd (hkey.symm.trans hrecordKey)
      · rw [hwritten, ← hparent]
        cases index.recordAt row.key <;> rfl
    · obtain ⟨p, hp, hrel, hparent⟩ := h.sound row hold hlib
      refine ⟨p, ?_, hrel, hparent⟩
      have hne : p.1 ≠ dir := by
        intro heq
        rw [heq] at hparent
        exact helsewhere ⟨hlib, hparent⟩
      rwa [Set.mem_ofPred_eq, if_neg hne]
  · intro p hp
    by_cases hpdir : p.1 = dir
    · rw [Set.mem_ofPred_eq, if_pos hpdir] at hp
      obtain ⟨record, hrecord, hbuild⟩ := exists_collect_of_mem_masters decoders library
        root hp
      obtain ⟨rowId, hwritten, -⟩ := Index.find?_reconcileDirectory_of_mem hrecords hok hrecord
      obtain ⟨hmem, hkey⟩ := Lib.Table.find?_eq_some_iff.mp hwritten
      refine ⟨_, hmem, hkey.trans ?_⟩
      rw [(buildRecord_columns hbuild).1, hpdir]
    · rw [Set.mem_ofPred_eq, if_neg hpdir] at hp
      obtain ⟨row, hrow, hkey⟩ := h.complete p hp
      have hfind := Lib.Table.find?_key hrow
      rw [hkey] at hfind
      have hkept : index'.videos.find? (library.name, relativeOf (p.1 ++ [p.2]) root) =
          some row := by
        rw [Index.find?_reconcileDirectory_of_parent_ne hrecords.library_eq hok, hfind]
        · intro record hrecord hrecordKey
          obtain ⟨video, -, hbuild⟩ := mem_collectDirectory.mp hrecord
          have hsame := eq_of_relativeOf_eq (p := (dir, video)) hdir (h.under p hp)
            (congrArg Prod.snd ((buildRecord_columns hbuild).1.symm.trans hrecordKey))
          exact hpdir (congrArg Prod.fst hsame).symm
        · intro row' hrow' hparent
          rw [hfind] at hrow'
          cases hrow'
          rw [h.parent hp hrow hkey] at hparent
          exact hpdir ((relativeOf_inj (h.under p hp) hdir).mp hparent)
      exact ⟨row, (Lib.Table.find?_eq_some_iff.mp hkept).1, hkey⟩

theorem reconcileOrSkip (decoders : Decoders) (generation : Int)
    (h : Lists index library.name root videos) (hroot : t.canonicalize library.path = some root)
    (hdir : root <+: dir) :
    Lists (reconcileOrSkip decoders Faults.none (.still t) library generation index dir)
      library.name root
      {p | if p.1 = dir ∧ Fits t dir then p.2 ∈ masters t dir else p ∈ videos} := by
  by_cases hfit : Fits t dir
  · obtain ⟨index', hok⟩ := (fits_iff decoders library root generation index).mp hfit
    rw [reconcileOrSkip_of_ok hroot hok]
    simp only [hfit, and_true]
    exact h.reconcile hdir hok
  · have hset : {p : Video | if p.1 = dir ∧ Fits t dir then p.2 ∈ masters t dir else p ∈ videos} =
        videos := by
      ext p
      simp [hfit]
    have hcanonical : (Disk.still t).walk.canonicalize library.path = some root := hroot
    unfold Loku.reconcileOrSkip Loku.reconcileDirectory
    rw [hcanonical, hset]
    dsimp only
    split
    · rename_i index' hcall
      exact absurd ((fits_iff ..).mpr ⟨index', (callIndex_ok_iff.mp hcall).2⟩) hfit
    · exact h

theorem reconcileOrSkip_other {other : Library} (h : Lists index library.name root videos)
    (hne : other.name ≠ library.name) :
    Lists (Loku.reconcileOrSkip decoders Faults.none (.still t) other generation index dir)
      library.name root videos := by
  unfold Loku.reconcileOrSkip Loku.reconcileDirectory
  cases (Disk.still t).walk.canonicalize other.path with
  | none => exact h
  | some root' =>
    dsimp only
    split
    · rename_i index' hcall
      refine h.congr fun k hk => ?_
      exact Index.find?_reconcileDirectory_other (fun _ hr => library_of_mem_collect hr)
        (callIndex_ok_iff.mp hcall).2 fun heq => hne (heq.symm.trans hk)
    · exact h

/-- Reconciling directories in turn. -/
theorem foldl_reconcileOrSkip (decoders : Decoders) (generation : Int)
    (hroot : t.canonicalize library.path = some root) :
    ∀ (dirs : List Path) (index : Index) (videos : Set Video),
      Lists index library.name root videos → (∀ dir ∈ dirs, root <+: dir) →
      Lists (dirs.foldl
          (Loku.reconcileOrSkip decoders Faults.none (.still t) library generation) index)
        library.name root
        {p | if p.1 ∈ dirs ∧ Fits t p.1 then p.2 ∈ masters t p.1 else p ∈ videos}
  | [], index, videos, h, _ => by
    simpa using h
  | dir :: dirs, index, videos, h, hdirs => by
    have hrest := foldl_reconcileOrSkip decoders generation hroot dirs _ _
      (h.reconcileOrSkip decoders generation hroot (hdirs dir List.mem_cons_self)) fun d hd =>
        hdirs d (List.mem_cons_of_mem _ hd)
    have hset : {p : Video | if p.1 ∈ dir :: dirs ∧ Fits t p.1 then p.2 ∈ masters t p.1
          else p ∈ videos} =
        {p | if p.1 ∈ dirs ∧ Fits t p.1 then p.2 ∈ masters t p.1
          else p ∈ {p : Video | if p.1 = dir ∧ Fits t dir then p.2 ∈ masters t dir
            else p ∈ videos}} := by
      ext p
      simp only [Set.mem_ofPred_eq, List.mem_cons]
      by_cases hdir : p.1 = dir
      · by_cases hfit : Fits t dir <;> simp [hdir, hfit]
      · simp [hdir]
    rw [List.foldl_cons, hset]
    exact hrest

end Reconcile

end Lists

end Loku
