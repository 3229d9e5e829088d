import Loku.Index.History
import Loku.Routes.DiscSets

/-!
# Main titles in force

A pick is stored under a library and a set's prefix, and nothing but another pick for the same
key writes there. So the listing of the picked video's directory shows it as the main title of
the set, whatever scans, flushes, probe passes and derivations do in between, whenever the video
is indexed in the set beside another title (`pick_stays_in_force`).

A listing forms its sets per directory, though, and the prefix does not name the directory. A
pick replaces an earlier one for another directory with the same prefix, and there the fallback
changes from the largest title to the first one. The listings and the picks of the other
directories are left alone exactly when neither happens (`picks_independent_iff`).
-/

namespace Loku

/-- The titles of a directory that a listing groups under a prefix. -/
def titlesIn (index : Index) (library : Library) (dir setName : String) : List VideoRecord :=
  setRecords library (index.browseDirectory library.name dir).videos setName

theorem mem_titlesIn {index : Index} {library : Library} (hkind : library.kind = .discs)
    {dir setName : String} {record : VideoRecord} :
    record ∈ titlesIn index library dir setName ↔
      ∃ r ∈ index.videos, r.record.library = library.name ∧ r.record.parent = dir ∧
        r.record.discSet = some setName ∧ index.recordFromRow r = record := by
  unfold titlesIn setRecords
  rw [List.mem_filter, Index.mem_browse_videos, decide_eq_true_eq, hkind]
  constructor
  · rintro ⟨⟨r, hr, hlib, hparent, rfl⟩, hset⟩
    exact ⟨r, hr, hlib, hparent, hset, rfl⟩
  · rintro ⟨r, hr, hlib, hparent, hset, rfl⟩
    exact ⟨⟨r, hr, hlib, hparent, rfl⟩, hset⟩

theorem titlesIn_nodup (index : Index) (library : Library) (dir setName : String) :
    ((titlesIn index library dir setName).map VideoRecord.relPath).Nodup :=
  (Index.browse_videos_nodup index library.name dir).sublist (List.filter_sublist.map _)

/-- The one entry of a set of several titles. -/
theorem filter_isSet_titlesIn (index : Index) (library : Library) (dir : String)
    (active : Option ActiveDerivation) (setName : String) :
    (listing index library dir active).filter (Entry.isSet setName) =
      if 1 < (titlesIn index library dir setName).length then
        (discSetEntry setName (titlesIn index library dir setName)
          (index.browseDirectory library.name dir).overrides active).toList
      else [] :=
  filter_isSet_listing index library dir active setName

/-! ## The title shown as the main one -/

section Main
variable {records : List VideoRecord} {active : Option ActiveDerivation}

/-- The title at the path, when the set has it. -/
theorem mainTitle_of_mem (hnodup : (records.map VideoRecord.relPath).Nodup) {r : VideoRecord}
    (h : r ∈ records) :
    mainTitle (discTitles records active) r.relPath = some (VideoItem.fromRecord active r) := by
  unfold mainTitle
  cases hfind : (discTitles records active).find? fun item => item.path == r.relPath with
  | none =>
    have hmem : VideoItem.fromRecord active r ∈ discTitles records active :=
      (discTitles_perm records active).mem_iff.mpr (List.mem_map_of_mem h)
    exact absurd (beq_self_eq_true r.relPath) (List.find?_eq_none.mp hfind _ hmem)
  | some item =>
    have hmem := (discTitles_perm records active).mem_iff.mp (List.mem_of_find?_eq_some hfind)
    obtain ⟨r', hr', rfl⟩ := List.mem_map.mp hmem
    have hfound := List.find?_some hfind
    rw [beq_iff_eq] at hfound
    have hpath : r'.relPath = r.relPath := hfound
    rw [List.inj_on_of_nodup_map hnodup hr' h hpath]
    rfl

/-- The first title in disc order, when it has not. -/
theorem mainTitle_of_not_mem {path : String} (h : ∀ r ∈ records, r.relPath ≠ path) :
    mainTitle (discTitles records active) path =
      ((records.insertionSort discOrder).head?).map (VideoItem.fromRecord active) := by
  have hnone : ((discTitles records active).find? fun item => item.path == path) = none := by
    rw [List.find?_eq_none]
    intro item hitem
    obtain ⟨r, hr, rfl⟩ := List.mem_map.mp ((discTitles_perm records active).mem_iff.mp hitem)
    rw [beq_iff_eq]
    exact h r hr
  unfold mainTitle
  rw [hnone, Option.none_or]
  exact List.head?_map

/-- Of the first two records the larger one stays in the running, the second if they are equal. -/
theorem largest_cons_cons (first second : VideoRecord) (rest : List VideoRecord) :
    largest (first :: second :: rest) =
      if first.size ≤ second.size then largest (second :: rest) else largest (first :: rest) := by
  unfold largest
  simp only [List.foldl_cons]
  split
  · rfl
  · rfl

theorem largest_mem (h : records ≠ []) : ∃ r ∈ records, largest records = some r := by
  obtain ⟨first, rest, rfl⟩ := List.exists_cons_of_ne_nil h
  clear h
  induction rest generalizing first with
  | nil => exact ⟨first, List.mem_cons_self, rfl⟩
  | cons second rest ih =>
    rw [largest_cons_cons]
    split
    · obtain ⟨r, hr, hlargest⟩ := ih second
      exact ⟨r, List.mem_cons_of_mem _ hr, hlargest⟩
    · obtain ⟨r, hr, hlargest⟩ := ih first
      refine ⟨r, ?_, hlargest⟩
      rcases List.mem_cons.mp hr with rfl | hr
      · exact List.mem_cons_self
      · exact List.mem_cons_of_mem _ (List.mem_cons_of_mem _ hr)

/-- Two entries of one set of titles differ in their main title only. -/
theorem discSetEntry_eq_iff {setName : String} {overrides overrides' : List (String × String)} :
    discSetEntry setName records overrides active =
        discSetEntry setName records overrides' active ↔
      mainTitle (discTitles records active) (mainRel setName records overrides) =
        mainTitle (discTitles records active) (mainRel setName records overrides') := by
  unfold discSetEntry
  constructor
  · intro h
    generalize mainTitle (discTitles records active) (mainRel setName records overrides) = main at *
    generalize mainTitle (discTitles records active) (mainRel setName records overrides') = main'
      at *
    cases main with
    | none =>
      cases main' with
      | none => rfl
      | some item' => cases h
    | some item =>
      cases main' with
      | none => cases h
      | some item' =>
        have hentry := Entry.discSet.inj (Option.some.inj h)
        exact congrArg some (congrArg DiscSetEntry.main hentry)
  · intro h
    rw [h]

end Main

/-! ## A pick and later operations -/

/-- What may happen after a pick for `(library, discSet)`: the program's operations, single
writes of one that is cut short, and picks for other keys. -/
inductive LaterStep (decoders : Decoders) (library discSet : String) : Index → Index → Prop
  | scanAll (faults : Faults) (disk : Library → Disk) (libraries : List Library) (index : Index) :
      LaterStep decoders library discSet index (scanAll decoders faults disk libraries index).1
  | flush (faults : Faults) (disk : Disk) (roots : List (Library × Path)) (dirty : List Dirty)
      (index : Index) :
      LaterStep decoders library discSet index (flush decoders faults disk roots dirty index)
  | probePending (faults : Faults) (runner : ProbeRunner) (libraries : List Library)
      (index : Index) :
      LaterStep decoders library discSet index (probePending faults runner libraries index).1
  | processNext (libraries : List Library) (refused : Refusals) (outcome : JobOutcome)
      (index : Index) :
      LaterStep decoders library discSet index (processNext libraries refused outcome index).1
  | write {index index' : Index} (h : Write decoders index index') :
      LaterStep decoders library discSet index index'
  | pick {libraries : List Library} {request : SetMainTitleRequest} {index index' : Index}
      {response : SetMainTitleResponse}
      (accepted : setMainHandler libraries request index = .ok (index', response))
      (other : (request.library, request.discSet) ≠ (library, discSet)) :
      LaterStep decoders library discSet index index'

theorem discSetOverrides_of_write {decoders : Decoders} {index index' : Index}
    (h : Write decoders index index') : index'.discSetOverrides = index.discSetOverrides := by
  rcases h with h | h
  · cases h with
    | scan h =>
      cases h with
      | nextGeneration hnext =>
        obtain ⟨rfl, -⟩ := Prod.mk.inj hnext
        rfl
      | reconcileDirectory t library root dir generation hstamp hok =>
        exact (Index.reconcileDirectory_frame hok).2.2.1
      | removeUnseen library generation => rfl
      | removeTree library dirRel => rfl
    | recordProbe candidate probe => rfl
  · cases h <;> rfl

theorem discSetOverrides_of_writes {decoders : Decoders} {index index' : Index}
    (h : Relation.ReflTransGen (Write decoders) index index') :
    index'.discSetOverrides = index.discSetOverrides := by
  induction h with
  | refl => rfl
  | tail _ hw ih => exact (discSetOverrides_of_write hw).trans ih

theorem LaterStep.overrideOf_eq {decoders : Decoders} {library discSet : String}
    {index index' : Index} (h : LaterStep decoders library discSet index index') :
    overrideOf index' library discSet = overrideOf index library discSet := by
  have hsame : ∀ {index'' : Index}, index''.discSetOverrides = index.discSetOverrides →
      overrideOf index'' library discSet = overrideOf index library discSet := by
    intro index'' heq
    unfold overrideOf
    rw [heq]
  have hmaintenance : ∀ {index'' : Index}, Writes decoders index index'' →
      Relation.ReflTransGen (Write decoders) index index'' :=
    fun h => Relation.ReflTransGen.mono (fun _ _ => Or.inl) _ _ h
  cases h with
  | scanAll faults disk libraries =>
    have hwrites : Writes decoders index (Loku.scanAll decoders faults disk libraries index).1 :=
      (scanWrites_scanAll disk libraries index).writes
    exact hsame (discSetOverrides_of_writes (hmaintenance hwrites))
  | flush faults disk roots dirty =>
    have hwrites : Writes decoders index (Loku.flush decoders faults disk roots dirty index) :=
      (rowWrites_flush disk roots dirty index).scanWrites.writes
    exact hsame (discSetOverrides_of_writes (hmaintenance hwrites))
  | probePending faults runner libraries =>
    have hwrites : Writes decoders index (Loku.probePending faults runner libraries index).1 :=
      writes_probePending runner libraries index
    exact hsame (discSetOverrides_of_writes (hmaintenance hwrites))
  | processNext libraries refused outcome =>
    have hwrites : Relation.ReflTransGen (Write decoders) index
        (Loku.processNext libraries refused outcome index).1 :=
      Relation.ReflTransGen.mono (fun _ _ => Or.inr) _ _
        (writes_processNext libraries refused outcome index)
    exact hsame (discSetOverrides_of_writes hwrites)
  | write h => exact hsame (discSetOverrides_of_write h)
  | pick accepted other =>
    rw [(setMainHandler_ok accepted).2, overrideOf_setMainTitle, if_neg]
    rintro ⟨rfl, rfl⟩
    exact other rfl

/-- The picked path stays recorded. -/
theorem overrideOf_of_later {decoders : Decoders} {libraries : List Library}
    {request : SetMainTitleRequest} {before picked index : Index}
    {response : SetMainTitleResponse}
    (accepted : setMainHandler libraries request before = .ok (picked, response))
    (later : Relation.ReflTransGen (LaterStep decoders request.library request.discSet) picked
      index) :
    overrideOf index request.library request.discSet = some request.path := by
  induction later with
  | refl => rw [(setMainHandler_ok accepted).2, overrideOf_setMainTitle, if_pos ⟨rfl, rfl⟩]
  | tail _ hstep ih => exact hstep.overrideOf_eq.trans ih

/-- An accepted pick is the main title of its set, whenever the video is indexed in it beside
another title. -/
theorem pick_stays_in_force {decoders : Decoders} {libraries : List Library}
    {request : SetMainTitleRequest} {before picked index : Index}
    {response : SetMainTitleResponse}
    (accepted : setMainHandler libraries request before = .ok (picked, response))
    (later : Relation.ReflTransGen (LaterStep decoders request.library request.discSet) picked
      index)
    {library : Library} (hname : library.name = request.library) (hkind : library.kind = .discs)
    (active : Option ActiveDerivation) {r : Row} (hr : r ∈ index.videos)
    (hkey : r.key = (request.library, request.path))
    (hset : r.record.discSet = some request.discSet)
    (hother : ∃ r' ∈ index.videos, r' ≠ r ∧ r'.record.library = request.library ∧
      r'.record.parent = r.record.parent ∧ r'.record.discSet = some request.discSet) :
    ∃ set, (listing index library r.record.parent active).filter
        (Entry.isSet request.discSet) = [.discSet set] ∧
      set.main = VideoItem.fromRecord active (index.recordFromRow r) := by
  obtain ⟨r', hr', hne, hlib', hparent', hset'⟩ := hother
  have hlib : r.record.library = library.name := (congrArg Prod.fst hkey).trans hname.symm
  have hpath : r.record.relPath = request.path := congrArg Prod.snd hkey
  have hmem : index.recordFromRow r ∈ titlesIn index library r.record.parent request.discSet :=
    (mem_titlesIn hkind).mpr ⟨r, hr, hlib, rfl, hset, rfl⟩
  have hmem' : index.recordFromRow r' ∈ titlesIn index library r.record.parent request.discSet :=
    (mem_titlesIn hkind).mpr ⟨r', hr', hlib'.trans hname.symm, hparent', hset', rfl⟩
  have hnodup := titlesIn_nodup index library r.record.parent request.discSet
  have hlen : 1 < (titlesIn index library r.record.parent request.discSet).length := by
    have hdiffer : index.recordFromRow r ≠ index.recordFromRow r' := by
      intro heq
      apply hne
      refine index.videos.eq_of_key_eq hr' hr (Prod.ext (hlib'.trans ?_) ?_)
      · exact (congrArg Prod.fst hkey).symm
      · exact (congrArg VideoRecord.relPath heq).symm
    by_contra hshort
    rw [not_lt, Nat.le_one_iff_eq_zero_or_eq_one] at hshort
    rcases hshort with hzero | hone
    · rw [List.length_eq_zero_iff.mp hzero] at hmem
      cases hmem
    · obtain ⟨x, hx⟩ := List.length_eq_one_iff.mp hone
      rw [hx, List.mem_singleton] at hmem hmem'
      exact hdiffer (hmem.trans hmem'.symm)
  have hfilter := filter_isSet_titlesIn index library r.record.parent active request.discSet
  obtain ⟨set, hentry, -, htitles, hmain⟩ := discSetEntry_isSome request.discSet
    (List.ne_nil_of_mem hmem) (index.browseDirectory library.name r.record.parent).overrides active
  rw [if_pos hlen, hentry] at hfilter
  refine ⟨set, hfilter, ?_⟩
  -- the recorded path is that of a title of the set
  have hrel : mainRel request.discSet (titlesIn index library r.record.parent request.discSet)
      (index.browseDirectory library.name r.record.parent).overrides =
        (index.recordFromRow r).relPath := by
    unfold mainRel
    rw [lookup_overrides, hname, overrideOf_of_later accepted later, Option.some_or,
      Option.getD_some]
    exact hpath.symm
  rw [htitles, hrel, mainTitle_of_mem hnodup hmem] at hmain
  exact (Option.some.inj hmain).symm

/-! ## A pick and the other directories -/

/-- The assembly reads the picks only through the entries of sets with several titles. -/
theorem assembleEntries_congr {library : Library} {relPath : String} {data data' : BrowseData}
    {active : Option ActiveDerivation} (hvideos : data'.videos = data.videos)
    (hsubdirectories : data'.subdirectories = data.subdirectories)
    (h : ∀ setName, 1 < (setRecords library data.videos setName).length →
      discSetEntry setName (setRecords library data.videos setName) data'.overrides active =
        discSetEntry setName (setRecords library data.videos setName) data.overrides active) :
    assembleEntries library relPath data' active = assembleEntries library relPath data active := by
  have hitems : unsortedItems library data' active = unsortedItems library data active := by
    unfold unsortedItems
    rw [hvideos]
    refine congrArg (· ++ _) (List.filterMap_congr ?_)
    rintro ⟨setName, records⟩ hs
    rw [List.partition_eq_filter_filter] at hs
    obtain ⟨hmem, hlen⟩ := List.mem_filter.mp hs
    obtain ⟨hrecords, -⟩ := (Lib.mem_groupBy_iff (groupKey library.kind)).mp hmem
    have hrecords' : records = setRecords library data.videos setName := hrecords
    subst hrecords'
    exact h setName (of_decide_eq_true hlen)
  unfold assembleEntries
  rw [hitems, hsubdirectories]

/-- No pick for the prefix lies in another directory; and where there is none at all, the
largest title of the prefix in every other directory that shows a set is its first one. -/
structure PickAlone (index : Index) (library : Library) (discSet dir : String) : Prop where
  earlier : ∀ path, overrideOf index library.name discSet = some path → ∀ r ∈ index.videos,
    r.key = (library.name, path) → r.record.discSet = some discSet → r.record.parent = dir
  largestFirst : overrideOf index library.name discSet = none → ∀ e, e ≠ dir →
    1 < (titlesIn index library e discSet).length →
      (largest (titlesIn index library e discSet)).map VideoRecord.relPath =
        ((titlesIn index library e discSet).insertionSort discOrder).head?.map VideoRecord.relPath

section Independent
variable {libraries : List Library} {request : SetMainTitleRequest} {index index' : Index}
  {response : SetMainTitleResponse} {library : Library} {discSet dir e : String}

/-- Of a set without a pick the largest title is shown. -/
theorem mainTitle_of_no_pick (hoverride : overrideOf index library.name discSet = none)
    (hne : titlesIn index library e discSet ≠ []) (active : Option ActiveDerivation) :
    mainTitle (discTitles (titlesIn index library e discSet) active)
        (mainRel discSet (titlesIn index library e discSet)
          (index.browseDirectory library.name e).overrides) =
      (largest (titlesIn index library e discSet)).map (VideoItem.fromRecord active) := by
  obtain ⟨m, hm, hlargest⟩ := largest_mem hne
  unfold mainRel
  rw [lookup_overrides, hoverride, Option.none_or, hlargest, Option.map_some, Option.getD_some,
    mainTitle_of_mem (titlesIn_nodup index library e discSet) hm, Option.map_some]

/-- A title is told by its path. -/
theorem map_relPath_eq_iff {a b : Option VideoRecord}
    (ha : ∀ r ∈ a, r ∈ titlesIn index library e discSet)
    (hb : ∀ r ∈ b, r ∈ titlesIn index library e discSet) (active : Option ActiveDerivation) :
    a.map VideoRecord.relPath = b.map VideoRecord.relPath ↔
      a.map (VideoItem.fromRecord active) = b.map (VideoItem.fromRecord active) := by
  constructor
  · intro h
    cases a with
    | none => cases b with
      | none => rfl
      | some r' => cases h
    | some r => cases b with
      | none => cases h
      | some r' =>
        have hsame := List.inj_on_of_nodup_map (titlesIn_nodup index library e discSet)
          (ha r rfl) (hb r' rfl) (Option.some.inj h)
        rw [hsame]
  · intro h
    have hpath := congrArg (Option.map VideoItem.path) h
    rw [Option.map_map, Option.map_map] at hpath
    exact hpath

theorem mem_of_mem_largest {r : VideoRecord}
    (h : r ∈ largest (titlesIn index library e discSet)) :
    r ∈ titlesIn index library e discSet := by
  by_cases hne : titlesIn index library e discSet = []
  · rw [hne] at h
    cases h
  · obtain ⟨m, hm, hlargest⟩ := largest_mem hne
    rw [hlargest] at h
    cases h
    exact hm

theorem mem_of_mem_first {r : VideoRecord}
    (h : r ∈ ((titlesIn index library e discSet).insertionSort discOrder).head?) :
    r ∈ titlesIn index library e discSet :=
  (List.mem_insertionSort _).mp (List.mem_of_mem_head? h)

/-- A set whose recorded path is that of no title of it shows its first one. -/
theorem mainTitle_of_foreign_pick {path : String}
    (hoverride : overrideOf index library.name discSet = some path)
    (hforeign : ∀ record ∈ titlesIn index library e discSet, record.relPath ≠ path)
    (active : Option ActiveDerivation) :
    mainTitle (discTitles (titlesIn index library e discSet) active)
        (mainRel discSet (titlesIn index library e discSet)
          (index.browseDirectory library.name e).overrides) =
      (((titlesIn index library e discSet).insertionSort discOrder).head?).map
        (VideoItem.fromRecord active) := by
  unfold mainRel
  rw [lookup_overrides, hoverride, Option.some_or, Option.getD_some]
  exact mainTitle_of_not_mem hforeign

/-- The title shown elsewhere before the pick. -/
theorem mainTitle_elsewhere (hkind : library.kind = .discs)
    (h : PickAlone index library discSet dir) (he : e ≠ dir)
    (hlen : 1 < (titlesIn index library e discSet).length) (active : Option ActiveDerivation) :
    mainTitle (discTitles (titlesIn index library e discSet) active)
        (mainRel discSet (titlesIn index library e discSet)
          (index.browseDirectory library.name e).overrides) =
      (((titlesIn index library e discSet).insertionSort discOrder).head?).map
        (VideoItem.fromRecord active) := by
  cases hoverride : overrideOf index library.name discSet with
  | some path =>
    apply mainTitle_of_foreign_pick hoverride
    intro record hrecord hpath
    obtain ⟨r, hr, hlib, hparent, hset, rfl⟩ := (mem_titlesIn hkind).mp hrecord
    exact he (hparent.symm.trans (h.earlier path hoverride r hr (Prod.ext hlib hpath) hset))
  | none =>
    rw [mainTitle_of_no_pick hoverride (List.ne_nil_of_length_pos (by omega)) active,
      ← map_relPath_eq_iff (fun r => mem_of_mem_largest) (fun r => mem_of_mem_first) active]
    exact h.largestFirst hoverride e he hlen

/-- A pick changes a listing only through the main title of its set. -/
theorem listing_setMainTitle_iff (path : String) (active : Option ActiveDerivation) :
    listing (index.setMainTitle library.name discSet path) library e active =
        listing index library e active ↔
      (1 < (titlesIn index library e discSet).length →
        mainTitle (discTitles (titlesIn index library e discSet) active)
          (mainRel discSet (titlesIn index library e discSet)
            ((index.setMainTitle library.name discSet path).browseDirectory
              library.name e).overrides) =
        mainTitle (discTitles (titlesIn index library e discSet) active)
          (mainRel discSet (titlesIn index library e discSet)
            (index.browseDirectory library.name e).overrides)) := by
  constructor
  · intro h hlen
    have hfilter := congrArg (List.filter (Entry.isSet discSet)) h
    have hsame : titlesIn (index.setMainTitle library.name discSet path) library e discSet =
        titlesIn index library e discSet := rfl
    rw [filter_isSet_titlesIn, filter_isSet_titlesIn, hsame, if_pos hlen, if_pos hlen] at hfilter
    have hentry := congrArg List.head? hfilter
    rwa [Option.head?_toList, Option.head?_toList, discSetEntry_eq_iff] at hentry
  · intro h
    refine assembleEntries_congr rfl rfl ?_
    intro setName hlen
    rw [discSetEntry_eq_iff]
    by_cases hset : setName = discSet
    · subst hset
      exact h hlen
    · unfold mainRel
      rw [lookup_overrides, lookup_overrides, overrideOf_setMainTitle, if_neg]
      exact fun hsame => hset hsame.2

/-- The picked video is no title of another directory. -/
theorem relPath_ne_of_elsewhere (hkind : library.kind = .discs) {r : Row}
    (hr : r ∈ index.videos) {path : String} (hkey : r.key = (library.name, path))
    (he : e ≠ r.record.parent) {record : VideoRecord}
    (hrecord : record ∈ titlesIn index library e discSet) : record.relPath ≠ path := by
  intro hpath
  obtain ⟨r', hr', hlib', hparent', -, rfl⟩ := (mem_titlesIn hkind).mp hrecord
  have hsame : r'.key = r.key := by
    rw [hkey]
    exact Prod.ext hlib' hpath
  rw [index.videos.eq_of_key_eq hr' hr hsame] at hparent'
  exact he hparent'.symm

/-- A pick leaves the listings and the picks of the other directories alone exactly when no
pick for its prefix lies there and no fallback changes there. -/
theorem picks_independent_iff
    (accepted : setMainHandler libraries request index = .ok (index', response))
    (hname : library.name = request.library) (hkind : library.kind = .discs)
    (active : Option ActiveDerivation) {r : Row} (hr : r ∈ index.videos)
    (hkey : r.key = (request.library, request.path)) :
    ((∀ e, e ≠ r.record.parent →
        listing index' library e active = listing index library e active) ∧
      ∀ library' discSet' path', overrideOf index library' discSet' = some path' →
        ∀ r' ∈ index.videos, r'.key = (library', path') → r'.record.discSet = some discSet' →
          (r'.record.library, r'.record.parent) ≠ (r.record.library, r.record.parent) →
          overrideOf index' library' discSet' = some path') ↔
      PickAlone index library request.discSet r.record.parent := by
  obtain ⟨-, rfl⟩ := setMainHandler_ok accepted
  rw [← hname] at hkey ⊢
  have hafter : ∀ e, e ≠ r.record.parent →
      mainTitle (discTitles (titlesIn index library e request.discSet) active)
        (mainRel request.discSet (titlesIn index library e request.discSet)
          ((index.setMainTitle library.name request.discSet request.path).browseDirectory
            library.name e).overrides) =
      (((titlesIn index library e request.discSet).insertionSort discOrder).head?).map
        (VideoItem.fromRecord active) := by
    intro e he
    have hpicked : overrideOf (index.setMainTitle library.name request.discSet request.path)
        library.name request.discSet = some request.path := by
      rw [overrideOf_setMainTitle, if_pos ⟨rfl, rfl⟩]
    exact mainTitle_of_foreign_pick hpicked
      (fun record hrecord => relPath_ne_of_elsewhere hkind hr hkey he hrecord) active
  constructor
  · rintro ⟨hlistings, hpicks⟩
    constructor
    · intro path hoverride r' hr' hkey' hset'
      by_contra hdir
      have hkept := hpicks library.name request.discSet path hoverride r' hr' hkey' hset'
        fun hplace => hdir (Prod.mk.inj hplace).2
      rw [overrideOf_setMainTitle, if_pos ⟨rfl, rfl⟩, Option.some.injEq] at hkept
      have hsame : r'.key = r.key := by rw [hkey, hkey', hkept]
      exact hdir (by rw [index.videos.eq_of_key_eq hr' hr hsame])
    · intro hoverride e he hlen
      have hmain := (listing_setMainTitle_iff request.path active).mp (hlistings e he) hlen
      rw [hafter e he, mainTitle_of_no_pick hoverride (List.ne_nil_of_length_pos (by omega)),
        ← map_relPath_eq_iff (fun r => mem_of_mem_first) fun r => mem_of_mem_largest] at hmain
      exact hmain.symm
  · intro h
    constructor
    · intro e he
      rw [listing_setMainTitle_iff]
      intro hlen
      exact (hafter e he).trans (mainTitle_elsewhere hkind h he hlen active).symm
    · intro library' discSet' path' hoverride r' hr' hkey' hset' hplace
      rw [overrideOf_setMainTitle, if_neg]
      · exact hoverride
      · rintro ⟨rfl, rfl⟩
        apply hplace
        have hlib : r.record.library = library.name := congrArg Prod.fst hkey
        have hlib' : r'.record.library = library.name := congrArg Prod.fst hkey'
        rw [hlib', hlib, h.earlier path' hoverride r' hr' hkey' hset']

end Independent

/-! ## Two directories with one prefix -/

namespace TwoRips

def title (id : Nat) (dir file : String) (size : Int) (index : Nat) : Row :=
  ⟨id, { VideoRecord.placed "discs" (dir ++ "/" ++ file) dir file size 5 with
    discSet := some "Movie", discTitleIndex := some index }, 1⟩

/-- Two rips of one disc, with a pick made in the second. -/
def index : Index where
  videos := ⟨[title 1 "A" "Movie_t00.mkv" 9 0, title 2 "A" "Movie_t01.mkv" 3 1,
    title 3 "B" "Movie_t00.mkv" 9 0, title 4 "B" "Movie_t01.mkv" 3 1], by decide⟩
  probeCache := .empty
  derivationFailures := .empty
  discSetOverrides := ⟨[⟨"discs", "Movie", "B/Movie_t01.mkv"⟩], by decide⟩
  scanGeneration := none

def library : Library := ⟨"discs", [], .discs⟩

def request : SetMainTitleRequest := ⟨"discs", "Movie", "A/Movie_t01.mkv"⟩

def picked : Index := index.setMainTitle "discs" "Movie" "A/Movie_t01.mkv"

theorem accepted : setMainHandler [library] request index =
    .ok (picked, ⟨"discs", "Movie", "A/Movie_t01.mkv"⟩) := by decide +kernel

/-- The pick in `A` changes the listing of `B` and replaces the pick made there. -/
theorem picks_interfere :
    (∃ response, setMainHandler [library] request index = .ok (picked, response)) ∧
      listing picked library "B" none ≠ listing index library "B" none ∧
      overrideOf index "discs" "Movie" = some "B/Movie_t01.mkv" ∧
      overrideOf picked "discs" "Movie" ≠ some "B/Movie_t01.mkv" :=
  ⟨⟨_, accepted⟩, by decide +kernel, by decide, by decide⟩

theorem picks_independent_iff_twoRips :
    ((∀ e, e ≠ "A" → listing picked library e none = listing index library e none) ∧
      ∀ library' discSet' path', overrideOf index library' discSet' = some path' →
        ∀ r' ∈ index.videos, r'.key = (library', path') → r'.record.discSet = some discSet' →
          (r'.record.library, r'.record.parent) ≠ ("discs", "A") →
          overrideOf picked library' discSet' = some path') ↔
      PickAlone index library "Movie" "A" :=
  picks_independent_iff (r := title 2 "A" "Movie_t01.mkv" 3 1) accepted rfl rfl none (by decide)
    (by decide)

/-- The second rip is gone by now. -/
def later : Index := (picked.removeTree "discs" "B").1

theorem later_of_picked : LaterStep OneVideo.decoders "discs" "Movie" picked later :=
  .write (.inl (.scan (.removeTree picked "discs" "B")))

theorem pick_stays_in_force_twoRips :
    ∃ set, (listing later library "A" none).filter (Entry.isSet "Movie") = [.discSet set] ∧
      set.main = VideoItem.fromRecord none
        (later.recordFromRow (title 2 "A" "Movie_t01.mkv" 3 1)) :=
  pick_stays_in_force accepted (.single later_of_picked) rfl rfl none
    (r := title 2 "A" "Movie_t01.mkv" 3 1) (by decide) (by decide) rfl
    ⟨title 1 "A" "Movie_t00.mkv" 9 0, by decide, by decide, by decide, by decide, by decide⟩

end TwoRips

end Loku
