import Loku.Index.Collect
import Loku.Index.Watch

/-!
# What a collection looks at

The records of a directory depend only on the files directly inside it, and of those only on
the ones that a record is built from: masters, sidecars of masters and `movie.nfo`. None of
these names is one that the watcher ignores. So two views of a directory that agree on the
names it does not ignore, and in which no file of a record is a link, collect the same records
(`mem_collectDirectory_congr`), whatever the order of their listings.
-/

namespace Loku

/-! ## Ignored names -/

/-- A name with the extension `part`, in any letter case. -/
def isPartName (n : FileName) : Bool := n.extension.any fun ext => eqIgnoreAsciiCase ext "part"

theorem isPart_concat (dir : Path) (n : FileName) : isPart (dir ++ [n]) = isPartName n := by
  unfold isPart Path.extension
  rw [List.getLast?_concat]
  rfl

theorem not_isPartName_of_extension {n : FileName} {ext : String} (h : n.extension = some ext)
    (hext : eqIgnoreAsciiCase ext "part" = false) : isPartName n = false := by
  unfold isPartName
  rw [h, Option.any_some, hext]

/-- A sidecar has the last part of its suffix as its extension. -/
theorem extension_sidecar (video : FileName) {suffix : Suffix} {before ext : List Char}
    (hsuffix : suffix.text.toList = before ++ '.' :: ext) (hext : '.' ∉ ext) :
    (video.sidecar suffix).extension = some (String.ofList ext) := by
  have hne : video.fileStem.toList ++ before ≠ [] := by
    intro hnil
    exact fileStem_ne_empty video (String.toList_eq_nil_iff.mp (List.append_eq_nil_iff.mp hnil).1)
  refine extension_of_text hne hext ?_
  unfold FileName.sidecar
  rw [String.toList_append, hsuffix, List.append_assoc]

/-- The suffixes that a record is built from. -/
def recordSuffixes : List Suffix := compatSuffix :: infoJsonSuffix :: nfoSuffix :: thumbSuffixes

theorem not_isPartName_sidecar (video : FileName) (suffix : Suffix)
    (h : suffix ∈ recordSuffixes) : isPartName (video.sidecar suffix) = false := by
  have hsplit : ∀ s ∈ recordSuffixes, ∃ before ext, s.text.toList = before ++ '.' :: ext ∧
      '.' ∉ ext ∧ eqIgnoreAsciiCase (String.ofList ext) "part" = false := by
    intro s hs
    simp only [recordSuffixes, thumbSuffixes, List.mem_cons, List.not_mem_nil, or_false] at hs
    rcases hs with rfl | rfl | rfl | rfl | rfl | rfl
    · exact ⟨".compat".toList, "mp4".toList, by decide, by decide, by decide⟩
    · exact ⟨".info".toList, "json".toList, by decide, by decide, by decide⟩
    · exact ⟨[], "nfo".toList, by decide, by decide, by decide⟩
    · exact ⟨[], "jpg".toList, by decide, by decide, by decide⟩
    · exact ⟨[], "webp".toList, by decide, by decide, by decide⟩
    · exact ⟨[], "png".toList, by decide, by decide, by decide⟩
  obtain ⟨before, ext, htext, hext, hpart⟩ := hsplit suffix h
  exact not_isPartName_of_extension (extension_sidecar video htext hext) hpart

theorem not_isPartName_movieNfo : isPartName movieNfo = false := by decide

/-- A name that only differs in letter case from `part` has it as its lower case form. -/
theorem toLowercase_of_eqIgnoreAsciiCase {s : String} (h : eqIgnoreAsciiCase s "part" = true) :
    toLowercase s = "part" := by
  unfold eqIgnoreAsciiCase at h
  rw [beq_iff_eq] at h
  have hsame : s.toList.map lowercaseChar = s.toList.map Char.toLower := by
    refine List.map_congr_left fun c hc => ?_
    unfold lowercaseChar
    split
    · -- the Kelvin sign is its own ASCII lower case form
      rename_i hkelvin
      have hmem : c.toLower ∈ "part".toList.map Char.toLower := h ▸ List.mem_map_of_mem hc
      rw [hkelvin] at hmem
      exact absurd hmem (by decide)
    · rfl
  unfold toLowercase
  rw [hsame, h]
  decide

theorem not_isPartName_of_isMasterVideo {n : FileName} (h : isMasterVideo n = true) :
    isPartName n = false := by
  unfold isMasterVideo videoExtension at h
  rw [Bool.and_eq_true] at h
  unfold isPartName
  cases hext : n.extension with
  | none => rfl
  | some ext =>
    rw [Option.any_some]
    cases hpart : eqIgnoreAsciiCase ext "part" with
    | false => rfl
    | true =>
      rw [hext, Option.getD_some, toLowercase_of_eqIgnoreAsciiCase hpart] at h
      exact absurd h.1 (by decide)

/-- The name of a file that a record may be built from. -/
inductive RecordName : FileName → Prop
  | master {video : FileName} (hvideo : isMasterVideo video = true) : RecordName video
  | sidecar {video : FileName} {suffix : Suffix} (hvideo : isMasterVideo video = true)
      (hsuffix : suffix ∈ recordSuffixes) : RecordName (video.sidecar suffix)
  | folderNfo : RecordName movieNfo

theorem RecordName.not_isPartName {n : FileName} (h : RecordName n) : isPartName n = false := by
  cases h with
  | master hvideo => exact not_isPartName_of_isMasterVideo hvideo
  | sidecar _ hsuffix => exact not_isPartName_sidecar _ _ hsuffix
  | folderNfo => exact not_isPartName_movieNfo

/-! ## Two views of one directory -/

/-- Two trees agree on the files of a directory that the watcher does not ignore. -/
def SameFiles (t t' : FileTree) (dir : Path) : Prop :=
  ∀ n, isPartName n = false → t'.node (dir ++ [n]) = t.node (dir ++ [n])

/-- A directory in which no file of a record is a symbolic link. -/
structure PlainDir (t : FileTree) (dir : Path) : Prop where
  node : t.node dir = some .dir
  free : ∀ n target, RecordName n → t.node (dir ++ [n]) ≠ some (.symlink target)

namespace PlainDir

variable {t : FileTree} {dir : Path}

theorem stat (h : PlainDir t dir) {n : FileName} (hn : RecordName n) :
    t.stat (dir ++ [n]) = t.node (dir ++ [n]) :=
  FileTree.stat_child h.node fun target => h.free n target hn

theorem pathExists (h : PlainDir t dir) {n : FileName} (hn : RecordName n) :
    t.pathExists (dir ++ [n]) = (t.node (dir ++ [n])).isSome := by
  unfold FileTree.pathExists
  rw [h.stat hn]

theorem readFile (h : PlainDir t dir) {n : FileName} (hn : RecordName n) :
    t.readFile (dir ++ [n]) = (t.node (dir ++ [n])).bind Node.data? := by
  unfold FileTree.readFile
  rw [h.stat hn]
  cases t.node (dir ++ [n]) with
  | none => rfl
  | some a => cases a <;> rfl

end PlainDir

section Views
variable {decoders : Decoders} {t t' : FileTree} {library : Library} {root dir : Path}

theorem SameFiles.readFile (h : SameFiles t t' dir) (ht : PlainDir t dir) (ht' : PlainDir t' dir)
    {n : FileName} (hn : RecordName n) :
    t'.readFile (dir ++ [n]) = t.readFile (dir ++ [n]) := by
  rw [ht.readFile hn, ht'.readFile hn, h n hn.not_isPartName]

theorem SameFiles.pathExists (h : SameFiles t t' dir) (ht : PlainDir t dir)
    (ht' : PlainDir t' dir) {n : FileName} (hn : RecordName n) :
    t'.pathExists (dir ++ [n]) = t.pathExists (dir ++ [n]) := by
  rw [ht.pathExists hn, ht'.pathExists hn, h n hn.not_isPartName]

theorem SameFiles.mem_masters (h : SameFiles t t' dir) (ht : PlainDir t dir)
    (ht' : PlainDir t' dir) {video : FileName} :
    video ∈ masters t' dir ↔ video ∈ masters t dir := by
  rw [mem_masters_of_node ht.node, mem_masters_of_node ht'.node]
  by_cases hmaster : isMasterVideo video = true
  · have hname := RecordName.master hmaster
    rw [h.readFile ht ht' hname, h video hname.not_isPartName]
  · simp [hmaster]

theorem SameFiles.folderNfoAllowed (h : SameFiles t t' dir) (ht : PlainDir t dir)
    (ht' : PlainDir t' dir) : folderNfoAllowed t' dir = folderNfoAllowed t dir := by
  have hperm : (masters t' dir).Perm (masters t dir) :=
    (List.perm_ext_iff_of_nodup (nodup_masters t' dir) (nodup_masters t dir)).mpr
      fun _ => h.mem_masters ht ht'
  unfold Loku.folderNfoAllowed
  rw [hperm.length_eq]

theorem SameFiles.findSidecar (h : SameFiles t t' dir) (ht : PlainDir t dir)
    (ht' : PlainDir t' dir) {video : FileName} (hvideo : isMasterVideo video = true)
    {suffix : Suffix} (hsuffix : suffix ∈ recordSuffixes) :
    findSidecar t' dir video root suffix = findSidecar t dir video root suffix := by
  unfold Loku.findSidecar sidecarPath
  rw [h.pathExists ht ht' (.sidecar hvideo hsuffix)]

theorem SameFiles.readNfo (h : SameFiles t t' dir) (ht : PlainDir t dir) (ht' : PlainDir t' dir)
    {video : FileName} (hvideo : isMasterVideo video = true) (allow : Bool) :
    readNfo decoders t' dir video allow = readNfo decoders t dir video allow := by
  unfold Loku.readNfo nfoCandidates
  have hnfo : nfoSuffix ∈ recordSuffixes := by simp [recordSuffixes]
  have hown := h.readFile ht ht' (.sidecar hvideo hnfo)
  have hfolder := h.readFile ht ht' .folderNfo
  cases allow <;> simp [hown, hfolder, List.findSome?_cons]

theorem SameFiles.findThumbnail (h : SameFiles t t' dir) (ht : PlainDir t dir)
    (ht' : PlainDir t' dir) {video : FileName} (hvideo : isMasterVideo video = true) :
    findThumbnail t' dir video root = findThumbnail t dir video root := by
  have hsame : ∀ suffix ∈ thumbSuffixes, Loku.findSidecar t' dir video root suffix =
      Loku.findSidecar t dir video root suffix := by
    intro suffix hsuffix
    have hmem : suffix ∈ recordSuffixes := by simp [recordSuffixes, hsuffix]
    exact h.findSidecar ht ht' hvideo hmem
  unfold Loku.findThumbnail
  generalize thumbSuffixes = suffixes at hsame
  induction suffixes with
  | nil => rfl
  | cons suffix suffixes ih =>
    rw [List.findSome?_cons, List.findSome?_cons, hsame suffix List.mem_cons_self,
      ih fun s hs => hsame s (List.mem_cons_of_mem _ hs)]

/-- A record is built from the master and its sidecars. -/
theorem SameFiles.buildRecord (h : SameFiles t t' dir) (ht : PlainDir t dir)
    (ht' : PlainDir t' dir) {video : FileName} (hvideo : isMasterVideo video = true)
    (allow : Bool) : buildRecord decoders t' library root dir video allow =
      buildRecord decoders t library root dir video allow := by
  have hinfo : readInfoJson decoders t' dir video = readInfoJson decoders t dir video := by
    unfold readInfoJson sidecarPath
    have hsuffix : infoJsonSuffix ∈ recordSuffixes := by simp [recordSuffixes]
    rw [h.readFile ht ht' (.sidecar hvideo hsuffix)]
  have hcompat : findCompat t' dir video root = findCompat t dir video root :=
    h.findSidecar ht ht' hvideo (by simp [recordSuffixes])
  unfold Loku.buildRecord
  rw [h.readFile ht ht' (.master hvideo), hinfo, h.readNfo ht ht' hvideo allow, hcompat,
    h.findThumbnail ht ht' hvideo]

/-- Two views that agree collect the same records. -/
theorem mem_collectDirectory_congr (h : SameFiles t t' dir) (ht : PlainDir t dir)
    (ht' : PlainDir t' dir) {record : VideoRecord} :
    record ∈ collectDirectory decoders t' library root dir ↔
      record ∈ collectDirectory decoders t library root dir := by
  rw [mem_collectDirectory, mem_collectDirectory]
  refine exists_congr fun video => ?_
  rw [h.mem_masters ht ht', h.folderNfoAllowed ht ht']
  refine and_congr_right fun hvideo => ?_
  rw [h.buildRecord ht ht' (isMasterVideo_of_mem_masters hvideo)]

end Views

end Loku
