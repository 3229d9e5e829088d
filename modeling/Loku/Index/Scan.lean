import Loku.Disc
import Loku.Media.Sidecars
import Loku.Index.Store

/-!
# Library scanning

`buildRecord` is the record of one master video, computed from the video's metadata, its name
and its sidecars; `collectDirectory` builds the records of one directory; `scanLibrary` walks a
library, reconciles each directory and sweeps the rows of an earlier generation.

A scan reads the disk while it changes: `Disk` gives the tree that the walk sees and the tree
that each directory is collected from, `Disk.still` the one tree of a disk that does not
change. A call on the index may fail for reasons of the database (`Faults`); it then leaves
the index as it was, and the scan stops with what it has committed so far.
-/

namespace Loku

/-- The calls on the index that a scan, a flush or a probe pass makes. -/
inductive IndexCall
  | nextGeneration
  | currentGeneration
  | reconcileDirectory (library parent : String)
  | removeUnseen (library : String)
  | removeTree (library dirRel : String)
  | markScanComplete
  | videosNeedingProbe
  | cachedProbe (key : RowKey)
  | recordProbe (key : RowKey)
deriving DecidableEq

/-- Which calls the database refuses. -/
abbrev Faults := IndexCall → Bool

def Faults.none : Faults := fun _ => false

/-- The tree seen by a walk, and by the collection of each directory. -/
structure Disk where
  walk : FileTree
  collect : Path → FileTree

/-- A disk that does not change. -/
def Disk.still (t : FileTree) : Disk := ⟨t, fun _ => t⟩

structure ScanStats where
  directories : Nat := 0
  videos : Nat := 0
  removed : Nat := 0
deriving DecidableEq

def ScanStats.merged (s other : ScanStats) : ScanStats where
  directories := s.directories + other.directories
  videos := s.videos + other.videos
  removed := s.removed + other.removed

inductive ScanError
  | libraryRootCanonicalize (path : String)
  | database (call : IndexCall)
  | index (error : IndexError)
deriving DecidableEq

/-! ## Master videos -/

def videoExtension (n : FileName) : String := toLowercase (n.extension.getD "")

def isMasterVideo (n : FileName) : Bool :=
  videoExtensions.contains (videoExtension n) && !(".compat".toList.isSuffixOf n.fileStem.toList)

/-- The names in `dir` that are regular files and master videos. -/
def masterVideos (t : FileTree) (dir : Path) (names : List FileName) : List FileName :=
  names.filter fun n => (t.readFile (dir ++ [n])).isSome && isMasterVideo n

/-! ## One record -/

/-- What a video's own NFO contributes. -/
structure NfoFacts where
  title : Option String := none
  year : Option Int := none
  genres : List String := []
  description : Option String := none
  runtimeSecs : Option F64 := none

/-- Minutes as seconds. -/
def runtimeSecs (minutes : Nat) : F64 := .finite (minutes * 60)

def nfoFacts : Nfo → NfoFacts
  | .movie movie =>
    { title := movie.title, year := movie.year, genres := movie.genres, description := movie.plot
      runtimeSecs := movie.runtime.map runtimeSecs }
  | .episode episode =>
    { title := episode.title, description := episode.plot
      runtimeSecs := episode.runtime.map runtimeSecs }
  | .tvShow show_ =>
    { title := show_.title, year := show_.year, genres := show_.genres
      description := show_.plot }
  | .reference _ => {}

/-- The first document among the candidates that can be read and parsed; the folder's one only
where it is allowed. -/
def readNfo (decoders : Decoders) (t : FileTree) (dir : Path) (video : FileName)
    (allowFolderNfo : Bool) : Option Nfo :=
  ((nfoCandidates dir video).take (if allowFolderNfo then 2 else 1)).findSome? fun candidate =>
    (t.readFile candidate).bind fun data => decoders.nfo data.bytes

/-- Modification time as Unix seconds; before 1970 it degrades to zero. -/
def mtimeSecs (data : FileData) : Int :=
  if data.mtime < 0 then 0 else if data.mtime ≤ i64Max then data.mtime else i64Max

/-- The record of one master video. -/
def buildRecord (decoders : Decoders) (t : FileTree) (library : Library) (root dir : Path)
    (video : FileName) (allowFolderNfo : Bool) : Option VideoRecord :=
  (t.readFile (dir ++ [video])).map fun metadata =>
    let info := readInfoJson decoders t dir video
    let facts := ((readNfo decoders t dir video allowFolderNfo).map nfoFacts).getD {}
    let ripName := if library.kind = .discs then some (parseRipName video.text) else none
    let titled : Option (String × TitleSource) :=
      (facts.title.map fun title => (title, TitleSource.nfo)).or
        ((info.title.map fun title => (title, TitleSource.infoJson)).or
          (ripName.map fun rip => (displayTitle rip.pfx, TitleSource.ripName)))
    { library := library.name
      relPath := relativeOf (dir ++ [video]) root
      parent := relativeOf dir root
      fileName := video.text
      size := i64OrMax metadata.bytes.length
      mtime := mtimeSecs metadata
      title := titled.map Prod.fst
      titleSource := titled.map Prod.snd
      durationSecs := info.durationSecs.or facts.runtimeSecs
      uploadDate := info.uploadDate
      year := facts.year
      description := facts.description.or info.description
      channel := info.channel
      channelUrl := info.channelUrl
      webpageUrl := info.webpageUrl
      viewCount := (info.viewCount.map Int.ofNat).filter fun count => count ≤ i64Max
      genres := facts.genres
      container := videoExtension video
      vcodec := info.vcodec
      acodec := info.acodec
      vprofile := none
      fieldOrder := none
      codecSource :=
        if info.vcodec.isSome || info.acodec.isSome then some .infoJson else none
      thumbRelPath := findThumbnail t dir video root
      compatRelPath := findCompat t dir video root
      discSet := ripName.map RipName.pfx
      discTitleIndex := (ripName.bind RipName.titleIndex).map Int.ofNat
      derivationError := none }

/-! ## Directories -/

/-- The records of the master videos directly inside one directory. -/
def collectDirectory (decoders : Decoders) (t : FileTree) (library : Library) (root dir : Path) :
    List VideoRecord :=
  match t.readDir dir with
  | none => []
  | some names =>
    let videos := masterVideos t dir names
    -- with several videos the folder's document would be misattributed
    let allowFolderNfo := videos.length == 1
    videos.filterMap fun video => buildRecord decoders t library root dir video allowFolderNfo

/-- One database call: refused, or the statement's own result. -/
def callIndex (faults : Faults) (call : IndexCall) (result : Except IndexError Index) :
    Except ScanError Index :=
  if faults call then .error (.database call) else result.mapError .index

/-- Collect and reconcile the directories in turn, up to the first failure. -/
def scanDirectories (decoders : Decoders) (faults : Faults) (disk : Disk) (library : Library)
    (root : Path) (generation : Int) :
    List Path → Index → ScanStats → Index × Except ScanError ScanStats
  | [], index, stats => (index, .ok stats)
  | dir :: dirs, index, stats =>
    let parentRel := relativeOf dir root
    let records := collectDirectory decoders (disk.collect dir) library root dir
    match callIndex faults (.reconcileDirectory library.name parentRel)
        (index.reconcileDirectory library.name parentRel records generation) with
    | .error error => (index, .error error)
    | .ok index' =>
      scanDirectories decoders faults disk library root generation dirs index'
        (stats.merged { directories := 1, videos := records.length })

/-- Scan one library: reconcile every directory, then sweep what was not seen. -/
def scanLibrary (decoders : Decoders) (faults : Faults) (disk : Disk) (library : Library)
    (generation : Int) (index : Index) : Index × Except ScanError ScanStats :=
  match disk.walk.canonicalize library.path with
  | none => (index, .error (.libraryRootCanonicalize library.path.absText))
  | some root =>
    match scanDirectories decoders faults disk library root generation (disk.walk.walkDir root)
        index {} with
    | (scanned, .error error) => (scanned, .error error)
    | (scanned, .ok stats) =>
      if faults (.removeUnseen library.name) then
        (scanned, .error (.database (.removeUnseen library.name)))
      else
        let swept := scanned.removeUnseen library.name generation
        (swept.1, .ok (stats.merged { removed := swept.2 }))

/-- Scan the libraries in turn under one generation. -/
def scanLibraries (decoders : Decoders) (faults : Faults) (disk : Library → Disk)
    (generation : Int) : List Library → Index → ScanStats → Index × Except ScanError ScanStats
  | [], index, stats => (index, .ok stats)
  | library :: libraries, index, stats =>
    match scanLibrary decoders faults (disk library) library generation index with
    | (scanned, .error error) => (scanned, .error error)
    | (scanned, .ok libraryStats) =>
      scanLibraries decoders faults disk generation libraries scanned (stats.merged libraryStats)

/-- Scan every library under a fresh generation. -/
def scanAll (decoders : Decoders) (faults : Faults) (disk : Library → Disk)
    (libraries : List Library) (index : Index) : Index × Except ScanError ScanStats :=
  if faults .nextGeneration then (index, .error (.database .nextGeneration))
  else
    match index.nextGeneration with
    | (started, generation) =>
      match scanLibraries decoders faults disk generation libraries started {} with
      | (scanned, .error error) => (scanned, .error error)
      | (scanned, .ok stats) =>
        if faults .markScanComplete then (scanned, .error (.database .markScanComplete))
        else (scanned, .ok stats)

/-- Reconcile a single directory; a missing one reconciles to empty. -/
def reconcileDirectory (decoders : Decoders) (faults : Faults) (disk : Disk) (library : Library)
    (generation : Int) (dir : Path) (index : Index) : Except ScanError Index :=
  match disk.walk.canonicalize library.path with
  | none => .error (.libraryRootCanonicalize library.path.absText)
  | some root =>
    let parentRel := relativeOf dir root
    let records := collectDirectory decoders (disk.collect dir) library root dir
    callIndex faults (.reconcileDirectory library.name parentRel)
      (index.reconcileDirectory library.name parentRel records generation)

end Loku
