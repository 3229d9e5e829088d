import Loku.Path

/-!
# NFO sidecars

The contents of a parsed NFO document, and where the document for a video lies. To the scanner the
parsing is a parameter (`Decoders`).
-/

namespace Loku

structure Actor where
  name : Option String
  role : Option String
  thumb : Option String
  order : Option Nat
deriving DecidableEq

structure UniqueId where
  idType : Option String
  default : Option String
  value : Option String
deriving DecidableEq

structure MovieNfo where
  title : Option String
  originaltitle : Option String
  sorttitle : Option String
  year : Option Int
  premiered : Option String
  /-- In minutes. -/
  runtime : Option Nat
  plot : Option String
  outline : Option String
  tagline : Option String
  mpaa : Option String
  genres : List String
  studios : List String
  countries : List String
  directors : List String
  actors : List Actor
  uniqueIds : List UniqueId
deriving DecidableEq

structure EpisodeNfo where
  title : Option String
  showtitle : Option String
  season : Option Int
  episode : Option Int
  aired : Option String
  plot : Option String
  /-- In minutes. -/
  runtime : Option Nat
  actors : List Actor
  uniqueIds : List UniqueId
deriving DecidableEq

structure TvShowNfo where
  title : Option String
  originaltitle : Option String
  year : Option Int
  premiered : Option String
  plot : Option String
  mpaa : Option String
  genres : List String
  studios : List String
  actors : List Actor
  uniqueIds : List UniqueId
deriving DecidableEq

inductive Nfo
  | movie (movie : MovieNfo)
  | episode (episode : EpisodeNfo)
  | tvShow (tvShow : TvShowNfo)
  | reference (line : String)
deriving DecidableEq

def nfoSuffix : Suffix := ⟨".nfo", by decide⟩

def movieNfo : FileName := ⟨"movie.nfo", by decide⟩

/-- The Kodi lookup order for a video: its own document, then the folder's. -/
def nfoCandidates (dir : Path) (video : FileName) : List Path :=
  [dir ++ [video.sidecar nfoSuffix], dir ++ [movieNfo]]

end Loku
