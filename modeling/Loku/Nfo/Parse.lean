import Loku.Disc
import Loku.Lib.Record
import Loku.Nfo
import Loku.Nfo.Entities
import Mathlib.Data.List.DropRight

/-!
# Parsing NFO documents

`parseNfo` over what the XML library makes of a text (`QuickXml`). The contents of an element are
its entries, each with a key: attributes (`@type`), child elements (`title`) and text (`$text`).
A derived `Deserialize` reads the entries of a struct into its fields (`Lib.Record`), the first of
which each becomes the field's value; a `Vec` takes entries that follow each other.
-/

namespace Loku

open Lib.Record (Schema)

/-! ## The XML library -/

inductive XmlEvent
  | start (name : String)
  | empty (name : String)
  | eof
  | error
  | other

/-- The entries of an element, and how it ends: with its end tag, or with an error before that. -/
structure Contents (Entry DeError : Type) where
  entries : List Entry
  ending : Except DeError Unit

structure QuickXml (Entry DeError : Type) where
  /-- The events of a text, up to its end or the first error. -/
  events : String → List XmlEvent
  /-- The contents of a text's root element. -/
  root : String → Except DeError (Contents Entry DeError)
  key : Entry → String
  contents : Entry → Contents Entry DeError
  string : Entry → Except DeError String
  optionString : Entry → Except DeError (Option String)
  ignoredAny : Entry → Except DeError Unit
  duplicateField : String → DeError

/-! ## Numbers -/

/-- `str::trim`. -/
def trim (s : String) : String :=
  String.ofList ((s.toList.dropWhile isWhitespace).rdropWhile isWhitespace)

/-- `str::parse::<i32>`. -/
def parseI32 (s : String) : Option Int :=
  (Lib.readInt s.toList).filter fun n => -2147483648 ≤ n ∧ n ≤ 2147483647

/-- `str::parse::<u32>`. -/
def parseU32 (s : String) : Option Nat :=
  (match s.toList with
    | '+' :: digits => Lib.readNat digits
    | digits => Lib.readNat digits).filter (· ≤ 4294967295)

section Deserialize

variable {Entry DeError : Type} (xml : QuickXml Entry DeError)

/-- Absent, empty and unreadable numbers are all `none`. -/
def forgivingNumber {α : Type} (parse : String → Option α) (e : Entry) :
    Except DeError (Option α) := do
  let opt ← xml.optionString e
  pure (opt.bind fun s => parse (trim s))

/-! ## Derived code -/

/-- The fields of a struct and the values they take. -/
structure Fields (Entry DeError : Type) where
  Field : Type
  decEq : DecidableEq Field
  fields : List Field
  name : Field → String
  isList : Field → Bool
  Value : Field → Type
  value : (f : Field) → Entry → Except DeError (Value f)

/-- What `#[derive(Deserialize)]` does with the entries of a struct. -/
def Fields.schema (S : Fields Entry DeError) : Schema Entry String DeError where
  Field := S.Field
  decEq := S.decEq
  fields := S.fields
  fieldKey := S.name
  entryKey := xml.key
  isList := S.isList
  Value := S.Value
  value := S.value
  ignore := xml.ignoredAny
  duplicate f := xml.duplicateField (S.name f)

def Fields.deserialize (S : Fields Entry DeError) (c : Contents Entry DeError) :
    Except DeError (S.schema xml).Values := do
  let values ← (S.schema xml).read c.entries
  c.ending
  pure values

/-- The value of an optional field. -/
def single {α : Type} (values : List (Option α)) : Option α := values.head?.join

inductive ActorField
  | name | role | thumb | order
deriving DecidableEq

def actorFields : Fields Entry DeError where
  Field := ActorField
  decEq := inferInstance
  fields := [.name, .role, .thumb, .order]
  name
    | .name => "name"
    | .role => "role"
    | .thumb => "thumb"
    | .order => "order"
  isList _ := false
  Value
    | .order => Option Nat
    | _ => Option String
  value
    | .order => forgivingNumber xml parseU32
    | .name | .role | .thumb => xml.optionString

def actor (e : Entry) : Except DeError Actor := do
  let values ← (actorFields xml).deserialize xml (xml.contents e)
  pure { name := single (values ActorField.name)
         role := single (values ActorField.role)
         thumb := single (values ActorField.thumb)
         order := single (values ActorField.order) }

inductive UniqueIdField
  | idType | default | value
deriving DecidableEq

def uniqueIdFields : Fields Entry DeError where
  Field := UniqueIdField
  decEq := inferInstance
  fields := [.idType, .default, .value]
  name
    | .idType => "@type"
    | .default => "@default"
    | .value => "$text"
  isList _ := false
  Value _ := Option String
  value _ := xml.optionString

def uniqueId (e : Entry) : Except DeError UniqueId := do
  let values ← (uniqueIdFields xml).deserialize xml (xml.contents e)
  pure { idType := single (values UniqueIdField.idType)
         default := single (values UniqueIdField.default)
         value := single (values UniqueIdField.value) }

inductive MovieField
  | title | originaltitle | sorttitle | year | premiered | runtime | plot | outline | tagline
  | mpaa | genres | studios | countries | directors | actors | uniqueIds
deriving DecidableEq

def movieFields : Fields Entry DeError where
  Field := MovieField
  decEq := inferInstance
  fields := [.title, .originaltitle, .sorttitle, .year, .premiered, .runtime, .plot, .outline,
    .tagline, .mpaa, .genres, .studios, .countries, .directors, .actors, .uniqueIds]
  name
    | .title => "title"
    | .originaltitle => "originaltitle"
    | .sorttitle => "sorttitle"
    | .year => "year"
    | .premiered => "premiered"
    | .runtime => "runtime"
    | .plot => "plot"
    | .outline => "outline"
    | .tagline => "tagline"
    | .mpaa => "mpaa"
    | .genres => "genre"
    | .studios => "studio"
    | .countries => "country"
    | .directors => "director"
    | .actors => "actor"
    | .uniqueIds => "uniqueid"
  isList
    | .genres | .studios | .countries | .directors | .actors | .uniqueIds => true
    | _ => false
  Value
    | .year => Option Int
    | .runtime => Option Nat
    | .genres | .studios | .countries | .directors => String
    | .actors => Actor
    | .uniqueIds => UniqueId
    | _ => Option String
  value
    | .year => forgivingNumber xml parseI32
    | .runtime => forgivingNumber xml parseU32
    | .genres | .studios | .countries | .directors => xml.string
    | .actors => actor xml
    | .uniqueIds => uniqueId xml
    | .title | .originaltitle | .sorttitle | .premiered | .plot | .outline | .tagline
    | .mpaa => xml.optionString

def MovieNfo.ofValues (values : ((movieFields xml).schema xml).Values) : MovieNfo where
  title := single (values MovieField.title)
  originaltitle := single (values MovieField.originaltitle)
  sorttitle := single (values MovieField.sorttitle)
  year := single (values MovieField.year)
  premiered := single (values MovieField.premiered)
  runtime := single (values MovieField.runtime)
  plot := single (values MovieField.plot)
  outline := single (values MovieField.outline)
  tagline := single (values MovieField.tagline)
  mpaa := single (values MovieField.mpaa)
  genres := values MovieField.genres
  studios := values MovieField.studios
  countries := values MovieField.countries
  directors := values MovieField.directors
  actors := values MovieField.actors
  uniqueIds := values MovieField.uniqueIds

inductive EpisodeField
  | title | showtitle | season | episode | aired | plot | runtime | actors | uniqueIds
deriving DecidableEq

def episodeFields : Fields Entry DeError where
  Field := EpisodeField
  decEq := inferInstance
  fields := [.title, .showtitle, .season, .episode, .aired, .plot, .runtime, .actors, .uniqueIds]
  name
    | .title => "title"
    | .showtitle => "showtitle"
    | .season => "season"
    | .episode => "episode"
    | .aired => "aired"
    | .plot => "plot"
    | .runtime => "runtime"
    | .actors => "actor"
    | .uniqueIds => "uniqueid"
  isList
    | .actors | .uniqueIds => true
    | _ => false
  Value
    | .season | .episode => Option Int
    | .runtime => Option Nat
    | .actors => Actor
    | .uniqueIds => UniqueId
    | _ => Option String
  value
    | .season | .episode => forgivingNumber xml parseI32
    | .runtime => forgivingNumber xml parseU32
    | .actors => actor xml
    | .uniqueIds => uniqueId xml
    | .title | .showtitle | .aired | .plot => xml.optionString

def EpisodeNfo.ofValues (values : ((episodeFields xml).schema xml).Values) : EpisodeNfo where
  title := single (values EpisodeField.title)
  showtitle := single (values EpisodeField.showtitle)
  season := single (values EpisodeField.season)
  episode := single (values EpisodeField.episode)
  aired := single (values EpisodeField.aired)
  plot := single (values EpisodeField.plot)
  runtime := single (values EpisodeField.runtime)
  actors := values EpisodeField.actors
  uniqueIds := values EpisodeField.uniqueIds

inductive TvShowField
  | title | originaltitle | year | premiered | plot | mpaa | genres | studios | actors
  | uniqueIds
deriving DecidableEq

def tvShowFields : Fields Entry DeError where
  Field := TvShowField
  decEq := inferInstance
  fields := [.title, .originaltitle, .year, .premiered, .plot, .mpaa, .genres, .studios, .actors,
    .uniqueIds]
  name
    | .title => "title"
    | .originaltitle => "originaltitle"
    | .year => "year"
    | .premiered => "premiered"
    | .plot => "plot"
    | .mpaa => "mpaa"
    | .genres => "genre"
    | .studios => "studio"
    | .actors => "actor"
    | .uniqueIds => "uniqueid"
  isList
    | .genres | .studios | .actors | .uniqueIds => true
    | _ => false
  Value
    | .year => Option Int
    | .genres | .studios => String
    | .actors => Actor
    | .uniqueIds => UniqueId
    | _ => Option String
  value
    | .year => forgivingNumber xml parseI32
    | .genres | .studios => xml.string
    | .actors => actor xml
    | .uniqueIds => uniqueId xml
    | .title | .originaltitle | .premiered | .plot | .mpaa => xml.optionString

def TvShowNfo.ofValues (values : ((tvShowFields xml).schema xml).Values) : TvShowNfo where
  title := single (values TvShowField.title)
  originaltitle := single (values TvShowField.originaltitle)
  year := single (values TvShowField.year)
  premiered := single (values TvShowField.premiered)
  plot := single (values TvShowField.plot)
  mpaa := single (values TvShowField.mpaa)
  genres := values TvShowField.genres
  studios := values TvShowField.studios
  actors := values TvShowField.actors
  uniqueIds := values TvShowField.uniqueIds

/-! ## Whole documents -/

/-- The document types, by their root elements. -/
inductive NfoRoot
  | movie
  | episodedetails
  | tvshow
deriving DecidableEq

/-- The root's name in lower case, as `to_ascii_lowercase` has it. -/
def NfoRoot.ofName (root : String) : Option NfoRoot :=
  let lowered := root.toList.map Char.toLower
  if lowered = "movie".toList then some .movie
  else if lowered = "episodedetails".toList then some .episodedetails
  else if lowered = "tvshow".toList then some .tvshow
  else none

def NfoRoot.fields : NfoRoot → Fields Entry DeError
  | .movie => movieFields xml
  | .episodedetails => episodeFields xml
  | .tvshow => tvShowFields xml

def NfoRoot.schema (root : NfoRoot) : Schema Entry String DeError := (root.fields xml).schema xml

def NfoRoot.nfo : (root : NfoRoot) → (root.schema xml).Values → Nfo
  | .movie, values => .movie (MovieNfo.ofValues xml values)
  | .episodedetails, values => .episode (EpisodeNfo.ofValues xml values)
  | .tvshow, values => .tvShow (TvShowNfo.ofValues xml values)

inductive NfoError (DeError : Type)
  | empty
  | missingRoot
  | unrecognizedRoot (root : String)
  | xmlParse (root : String) (source : DeError)

/-- The first non-empty line, without the white space around it. -/
def referenceLine (content : String) : String :=
  (((content.toList.splitOn '\n').map fun line => trim (String.ofList line)).find? (· ≠ "")).getD
    content

/-- The name of the first element. -/
def rootElement : List XmlEvent → Option String
  | [] => none
  | .start name :: _ => some name
  | .empty name :: _ => some name
  | .eof :: _ => none
  | .error :: _ => none
  | .other :: events => rootElement events

/-- The text without byte-order marks before it and white space around it. -/
def nfoContent (input : String) : String :=
  trim (String.ofList (input.toList.dropWhile (·.toNat = 0xFEFF)))

/-- `quick_xml::de::from_str`. -/
def fromStr (root : NfoRoot) (text : String) : Except DeError Nfo := do
  let contents ← xml.root text
  root.nfo xml <$> (root.fields xml).deserialize xml contents

def parseNfo (input : String) : Except (NfoError DeError) Nfo :=
  let content := nfoContent input
  if content = "" then .error .empty
  else if !content.toList.contains '<' then .ok (.reference (referenceLine content))
  else
    let sanitized := sanitizeEntities content
    match rootElement (xml.events sanitized) with
    | none => .error .missingRoot
    | some root =>
      match NfoRoot.ofName root with
      | none => .error (.unrecognizedRoot root)
      | some document => (fromStr xml document sanitized).mapError (.xmlParse root)

end Deserialize

end Loku
