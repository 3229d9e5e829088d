import Loku.Disc
import Loku.Frontend.Api
import Mathlib.Data.Finset.Basic

/-!
# The client's pages

Each page has a model, its messages, an initial model with the request it sends, and an update
function; `Main.update` dispatches the messages and answers a changed URL. A response carries no
identity of its request. `Cmd` is what an update asks the runtime for: an HTTP call, a new URL,
or a line in the log.
-/

namespace Loku

/-! ## Routes -/

structure BrowseParams where
  library : String
  path : String
  page : Int
deriving DecidableEq

structure SearchParams where
  query : String
  library : Option String
  page : Int
deriving DecidableEq

structure PlayerParams where
  library : String
  path : String
deriving DecidableEq

inductive Route
  | home
  | browse (params : BrowseParams)
  | search (params : SearchParams)
  | player (params : PlayerParams)
  | notFound
deriving DecidableEq

/-- What `Route.parse` returns: an empty library is the home page, an empty path no player. -/
def Route.FromUrl : Route → Prop
  | .browse params => params.library ≠ ""
  | .player params => params.library ≠ "" ∧ params.path ≠ ""
  | _ => True

instance (route : Route) : Decidable route.FromUrl := by
  cases route <;> unfold Route.FromUrl <;> infer_instance

/-! ## Commands -/

/-- An HTTP request of the client. -/
inductive Call
  | getLibraries
  | getBrowse (library path : String)
  | getSearch (query : String) (library : Option String) (limit offset : Int)
  | getItem (library path : String)
  | postMainTitle (library discSet path : String)
deriving DecidableEq

inductive Cmd
  | call (call : Call)
  | pushUrl (route : Route)
  | logError (message : String)
deriving DecidableEq

inductive HttpError
  | badUrl (url : String)
  | timeout
  | networkError
  | badStatus (status : Int)
  | badBody (body : String)
deriving DecidableEq

def HttpError.text : HttpError → String
  | .badUrl url => "Bad URL: " ++ url
  | .timeout => "Request timed out"
  | .networkError => "Network error"
  | .badStatus status => "Server error: " ++ toString status
  | .badBody body => "Unexpected response: " ++ body

/-- A character that `String.trim` removes. -/
def isTrimmed (c : Char) : Bool := (isWhitespace c && c.toNat != 0x85) || c.toNat == 0xFEFF

/-- `String.isEmpty (String.trim s)`. -/
def isBlank (s : String) : Bool := s.toList.all isTrimmed

def pageSize : Int := 48

/-! ## The home page -/

namespace Home

inductive Libraries
  | loading
  | loaded (libraries : List Api.Library)
  | failed (message : String)
deriving DecidableEq

structure Model where
  libraries : Libraries
  query : String
deriving DecidableEq

inductive Msg
  | gotLibraries (result : Except HttpError (List Api.Library))
  | queryInput (query : String)
  | querySubmit

def init : Model × List Cmd := (⟨.loading, ""⟩, [.call .getLibraries])

def update (msg : Msg) (model : Model) : Model × List Cmd :=
  match msg with
  | .gotLibraries (.ok libraries) => ({ model with libraries := .loaded libraries }, [])
  | .gotLibraries (.error _) =>
    ({ model with libraries := .failed "Could not load libraries" }, [])
  | .queryInput query => ({ model with query := query }, [])
  | .querySubmit =>
    if isBlank model.query then (model, [])
    else (model, [.pushUrl (.search ⟨model.query, none, 1⟩)])

end Home

/-! ## The browse page -/

namespace Browse

structure BrowseState where
  listing : Api.DirListing
  page : Int
  query : String
  expanded : Finset String
deriving DecidableEq

inductive Model
  | loading (params : BrowseParams)
  | loaded (state : BrowseState)
  | failed (message : String)
deriving DecidableEq

inductive Msg
  | gotListing (result : Except HttpError Api.DirListing)
  | queryInput (query : String)
  | querySubmit
  | goToPage (page : Int)
  | toggleSet (discSet : String)
  | pickMain (discSet path : String)
  | mainPicked (result : Except HttpError Unit)

def init (params : BrowseParams) : Model × List Cmd :=
  (.loading params, [.call (.getBrowse params.library params.path)])

/-- The library and path the page is showing. -/
def currentLocation : Model → String × String
  | .loading params => (params.library, params.path)
  | .loaded state => (state.listing.library, state.listing.path)
  | .failed _ => ("", "")

/-- Another page number of the same directory. -/
def updateParams (params : BrowseParams) : Model → Model × List Cmd
  | .loading existing => (.loading { existing with page := params.page }, [])
  | .loaded state => (.loaded { state with page := params.page }, [])
  | .failed message => (.failed message, [])

def update (msg : Msg) (model : Model) : Model × List Cmd :=
  match msg, model with
  | .gotListing (.ok listing), .loading params => (.loaded ⟨listing, params.page, "", ∅⟩, [])
  | .gotListing (.ok listing), .loaded state => (.loaded { state with listing := listing }, [])
  | .gotListing (.ok _), .failed message => (.failed message, [])
  | .gotListing (.error err), _ => (.failed err.text, [])
  | .queryInput query, .loaded state => (.loaded { state with query := query }, [])
  | .querySubmit, .loaded state =>
    if isBlank state.query then (.loaded state, [])
    else (.loaded state, [.pushUrl (.search ⟨state.query, some state.listing.library, 1⟩)])
  | .goToPage page, .loaded state =>
    (.loaded { state with page := page },
      [.pushUrl (.browse ⟨state.listing.library, state.listing.path, page⟩)])
  | .toggleSet discSet, .loaded state =>
    (.loaded { state with
      expanded :=
        if discSet ∈ state.expanded then state.expanded.erase discSet
        else insert discSet state.expanded }, [])
  | .pickMain discSet path, .loaded state =>
    (.loaded state, [.call (.postMainTitle state.listing.library discSet path)])
  | .mainPicked (.ok _), .loaded state =>
    (.loaded state, [.call (.getBrowse state.listing.library state.listing.path)])
  | _, model => (model, [])

end Browse

/-! ## The search page -/

namespace Search

inductive Results
  | loading
  | loaded (page : Api.SearchPage)
  | failed (message : String)
deriving DecidableEq

structure Model where
  params : SearchParams
  input : String
  results : Results
deriving DecidableEq

inductive Msg
  | gotResults (result : Except HttpError Api.SearchPage)
  | queryInput (input : String)
  | querySubmit
  | goToPage (page : Int)

/-- The request for the results of a search route. -/
def request (params : SearchParams) : Call :=
  .getSearch params.query params.library pageSize ((params.page - 1) * pageSize)

def init (params : SearchParams) : Model × List Cmd :=
  (⟨params, params.query, .loading⟩, [.call (request params)])

def update (msg : Msg) (model : Model) : Model × List Cmd :=
  match msg with
  | .gotResults (.ok page) => ({ model with results := .loaded page }, [])
  | .gotResults (.error err) => ({ model with results := .failed err.text }, [])
  | .queryInput input => ({ model with input := input }, [])
  | .querySubmit => (model, [.pushUrl (.search ⟨model.input, model.params.library, 1⟩)])
  | .goToPage page =>
    (model, [.pushUrl (.search ⟨model.params.query, model.params.library, page⟩)])

end Search

/-! ## The player page -/

namespace Player

inductive MediaErrorCode
  | errAborted
  | errNetwork
  | errDecode
  | errSrcNotSupported
  | errUnknown (code : Int)
deriving DecidableEq

def mediaErrorMessage : MediaErrorCode → String
  | .errAborted => "Playback was aborted."
  | .errNetwork => "A network error prevented the video from loading."
  | .errDecode => "The video could not be decoded (codec error)."
  | .errSrcNotSupported => "This video format is not supported by your browser."
  | .errUnknown code => "Playback failed (error code " ++ toString code ++ ")."

structure PlayerState where
  item : Api.VideoItem
  bufferFraction : Rat
  mediaError : Option MediaErrorCode
deriving DecidableEq

inductive Model
  | loading (params : PlayerParams)
  | loaded (state : PlayerState)
  | failed (message : String)
deriving DecidableEq

inductive Msg
  | gotItem (result : Except HttpError Api.VideoItem)
  | videoCanPlay
  | videoProgress (fraction : Rat)
  | mediaError (code : MediaErrorCode)

def init (params : PlayerParams) : Model × List Cmd :=
  (.loading params, [.call (.getItem params.library params.path)])

/-- A bare playback attempt, for an item that could not be had. -/
def bareItem (library path : String) : Api.VideoItem where
  library := library
  path := path
  name := path
  title := none
  titleSource := none
  durationSecs := none
  uploadDate := none
  year := none
  description := none
  channel := none
  channelUrl := none
  webpageUrl := none
  viewCount := none
  genres := []
  thumbPath := none
  compatPath := none
  nativeType := none
  derivation := ⟨.unknown, none⟩
  discSet := none
  discTitleIndex := none

def fallbackItem : Model → Api.VideoItem
  | .loading params => bareItem params.library params.path
  | _ => bareItem "" ""

def update (msg : Msg) (model : Model) : Model × List Cmd :=
  match msg, model with
  | .gotItem (.ok item), _ => (.loaded ⟨item, 0, none⟩, [])
  | .gotItem (.error _), model => (.loaded ⟨fallbackItem model, 0, none⟩, [])
  | .videoCanPlay, .loaded state => (.loaded { state with bufferFraction := 1 }, [])
  | .videoProgress fraction, .loaded state =>
    (.loaded { state with bufferFraction := fraction }, [])
  | .mediaError code, .loaded state => (.loaded { state with mediaError := some code }, [])
  | _, model => (model, [])

end Player

/-! ## The application -/

inductive Page
  | home (model : Home.Model)
  | browse (model : Browse.Model)
  | search (model : Search.Model)
  | player (model : Player.Model)
  | notFound
deriving DecidableEq

inductive Msg
  | linkClicked (route : Route)
  | urlChanged (route : Route)
  | homeMsg (msg : Home.Msg)
  | browseMsg (msg : Browse.Msg)
  | searchMsg (msg : Search.Msg)
  | playerMsg (msg : Player.Msg)

namespace Main

def routeToPage : Route → Page × List Cmd
  | .home => Home.init.map .home id
  | .browse params => (Browse.init params).map .browse id
  | .search params => (Search.init params).map .search id
  | .player params => (Player.init params).map .player id
  | .notFound => (.notFound, [])

/-- A changed URL that names the directory on show. -/
def sameDirectory (page : Page) (route : Route) : Bool :=
  match page, route with
  | .browse model, .browse params =>
    Browse.currentLocation model == (params.library, params.path)
  | _, _ => false

def urlChanged (route : Route) (page : Page) : Page × List Cmd :=
  match route, page with
  | .browse params, .browse model =>
    if sameDirectory (.browse model) (.browse params) then
      (Browse.updateParams params model).map .browse id
    else (Browse.init params).map .browse id
  | route, _ => routeToPage route

def update (msg : Msg) (page : Page) : Page × List Cmd :=
  match msg, page with
  | .linkClicked route, page => (page, [.pushUrl route])
  | .urlChanged route, page => urlChanged route page
  | .homeMsg msg, .home model => (Home.update msg model).map .home id
  | .browseMsg msg, .browse model => (Browse.update msg model).map .browse id
  | .searchMsg msg, .search model => (Search.update msg model).map .search id
  | .playerMsg (.mediaError code), .player model =>
    (Player.update (.mediaError code) model).map .player
      fun cmds => cmds ++ [.logError (Player.mediaErrorMessage code)]
  | .playerMsg msg, .player model => (Player.update msg model).map .player id
  | _, page => (page, [])

end Main

end Loku
