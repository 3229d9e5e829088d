import Loku.Frontend.Html
import Loku.Frontend.Route

/-!
# The views of the client

What each page renders. The texts are the client's; `fromFloat` stands for the way it prints a
number.
-/

namespace Loku

open Html Attribute

/-- `//`: the quotient cut off to an integer of 32 bits. -/
def elmDiv (i j : Int) : Int := (Int.tdiv i j).bmod (2 ^ 32)

def Api.encodePath (path : String) : String := String.ofList (Loku.encodePath path.toList)

def Api.videoUrl (library path : String) : String :=
  "/files/" ++ String.ofList (Lib.PercentCode.encode library.toList) ++ "/" ++ Api.encodePath path

def Api.thumbUrl (library path : String) : String := Api.videoUrl library path

/-! ## Shared pieces -/

namespace Ui

section
variable {msg : Type}

def cardThumbnail (item : Api.VideoItem) : Html msg :=
  match item.thumbPath with
  | some thumb =>
    img [src (Api.thumbUrl item.library thumb), alt item.name, class_ "card-thumb"] []
  | none => div [class_ "card-thumb-placeholder"] [text "▶"]

/-- Nothing for the states in which the item is ready. -/
def badgeLabel : Api.DerivationState → Option String
  | .notNeeded => none
  | .done => none
  | .processing => some "⚙ converting…"
  | .pending => some "⏳ conversion queued"
  | .failed => some "⚠ conversion failed"
  | .unknown => some "❓ format unknown"

def derivationBadge (item : Api.VideoItem) : Html msg :=
  match badgeLabel item.derivation.state with
  | some badge => div [class_ "card-badge"] [text badge]
  | none => text ""

/-- A thumbnail card linking to the player. -/
def videoCard (item : Api.VideoItem) : Html msg :=
  div [class_ "video-card"]
    [a [href (Route.player ⟨item.library, item.path⟩).toString]
      [cardThumbnail item, div [class_ "card-title"] [text (item.title.getD item.name)]],
      derivationBadge item]

def errorText (message : String) : Html msg :=
  p [class_ "error-note"] [text ("Error: " ++ message)]

end

inductive PageItem
  | page (i : Int)
  | gap
deriving DecidableEq

def shouldInclude (current total i : Int) : Bool :=
  i == 1 || i == total || decide ((i - current).natAbs ≤ 2)

/-- The loop of `pageItems`, with the items in reverse. -/
def build (current total i lastIncluded : Int) (acc : List PageItem) : List PageItem :=
  if i > total then acc.reverse
  else if shouldInclude current total i then
    let gapped := if lastIncluded ≥ 0 ∧ i > lastIncluded + 1 then .gap :: acc else acc
    build current total (i + 1) i (.page i :: gapped)
  else build current total (i + 1) lastIncluded acc
termination_by (total + 1 - i).toNat

/-- The first and the last page and those within 2 of the current one, with gaps where pages are
skipped. -/
def pageItems (current total : Int) : List PageItem := build current total 1 (-1) []

def viewPageItem {msg : Type} (toMsg : Int → msg) (current : Int) : PageItem → Html msg
  | .gap => span [class_ "page-gap"] [text "…"]
  | .page i =>
    if i = current then span [class_ "page-current"] [text (fromInt i)]
    else button [onClick (toMsg i), class_ "page-button"] [text (fromInt i)]

def viewPagination {msg : Type} (toMsg : Int → msg) (current total : Int) : Html msg :=
  div [class_ "pagination"] ((pageItems current total).map (viewPageItem toMsg current))

end Ui

/-! ## The home page -/

namespace Home

def viewSearch (query : String) : Html Msg :=
  form [onSubmit .querySubmit, class_ "search-form search-form-home"]
    [input [type_ "search", placeholder "Search all libraries…", value query, onInput .queryInput,
      class_ "search-input"] [],
      button [type_ "submit", class_ "search-button"] [text "Search"]]

def kindIcon : LibraryKind → String
  | .downloads => "📼"
  | .discs => "💿"

def kindLabel : LibraryKind → String
  | .downloads => "Downloads"
  | .discs => "Disc rips"

def viewLibraryCard (library : Api.Library) : Html Msg :=
  a [href (Route.browse ⟨library.name, "", 1⟩).toString, class_ "library-card"]
    [div [class_ "library-card-icon"] [text (kindIcon library.kind)],
      div [class_ "library-card-name"] [text library.name],
      div [class_ "library-card-kind"] [text (kindLabel library.kind)]]

def viewLibraries : Libraries → Html Msg
  | .loading => p [] [text "Loading libraries…"]
  | .failed message => Ui.errorText message
  | .loaded libraries => div [class_ "library-grid"] (libraries.map viewLibraryCard)

def view (model : Model) : Html Msg :=
  div [class_ "page"] [h1 [] [text "Loku"], viewSearch model.query, viewLibraries model.libraries]

end Home

/-! ## The browse page -/

namespace Browse

def viewSearchBar (query : String) : Html Msg :=
  form [onSubmit .querySubmit, class_ "search-form search-form-bar"]
    [input [type_ "search", placeholder "Search this library…", value query, onInput .queryInput,
      class_ "search-input"] [],
      button [type_ "submit", class_ "search-button"] [text "Search"]]

/-- The segments of a path that are not empty. -/
def crumbParts (path : String) : List String :=
  ((path.toList.splitOn '/').filter (· ≠ [])).map String.ofList

/-- The path of a crumb: the segments up to it. -/
def crumbPath (parts : List String) (i : Nat) : String := "/".intercalate (parts.take (i + 1))

def viewCrumb (library path label : String) : Html Msg :=
  span []
    [text " / ", a [href (Route.browse ⟨library, path, 1⟩).toString] [text label]]

def viewBreadcrumb (library path : String) : Html Msg :=
  let parts := crumbParts path
  nav [class_ "crumb-bar"]
    (a [href Route.home.toString] [text "Home"] ::
      viewCrumb library "" library ::
      parts.mapIdx fun i part => viewCrumb library (crumbPath parts i) part)

def viewSetTitle (set : Api.DiscSetEntry) (item : Api.VideoItem) : Html Msg :=
  let isMain := item.path == set.main.path
  div [class_ "disc-title-row"]
    [a [href (Route.player ⟨item.library, item.path⟩).toString, class_ "disc-title-link"]
      [text ((if isMain then "★ " else "") ++ item.name)],
      if isMain then text ""
      else
        button [onClick (.pickMain set.discSet item.path), class_ "disc-main-button"]
          [text "Set as main"]]

def viewDiscSet (isExpanded : Bool) (set : Api.DiscSetEntry) : Html Msg :=
  div [class_ "video-card"]
    [Ui.videoCard set.main,
      div [class_ "disc-set-body"]
        [button [onClick (.toggleSet set.discSet), class_ "disc-set-toggle"]
          [text ((if isExpanded then "▾ " else "▸ ") ++ fromInt set.titles.length ++ " titles")],
          if isExpanded then div [class_ "disc-set-titles"] (set.titles.map (viewSetTitle set))
          else text ""]]

def viewEntry (library : String) (expanded : Finset String) : Api.Entry → Html Msg
  | .directory dir =>
    div [class_ "dir-entry"]
      [a [href (Route.browse ⟨library, dir.path, 1⟩).toString] [text ("📁 " ++ dir.name)]]
  | .video item => Ui.videoCard item
  | .discSet set => viewDiscSet (decide (set.discSet ∈ expanded)) set

def isDirectory : Api.Entry → Bool
  | .directory _ => true
  | _ => false

namespace BrowseState

variable (state : BrowseState)

def dirs : List Api.Entry := state.listing.entries.filter isDirectory

def items : List Api.Entry := state.listing.entries.filter fun entry => !isDirectory entry

def totalPages : Int := max 1 (elmDiv (state.items.length + pageSize - 1) pageSize)

def safePage : Int := min state.page state.totalPages

/-- The items of the page on show. -/
def pageEntries : List Api.Entry :=
  (state.items.drop ((state.safePage - 1) * pageSize).toNat).take pageSize.toNat

end BrowseState

def viewLoaded (state : BrowseState) : Html Msg :=
  div []
    [viewBreadcrumb state.listing.library state.listing.path,
      viewSearchBar state.query,
      div [class_ "listing"]
        (state.dirs.map (viewEntry state.listing.library state.expanded) ++
          state.pageEntries.map (viewEntry state.listing.library state.expanded)),
      if state.totalPages > 1 then Ui.viewPagination .goToPage state.safePage state.totalPages
      else text ""]

def view : Model → Html Msg
  | .loading params =>
    p [class_ "status-note"] [text ("Loading " ++ params.library ++ "/" ++ params.path ++ "…")]
  | .failed message => Ui.errorText message
  | .loaded state => viewLoaded state

end Browse

/-! ## The search page -/

namespace Search

def viewHeader (model : Model) : Html Msg :=
  div [class_ "crumb-bar"]
    [a [href Route.home.toString] [text "Home"],
      form [onSubmit .querySubmit, class_ "search-form search-form-header"]
        [input [type_ "search", placeholder "Search…", value model.input, onInput .queryInput,
          class_ "search-input"] [],
          button [type_ "submit", class_ "search-button"] [text "Search"]]]

def totalPages (page : Api.SearchPage) : Int :=
  max 1 (elmDiv (page.total + pageSize - 1) pageSize)

def viewResults (model : Model) (page : Api.SearchPage) : Html Msg :=
  let scope :=
    match model.params.library with
    | some library => " in " ++ library
    | none => ""
  div [class_ "listing"]
    [p [class_ "result-summary"]
      [text (fromInt page.total ++ " result(s) for \"" ++ model.params.query ++ "\"" ++ scope)],
      div [] (page.items.map Ui.videoCard),
      if totalPages page > 1 then Ui.viewPagination .goToPage model.params.page (totalPages page)
      else text ""]

def view (model : Model) : Html Msg :=
  div []
    [viewHeader model,
      match model.results with
      | .loading => p [class_ "status-note"] [text "Searching…"]
      | .failed message => Ui.errorText message
      | .loaded page => viewResults model page]

end Search

/-! ## The player page -/

namespace Player

/-- All but the last segment. -/
def parentPath (path : String) : String :=
  "/".intercalate (((path.toList.splitOn '/').reverse.drop 1).reverse.map String.ofList)

def backLink (item : Api.VideoItem) : Html Msg :=
  a [href (Route.browse ⟨item.library, parentPath item.path, 1⟩).toString, class_ "player-back"]
    [text "← Back"]

def downloadLink (item : Api.VideoItem) : Html Msg :=
  a [href (Api.videoUrl item.library item.path), .named "download" ""]
    [text "Download to play in VLC or another media player"]

def viewPreparing (message : String) (item : Api.VideoItem) : Html Msg :=
  div [class_ "player-panel"] [p [] [text message], downloadLink item]

def viewMediaError (item : Api.VideoItem) (code : MediaErrorCode) : Html Msg :=
  div [class_ "player-panel"]
    [p [class_ "error-text"] [text (mediaErrorMessage code)], downloadLink item]

def mediaErrorDecoder : Decoder MediaErrorCode :=
  Decode.map
    (fun code =>
      if code = 1 then .errAborted
      else if code = 2 then .errNetwork
      else if code = 3 then .errDecode
      else if code = 4 then .errSrcNotSupported
      else .errUnknown code)
    (Decode.field "target" (Decode.field "error" (Decode.field "code" Decode.int)))

def videoAttrs : List (Attribute Msg) :=
  [controls, on "canplay" (Decode.succeed .videoCanPlay), class_ "player-video"]

/-- The extra attributes and the sources of the video element. -/
def videoSources (item : Api.VideoItem) : List (Attribute Msg) × List (Html Msg) :=
  let nativeUrl := Api.videoUrl item.library item.path
  let compatUrl := fun compat => Api.videoUrl item.library compat
  let fixedError := on "error" (Decode.succeed (Msg.mediaError .errSrcNotSupported))
  let codedError := on "error" (Decode.map Msg.mediaError mediaErrorDecoder)
  match item.nativeType, item.compatPath with
  | some nt, some cp =>
    ([], [source [src nativeUrl, type_ nt] [],
      source [src (compatUrl cp), type_ "video/mp4", fixedError] []])
  | some nt, none => ([], [source [src nativeUrl, type_ nt, fixedError] []])
  | none, some cp => ([src (compatUrl cp), codedError], [])
  | none, none => ([src nativeUrl, codedError], [])

/-! ### Texts -/

/-- `String.lines`. -/
def lines : List Char → List (List Char)
  | [] => [[]]
  | '\r' :: '\n' :: rest => [] :: lines rest
  | '\r' :: rest => [] :: lines rest
  | '\n' :: rest => [] :: lines rest
  | c :: rest =>
    match lines rest with
    | line :: more => (c :: line) :: more
    | [] => [[c]]

/-- `String.words`; a blank text is one empty word. -/
def words (s : List Char) : List (List Char) :=
  match (s.splitOnP isTrimmed).filter (· ≠ []) with
  | [] => [[]]
  | ws => ws

def punctChars : List Char := ['.', ',', ';', ')', ']', '!', '"', '\'', '>', '?']

/-- The text without the punctuation at its end, and that punctuation. -/
def stripTrailingPunct (s : List Char) : List Char × List Char :=
  let url := (s.reverse.dropWhile punctChars.contains).reverse
  (url, s.drop url.length)

def isUrl (w : List Char) : Bool :=
  "http://".toList.isPrefixOf w || "https://".toList.isPrefixOf w

section
variable {msg : Type}

/-- A link that opens another window. -/
def outerLink (url label : String) : Html msg :=
  a [href url, target "_blank", .named "rel" "noopener noreferrer"] [text label]

def renderWord (w : List Char) : Html msg :=
  if isUrl w then
    let parts := stripTrailingPunct w
    span []
      [outerLink (String.ofList parts.1) (String.ofList parts.1), text (String.ofList parts.2)]
  else text (String.ofList w)

def renderLine (line : List Char) : List (Html msg) :=
  if line = [] then [text "\n"]
  else ((words line).map renderWord).intersperse (text " ") ++ [text "\n"]

/-- A description with its web addresses as links. -/
def renderDescription (desc : String) : List (Html msg) := (lines desc.toList).flatMap renderLine

def viewDescription (desc : String) : Html msg :=
  div [class_ "description"] (renderDescription desc)

def viewChannel (channelUrl : Option String) (ch : String) : Html msg :=
  p []
    [text "Channel: ",
      match channelUrl with
      | some url => outerLink url ch
      | none => text ch]

def viewYoutubeLink (url : String) : Html msg := p [] [outerLink url "Watch on YouTube"]

end

/-- YYYYMMDD as YYYY-MM-DD. -/
def formatDate (date : String) : String :=
  let cs := date.toList
  if cs.length = 8 then
    String.ofList (cs.take 4) ++ "-" ++ String.ofList ((cs.drop 4).take 2) ++ "-" ++
      String.ofList (cs.drop 6)
  else date

section
variable (fromFloat : Rat → String)

def formatViewCount (n : Int) : String :=
  if n ≥ 1000000 then fromFloat (elmDiv n 100000 / 10) ++ "M"
  else if n ≥ 1000 then fromFloat (elmDiv n 100 / 10) ++ "K"
  else fromInt n

def formatDuration (secs : Rat) : String :=
  let total := (secs + 1 / 2).floor
  let hours := elmDiv total 3600
  let minutes := elmDiv (total - hours * 3600) 60
  let seconds := total - hours * 3600 - minutes * 60
  let pad := fun n : Int => if n < 10 then "0" ++ fromInt n else fromInt n
  if hours > 0 then fromInt hours ++ ":" ++ pad minutes ++ ":" ++ pad seconds
  else fromInt minutes ++ ":" ++ pad seconds

def viewMetadata (item : Api.VideoItem) : List (Html Msg) :=
  [item.year.map fun y => p [] [text ("Year: " ++ fromInt y)],
    item.uploadDate.map fun d => p [] [text ("Uploaded: " ++ formatDate d)],
    item.durationSecs.map fun s => p [] [text ("Duration: " ++ formatDuration s)],
    item.viewCount.map fun n => p [] [text ("Views: " ++ formatViewCount fromFloat n)],
    (if item.genres.isEmpty then none else some (", ".intercalate item.genres)).map fun g =>
      p [] [text ("Genres: " ++ g)],
    item.channel.map (viewChannel item.channelUrl),
    item.webpageUrl.map viewYoutubeLink,
    item.description.map viewDescription].filterMap id

/-- Nothing once everything is buffered. -/
def bufferBar (fraction : Rat) : Html Msg :=
  if fraction < 1 then
    progress [class_ "buffer-progress", .named "max" "1", .named "value" (fromFloat fraction)] []
  else text ""

def viewPlayer (state : PlayerState) : Html Msg :=
  let extra := videoSources state.item
  div [] [bufferBar fromFloat state.bufferFraction, video (videoAttrs ++ extra.1) extra.2]

/-- The player where playback stands a chance, else what is going on. -/
def viewMain (state : PlayerState) : Html Msg :=
  match state.mediaError with
  | some code => viewMediaError state.item code
  | none =>
    if state.item.nativeType = none ∧ state.item.compatPath = none then
      match state.item.derivation.state with
      | .pending =>
        viewPreparing "A browser-compatible version is queued for conversion." state.item
      | .processing =>
        viewPreparing "A browser-compatible version is being prepared right now." state.item
      | .failed =>
        viewPreparing
          ("Converting this video failed" ++
            (state.item.derivation.error.map fun e => ": " ++ e).getD ".") state.item
      | _ => viewPlayer fromFloat state
    else viewPlayer fromFloat state

def viewLoaded (state : PlayerState) : Html Msg :=
  div [class_ "page"]
    ([backLink state.item, viewMain fromFloat state,
      h2 [class_ "player-title"] [text (state.item.title.getD state.item.name)]] ++
      viewMetadata fromFloat state.item)

def view : Model → Html Msg
  | .loading _ => p [class_ "status-note"] [text "Loading…"]
  | .failed message => p [class_ "error-note"] [text ("Error: " ++ message)]
  | .loaded state => viewLoaded fromFloat state

end

end Player

/-! ## The application -/

/-- The page in its shell. -/
def Main.view (fromFloat : Rat → String) (page : Page) : Html Msg :=
  div [class_ "app-shell"]
    [match page with
      | .home model => (Home.view model).map .homeMsg
      | .browse model => (Browse.view model).map .browseMsg
      | .search model => (Search.view model).map .searchMsg
      | .player model => (Player.view fromFloat model).map .playerMsg
      | .notFound => p [class_ "not-found"] [text "Page not found."]]

end Loku
