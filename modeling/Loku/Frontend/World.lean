import Loku.Frontend.Media
import Loku.Frontend.Wire

/-!
# The client and what there is

A `World` says which libraries, directories and items a client may be told of, which texts can be
searched for, and whether things may be gone when they are asked for. On a page that shows what
there is (`Shows`) every link leads to something there is (`leads_of_link`), every control asks for
something there is (`stays_use`), and an answer that tells of what there is leaves the page so
(`keeps_response`).
-/

namespace Loku

/-- A search page without results. -/
def Page.SearchFailed : Page → Prop
  | .search model => ∃ message, model.results = .failed message
  | _ => False

/-- The page loads, and the call is one whose answer it takes. -/
def Page.Awaits : Page → Call → Prop
  | .home model, .getLibraries => model.libraries = .loading
  | .browse (.loading _), .getBrowse _ _ => True
  | .search model, .getSearch _ _ _ _ => model.results = .loading
  | .player (.loading _), .getItem _ _ => True
  | _, _ => False

structure World where
  libraries : List Api.Library
  Directory : String → String → Prop
  Has : Api.VideoItem → Prop
  Reads : String → Prop
  Gone : Prop

namespace World

section
variable (w : World)

def names : List String := w.libraries.map Api.Library.name

/-! ## What is asked for and what is told -/

def Searches (library : Option String) : Prop := ∀ name ∈ library, name ∈ w.names

/-- The route names something there is. -/
def Leads : Route → Prop
  | .home => True
  | .browse params => w.Directory params.library params.path ∧ 1 ≤ params.page
  | .search params =>
    w.Searches params.library ∧ 1 ≤ params.page ∧ (params.page - 1) * pageSize < 2 ^ 32
  | .player params => ∃ item, w.Has item ∧ item.library = params.library ∧ item.path = params.path
  | .notFound => False

/-- The call asks for something there is. -/
def Serves : Call → Prop
  | .getLibraries => True
  | .getBrowse library path => w.Directory library path
  | .getSearch _ library limit offset =>
    w.Searches library ∧ (0 ≤ limit ∧ limit < 2 ^ 32) ∧ 0 ≤ offset ∧ offset < 2 ^ 32
  | .getItem library path => ∃ item, w.Has item ∧ item.library = library ∧ item.path = path
  | .postMainTitle library discSet path => ∃ item, w.Has item ∧ item.library = library ∧
    item.path = path ∧ item.discSet = some discSet

/-- The call is a search for a text that cannot be read. -/
def Unread : Call → Prop
  | .getSearch query _ _ _ => ¬ w.Reads query
  | _ => False

/-- The status of an answer: a success, or the failure of a search that cannot be read. -/
def Answered (call : Call) (status : Nat) : Prop :=
  status = 200 ∧ ¬ w.Unread call ∨ status = 500 ∧ w.Unread call

/-- The entry leads to directories and shows items that there are. -/
def HasEntry (library : String) : Api.Entry → Prop
  | .directory dir => w.Directory library dir.path
  | .video item => w.Has item ∧ item.library = library
  | .discSet set => set.main ∈ set.titles ∧
    ∀ item ∈ set.titles, w.Has item ∧ item.library = library ∧ item.discSet = some set.discSet

def HasListing (listing : Api.DirListing) : Prop :=
  w.Directory listing.library listing.path ∧
    ∀ entry ∈ listing.entries, w.HasEntry listing.library entry

def HasPage (page : Api.SearchPage) : Prop :=
  (0 ≤ page.total ∧ page.total < 2 ^ 31) ∧ ∀ item ∈ page.items, w.Has item

/-- An answer to a call tells of what there is, or fails where something may be gone or a text
cannot be read. -/
inductive Truthful : Call → Answer → Prop
  | libraries : Truthful .getLibraries (.libraries (.ok w.libraries))
  | listing {listing : Api.DirListing} (h : w.HasListing listing) :
    Truthful (.getBrowse listing.library listing.path) (.listing (.ok listing))
  | noListing {library path : String} (error : HttpError) (h : w.Gone) :
    Truthful (.getBrowse library path) (.listing (.error error))
  | results {query : String} {library : Option String} {limit offset : Int}
    {page : Api.SearchPage} (h : w.HasPage page) :
    Truthful (.getSearch query library limit offset) (.results (.ok page))
  | noResults {query : String} {library : Option String} {limit offset : Int} (error : HttpError)
    (h : ¬ w.Reads query) :
    Truthful (.getSearch query library limit offset) (.results (.error error))
  | item {item : Api.VideoItem} (h : w.Has item) :
    Truthful (.getItem item.library item.path) (.item (.ok item))
  | noItem {library path : String} (error : HttpError) (h : w.Gone) :
    Truthful (.getItem library path) (.item (.error error))
  | mainTitle {library discSet path : String} :
    Truthful (.postMainTitle library discSet path) (.mainTitle (.ok ()))
  | noMainTitle {library discSet path : String} (error : HttpError) (h : w.Gone) :
    Truthful (.postMainTitle library discSet path) (.mainTitle (.error error))

/-! ## What a page shows -/

/-- An item on the player: one there is, or what stands for one that is gone. -/
def Plays (item : Api.VideoItem) : Prop :=
  w.Has item ∨ w.Gone ∧ (item = Player.bareItem "" "" ∨
    ∃ gone, w.Has gone ∧ item = Player.bareItem gone.library gone.path)

/-- What the page shows is there, and it fails at most where something may be gone or a text
cannot be read. -/
def Shows : Page → Prop
  | .home model =>
    match model.libraries with
    | .loading => True
    | .loaded libraries => libraries = w.libraries
    | .failed _ => False
  | .browse (.loading _) => True
  | .browse (.loaded state) => w.HasListing state.listing
  | .browse (.failed _) => w.Gone
  | .search model => w.Searches model.params.library ∧
    match model.results with
    | .loading => True
    | .loaded page => w.HasPage page
    | .failed _ => ∃ query, ¬ w.Reads query
  | .player (.loading params) => w.Leads (.player params)
  | .player (.loaded state) => w.Plays state.item
  | .player (.failed _) => False
  | .notFound => False

/-- A page and its commands keep to what there is. -/
structure Keeps (result : Page × List Cmd) : Prop where
  shows : w.Shows result.1
  serves : ∀ call, Cmd.call call ∈ result.2 → w.Serves call
  leads : ∀ route, Cmd.pushUrl route ∈ result.2 → w.Leads route

/-- Directories lie in the libraries, with all that is above them, and items in directories. -/
structure Coherent : Prop where
  name_ne : ∀ name ∈ w.names, name ≠ ""
  root : ∀ name ∈ w.names, w.Directory name ""
  directory : ∀ {name path : String}, w.Directory name path → name ∈ w.names ∧
    ∃ rel : Path, path = rel.relText ∧
      ∀ above : Path, above <+: rel → w.Directory name above.relText
  item : ∀ {item : Api.VideoItem}, w.Has item → ∃ (dir : Path) (video : FileName),
    item.path = Path.relText (dir ++ [video]) ∧ w.Directory item.library dir.relText

end

variable {w : World}

/-! ## Routes -/

theorem Coherent.name_mem (h : w.Coherent) {name path : String} (hdir : w.Directory name path) :
    name ∈ w.names := (h.directory hdir).1

theorem Directory.leads {library path : String} (h : w.Directory library path) :
    w.Leads (.browse ⟨library, path, 1⟩) := ⟨h, le_rfl⟩

theorem Searches.leads {library : Option String} (h : w.Searches library) (query : String) :
    w.Leads (.search ⟨query, library, 1⟩) :=
  ⟨h, le_rfl, (by decide : (1 - 1) * pageSize < 2 ^ 32)⟩

theorem leads_player {item : Api.VideoItem} (h : w.Has item) :
    w.Leads (.player ⟨item.library, item.path⟩) := ⟨item, h, rfl, rfl⟩

theorem Leads.printable (h : w.Coherent) {route : Route} (hroute : w.Leads route) :
    route.Printable := by
  cases route with
  | home => trivial
  | browse params => exact ⟨h.name_ne _ (h.name_mem hroute.1), hroute.2⟩
  | search params => exact hroute.2.1
  | player params =>
    obtain ⟨item, hitem, hlib, hpath⟩ := hroute
    obtain ⟨dir, video, htext, hdir⟩ := h.item hitem
    refine ⟨hlib ▸ h.name_ne _ (h.name_mem hdir), ?_⟩
    rw [← hpath, htext]
    intro hempty
    have hnil : dir ++ [video] = [] := Path.relText_injective hempty
    simp at hnil
  | notFound => exact hroute.elim

/-- A printed route that names something there is is read back. -/
theorem Coherent.parse_toString (h : w.Coherent) {route : Route} (hroute : w.Leads route) :
    Route.parse (Url.ofText route.toString) = route := by
  have hprintable := hroute.printable h
  cases route with
  | home => rfl
  | browse params => exact parse_ofText_browse hprintable
  | search params => exact parse_ofText_search hprintable
  | player params => exact parse_ofText_player hprintable
  | notFound => exact hroute.elim

/-! ## A changed URL -/

theorem Keeps.of_page {page : Page} (h : w.Shows page) : w.Keeps (page, []) :=
  ⟨h, fun _ hcall => absurd hcall List.not_mem_nil, fun _ hroute => absurd hroute List.not_mem_nil⟩

theorem Plays.has {item : Api.VideoItem} (h : w.Plays item) (hthere : ¬ w.Gone) : w.Has item :=
  h.resolve_right fun hgone => hthere hgone.1

theorem Truthful.of_getBrowse {library path : String} {answer : Answer}
    (h : w.Truthful (.getBrowse library path) answer) (hthere : ¬ w.Gone) :
    ∃ listing, answer = .listing (.ok listing) := by
  cases h with
  | listing _ => exact ⟨_, rfl⟩
  | noListing _ hgone => exact absurd hgone hthere

/-- A page that has just been set up asks for what its route names. -/
theorem Leads.keeps {route : Route} (h : w.Leads route) : w.Keeps (Main.routeToPage route) := by
  cases route with
  | home =>
    refine ⟨trivial, fun call hcall => ?_, fun route hroute => ?_⟩
    · obtain rfl : call = .getLibraries := by
        simpa [Main.routeToPage, Home.init, Prod.map] using hcall
      trivial
    · simp [Main.routeToPage, Home.init, Prod.map] at hroute
  | browse params =>
    refine ⟨trivial, fun call hcall => ?_, fun route hroute => ?_⟩
    · obtain rfl : call = .getBrowse params.library params.path := by
        simpa [Main.routeToPage, Browse.init, Prod.map] using hcall
      exact h.1
    · simp [Main.routeToPage, Browse.init, Prod.map] at hroute
  | search params =>
    obtain ⟨hlibrary, hpage, hoffset⟩ := h
    refine ⟨⟨hlibrary, trivial⟩, fun call hcall => ?_, fun route hroute => ?_⟩
    · obtain rfl : call = Search.request params := by
        simpa [Main.routeToPage, Search.init, Prod.map] using hcall
      refine ⟨hlibrary, ⟨by decide, by decide⟩, ?_, hoffset⟩
      unfold pageSize
      omega
    · simp [Main.routeToPage, Search.init, Prod.map] at hroute
  | player params =>
    refine ⟨h, fun call hcall => ?_, fun route hroute => ?_⟩
    · obtain rfl : call = .getItem params.library params.path := by
        simpa [Main.routeToPage, Player.init, Prod.map] using hcall
      exact h
    · simp [Main.routeToPage, Player.init, Prod.map] at hroute
  | notFound => exact h.elim

/-- Another page of the directory on show. -/
theorem urlChanged_of_sameDirectory {page : Page} {route : Route}
    (h : Main.sameDirectory page route = true) :
    ∃ model params, page = .browse model ∧ Main.update (.urlChanged route) page =
      (Browse.updateParams params model).map .browse id := by
  obtain ⟨model, params, rfl, rfl, -⟩ := Session.exists_of_sameDirectory h
  exact ⟨model, params, rfl, if_pos h⟩

/-- Another page of the directory on show keeps what is shown. -/
theorem keeps_urlChanged {page : Page} (hpage : w.Shows page) {route : Route}
    (hroute : w.Leads route) : w.Keeps (Main.update (.urlChanged route) page) := by
  cases hsame : Main.sameDirectory page route with
  | false =>
    rw [Session.urlChanged_of_not_sameDirectory hsame]
    exact hroute.keeps
  | true =>
    obtain ⟨model, params, rfl, hupdate⟩ := urlChanged_of_sameDirectory hsame
    rw [hupdate]
    cases model with
    | loading p => exact .of_page trivial
    | loaded state => exact .of_page hpage
    | failed message => exact .of_page hpage

/-! ## A response -/

theorem keeps_listing {page : Page} (hpage : w.Shows page) {listing : Api.DirListing}
    (h : w.HasListing listing) :
    w.Keeps (Main.update (Answer.listing (.ok listing)).toMsg page) := by
  cases page with
  | browse model =>
    cases model with
    | failed message => exact .of_page hpage
    | _ => exact .of_page h
  | _ => exact .of_page hpage

theorem keeps_item {page : Page} (hpage : w.Shows page) {item : Api.VideoItem} (h : w.Has item) :
    w.Keeps (Main.update (Answer.item (.ok item)).toMsg page) := by
  cases page with
  | player model => exact .of_page (Or.inl h)
  | _ => exact .of_page hpage

/-- A player without an answer shows what it was asked to play. -/
theorem keeps_noItem {page : Page} (hpage : w.Shows page) (error : HttpError) (h : w.Gone) :
    w.Keeps (Main.update (Answer.item (.error error)).toMsg page) := by
  cases page with
  | player model =>
    cases model with
    | loading params =>
      obtain ⟨item, hitem, hlib, hpath⟩ := hpage
      refine .of_page (Or.inr ⟨h, Or.inr ⟨item, hitem, ?_⟩⟩)
      rw [hlib, hpath]
      rfl
    | loaded state => exact .of_page (Or.inr ⟨h, Or.inl rfl⟩)
    | failed message => exact hpage.elim
  | _ => exact .of_page hpage

theorem keeps_mainTitle {page : Page} (hpage : w.Shows page) (result : Except HttpError Unit) :
    w.Keeps (Main.update (Answer.mainTitle result).toMsg page) := by
  cases page with
  | browse model =>
    cases result with
    | error error => exact .of_page hpage
    | ok _ =>
      cases model with
      | loaded state =>
        -- the listing on show is asked for again
        refine ⟨hpage, fun call hcall => ?_, fun route hroute => ?_⟩
        · obtain rfl : call = .getBrowse state.listing.library state.listing.path := by
            simpa [Main.update, Answer.toMsg, Browse.update, Prod.map] using hcall
          exact hpage.1
        · simp [Main.update, Answer.toMsg, Browse.update, Prod.map] at hroute
      | _ => exact .of_page hpage
  | _ => exact .of_page hpage

/-- A page that takes a truthful answer shows it. -/
theorem keeps_response {page : Page} (hpage : w.Shows page) {call : Call} {answer : Answer}
    (h : w.Truthful call answer) : w.Keeps (Main.update answer.toMsg page) := by
  cases h with
  | libraries =>
    cases page with
    | home model => exact .of_page rfl
    | _ => exact .of_page hpage
  | listing h => exact keeps_listing hpage h
  | noListing error h =>
    cases page with
    | browse model => exact .of_page h
    | _ => exact .of_page hpage
  | results h =>
    cases page with
    | search model => exact .of_page ⟨hpage.1, h⟩
    | _ => exact .of_page hpage
  | noResults error h =>
    cases page with
    | search model => exact .of_page ⟨hpage.1, _, h⟩
    | _ => exact .of_page hpage
  | item h => exact keeps_item hpage h
  | noItem error h => exact keeps_noItem hpage error h
  | mainTitle => exact keeps_mainTitle hpage _
  | noMainTitle error h => exact keeps_mainTitle hpage _

/-! ## Links -/

theorem crumbParts_relText (rel : Path) :
    Browse.crumbParts rel.relText = rel.map FileName.text := by
  by_cases hrel : rel = []
  · subst hrel
    rfl
  · have hfull : (rel.map fun n => n.text.toList).filter (· ≠ []) =
        rel.map fun n => n.text.toList := by
      rw [List.filter_eq_self]
      intro text htext
      obtain ⟨n, -, rfl⟩ := List.mem_map.mp htext
      simpa using n.valid.1
    unfold Browse.crumbParts
    rw [Path.splitOn_relText hrel, hfull, List.map_map]
    exact List.map_congr_left fun n _ => String.ofList_toList

theorem crumbPath_map_text (rel : Path) (i : Nat) :
    Browse.crumbPath (rel.map FileName.text) i = Path.relText (rel.take (i + 1)) := by
  unfold Browse.crumbPath Path.relText
  rw [List.map_take]

theorem parentPath_relText (dir : Path) (video : FileName) :
    Player.parentPath (Path.relText (dir ++ [video])) = dir.relText := by
  unfold Player.parentPath
  rw [Path.splitOn_relText (by simp)]
  unfold Path.relText
  simp [Function.comp_def]

/-- The link back leads to the directory of the item. -/
theorem Coherent.directory_back (h : w.Coherent) {item : Api.VideoItem} (hitem : w.Has item) :
    w.Directory item.library (Player.parentPath item.path) := by
  obtain ⟨dir, video, hpath, hdir⟩ := h.item hitem
  rwa [hpath, parentPath_relText]

/-- Or home, where no item is known. -/
theorem Coherent.leads_back (h : w.Coherent) {item : Api.VideoItem} (hitem : w.Plays item) :
    ∃ route, w.Leads route ∧ Route.parse (Url.ofText
      (Route.browse ⟨item.library, Player.parentPath item.path, 1⟩).toString) = route := by
  have hknown : ∀ item, w.Has item → ∃ route, w.Leads route ∧ Route.parse (Url.ofText
      (Route.browse ⟨item.library, Player.parentPath item.path, 1⟩).toString) = route := by
    intro item hitem
    have hleads := Directory.leads (h.directory_back hitem)
    exact ⟨_, hleads, h.parse_toString hleads⟩
  rcases hitem with hitem | ⟨-, rfl | ⟨gone, hgone, rfl⟩⟩
  · exact hknown item hitem
  · exact ⟨.home, trivial, by decide⟩
  · exact hknown gone hgone

theorem mem_entries_of_shown {state : Browse.BrowseState} {entry : Api.Entry}
    (h : entry ∈ state.shown) : entry ∈ state.listing.entries := by
  rcases List.mem_append.mp h with h | h
  · exact (List.mem_filter.mp h).1
  · exact (List.mem_filter.mp (List.mem_of_mem_drop (List.mem_of_mem_take h))).1

/-- A link of a listing leads to something there is. -/
theorem Coherent.leads_of_listing (h : w.Coherent) {state : Browse.BrowseState}
    (hlisting : w.HasListing state.listing) {url : String}
    (hlink : (Browse.viewLoaded state).Links url) :
    ∃ route, w.Leads route ∧ url = route.toString := by
  rcases Browse.links_viewLoaded.mp hlink with hcrumb | ⟨entry, hentry, hlink⟩
  · rcases Browse.links_viewBreadcrumb.mp hcrumb with rfl | rfl | ⟨i, -, rfl⟩
    · exact ⟨.home, trivial, rfl⟩
    · exact ⟨_, Directory.leads (h.root _ (h.name_mem hlisting.1)), rfl⟩
    · obtain ⟨-, rel, hrel, habove⟩ := h.directory hlisting.1
      refine ⟨_, Directory.leads ?_, rfl⟩
      rw [hrel, crumbParts_relText, crumbPath_map_text]
      exact habove _ (List.take_prefix _ _)
  · have hhas := hlisting.2 entry (mem_entries_of_shown hentry)
    cases entry with
    | directory dir =>
      obtain rfl := hlink
      exact ⟨_, Directory.leads hhas, rfl⟩
    | video item =>
      obtain rfl := hlink
      exact ⟨_, leads_player hhas.1, rfl⟩
    | discSet set =>
      rcases hlink with rfl | ⟨-, item, hitem, rfl⟩
      · exact ⟨_, leads_player (hhas.2 set.main hhas.1).1, rfl⟩
      · exact ⟨_, leads_player (hhas.2 item hitem).1, rfl⟩

/-- A link of a page leads to something there is. -/
theorem Coherent.leads_of_link (h : w.Coherent) {page : Page} (hpage : w.Shows page)
    {fromFloat : Rat → String} {url : String} (hlink : (Main.view fromFloat page).Links url) :
    ∃ route, w.Leads route ∧ Route.parse (Url.ofText url) = route := by
  cases page with
  | home model =>
    obtain ⟨libraries, hloaded, library, hmem, rfl⟩ :=
      Home.links_view.mp (Main.links_home.mp hlink)
    have hlibraries : libraries = w.libraries := by
      simpa [World.Shows, hloaded] using hpage
    rw [hlibraries] at hmem
    have hroute := Directory.leads (h.root library.name (List.mem_map_of_mem hmem))
    exact ⟨_, hroute, h.parse_toString hroute⟩
  | browse model =>
    rw [Main.links_browse] at hlink
    cases model with
    | loading params => simp [Browse.view, Html.p] at hlink
    | failed message => exact absurd hlink (Ui.links_errorText message)
    | loaded state =>
      obtain ⟨route, hroute, rfl⟩ := h.leads_of_listing hpage hlink
      exact ⟨route, hroute, h.parse_toString hroute⟩
  | search model =>
    rcases Search.links_view.mp (Main.links_search.mp hlink) with
      rfl | ⟨page, hloaded, item, hitem, rfl⟩
    · have hroute : w.Leads .home := trivial
      exact ⟨.home, hroute, h.parse_toString hroute⟩
    · have hresults : w.HasPage page := by
        simpa [World.Shows, hloaded] using hpage.2
      have hroute := leads_player (hresults.2 item hitem)
      exact ⟨_, hroute, h.parse_toString hroute⟩
  | player model =>
    rw [Main.links_player] at hlink
    cases model with
    | loading params => simp [Player.view, Html.p] at hlink
    | failed message => exact hpage.elim
    | loaded state =>
      obtain rfl := Player.links_viewLoaded.mp hlink
      exact h.leads_back hpage
  | notFound => exact hpage.elim

/-! ## Items -/

/-- The items on a page are there, or stand for one that is gone. -/
theorem plays_of_holds {page : Page} (h : w.Shows page) {item : Api.VideoItem}
    (hitem : page.Holds item) : w.Plays item := by
  cases page with
  | home model => exact hitem.elim
  | browse model =>
    cases model with
    | loading params => exact hitem.elim
    | failed message => exact hitem.elim
    | loaded state =>
      obtain ⟨entry, hentry, hitem⟩ := hitem
      have hhas := h.2 entry hentry
      left
      cases entry with
      | directory dir => cases hitem
      | video shown =>
        obtain rfl := List.mem_singleton.mp hitem
        exact hhas.1
      | discSet set =>
        rcases List.mem_cons.mp hitem with rfl | hitem
        · exact (hhas.2 _ hhas.1).1
        · exact (hhas.2 _ hitem).1
  | search model =>
    obtain ⟨page, hpage, hitem⟩ := hitem
    have hresults := h.2
    rw [hpage] at hresults
    exact Or.inl (hresults.2 item hitem)
  | player model =>
    cases model with
    | loading params => exact hitem.elim
    | failed message => exact hitem.elim
    | loaded state =>
      obtain rfl := hitem
      exact h
  | notFound => exact hitem.elim

/-! ## What a visitor does -/

/-- A page that neither sends requests nor loads anew. -/
structure Stays (w : World) (page : Page) (result : Page × List Cmd) : Prop where
  keeps : w.Keeps result
  awaits : ∀ call, result.1.Awaits call ↔ page.Awaits call

theorem Stays.of_cmds {page page' : Page} {cmds : List Cmd} (hpage : w.Shows page')
    (hawaits : ∀ call, page'.Awaits call ↔ page.Awaits call)
    (hcalls : ∀ call, Cmd.call call ∈ cmds → w.Serves call)
    (hroutes : ∀ route, Cmd.pushUrl route ∈ cmds → w.Leads route) : w.Stays page (page', cmds) :=
  ⟨⟨hpage, hcalls, hroutes⟩, hawaits⟩

theorem Stays.of_page {page page' : Page} (hpage : w.Shows page')
    (hawaits : ∀ call, page'.Awaits call ↔ page.Awaits call) : w.Stays page (page', []) :=
  ⟨.of_page hpage, hawaits⟩

theorem Stays.of_push {page : Page} {route : Route} (hpage : w.Shows page)
    (hroute : w.Leads route) : w.Stays page (page, [.pushUrl route]) := by
  refine .of_cmds hpage (fun _ => Iff.rfl) (fun call hcall => ?_) fun route' hroute' => ?_
  · simp at hcall
  · obtain rfl : route' = route := by simpa using hroute'
    exact hroute

/-- The numbers of the pages of results are in range. -/
theorem HasPage.offset_lt {page : Api.SearchPage} (h : w.HasPage page) {i : Int}
    (hi : i ≤ Search.totalPages page) : (i - 1) * pageSize < 2 ^ 32 := by
  obtain ⟨⟨hnonneg, hlt⟩, -⟩ := h
  have hquotient : (page.total + pageSize - 1).tdiv pageSize = (page.total + 47) / 48 := by
    unfold pageSize
    rw [Int.tdiv_eq_ediv_of_nonneg (by omega)]
    congr 1
    omega
  have hpages : Search.totalPages page ≤ max 1 ((page.total + 47) / 48) := by
    unfold Search.totalPages elmDiv
    rw [hquotient, Int.bmod_eq_of_le (by omega) (by omega)]
  unfold pageSize
  omega

theorem stays_home {model : Home.Model} (hpage : w.Shows (.home model)) {m : Home.Msg}
    (h : (Home.view model).Sends m) :
    w.Stays (.home model) (Main.update (.homeMsg m) (.home model)) := by
  rcases Home.sends_view h with ⟨query, rfl⟩ | rfl
  · refine .of_page hpage fun call => ?_
    cases call with
    | getLibraries => exact Iff.rfl
    | _ => exact Iff.rfl
  · show w.Stays _ ((if isBlank model.query then (model, []) else _ : Home.Model × List Cmd).map
      Page.home id)
    split
    · exact .of_page hpage fun _ => Iff.rfl
    · have hnone : w.Searches none := fun _ hname => absurd hname (Option.not_mem_none _)
      exact .of_push hpage (hnone.leads model.query)

theorem Coherent.stays_browse (h : w.Coherent) {state : Browse.BrowseState}
    (hpage : w.HasListing state.listing) {m : Browse.Msg}
    (hsends : (Browse.viewLoaded state).Sends m) :
    w.Stays (.browse (.loaded state)) (Main.update (.browseMsg m) (.browse (.loaded state))) := by
  rcases Browse.sends_viewLoaded hsends with ⟨query, rfl⟩ | rfl | ⟨entry, hentry, hsends⟩ |
    ⟨i, hi, -, rfl⟩
  · exact .of_page hpage fun _ => Iff.rfl
  · show w.Stays _ ((if isBlank state.query then (.loaded state, []) else _ :
      Browse.Model × List Cmd).map Page.browse id)
    split
    · exact .of_page hpage fun _ => Iff.rfl
    · have hlibrary : w.Searches (some state.listing.library) := by
        rintro name ⟨⟩
        exact h.name_mem hpage.1
      exact .of_push hpage (hlibrary.leads state.query)
  · have hhas := hpage.2 entry (mem_entries_of_shown hentry)
    cases entry with
    | directory dir => exact hsends.elim
    | video item => exact hsends.elim
    | discSet set =>
      rcases hsends with rfl | ⟨-, item, hitem, -, rfl⟩
      · exact .of_page hpage fun _ => Iff.rfl
      · refine .of_cmds hpage (fun _ => Iff.rfl) (fun call hcall => ?_) fun route hroute => ?_
        · obtain rfl : call = .postMainTitle state.listing.library set.discSet item.path := by
            simpa using hcall
          obtain ⟨hitem, hlib, hset⟩ := hhas.2 item hitem
          exact ⟨item, hitem, hlib, rfl, hset⟩
        · simp at hroute
  · exact .of_cmds hpage (fun _ => Iff.rfl) (fun call hcall => by simp at hcall)
      fun route hroute => by
        obtain rfl : route = _ := by simpa using hroute
        exact ⟨hpage.1, hi⟩

theorem stays_search {model : Search.Model} (hpage : w.Shows (.search model)) {m : Search.Msg}
    (hsends : (Search.view model).Sends m) :
    w.Stays (.search model) (Main.update (.searchMsg m) (.search model)) := by
  rcases Search.sends_view hsends with ⟨query, rfl⟩ | rfl | ⟨page, hloaded, i, hi, hlast, rfl⟩
  · refine .of_page hpage fun call => ?_
    cases call with
    | getSearch query library limit offset => exact Iff.rfl
    | _ => exact Iff.rfl
  · exact .of_push hpage (Searches.leads hpage.1 model.input)
  · have hresults : w.HasPage page := by
      simpa [World.Shows, hloaded] using hpage.2
    exact .of_push hpage ⟨hpage.1, hi, hresults.offset_lt hlast⟩

theorem stays_player {state : Player.PlayerState} (hpage : w.Plays state.item) {m : Player.Msg}
    (hm : m.OfMedia ∨ ∃ fraction, m = .videoProgress fraction) :
    w.Stays (.player (.loaded state)) (Main.update (.playerMsg m) (.player (.loaded state))) := by
  rcases hm with (rfl | ⟨code, rfl⟩) | ⟨fraction, rfl⟩
  · exact .of_page hpage fun _ => Iff.rfl
  · refine .of_cmds hpage (fun _ => Iff.rfl) (fun call hcall => ?_) fun route hroute => ?_
    · simp at hcall
    · simp at hroute
  · exact .of_page hpage fun _ => Iff.rfl

/-- A control of a page leaves it with what there is. -/
theorem Coherent.stays_use (h : w.Coherent) {page : Page} (hpage : w.Shows page)
    {fromFloat : Rat → String} {msg : Msg} (hsends : (Main.view fromFloat page).Sends msg) :
    w.Stays page (Main.update msg page) := by
  cases page with
  | home model =>
    obtain ⟨m, hm, rfl⟩ := Main.sends_home.mp hsends
    exact stays_home hpage hm
  | browse model =>
    obtain ⟨m, hm, rfl⟩ := Main.sends_browse.mp hsends
    cases model with
    | loading params => simp [Browse.view, Html.p, Attribute.class_, Attribute.Sends] at hm
    | failed message => exact absurd hm (Ui.sends_errorText message)
    | loaded state => exact h.stays_browse hpage hm
  | search model =>
    obtain ⟨m, hm, rfl⟩ := Main.sends_search.mp hsends
    exact stays_search hpage hm
  | player model =>
    obtain ⟨m, hm, rfl⟩ := Main.sends_player.mp hsends
    cases model with
    | loading params => simp [Player.view, Html.p, Attribute.class_, Attribute.Sends] at hm
    | failed message => exact hpage.elim
    | loaded state => exact stays_player hpage (Or.inl (Player.sends_viewLoaded hm))
  | notFound => exact hpage.elim

/-- The progress of a video is told to any page. -/
theorem stays_progress {page : Page} (hpage : w.Shows page) (fraction : Rat) :
    w.Stays page (Main.update (.playerMsg (.videoProgress fraction)) page) := by
  cases page with
  | player model =>
    cases model with
    | loading params => exact .of_page hpage fun _ => Iff.rfl
    | failed message => exact hpage.elim
    | loaded state => exact stays_player hpage (Or.inr ⟨fraction, rfl⟩)
  | _ => exact .of_page hpage fun _ => Iff.rfl

/-! ## A search that fails -/

/-- A page that is set up has not failed. -/
theorem not_searchFailed_routeToPage (route : Route) :
    ¬ (Main.routeToPage route).1.SearchFailed := by
  intro h
  cases route with
  | search params =>
    obtain ⟨message, hresults⟩ := h
    cases hresults
  | _ => exact h.elim

/-- A search page is without results before an event, or the event brings the failure. -/
theorem searchFailed_update {msg : Msg} {page : Page}
    (h : (Main.update msg page).1.SearchFailed) :
    page.SearchFailed ∨ ∃ error, msg = .searchMsg (.gotResults (.error error)) := by
  cases msg with
  | linkClicked route => exact Or.inl h
  | urlChanged route =>
    cases hsame : Main.sameDirectory page route with
    | false =>
      rw [Session.urlChanged_of_not_sameDirectory hsame] at h
      exact absurd h (not_searchFailed_routeToPage route)
    | true =>
      obtain ⟨model, params, rfl, hupdate⟩ := urlChanged_of_sameDirectory hsame
      rw [hupdate] at h
      exact h.elim
  | homeMsg m =>
    cases page with
    | home model => exact h.elim
    | _ => exact Or.inl h
  | browseMsg m =>
    cases page with
    | browse model => exact h.elim
    | _ => exact Or.inl h
  | playerMsg m =>
    cases page with
    | player model => cases m <;> exact h.elim
    | _ => cases m <;> exact Or.inl h
  | searchMsg m =>
    cases page with
    | search model =>
      cases m with
      | gotResults result =>
        cases result with
        | ok results =>
          obtain ⟨message, hresults⟩ := h
          cases hresults
        | error error => exact Or.inr ⟨error, rfl⟩
      | _ => exact Or.inl h
    | _ => exact Or.inl h

/-- A control of a page brings no failure. -/
theorem searchFailed_use {page : Page} {fromFloat : Rat → String} {msg : Msg}
    (hsends : (Main.view fromFloat page).Sends msg)
    (hfailed : (Main.update msg page).1.SearchFailed) : page.SearchFailed := by
  rcases searchFailed_update hfailed with hbefore | ⟨error, rfl⟩
  · exact hbefore
  · cases page with
    | home model =>
      obtain ⟨m, -, hm⟩ := Main.sends_home.mp hsends
      cases hm
    | browse model =>
      obtain ⟨m, -, hm⟩ := Main.sends_browse.mp hsends
      cases hm
    | search model =>
      obtain ⟨m, hsends, hm⟩ := Main.sends_search.mp hsends
      obtain rfl := Msg.searchMsg.inj hm
      rcases Search.sends_view hsends with ⟨query, hm⟩ | hm | ⟨-, -, i, -, -, hm⟩ <;> cases hm
    | player model =>
      obtain ⟨m, -, hm⟩ := Main.sends_player.mp hsends
      cases hm
    | notFound => exact hfailed.elim

/-- The answer that brings a failure is one to a search that cannot be read. -/
theorem searchFailed_response {page : Page} {call : Call} {answer : Answer}
    (h : w.Truthful call answer) (hfailed : (Main.update answer.toMsg page).1.SearchFailed) :
    page.SearchFailed ∨ w.Unread call := by
  rcases searchFailed_update hfailed with hbefore | ⟨error, herror⟩
  · exact Or.inl hbefore
  · cases h with
    | noResults error' hunread => exact Or.inr hunread
    | _ => cases herror

/-! ## What a page waits for -/

/-- A page that still loads after an answer has not taken it. -/
theorem awaits_response {page : Page} {call : Call} {answer : Answer}
    (h : w.Truthful call answer) {c : Call} (hc : (Main.update answer.toMsg page).1.Awaits c) :
    (Main.update answer.toMsg page).1 = page ∧ ¬ page.Awaits call := by
  have hlisting : ∀ result : Except HttpError Api.DirListing,
      (Main.update (Answer.listing result).toMsg page).1.Awaits c →
      (Main.update (Answer.listing result).toMsg page).1 = page ∧
        ∀ library path, ¬ page.Awaits (.getBrowse library path) := by
    intro result hc
    cases page with
    | browse model => cases result <;> cases model <;> cases c <;> cases hc
    | _ => exact ⟨rfl, fun _ _ h => by simp [Page.Awaits] at h⟩
  have hitem : ∀ result : Except HttpError Api.VideoItem,
      (Main.update (Answer.item result).toMsg page).1.Awaits c →
      (Main.update (Answer.item result).toMsg page).1 = page ∧
        ∀ library path, ¬ page.Awaits (.getItem library path) := by
    intro result hc
    cases page with
    | player model => cases result <;> cases c <;> cases hc
    | _ => exact ⟨rfl, fun _ _ h => by simp [Page.Awaits] at h⟩
  have hmain : ∀ result : Except HttpError Unit,
      (Main.update (Answer.mainTitle result).toMsg page).1 = page := by
    intro result
    cases page with
    | browse model => cases result <;> cases model <;> rfl
    | _ => rfl
  cases h with
  | libraries =>
    cases page with
    | home model => cases c <;> cases hc
    | _ => exact ⟨rfl, fun h => by simp [Page.Awaits] at h⟩
  | listing h => exact (hlisting _ hc).imp_right fun h => h _ _
  | noListing error h => exact (hlisting _ hc).imp_right fun h => h _ _
  | results h =>
    cases page with
    | search model => cases c <;> cases hc
    | _ => exact ⟨rfl, fun h => by simp [Page.Awaits] at h⟩
  | noResults error h =>
    cases page with
    | search model => cases c <;> cases hc
    | _ => exact ⟨rfl, fun h => by simp [Page.Awaits] at h⟩
  | item h => exact (hitem _ hc).imp_right fun h => h _ _
  | noItem error h => exact (hitem _ hc).imp_right fun h => h _ _
  | mainTitle => exact ⟨hmain _, fun h => by simp [Page.Awaits] at h⟩
  | noMainTitle error h => exact ⟨hmain _, fun h => by simp [Page.Awaits] at h⟩

end World

/-- A page that has just been set up waits for its own request. -/
theorem awaits_routeToPage {route : Route} {c : Call} (hc : (Main.routeToPage route).1.Awaits c) :
    ∃ call, Cmd.call call ∈ (Main.routeToPage route).2 ∧
      (Main.routeToPage route).1.Awaits call := by
  cases route with
  | home => exact ⟨.getLibraries, List.mem_cons_self, rfl⟩
  | browse params =>
    exact ⟨.getBrowse params.library params.path, List.mem_cons_self, trivial⟩
  | search params => exact ⟨Search.request params, List.mem_cons_self, rfl⟩
  | player params => exact ⟨.getItem params.library params.path, List.mem_cons_self, trivial⟩
  | notFound => exact hc.elim

/-- A page loads on a changed URL because of a new request, or because it did before. -/
theorem awaits_urlChanged {page : Page} {route : Route} {c : Call}
    (hc : (Main.update (.urlChanged route) page).1.Awaits c) :
    (∃ call, Cmd.call call ∈ (Main.update (.urlChanged route) page).2 ∧
      (Main.update (.urlChanged route) page).1.Awaits call) ∨
    ∀ call, (Main.update (.urlChanged route) page).1.Awaits call ↔ page.Awaits call := by
  cases hsame : Main.sameDirectory page route with
  | false =>
    rw [Session.urlChanged_of_not_sameDirectory hsame] at hc ⊢
    exact Or.inl (awaits_routeToPage hc)
  | true =>
    obtain ⟨model, params, rfl, hupdate⟩ := World.urlChanged_of_sameDirectory hsame
    rw [hupdate] at hc ⊢
    refine Or.inr ?_
    cases model with
    | loading p => exact fun call => by cases call <;> exact Iff.rfl
    | loaded state => exact fun _ => Iff.rfl
    | failed message => exact fun _ => Iff.rfl

end Loku
