import Loku.Frontend.Pages
import Loku.Lib.Run

/-!
# A session of the client

A `Session` is the client between two events: the route of the last URL, the page, the requests
that are in flight and what has been delivered so far. The events are a changed URL, a response
to any request in flight, in any order, and a message of the page itself. A page is numbered
when it is set up, and a request carries the number of the page that sent it; the client itself
does not see that number.

`Session.Shows` says that what the page shows was returned for the current route, or is the
failure of one of the current page's own requests. A response that comes late for another route
breaks it. In a run without such steps it holds in every state, and once everything has arrived
nothing is loading any more (`shows_of_timely_run`).
-/

namespace Loku

structure Request where
  serial : Nat
  call : Call
deriving DecidableEq

inductive Answer
  | libraries (result : Except HttpError (List Api.Library))
  | listing (result : Except HttpError Api.DirListing)
  | results (result : Except HttpError Api.SearchPage)
  | item (result : Except HttpError Api.VideoItem)
  | mainTitle (result : Except HttpError Unit)

/-- What the server may answer; a listing names the library and the path it was asked for. -/
def Answers : Call → Answer → Prop
  | .getLibraries, .libraries _ => True
  | .getBrowse library path, .listing result =>
    ∀ listing, result = .ok listing → listing.library = library ∧ listing.path = path
  | .getSearch .., .results _ => True
  | .getItem .., .item _ => True
  | .postMainTitle .., .mainTitle _ => True
  | _, _ => False

/-- The message an answer is turned into. -/
def Answer.toMsg : Answer → Msg
  | .libraries result => .homeMsg (.gotLibraries result)
  | .listing result => .browseMsg (.gotListing result)
  | .results result => .searchMsg (.gotResults result)
  | .item result => .playerMsg (.gotItem result)
  | .mainTitle result => .browseMsg (.mainPicked result)

structure Delivered where
  request : Request
  answer : Answer

structure Session where
  route : Route
  page : Page
  serial : Nat
  inFlight : List Request
  delivered : List Delivered

/-- The requests among the commands of a page. -/
def sent (serial : Nat) (cmds : List Cmd) : List Request :=
  cmds.filterMap fun
    | .call call => some ⟨serial, call⟩
    | _ => none

inductive Action
  | navigate (route : Route)
  | respond (request : Request) (answer : Answer)
  | interact (msg : Msg)

/-- The messages that a user or a media element gives rise to. -/
def Msg.IsLocal : Msg → Prop
  | .linkClicked _ => True
  | .urlChanged _ => False
  | .homeMsg (.gotLibraries _) => False
  | .homeMsg _ => True
  | .browseMsg (.gotListing _) => False
  | .browseMsg (.mainPicked _) => False
  | .browseMsg _ => True
  | .searchMsg (.gotResults _) => False
  | .searchMsg _ => True
  | .playerMsg (.gotItem _) => False
  | .playerMsg _ => True

namespace Session

/-- The client as it starts on a URL. -/
def start (route : Route) : Session where
  route := route
  page := (Main.routeToPage route).1
  serial := 0
  inFlight := sent 0 (Main.routeToPage route).2
  delivered := []

/-- The number of the page after a changed URL. -/
def nextSerial (s : Session) (route : Route) : Nat :=
  if Main.sameDirectory s.page route then s.serial else s.serial + 1

def navigated (s : Session) (route : Route) : Session where
  route := route
  page := (Main.update (.urlChanged route) s.page).1
  serial := s.nextSerial route
  inFlight := s.inFlight ++ sent (s.nextSerial route) (Main.update (.urlChanged route) s.page).2
  delivered := s.delivered

def responded (s : Session) (request : Request) (answer : Answer) : Session where
  route := s.route
  page := (Main.update answer.toMsg s.page).1
  serial := s.serial
  inFlight := s.inFlight.erase request ++ sent s.serial (Main.update answer.toMsg s.page).2
  delivered := s.delivered ++ [⟨request, answer⟩]

def interacted (s : Session) (msg : Msg) : Session where
  route := s.route
  page := (Main.update msg s.page).1
  serial := s.serial
  inFlight := s.inFlight ++ sent s.serial (Main.update msg s.page).2
  delivered := s.delivered

end Session

inductive SessionStep : Session → Action → Session → Prop
  | navigate (s : Session) {route : Route} (h : route.FromUrl) :
      SessionStep s (.navigate route) (s.navigated route)
  | respond (s : Session) {request : Request} {answer : Answer} (h : request ∈ s.inFlight)
      (hanswer : Answers request.call answer) :
      SessionStep s (.respond request answer) (s.responded request answer)
  | interact (s : Session) {msg : Msg} (h : msg.IsLocal) :
      SessionStep s (.interact msg) (s.interacted msg)

/-! ## What a page has to show -/

/-- The request whose answer a route shows. -/
def dataCall : Route → Option Call
  | .browse params => some (.getBrowse params.library params.path)
  | .search params => some (Search.request params)
  | .player params => some (.getItem params.library params.path)
  | .home | .notFound => none

namespace Session

/-- An answer was returned for a request. -/
def Answered (s : Session) (call : Call) (answer : Answer) : Prop :=
  ∃ d ∈ s.delivered, d.request.call = call ∧ d.answer = answer

/-- An answer was returned for a request of the current page. -/
def AnsweredNow (s : Session) (call : Call) (answer : Answer) : Prop :=
  ∃ d ∈ s.delivered, d.request.serial = s.serial ∧ d.request.call = call ∧ d.answer = answer

def BrowseShows (s : Session) (params : BrowseParams) : Browse.Model → Prop
  | .loading p => p.library = params.library ∧ p.path = params.path
  | .loaded state =>
    s.Answered (.getBrowse params.library params.path) (.listing (.ok state.listing))
  | .failed message => ∃ err : HttpError, message = err.text ∧
    s.AnsweredNow (.getBrowse params.library params.path) (.listing (.error err))

def ResultsShow (s : Session) (params : SearchParams) : Search.Results → Prop
  | .loading => True
  | .loaded page => s.Answered (Search.request params) (.results (.ok page))
  | .failed message => ∃ err : HttpError, message = err.text ∧
    s.AnsweredNow (Search.request params) (.results (.error err))

def PlayerShows (s : Session) (params : PlayerParams) : Player.Model → Prop
  | .loading p => p = params
  | .loaded state =>
    s.Answered (.getItem params.library params.path) (.item (.ok state.item)) ∨
      (state.item = Player.bareItem params.library params.path ∧ ∃ err : HttpError,
        s.AnsweredNow (.getItem params.library params.path) (.item (.error err)))
  | .failed _ => False

/-- The page shows an answer to the current route's request, or its failure, or loads. -/
def Shows (s : Session) : Prop :=
  match s.route, s.page with
  | .browse params, .browse model => s.BrowseShows params model
  | .search params, .search model => model.params = params ∧ s.ResultsShow params model.results
  | .player params, .player model => s.PlayerShows params model
  | .home, .home _ => True
  | .notFound, .notFound => True
  | _, _ => False

end Session

/-- The page waits for the data of its route. -/
def Page.Waiting : Page → Prop
  | .browse (.loading _) => True
  | .search model => model.results = .loading
  | .player (.loading _) => True
  | _ => False

/-- The kind of request that a page waits for. -/
def Page.Expects : Page → Call → Prop
  | .browse _, .getBrowse _ _ => True
  | .search _, .getSearch _ _ _ _ => True
  | .player _, .getItem _ _ => True
  | _, _ => False

/-! ## Steps that are in time -/

def Answer.IsOk : Answer → Prop
  | .libraries result => ∃ r, result = .ok r
  | .listing result => ∃ r, result = .ok r
  | .results result => ∃ r, result = .ok r
  | .item result => ∃ r, result = .ok r
  | .mainTitle result => ∃ r, result = .ok r

/-- The page takes data or a failure from the answer. -/
def Page.Takes : Page → Answer → Prop
  | .browse (.failed _), .listing (.ok _) => False
  | .browse _, .listing _ => True
  | .search _, .results _ => True
  | .player _, .item _ => True
  | _, _ => False

/-- A failed request for an item, on a player that shows one. -/
def Page.Overwrites : Page → Answer → Prop
  | .player (.loaded _), .item (.error _) => True
  | _, _ => False

/-- A response that the page takes is one to the current page's own request and does not wipe
out the item on show, or it is data for the current route. -/
def Timely (s : Session) : Action → Prop
  | .respond request answer => s.page.Takes answer →
    (request.serial = s.serial ∧ ¬ s.page.Overwrites answer) ∨
      (answer.IsOk ∧ dataCall s.route = some request.call)
  | _ => True

/-! ## The invariant -/

/-- The requests for what a page shows. -/
def Call.IsData : Call → Prop
  | .getBrowse .. | .getSearch .. | .getItem .. => True
  | .getLibraries | .postMainTitle .. => False

namespace Session

structure Inv (s : Session) : Prop where
  shows : s.Shows
  valid : ∀ d ∈ s.delivered, Answers d.request.call d.answer
  serials : ∀ r ∈ s.inFlight, r.serial ≤ s.serial
  own : ∀ r ∈ s.inFlight, r.serial = s.serial → r.call.IsData → dataCall s.route = some r.call
  waiting : s.page.Waiting → ∃ r ∈ s.inFlight, dataCall s.route = some r.call

theorem mem_sent {n : Nat} {cmds : List Cmd} {r : Request} :
    r ∈ sent n cmds ↔ r.serial = n ∧ Cmd.call r.call ∈ cmds := by
  unfold sent
  rw [List.mem_filterMap]
  constructor
  · rintro ⟨cmd, hcmd, heq⟩
    cases cmd with
    | call call =>
      obtain rfl := Option.some.inj heq
      exact ⟨rfl, hcmd⟩
    | pushUrl route => cases heq
    | logError message => cases heq
  · rintro ⟨rfl, hcmd⟩
    exact ⟨.call r.call, hcmd, rfl⟩

/-! ### More deliveries -/

section Mono
variable {s s' : Session}

theorem Answered.mono {call : Call} {answer : Answer} (h : s.Answered call answer)
    (hdelivered : s.delivered ⊆ s'.delivered) : s'.Answered call answer := by
  obtain ⟨d, hd, hcall, hanswer⟩ := h
  exact ⟨d, hdelivered hd, hcall, hanswer⟩

theorem AnsweredNow.mono {call : Call} {answer : Answer} (h : s.AnsweredNow call answer)
    (hserial : s'.serial = s.serial) (hdelivered : s.delivered ⊆ s'.delivered) :
    s'.AnsweredNow call answer := by
  obtain ⟨d, hd, hd', hcall, hanswer⟩ := h
  exact ⟨d, hdelivered hd, hd'.trans hserial.symm, hcall, hanswer⟩

theorem BrowseShows.mono {params : BrowseParams} {model : Browse.Model}
    (h : s.BrowseShows params model) (hserial : s'.serial = s.serial)
    (hdelivered : s.delivered ⊆ s'.delivered) : s'.BrowseShows params model := by
  cases model with
  | loading p => exact h
  | loaded state => exact Answered.mono h hdelivered
  | failed message =>
    obtain ⟨err, hmessage, herr⟩ := h
    exact ⟨err, hmessage, herr.mono hserial hdelivered⟩

theorem ResultsShow.mono {params : SearchParams} {results : Search.Results}
    (h : s.ResultsShow params results) (hserial : s'.serial = s.serial)
    (hdelivered : s.delivered ⊆ s'.delivered) : s'.ResultsShow params results := by
  cases results with
  | loading => trivial
  | loaded page => exact Answered.mono h hdelivered
  | failed message =>
    obtain ⟨err, hmessage, herr⟩ := h
    exact ⟨err, hmessage, herr.mono hserial hdelivered⟩

theorem PlayerShows.mono {params : PlayerParams} {model : Player.Model}
    (h : s.PlayerShows params model) (hserial : s'.serial = s.serial)
    (hdelivered : s.delivered ⊆ s'.delivered) : s'.PlayerShows params model := by
  cases model with
  | loading p => exact h
  | loaded state =>
    rcases h with h | ⟨hitem, err, herr⟩
    · exact Or.inl (h.mono hdelivered)
    · exact Or.inr ⟨hitem, err, herr.mono hserial hdelivered⟩
  | failed message => exact h

/-- What is shown stays justified when more has been delivered. -/
theorem Shows.mono (h : s.Shows) (hroute : s'.route = s.route) (hpage : s'.page = s.page)
    (hserial : s'.serial = s.serial) (hdelivered : s.delivered ⊆ s'.delivered) : s'.Shows := by
  unfold Shows at h ⊢
  rw [hroute, hpage]
  split at h
  · exact BrowseShows.mono h hserial hdelivered
  · exact ⟨h.1, ResultsShow.mono h.2 hserial hdelivered⟩
  · exact PlayerShows.mono h hserial hdelivered
  · trivial
  · trivial
  · exact h

end Mono

/-! ### A new page -/

/-- A page that has just been set up loads, and its request is on the way. -/
theorem inv_fresh {route : Route} {n : Nat} {inFlight : List Request} {delivered : List Delivered}
    (hvalid : ∀ d ∈ delivered, Answers d.request.call d.answer)
    (hold : ∀ r ∈ inFlight, r.serial < n) :
    Inv ⟨route, (Main.routeToPage route).1, n,
      inFlight ++ sent n (Main.routeToPage route).2, delivered⟩ where
  shows := by
    cases route with
    | home => trivial
    | browse params => exact ⟨rfl, rfl⟩
    | search params => exact ⟨rfl, trivial⟩
    | player params => exact rfl
    | notFound => trivial
  valid := hvalid
  serials := by
    intro r hr
    rcases List.mem_append.mp hr with hr | hr
    · exact (hold r hr).le
    · exact (mem_sent.mp hr).1.le
  own := by
    intro r hr hserial hdata
    rcases List.mem_append.mp hr with hr | hr
    · exact absurd hserial (hold r hr).ne
    · have hcall := (mem_sent.mp hr).2
      obtain ⟨serial, call⟩ := r
      cases route with
      | home =>
        obtain rfl : call = .getLibraries := by
          simpa [Main.routeToPage, Home.init, Prod.map] using hcall
        exact absurd hdata id
      | browse params =>
        obtain rfl : call = _ := by
          simpa [Main.routeToPage, Browse.init, Prod.map] using hcall
        rfl
      | search params =>
        obtain rfl : call = _ := by
          simpa [Main.routeToPage, Search.init, Prod.map] using hcall
        rfl
      | player params =>
        obtain rfl : call = _ := by
          simpa [Main.routeToPage, Player.init, Prod.map] using hcall
        rfl
      | notFound => cases hcall
  waiting := by
    intro hwaiting
    cases route with
    | home => exact absurd hwaiting id
    | browse params =>
      exact ⟨⟨n, .getBrowse params.library params.path⟩,
        List.mem_append_right _ List.mem_cons_self, rfl⟩
    | search params =>
      exact ⟨⟨n, Search.request params⟩, List.mem_append_right _ List.mem_cons_self, rfl⟩
    | player params =>
      exact ⟨⟨n, .getItem params.library params.path⟩,
        List.mem_append_right _ List.mem_cons_self, rfl⟩
    | notFound => exact absurd hwaiting id

theorem inv_start (route : Route) : (start route).Inv := by
  show Inv ⟨route, (Main.routeToPage route).1, 0, [] ++ sent 0 (Main.routeToPage route).2, []⟩
  exact inv_fresh (fun _ hd => absurd hd List.not_mem_nil) fun _ hr => absurd hr List.not_mem_nil

/-! ### What a page shows, by its kind -/

section Kinds
variable {s : Session}

theorem shows_browse {params : BrowseParams} {model : Browse.Model}
    (hroute : s.route = .browse params) (hpage : s.page = .browse model)
    (h : s.BrowseShows params model) : s.Shows := by
  unfold Shows
  rw [hroute, hpage]
  exact h

theorem shows_search {params : SearchParams} {model : Search.Model}
    (hroute : s.route = .search params) (hpage : s.page = .search model)
    (hparams : model.params = params) (h : s.ResultsShow params model.results) : s.Shows := by
  unfold Shows
  rw [hroute, hpage]
  exact ⟨hparams, h⟩

theorem shows_player {params : PlayerParams} {model : Player.Model}
    (hroute : s.route = .player params) (hpage : s.page = .player model)
    (h : s.PlayerShows params model) : s.Shows := by
  unfold Shows
  rw [hroute, hpage]
  exact h

theorem shows_home {model : Home.Model} (hroute : s.route = .home)
    (hpage : s.page = .home model) : s.Shows := by
  unfold Shows
  rw [hroute, hpage]
  trivial

/-- A browse page shows the directory of a browse route. -/
theorem Shows.browse (h : s.Shows) {model : Browse.Model} (hpage : s.page = .browse model) :
    ∃ params, s.route = .browse params ∧ s.BrowseShows params model := by
  unfold Shows at h
  rw [hpage] at h
  cases hroute : s.route with
  | browse params => rw [hroute] at h; exact ⟨params, rfl, h⟩
  | _ => rw [hroute] at h; exact absurd h id

theorem Shows.search (h : s.Shows) {model : Search.Model} (hpage : s.page = .search model) :
    ∃ params, s.route = .search params ∧ model.params = params ∧
      s.ResultsShow params model.results := by
  unfold Shows at h
  rw [hpage] at h
  cases hroute : s.route with
  | search params => rw [hroute] at h; exact ⟨params, rfl, h⟩
  | _ => rw [hroute] at h; exact absurd h id

theorem Shows.player (h : s.Shows) {model : Player.Model} (hpage : s.page = .player model) :
    ∃ params, s.route = .player params ∧ s.PlayerShows params model := by
  unfold Shows at h
  rw [hpage] at h
  cases hroute : s.route with
  | player params => rw [hroute] at h; exact ⟨params, rfl, h⟩
  | _ => rw [hroute] at h; exact absurd h id

theorem Shows.home (h : s.Shows) {model : Home.Model} (hpage : s.page = .home model) :
    s.route = .home := by
  unfold Shows at h
  rw [hpage] at h
  cases hroute : s.route with
  | home => rfl
  | _ => rw [hroute] at h; exact absurd h id

end Kinds

/-! ### A changed URL -/

theorem urlChanged_of_not_sameDirectory {page : Page} {route : Route}
    (h : Main.sameDirectory page route = false) :
    Main.update (.urlChanged route) page = Main.routeToPage route := by
  show Main.urlChanged route page = Main.routeToPage route
  unfold Main.urlChanged
  split
  · rw [if_neg (by rw [h]; exact Bool.false_ne_true)]
    rfl
  · rfl

theorem exists_of_sameDirectory {page : Page} {route : Route}
    (h : Main.sameDirectory page route = true) :
    ∃ model params, page = .browse model ∧ route = .browse params ∧
      Browse.currentLocation model = (params.library, params.path) := by
  unfold Main.sameDirectory at h
  split at h
  · exact ⟨_, _, rfl, rfl, beq_iff_eq.mp h⟩
  · cases h

/-- The directory on show is the route's. -/
theorem Inv.currentLocation {s : Session} (h : s.Inv) {model : Browse.Model}
    {params : BrowseParams} (hshows : s.BrowseShows params model)
    (hloaded : ∀ message, model ≠ .failed message) :
    Browse.currentLocation model = (params.library, params.path) := by
  cases model with
  | loading p => exact Prod.ext hshows.1 hshows.2
  | loaded state =>
    obtain ⟨d, hd, hcall, hanswer⟩ := hshows
    have hvalid := h.valid d hd
    rw [hcall, hanswer] at hvalid
    obtain ⟨hlibrary, hpath⟩ := hvalid state.listing rfl
    exact Prod.ext hlibrary hpath
  | failed message => exact absurd rfl (hloaded message)

theorem Inv.sameDirectory {s : Session} (h : s.Inv) {model : Browse.Model}
    {params : BrowseParams} (hpage : s.page = .browse model)
    (hlocation : Browse.currentLocation model = (params.library, params.path))
    (hlibrary : params.library ≠ "") :
    Inv ⟨.browse params, .browse (Browse.updateParams params model).1, s.serial,
      s.inFlight ++ [], s.delivered⟩ := by
  obtain ⟨params₀, hroute, hshows⟩ := h.shows.browse hpage
  have hloaded : ∀ message, model ≠ .failed message := by
    rintro message rfl
    exact hlibrary (congrArg Prod.fst hlocation).symm
  have hsame := hlocation.symm.trans (h.currentLocation hshows hloaded)
  obtain ⟨hlib, hpath⟩ := Prod.mk.inj hsame
  have hdata : dataCall (.browse params) = dataCall s.route := by
    rw [hroute]
    show some (Call.getBrowse params.library params.path) =
      some (Call.getBrowse params₀.library params₀.path)
    rw [hlib, hpath]
  refine ⟨?_, h.valid, ?_, ?_, ?_⟩
  · cases model with
    | loading p => exact ⟨hshows.1.trans hlib.symm, hshows.2.trans hpath.symm⟩
    | loaded state =>
      show Answered _ (.getBrowse params.library params.path) _
      rw [hlib, hpath]
      exact hshows
    | failed message => exact absurd rfl (hloaded message)
  · simpa using h.serials
  · rw [hdata]
    simpa using h.own
  · intro hwaiting
    rw [hdata, List.append_nil]
    apply h.waiting
    rw [hpage]
    cases model with
    | loading p => trivial
    | loaded state => exact absurd hwaiting id
    | failed message => exact absurd hwaiting id

theorem Inv.navigated {s : Session} (h : s.Inv) {route : Route} (hroute : route.FromUrl) :
    (s.navigated route).Inv := by
  unfold Session.navigated nextSerial
  cases hsame : Main.sameDirectory s.page route with
  | false =>
    have hfresh : Inv ⟨route, (Main.routeToPage route).1, s.serial + 1,
        s.inFlight ++ sent (s.serial + 1) (Main.routeToPage route).2, s.delivered⟩ :=
      inv_fresh h.valid fun r hr => Nat.lt_succ_of_le (h.serials r hr)
    rw [urlChanged_of_not_sameDirectory hsame]
    exact hfresh
  | true =>
    obtain ⟨model, params, hpage, rfl, hlocation⟩ := exists_of_sameDirectory hsame
    have hupdate : Main.update (.urlChanged (.browse params)) s.page =
        (Page.browse (Browse.updateParams params model).1, []) := by
      rw [hpage] at hsame ⊢
      show (if Main.sameDirectory (.browse model) (.browse params) then _ else _) = _
      rw [if_pos hsame]
      cases model <;> rfl
    rw [hupdate]
    exact h.sameDirectory hpage hlocation hroute

/-! ### A response -/

/-- What a response has to leave, for the invariant to hold after it. -/
theorem Inv.responded_of {s : Session} (h : s.Inv) {request : Request} {answer : Answer}
    (hanswer : Answers request.call answer)
    (hshows : (s.responded request answer).Shows)
    (hsent : ∀ call : Call, Cmd.call call ∈ (Main.update answer.toMsg s.page).2 → call.IsData →
      dataCall s.route = some call)
    (hwaiting : (Main.update answer.toMsg s.page).1.Waiting →
      s.page.Waiting ∧ dataCall s.route ≠ some request.call) :
    (s.responded request answer).Inv where
  shows := hshows
  valid := by
    intro d hd
    rcases List.mem_append.mp hd with hd | hd
    · exact h.valid d hd
    · rw [List.mem_singleton.mp hd]
      exact hanswer
  serials := by
    intro r hr
    rcases List.mem_append.mp hr with hr | hr
    · exact h.serials r (List.mem_of_mem_erase hr)
    · exact (mem_sent.mp hr).1.le
  own := by
    intro r hr hserial hdata
    rcases List.mem_append.mp hr with hr | hr
    · exact h.own r (List.mem_of_mem_erase hr) hserial hdata
    · exact hsent r.call (mem_sent.mp hr).2 hdata
  waiting := by
    intro hwaits
    obtain ⟨hpage, hother⟩ := hwaiting hwaits
    obtain ⟨r, hr, hdata⟩ := h.waiting hpage
    refine ⟨r, List.mem_append_left _ ((List.mem_erase_of_ne ?_).mpr hr), hdata⟩
    rintro rfl
    exact hother hdata

/-- An answer that the page does not take. -/
theorem Inv.ignored {s : Session} (h : s.Inv) {request : Request} {answer : Answer}
    (hanswer : Answers request.call answer)
    (hupdate : Main.update answer.toMsg s.page = (s.page, []))
    (hother : s.page.Waiting → dataCall s.route ≠ some request.call) :
    (s.responded request answer).Inv := by
  refine h.responded_of hanswer ?_ ?_ ?_
  · exact h.shows.mono rfl (congrArg Prod.fst hupdate) rfl fun d hd => List.mem_append_left _ hd
  · intro call hcall
    rw [hupdate] at hcall
    cases hcall
  · intro hwaits
    rw [hupdate] at hwaits
    exact ⟨hwaits, hother hwaits⟩

/-- A response that the page takes is to a request for the route's data; a failure is to one of
the page's own. -/
theorem Inv.of_timely {s : Session} (h : s.Inv) {request : Request} {answer : Answer}
    (hreq : request ∈ s.inFlight) (hcall : request.call.IsData)
    (htimely : Timely s (.respond request answer)) (htakes : s.page.Takes answer) :
    dataCall s.route = some request.call ∧
      (¬ answer.IsOk → request.serial = s.serial ∧ ¬ s.page.Overwrites answer) := by
  rcases htimely htakes with ⟨hserial, hover⟩ | ⟨hok, hdata⟩
  · exact ⟨h.own request hreq hserial hcall, fun _ => ⟨hserial, hover⟩⟩
  · exact ⟨hdata, fun hnot => absurd hok hnot⟩

theorem answered_responded (s : Session) (request : Request) (answer : Answer) :
    (s.responded request answer).Answered request.call answer :=
  ⟨⟨request, answer⟩, List.mem_append_right _ List.mem_cons_self, rfl, rfl⟩

theorem answeredNow_responded {s : Session} {request : Request} (h : request.serial = s.serial)
    (answer : Answer) : (s.responded request answer).AnsweredNow request.call answer :=
  ⟨⟨request, answer⟩, List.mem_append_right _ List.mem_cons_self, h, rfl, rfl⟩

/-- An answer that leaves a page with something to show and sends nothing. -/
theorem Inv.took {s : Session} (h : s.Inv) {request : Request} {answer : Answer} {page : Page}
    (hanswer : Answers request.call answer)
    (hupdate : Main.update answer.toMsg s.page = (page, [])) (hpage : ¬ page.Waiting)
    (hshows : (s.responded request answer).Shows) : (s.responded request answer).Inv := by
  refine h.responded_of hanswer hshows ?_ ?_
  · intro call hcall
    rw [hupdate] at hcall
    cases hcall
  · intro hwaits
    rw [hupdate] at hwaits
    exact absurd hwaits hpage

section Responses
variable {s : Session} {request : Request}

theorem call_of_listing {call : Call} {result : Except HttpError Api.DirListing}
    (h : Answers call (.listing result)) : ∃ library path, call = .getBrowse library path := by
  cases call with
  | getBrowse library path => exact ⟨library, path, rfl⟩
  | _ => exact absurd h id

theorem call_of_results {call : Call} {result : Except HttpError Api.SearchPage}
    (h : Answers call (.results result)) :
    ∃ query library limit offset, call = .getSearch query library limit offset := by
  cases call with
  | getSearch query library limit offset => exact ⟨query, library, limit, offset, rfl⟩
  | _ => exact absurd h id

theorem call_of_item {call : Call} {result : Except HttpError Api.VideoItem}
    (h : Answers call (.item result)) : ∃ library path, call = .getItem library path := by
  cases call with
  | getItem library path => exact ⟨library, path, rfl⟩
  | _ => exact absurd h id

/-- A page that takes a listing shows the directory of its route. -/
theorem Inv.showsListing (h : s.Inv) {listing : Api.DirListing} (hreq : request ∈ s.inFlight)
    (hanswer : Answers request.call (.listing (.ok listing))) {params : BrowseParams}
    (hroute : s.route = .browse params)
    (htimely : Timely s (.respond request (.listing (.ok listing))))
    (htakes : s.page.Takes (.listing (.ok listing))) {state : Browse.BrowseState}
    (hupdate : Main.update (Answer.listing (.ok listing)).toMsg s.page =
      (.browse (.loaded state), [])) (hlisting : state.listing = listing) :
    (s.responded request (.listing (.ok listing))).Inv := by
  obtain ⟨library, path, hcall⟩ := call_of_listing hanswer
  have hdataCall : request.call.IsData := by rw [hcall]; trivial
  obtain ⟨hdata, -⟩ := h.of_timely hreq hdataCall htimely htakes
  rw [hroute] at hdata
  refine h.took hanswer hupdate id (shows_browse hroute (congrArg Prod.fst hupdate) ?_)
  show Answered _ (.getBrowse params.library params.path) _
  rw [Option.some.inj hdata, hlisting]
  exact answered_responded s request _

/-- A listing that reaches a browse page. -/
theorem Inv.listing (h : s.Inv) {result : Except HttpError Api.DirListing}
    (hreq : request ∈ s.inFlight) (hanswer : Answers request.call (.listing result))
    {model : Browse.Model} (hpage : s.page = .browse model)
    (htimely : Timely s (.respond request (.listing result))) :
    (s.responded request (.listing result)).Inv := by
  obtain ⟨params, hroute, hshows⟩ := h.shows.browse hpage
  obtain ⟨library, path, hcall⟩ := call_of_listing hanswer
  have hdataCall : request.call.IsData := by rw [hcall]; trivial
  cases result with
  | ok listing =>
    cases model with
    | failed message =>
      refine h.ignored hanswer (by rw [hpage]; rfl) ?_
      rw [hpage]
      exact fun hwaits => absurd hwaits id
    | loading p =>
      have htakes : s.page.Takes (.listing (.ok listing)) := by rw [hpage]; trivial
      have hupdate : Main.update (Answer.listing (.ok listing)).toMsg s.page =
          (.browse (.loaded ⟨listing, p.page, "", ∅⟩), []) := by rw [hpage]; rfl
      exact h.showsListing hreq hanswer hroute htimely htakes hupdate rfl
    | loaded state =>
      have htakes : s.page.Takes (.listing (.ok listing)) := by rw [hpage]; trivial
      have hupdate : Main.update (Answer.listing (.ok listing)).toMsg s.page =
          (.browse (.loaded { state with listing := listing }), []) := by rw [hpage]; rfl
      exact h.showsListing hreq hanswer hroute htimely htakes hupdate rfl
  | error err =>
    have htakes : s.page.Takes (.listing (.error err)) := by
      rw [hpage]
      cases model <;> trivial
    obtain ⟨hdata, hown⟩ := h.of_timely hreq hdataCall htimely htakes
    obtain ⟨hserial, -⟩ := hown (by rintro ⟨r, hr⟩; cases hr)
    rw [hroute] at hdata
    have hupdate : Main.update (Answer.listing (.error err)).toMsg s.page =
        (.browse (.failed err.text), []) := by
      rw [hpage]
      cases model <;> rfl
    refine h.took hanswer hupdate id (shows_browse hroute (congrArg Prod.fst hupdate) ?_)
    refine ⟨err, rfl, ?_⟩
    rw [Option.some.inj hdata]
    exact answeredNow_responded hserial _

/-- A page of results that reaches a search page. -/
theorem Inv.results (h : s.Inv) {result : Except HttpError Api.SearchPage}
    (hreq : request ∈ s.inFlight) (hanswer : Answers request.call (.results result))
    {model : Search.Model} (hpage : s.page = .search model)
    (htimely : Timely s (.respond request (.results result))) :
    (s.responded request (.results result)).Inv := by
  obtain ⟨params, hroute, hparams, hshows⟩ := h.shows.search hpage
  obtain ⟨query, library, limit, offset, hcall⟩ := call_of_results hanswer
  have hdataCall : request.call.IsData := by rw [hcall]; trivial
  have htakes : s.page.Takes (.results result) := by rw [hpage]; trivial
  obtain ⟨hdata, hown⟩ := h.of_timely hreq hdataCall htimely htakes
  rw [hroute] at hdata
  have hrequest : Search.request params = request.call := Option.some.inj hdata
  cases result with
  | ok page =>
    have hupdate : Main.update (Answer.results (.ok page)).toMsg s.page =
        (.search { model with results := .loaded page }, []) := by rw [hpage]; rfl
    refine h.took hanswer hupdate (fun hwaits => by cases hwaits)
      (shows_search hroute (congrArg Prod.fst hupdate) hparams ?_)
    show Answered _ (Search.request params) _
    rw [hrequest]
    exact answered_responded s request _
  | error err =>
    obtain ⟨hserial, -⟩ := hown (by rintro ⟨r, hr⟩; cases hr)
    have hupdate : Main.update (Answer.results (.error err)).toMsg s.page =
        (.search { model with results := .failed err.text }, []) := by rw [hpage]; rfl
    refine h.took hanswer hupdate (fun hwaits => by cases hwaits)
      (shows_search hroute (congrArg Prod.fst hupdate) hparams ⟨err, rfl, ?_⟩)
    rw [hrequest]
    exact answeredNow_responded hserial _

/-- An item that reaches a player. -/
theorem Inv.item (h : s.Inv) {result : Except HttpError Api.VideoItem}
    (hreq : request ∈ s.inFlight) (hanswer : Answers request.call (.item result))
    {model : Player.Model} (hpage : s.page = .player model)
    (htimely : Timely s (.respond request (.item result))) :
    (s.responded request (.item result)).Inv := by
  obtain ⟨params, hroute, hshows⟩ := h.shows.player hpage
  obtain ⟨library, path, hcall⟩ := call_of_item hanswer
  have hdataCall : request.call.IsData := by rw [hcall]; trivial
  have htakes : s.page.Takes (.item result) := by rw [hpage]; trivial
  obtain ⟨hdata, hown⟩ := h.of_timely hreq hdataCall htimely htakes
  rw [hroute] at hdata
  have hrequest : Call.getItem params.library params.path = request.call := Option.some.inj hdata
  cases result with
  | ok item =>
    have hupdate : Main.update (Answer.item (.ok item)).toMsg s.page =
        (.player (.loaded ⟨item, 0, none⟩), []) := by
      rw [hpage]
      cases model <;> rfl
    refine h.took hanswer hupdate id
      (shows_player hroute (congrArg Prod.fst hupdate) (Or.inl ?_))
    rw [hrequest]
    exact answered_responded s request _
  | error err =>
    obtain ⟨hserial, hover⟩ := hown (by rintro ⟨r, hr⟩; cases hr)
    cases model with
    | failed message => exact absurd hshows id
    | loaded state => exact absurd (by rw [hpage]; trivial) hover
    | loading p =>
      obtain rfl : p = params := hshows
      have hupdate : Main.update (Answer.item (.error err)).toMsg s.page =
          (.player (.loaded ⟨Player.bareItem p.library p.path, 0, none⟩), []) := by
        rw [hpage]
        rfl
      refine h.took hanswer hupdate id
        (shows_player hroute (congrArg Prod.fst hupdate) (Or.inr ⟨rfl, err, ?_⟩))
      rw [hrequest]
      exact answeredNow_responded hserial _

/-- The outcome of a pick that reaches a browse page: the directory on show is asked for
again. -/
theorem Inv.mainTitle (h : s.Inv) {result : Except HttpError Unit}
    (hanswer : Answers request.call (.mainTitle result)) {model : Browse.Model}
    (hpage : s.page = .browse model) (hother : dataCall s.route ≠ some request.call) :
    (s.responded request (.mainTitle result)).Inv := by
  obtain ⟨params, hroute, hshows⟩ := h.shows.browse hpage
  have hfst : (Main.update (Answer.mainTitle result).toMsg s.page).1 = s.page := by
    rw [hpage]
    cases result <;> cases model <;> rfl
  refine h.responded_of hanswer ?_ ?_ ?_
  · exact h.shows.mono rfl hfst rfl fun d hd => List.mem_append_left _ hd
  · intro call hcall hdata
    rw [hpage] at hcall
    cases result with
    | error err => cases model <;> cases hcall
    | ok _ =>
      cases model with
      | loading p => cases hcall
      | failed message => cases hcall
      | loaded state =>
        have hlocation : (state.listing.library, state.listing.path) =
            (params.library, params.path) :=
          h.currentLocation hshows fun message => by rintro ⟨⟩
        obtain ⟨hlib, hpath⟩ := Prod.mk.inj hlocation
        obtain rfl : call = .getBrowse state.listing.library state.listing.path := by
          simpa [Main.update, Answer.toMsg, Browse.update, Prod.map] using hcall
        rw [hroute, hlib, hpath]
        rfl
  · intro hwaits
    rw [hfst] at hwaits
    exact ⟨hwaits, hother⟩

theorem Inv.expects (h : s.Inv) {call : Call} (hdata : dataCall s.route = some call)
    (hwaits : s.page.Waiting) : s.page.Expects call := by
  cases hpage : s.page with
  | browse model =>
    obtain ⟨params, hroute, -⟩ := h.shows.browse hpage
    rw [hroute] at hdata
    obtain rfl := Option.some.inj hdata
    trivial
  | search model =>
    obtain ⟨params, hroute, -, -⟩ := h.shows.search hpage
    rw [hroute] at hdata
    obtain rfl := Option.some.inj hdata
    trivial
  | player model =>
    obtain ⟨params, hroute, -⟩ := h.shows.player hpage
    rw [hroute] at hdata
    obtain rfl := Option.some.inj hdata
    trivial
  | _ =>
    rw [hpage] at hwaits
    exact absurd hwaits id

/-- An answer to another kind of request. -/
theorem Inv.ignored_unexpected (h : s.Inv) {answer : Answer} (hanswer : Answers request.call answer)
    (hupdate : Main.update answer.toMsg s.page = (s.page, []))
    (hother : ¬ s.page.Expects request.call) : (s.responded request answer).Inv :=
  h.ignored hanswer hupdate fun hwaits hdata => hother (h.expects hdata hwaits)

theorem isData_of_dataCall {route : Route} {call : Call} (h : dataCall route = some call) :
    call.IsData := by
  cases route with
  | home => cases h
  | notFound => cases h
  | browse params => obtain rfl := Option.some.inj h; trivial
  | search params => obtain rfl := Option.some.inj h; trivial
  | player params => obtain rfl := Option.some.inj h; trivial

/-- One response in time. -/
theorem Inv.responded (h : s.Inv) {answer : Answer} (hreq : request ∈ s.inFlight)
    (hanswer : Answers request.call answer) (htimely : Timely s (.respond request answer)) :
    (s.responded request answer).Inv := by
  cases answer with
  | libraries result =>
    have hother : dataCall s.route ≠ some request.call := by
      intro hdata
      have hcall := isData_of_dataCall hdata
      cases hc : request.call with
      | getLibraries => rw [hc] at hcall; exact hcall
      | _ => rw [hc] at hanswer; exact hanswer
    cases hpage : s.page with
    | home model =>
      have hroute := h.shows.home hpage
      have hupdate : Main.update (Answer.libraries result).toMsg s.page =
          (.home (Home.update (.gotLibraries result) model).1, []) := by
        rw [hpage]
        cases result <;> rfl
      exact h.took hanswer hupdate id (shows_home hroute (congrArg Prod.fst hupdate))
    | _ => exact h.ignored hanswer (by rw [hpage]; rfl) fun _ => hother
  | listing result =>
    obtain ⟨library, path, hcall⟩ := call_of_listing hanswer
    cases hpage : s.page with
    | browse model => exact h.listing hreq hanswer hpage htimely
    | _ =>
      apply h.ignored_unexpected hanswer
      · rw [hpage]
        rfl
      · rw [hpage, hcall]
        exact id
  | results result =>
    obtain ⟨query, library, limit, offset, hcall⟩ := call_of_results hanswer
    cases hpage : s.page with
    | search model => exact h.results hreq hanswer hpage htimely
    | _ =>
      apply h.ignored_unexpected hanswer
      · rw [hpage]
        rfl
      · rw [hpage, hcall]
        exact id
  | item result =>
    obtain ⟨library, path, hcall⟩ := call_of_item hanswer
    cases hpage : s.page with
    | player model => exact h.item hreq hanswer hpage htimely
    | _ =>
      apply h.ignored_unexpected hanswer
      · rw [hpage]
        cases result <;> rfl
      · rw [hpage, hcall]
        exact id
  | mainTitle result =>
    have hother : dataCall s.route ≠ some request.call := by
      intro hdata
      have hcall := isData_of_dataCall hdata
      cases hc : request.call with
      | postMainTitle library discSet path => rw [hc] at hcall; exact hcall
      | _ => rw [hc] at hanswer; exact hanswer
    cases hpage : s.page with
    | browse model => exact h.mainTitle hanswer hpage hother
    | _ => exact h.ignored hanswer (by rw [hpage]; rfl) fun _ => hother

end Responses

/-! ### A message of the page -/

/-- What an interaction has to leave. -/
theorem Inv.interacted_of {s : Session} (h : s.Inv) {msg : Msg}
    (hshows : (s.interacted msg).Shows)
    (hsent : ∀ call : Call, Cmd.call call ∈ (Main.update msg s.page).2 → ¬ call.IsData)
    (hwaiting : (Main.update msg s.page).1.Waiting → s.page.Waiting) :
    (s.interacted msg).Inv where
  shows := hshows
  valid := h.valid
  serials := by
    intro r hr
    rcases List.mem_append.mp hr with hr | hr
    · exact h.serials r hr
    · exact (mem_sent.mp hr).1.le
  own := by
    intro r hr hserial hdata
    rcases List.mem_append.mp hr with hr | hr
    · exact h.own r hr hserial hdata
    · exact absurd hdata (hsent r.call (mem_sent.mp hr).2)
  waiting := by
    intro hwaits
    obtain ⟨r, hr, hdata⟩ := h.waiting (hwaiting hwaits)
    exact ⟨r, List.mem_append_left _ hr, hdata⟩

/-- An interaction that leaves the page alone and asks for no data. -/
theorem Inv.interacted_same {s : Session} (h : s.Inv) {msg : Msg}
    (hpage : (Main.update msg s.page).1 = s.page)
    (hsent : ∀ call : Call, Cmd.call call ∈ (Main.update msg s.page).2 → ¬ call.IsData) :
    (s.interacted msg).Inv :=
  h.interacted_of (h.shows.mono rfl hpage rfl fun _ hd => hd) hsent fun hwaits => by
    rwa [hpage] at hwaits

/-- A local message keeps the listing on show. -/
theorem browse_update_local {msg : Browse.Msg} (hlocal : (Msg.browseMsg msg).IsLocal)
    (model : Browse.Model) :
    ((Browse.update msg model).1 = model ∨ ∃ state state', model = .loaded state ∧
        (Browse.update msg model).1 = .loaded state' ∧ state'.listing = state.listing) ∧
      ∀ call, Cmd.call call ∈ (Browse.update msg model).2 → ¬ call.IsData := by
  cases msg with
  | gotListing result => exact absurd hlocal id
  | mainPicked result => exact absurd hlocal id
  | queryInput query =>
    cases model with
    | loaded state => exact ⟨Or.inr ⟨state, _, rfl, rfl, rfl⟩, fun call hcall => by cases hcall⟩
    | _ => exact ⟨Or.inl rfl, fun call hcall => by cases hcall⟩
  | querySubmit =>
    cases model with
    | loaded state =>
      simp only [Browse.update]
      split
      · exact ⟨Or.inl rfl, fun call hcall => by cases hcall⟩
      · exact ⟨Or.inl rfl, fun call hcall => by simp at hcall⟩
    | _ => exact ⟨Or.inl rfl, fun call hcall => by cases hcall⟩
  | goToPage page =>
    cases model with
    | loaded state =>
      exact ⟨Or.inr ⟨state, _, rfl, rfl, rfl⟩, fun call hcall => by simp [Browse.update] at hcall⟩
    | _ => exact ⟨Or.inl rfl, fun call hcall => by cases hcall⟩
  | toggleSet discSet =>
    cases model with
    | loaded state => exact ⟨Or.inr ⟨state, _, rfl, rfl, rfl⟩, fun call hcall => by cases hcall⟩
    | _ => exact ⟨Or.inl rfl, fun call hcall => by cases hcall⟩
  | pickMain discSet path =>
    cases model with
    | loaded state =>
      refine ⟨Or.inl rfl, fun call hcall => ?_⟩
      obtain rfl : call = .postMainTitle state.listing.library discSet path := by
        simpa [Browse.update] using hcall
      exact id
    | _ => exact ⟨Or.inl rfl, fun call hcall => by cases hcall⟩

/-- A local message keeps the item on show. -/
theorem player_update_local {msg : Player.Msg} (hlocal : (Msg.playerMsg msg).IsLocal)
    (model : Player.Model) :
    ((Player.update msg model).1 = model ∨ ∃ state state', model = .loaded state ∧
        (Player.update msg model).1 = .loaded state' ∧ state'.item = state.item) ∧
      (Player.update msg model).2 = [] := by
  cases msg with
  | gotItem result => exact absurd hlocal id
  | _ =>
    cases model with
    | loaded state => exact ⟨Or.inr ⟨state, _, rfl, rfl, rfl⟩, rfl⟩
    | _ => exact ⟨Or.inl rfl, rfl⟩

theorem Inv.home {s : Session} (h : s.Inv) {msg : Home.Msg} {model : Home.Model}
    (hpage : s.page = .home model) (hlocal : (Msg.homeMsg msg).IsLocal) :
    (s.interacted (.homeMsg msg)).Inv := by
  have hupdate : Main.update (.homeMsg msg) s.page =
      (.home (Home.update msg model).1, (Home.update msg model).2) := by
    rw [hpage]
    rfl
  refine h.interacted_of
    (shows_home (h.shows.home hpage) (congrArg Prod.fst hupdate)) ?_ ?_
  · intro call hcall
    rw [hupdate] at hcall
    cases msg with
    | gotLibraries result => exact absurd hlocal id
    | queryInput query => cases hcall
    | querySubmit =>
      simp only [Home.update] at hcall
      split at hcall
      · cases hcall
      · simp at hcall
  · rw [hupdate]
    exact fun hwaits => absurd hwaits id

theorem Inv.browse {s : Session} (h : s.Inv) {msg : Browse.Msg} {model : Browse.Model}
    (hpage : s.page = .browse model) (hlocal : (Msg.browseMsg msg).IsLocal) :
    (s.interacted (.browseMsg msg)).Inv := by
  obtain ⟨hmodel, hsent⟩ := browse_update_local hlocal model
  have hupdate : Main.update (.browseMsg msg) s.page =
      (.browse (Browse.update msg model).1, (Browse.update msg model).2) := by
    rw [hpage]
    rfl
  have hcalls : ∀ call, Cmd.call call ∈ (Main.update (.browseMsg msg) s.page).2 →
      ¬ call.IsData := by
    rw [hupdate]
    exact hsent
  rcases hmodel with hsame | ⟨state, state', rfl, hstate, hlisting⟩
  · exact h.interacted_same (by rw [hupdate, hsame, hpage]) hcalls
  · obtain ⟨params, hroute, hshows⟩ := h.shows.browse hpage
    rw [hstate] at hupdate
    refine h.interacted_of (shows_browse hroute (congrArg Prod.fst hupdate) ?_) hcalls ?_
    · show Answered _ _ (.listing (.ok state'.listing))
      rw [hlisting]
      exact Answered.mono hshows fun _ hd => hd
    · rw [hupdate]
      exact fun hwaits => absurd hwaits id

theorem Inv.search {s : Session} (h : s.Inv) {msg : Search.Msg} {model : Search.Model}
    (hpage : s.page = .search model) (hlocal : (Msg.searchMsg msg).IsLocal) :
    (s.interacted (.searchMsg msg)).Inv := by
  obtain ⟨params, hroute, hparams, hshows⟩ := h.shows.search hpage
  have hupdate : Main.update (.searchMsg msg) s.page =
      (.search (Search.update msg model).1, (Search.update msg model).2) := by
    rw [hpage]
    rfl
  have hkept : (Search.update msg model).1.params = model.params ∧
      (Search.update msg model).1.results = model.results := by
    cases msg with
    | gotResults result => exact absurd hlocal id
    | _ => exact ⟨rfl, rfl⟩
  refine h.interacted_of (shows_search hroute (congrArg Prod.fst hupdate)
    (hkept.1.trans hparams) ?_) ?_ ?_
  · rw [hkept.2]
    exact ResultsShow.mono hshows rfl fun _ hd => hd
  · intro call hcall
    rw [hupdate] at hcall
    cases msg with
    | gotResults result => exact absurd hlocal id
    | queryInput input => cases hcall
    | _ => simp [Search.update] at hcall
  · rw [hupdate, hpage]
    exact fun hwaits => hkept.2.symm.trans hwaits

theorem Inv.player {s : Session} (h : s.Inv) {msg : Player.Msg} {model : Player.Model}
    (hpage : s.page = .player model) (hlocal : (Msg.playerMsg msg).IsLocal) :
    (s.interacted (.playerMsg msg)).Inv := by
  obtain ⟨hmodel, hsent⟩ := player_update_local hlocal model
  have hfst : (Main.update (.playerMsg msg) s.page).1 =
      .player (Player.update msg model).1 := by
    rw [hpage]
    cases msg <;> rfl
  have hcalls : ∀ call, Cmd.call call ∈ (Main.update (.playerMsg msg) s.page).2 →
      ¬ call.IsData := by
    intro call hcall
    rw [hpage] at hcall
    cases msg with
    | mediaError code =>
      simp only [Main.update, Prod.map, hsent, List.nil_append, List.mem_singleton,
        reduceCtorEq] at hcall
    | _ =>
      simp only [Main.update, Prod.map, hsent, id] at hcall
      cases hcall
  rcases hmodel with hsame | ⟨state, state', rfl, hstate, hitem⟩
  · exact h.interacted_same (by rw [hfst, hsame, hpage]) hcalls
  · obtain ⟨params, hroute, hshows⟩ := h.shows.player hpage
    rw [hstate] at hfst
    refine h.interacted_of (shows_player hroute hfst ?_) hcalls ?_
    · rcases hshows with hshows | ⟨hbare, err, herr⟩
      · refine Or.inl ?_
        rw [hitem]
        exact hshows.mono fun _ hd => hd
      · exact Or.inr ⟨hitem.trans hbare, err, herr.mono rfl fun _ hd => hd⟩
    · rw [hfst]
      exact fun hwaits => absurd hwaits id

/-- One interaction. -/
theorem Inv.interacted {s : Session} (h : s.Inv) {msg : Msg} (hlocal : msg.IsLocal) :
    (s.interacted msg).Inv := by
  have hignored : Main.update msg s.page = (s.page, []) → (s.interacted msg).Inv := by
    intro hupdate
    refine h.interacted_same (congrArg Prod.fst hupdate) fun call hcall => ?_
    rw [hupdate] at hcall
    cases hcall
  cases msg with
  | linkClicked route =>
    exact h.interacted_same rfl fun call hcall => by simp [Main.update] at hcall
  | urlChanged route => exact absurd hlocal id
  | homeMsg msg =>
    cases hpage : s.page with
    | home model => exact h.home hpage hlocal
    | _ => exact hignored (by rw [hpage]; rfl)
  | browseMsg msg =>
    cases hpage : s.page with
    | browse model => exact h.browse hpage hlocal
    | _ => exact hignored (by rw [hpage]; rfl)
  | searchMsg msg =>
    cases hpage : s.page with
    | search model => exact h.search hpage hlocal
    | _ => exact hignored (by rw [hpage]; rfl)
  | playerMsg msg =>
    cases hpage : s.page with
    | player model => exact h.player hpage hlocal
    | _ => exact hignored (by rw [hpage]; cases msg <;> rfl)

/-- One step in time. -/
theorem Inv.step {s s' : Session} {action : Action} (h : s.Inv)
    (hstep : Lib.guarded SessionStep Timely s action s') : s'.Inv := by
  obtain ⟨hstep, htimely⟩ := hstep
  cases hstep with
  | navigate hroute => exact h.navigated hroute
  | respond hreq hanswer => exact h.responded hreq hanswer htimely
  | interact hlocal => exact h.interacted hlocal

end Session

/-- In a run whose responses are all in time, every page shows an answer to its own request, and
once everything has arrived it has one to show. -/
theorem shows_of_timely_run {route : Route} {actions : List Action} {s : Session}
    (hrun : Lib.Run (Lib.guarded SessionStep Timely) (Session.start route) actions s) :
    s.Shows ∧ (s.inFlight = [] → ¬ s.page.Waiting) := by
  have h : s.Inv := hrun.invariant (fun _ _ _ h hstep => h.step hstep) (Session.inv_start route)
  refine ⟨h.shows, fun hempty hwaits => ?_⟩
  obtain ⟨r, hr, -⟩ := h.waiting hwaits
  rw [hempty] at hr
  cases hr

namespace TwoDirectories

/-- The first directory, and the one the user goes on to before its listing is there. -/
def first : BrowseParams := ⟨"videos", "concerts", 1⟩
def second : BrowseParams := ⟨"videos", "films", 1⟩

def request (n : Nat) (params : BrowseParams) : Request :=
  ⟨n, .getBrowse params.library params.path⟩

def listing (params : BrowseParams) : Answer :=
  .listing (.ok ⟨params.library, params.path, []⟩)

theorem answers_listing (n : Nat) (params : BrowseParams) :
    Answers (request n params).call (listing params) := by
  rintro _ ⟨⟩
  exact ⟨rfl, rfl⟩

def opened : Session := (Session.start (.browse first)).navigated (.browse second)

/-- The second directory's listing has come. -/
def answered : Session := opened.responded (request 1 second) (listing second)

/-- The first one's comes after it. -/
def overtaken : Session := answered.responded (request 0 first) (listing first)

def visit : List Action :=
  [.navigate (.browse second), .respond (request 1 second) (listing second)]

theorem run_visit : Lib.Run SessionStep (Session.start (.browse first)) visit answered :=
  .cons (.navigate _ (by decide))
    (.single (.respond _ (by decide) (answers_listing 1 second)))

theorem run_overtaken : Lib.Run SessionStep (Session.start (.browse first))
    (visit ++ [.respond (request 0 first) (listing first)]) overtaken :=
  run_visit.append (.single (.respond _ (by decide) (answers_listing 0 first)))

/-- With nothing left in flight the page of the second directory shows the first one. -/
theorem first_directory_stays :
    ¬ ∀ (route : Route) (actions : List Action) (s : Session),
      Lib.Run SessionStep (Session.start route) actions s → s.Shows := by
  intro h
  have hshows : overtaken.Shows := h _ _ _ run_overtaken
  obtain ⟨d, hd, hcall, hanswer⟩ : overtaken.Answered (.getBrowse "videos" "films")
      (.listing (.ok ⟨"videos", "concerts", []⟩)) := hshows
  have hd : d ∈ [Delivered.mk (request 1 second) (listing second),
      Delivered.mk (request 0 first) (listing first)] := hd
  simp only [List.mem_cons, List.not_mem_nil, or_false] at hd
  rcases hd with rfl | rfl
  · exact absurd hanswer (by simp [listing, second])
  · exact absurd hcall (by decide)

/-- As long as the first answer is still under way the second directory is shown. -/
theorem shows_second : answered.Shows ∧ (answered.inFlight = [] → ¬ answered.page.Waiting) := by
  have htimely : Lib.Run (Lib.guarded SessionStep Timely) (Session.start (.browse first)) visit
      answered := by
    refine .cons ⟨.navigate _ (by decide), trivial⟩ ?_
    exact .single ⟨.respond _ (by decide) (answers_listing 1 second),
      fun _ => Or.inl ⟨rfl, id⟩⟩
  exact shows_of_timely_run htimely

end TwoDirectories

end Loku
