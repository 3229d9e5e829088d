import Loku.Frontend.Paging
import Loku.Routes.Navigation
import Loku.System.Visit

/-!
# Every video can be played

From any state of a visit the visitor can come to the player of any indexed video, by what the
pages offer: home, the library, its directories one after the other, the page of the listing that
shows the video or its set, and the link of the title (`every_video`).
-/

namespace Loku

namespace Visit

open Lib (CanReach)

variable {s : ServerState} {reader : FormReader} {fromFloat : Rat → String} {v : Visit}

/-! ## Steps of a visitor -/

/-- A state of a visit in which all URLs have been announced. -/
structure Quiet (s : ServerState) (v : Visit) : Prop where
  inv : v.SoundInv s
  pushed : v.pushed = []

theorem reach_quiet (hs : s.Sound) {v : Visit} (h : v.SoundInv s) :
    CanReach (VisitStep reader fromFloat) v (Quiet s) := by
  generalize hpushed : v.pushed = urls
  induction urls generalizing v with
  | nil => exact .here ⟨h, hpushed⟩
  | cons url rest ih =>
    have hstep : VisitStep reader fromFloat v _ _ := .announce hpushed
    exact .of_step hstep (ih (h.step hs hstep) rfl)

/-- A request that is on the way is answered, and the page goes on from there. -/
theorem Quiet.load (hs : s.Sound) (h : v.Quiet s) {r : Request} (hr : r ∈ v.client.inFlight)
    {page : Page} {cmds : List Cmd}
    (hupdate : Main.update (r.call.answer (r.call.handled v.server).2).toMsg v.client.page =
      (page, cmds)) :
    CanReach (VisitStep reader fromFloat) v fun v' => v'.Quiet s ∧
      v'.server = (r.call.handled v.server).1 ∧ v'.client.page = page ∧
        (∀ call, Cmd.call call ∈ cmds → ∃ sent ∈ v'.client.inFlight, sent.call = call) ∧
        v'.returned = v.returned ++ [(r, (r.call.handled v.server).2)] := by
  have hserve : VisitStep reader fromFloat v _ _ :=
    .serve hr (appRoutes_request reader v.server r.call)
  have hinv := h.inv.step hs hserve
  have harrive : VisitStep reader fromFloat (v.served r (r.call.handled v.server)) _ _ :=
    .arrive hr (List.mem_append_right _ List.mem_cons_self)
  refine .of_step hserve (.of_step harrive (.here ⟨⟨hinv.step hs harrive, h.pushed⟩, rfl,
    congrArg Prod.fst hupdate, fun call hcall => ?_, rfl⟩))
  refine ⟨⟨v.client.serial, call⟩, List.mem_append_right _ (Session.mem_sent.mpr ⟨rfl, ?_⟩), rfl⟩
  show Cmd.call call ∈ (Main.update _ v.client.page).2
  rw [hupdate]
  exact hcall

/-- A page that loads gets an answer that it takes. -/
theorem Quiet.load_page (hs : s.Sound) (h : v.Quiet s) {call : Call}
    (hcall : v.client.page.Awaits call) :
    CanReach (VisitStep reader fromFloat) v fun v' => v'.Quiet s ∧
      ∃ c answer, v.client.page.Awaits c ∧ s.world.Truthful c answer ∧
        v'.client.page = (Main.update answer.toMsg v.client.page).1 := by
  obtain ⟨r, hr, hawaits⟩ := h.inv.visit.loads call hcall
  refine (h.load hs hr rfl).mono ?_
  rintro v' ⟨hquiet, -, hpage, -⟩
  exact ⟨hquiet, r.call, _, hawaits, (h.inv.truthful_answer hs (h.inv.visit.serves r hr)).2, hpage⟩

/-- The one URL that is pushed is announced, and its page loads. -/
theorem SoundInv.go_to (hs : s.Sound) (h : v.SoundInv s) {route : Route}
    (hroute : s.world.Leads route) (hpushed : v.pushed = [route.toString])
    (hfresh : Main.sameDirectory v.client.page route = false) {page : Page} {call : Call}
    (hpage : Main.routeToPage route = (page, [.call call]))
    (hget : (call.handled v.server).1 = v.server) :
    CanReach (VisitStep reader fromFloat) v fun v' => v'.Quiet s ∧ v'.server = v.server ∧
      v'.client.page = (Main.update (call.answer (call.handled v.server).2).toMsg page).1 := by
  have hannounce : VisitStep reader fromFloat v _ _ := .announce hpushed
  have hquiet : ({ v.navigated route.toString with pushed := [] } : Visit).Quiet s :=
    ⟨h.step hs hannounce, rfl⟩
  have hclient : (v.navigated route.toString).client = v.client.navigated route := by
    show v.client.navigated (Route.parse (Url.ofText route.toString)) = _
    rw [hs.coherent.parse_toString hroute]
  have hupdate := Session.urlChanged_of_not_sameDirectory hfresh
  rw [hpage] at hupdate
  have hpage₁ : (v.navigated route.toString).client.page = page := by
    rw [hclient]
    exact congrArg Prod.fst hupdate
  have hsent : ⟨v.client.nextSerial route, call⟩ ∈
      (v.navigated route.toString).client.inFlight := by
    rw [hclient]
    refine List.mem_append_right _ (Session.mem_sent.mpr ⟨rfl, ?_⟩)
    rw [hupdate]
    exact List.mem_cons_self
  refine .of_step hannounce ((hquiet.load hs hsent rfl).mono ?_)
  rintro v' ⟨hquiet', hserver, hpage', -⟩
  refine ⟨hquiet', hserver.trans hget, ?_⟩
  rw [← hpage₁]
  exact hpage'

/-- A link to another page is followed until the page shows its data. -/
theorem Quiet.enter (hs : s.Sound) (h : v.Quiet s) {route : Route} (hroute : s.world.Leads route)
    (hlink : (Main.view fromFloat v.client.page).Links route.toString)
    (hfresh : Main.sameDirectory v.client.page route = false) {page : Page} {call : Call}
    (hpage : Main.routeToPage route = (page, [.call call]))
    (hget : (call.handled v.server).1 = v.server) :
    CanReach (VisitStep reader fromFloat) v fun v' => v'.Quiet s ∧ v'.server = v.server ∧
      v'.client.page = (Main.update (call.answer (call.handled v.server).2).toMsg page).1 := by
  have hclick : VisitStep reader fromFloat v _ _ := .click hlink
  have hpushed : (v.clicked route.toString).pushed = [route.toString] := by
    show v.pushed ++ [route.toString] = _
    rw [h.pushed]
    rfl
  exact .of_step hclick ((h.inv.step hs hclick).go_to hs hroute hpushed hfresh hpage hget)

/-- A control is used that changes nothing but the page. -/
theorem Quiet.use_here (hs : s.Sound) (h : v.Quiet s) {msg : Msg}
    (hsends : (Main.view fromFloat v.client.page).Sends msg) {page : Page}
    (hupdate : Main.update msg v.client.page = (page, [])) :
    CanReach (VisitStep reader fromFloat) v fun v' => v'.Quiet s ∧ v'.server = v.server ∧
      v'.client.page = page := by
  have huse : VisitStep reader fromFloat v _ _ := .use hsends
  refine .of_step huse (.here ⟨⟨h.inv.step hs huse, ?_⟩, rfl, congrArg Prod.fst hupdate⟩)
  unfold Visit.used
  rw [h.pushed, hupdate]
  rfl

/-! ## Home -/

/-- The home page, with the libraries. -/
def AtHome (s : ServerState) (v : Visit) : Prop :=
  ∃ query, v.client.page = .home ⟨.loaded s.libraryInfos, query⟩

/-- A link home is followed. -/
theorem Quiet.home_of_link (hs : s.Sound) (h : v.Quiet s)
    (hlink : (Main.view fromFloat v.client.page).Links Route.home.toString) :
    CanReach (VisitStep reader fromFloat) v fun v' => v'.Quiet s ∧ AtHome s v' := by
  have hfresh : Main.sameDirectory v.client.page .home = false := by
    cases v.client.page <;> rfl
  have hleads : s.world.Leads .home := trivial
  refine (h.enter hs hleads hlink hfresh rfl rfl).mono ?_
  rintro v' ⟨hquiet, -, hpage⟩
  refine ⟨hquiet, "", ?_⟩
  have hserves : s.world.Serves .getLibraries := trivial
  have htruthful := (h.inv.truthful_answer hs hserves).2
  rw [hpage]
  generalize Call.answer _ _ = answer at htruthful
  cases htruthful
  rfl

theorem Quiet.home_of_browse (hs : s.Sound) (h : v.Quiet s) {state : Browse.BrowseState}
    (hpage : v.client.page = .browse (.loaded state)) :
    CanReach (VisitStep reader fromFloat) v fun v' => v'.Quiet s ∧ AtHome s v' := by
  refine h.home_of_link hs ?_
  rw [hpage, Main.links_browse]
  exact Browse.links_viewLoaded.mpr (Or.inl (Browse.links_viewBreadcrumb.mpr (Or.inl rfl)))

theorem Quiet.home_of_player (hs : s.Sound) (h : v.Quiet s) {state : Player.PlayerState}
    (hpage : v.client.page = .player (.loaded state)) :
    CanReach (VisitStep reader fromFloat) v fun v' => v'.Quiet s ∧ AtHome s v' := by
  have hshows := h.inv.visit.shows
  rw [hpage] at hshows
  have hback := hs.coherent.directory_back (World.Plays.has hshows id)
  have hlink : (Main.view fromFloat v.client.page).Links (Route.browse
      ⟨state.item.library, Player.parentPath state.item.path, 1⟩).toString := by
    rw [hpage, Main.links_player]
    exact Player.links_viewLoaded.mpr rfl
  have hfresh : Main.sameDirectory v.client.page (.browse
      ⟨state.item.library, Player.parentPath state.item.path, 1⟩) = false := by
    rw [hpage]
    rfl
  refine (h.enter hs (World.Directory.leads hback) hlink hfresh rfl rfl).trans ?_
  rintro v' ⟨hquiet, -, hpage'⟩
  have hserves : s.world.Serves
      (.getBrowse state.item.library (Player.parentPath state.item.path)) := hback
  have htruthful := (h.inv.truthful_answer hs hserves).2
  obtain ⟨listing, hanswer⟩ := htruthful.of_getBrowse id
  rw [hanswer] at hpage'
  exact hquiet.home_of_browse hs hpage'

/-- The home page gets its libraries. -/
theorem Quiet.home_of_loading (hs : s.Sound) (h : v.Quiet s) {query : String}
    (hpage : v.client.page = .home ⟨.loading, query⟩) :
    CanReach (VisitStep reader fromFloat) v fun v' => v'.Quiet s ∧ AtHome s v' := by
  have hawaits : v.client.page.Awaits .getLibraries := by
    rw [hpage]
    rfl
  refine (h.load_page hs hawaits).mono ?_
  rintro v' ⟨hquiet, c, answer, hc, htruthful, hpage'⟩
  rw [hpage] at hc hpage'
  cases htruthful with
  | libraries => exact ⟨hquiet, query, hpage'⟩
  | _ => exact hc.elim

/-- A directory page gets its listing. -/
theorem Quiet.browse_of_loading (hs : s.Sound) (h : v.Quiet s) {params : BrowseParams}
    (hpage : v.client.page = .browse (.loading params)) :
    CanReach (VisitStep reader fromFloat) v fun v' =>
      v'.Quiet s ∧ ∃ state, v'.client.page = .browse (.loaded state) := by
  have hawaits : v.client.page.Awaits (.getBrowse params.library params.path) := by
    rw [hpage]
    trivial
  refine (h.load_page hs hawaits).mono ?_
  rintro v' ⟨hquiet, c, answer, hc, htruthful, hpage'⟩
  rw [hpage] at hc hpage'
  cases htruthful with
  | listing hlisting => exact ⟨hquiet, _, hpage'⟩
  | noListing error hgone => exact hgone.elim
  | _ => exact hc.elim

/-- A player gets its item. -/
theorem Quiet.player_of_loading (hs : s.Sound) (h : v.Quiet s) {params : PlayerParams}
    (hpage : v.client.page = .player (.loading params)) :
    CanReach (VisitStep reader fromFloat) v fun v' =>
      v'.Quiet s ∧ ∃ state, v'.client.page = .player (.loaded state) := by
  have hawaits : v.client.page.Awaits (.getItem params.library params.path) := by
    rw [hpage]
    trivial
  refine (h.load_page hs hawaits).mono ?_
  rintro v' ⟨hquiet, c, answer, hc, htruthful, hpage'⟩
  rw [hpage] at hc hpage'
  cases htruthful with
  | item hitem => exact ⟨hquiet, _, hpage'⟩
  | noItem error hgone => exact hgone.elim
  | _ => exact hc.elim

/-- Home is reached from any page. -/
theorem Quiet.home (hs : s.Sound) (h : v.Quiet s) :
    CanReach (VisitStep reader fromFloat) v fun v' => v'.Quiet s ∧ AtHome s v' := by
  have hshows := h.inv.visit.shows
  cases hpage : v.client.page with
  | home model =>
    obtain ⟨libraries, query⟩ := model
    rw [hpage] at hshows
    cases libraries with
    | loading => exact h.home_of_loading hs hpage
    | loaded libraries =>
      obtain rfl : libraries = s.libraryInfos := hshows
      exact .here ⟨h, query, hpage⟩
    | failed message => exact hshows.elim
  | browse model =>
    rw [hpage] at hshows
    cases model with
    | loading params =>
      refine (h.browse_of_loading hs hpage).trans ?_
      rintro v' ⟨hquiet, state, hpage'⟩
      exact hquiet.home_of_browse hs hpage'
    | loaded state => exact h.home_of_browse hs hpage
    | failed message => exact hshows.elim
  | search model =>
    refine h.home_of_link hs ?_
    rw [hpage, Main.links_search]
    exact Search.links_view.mpr (Or.inl rfl)
  | player model =>
    rw [hpage] at hshows
    cases model with
    | loading params =>
      refine (h.player_of_loading hs hpage).trans ?_
      rintro v' ⟨hquiet, state, hpage'⟩
      exact hquiet.home_of_player hs hpage'
    | loaded state => exact h.home_of_player hs hpage
    | failed message => exact hshows.elim
  | notFound =>
    rw [hpage] at hshows
    exact hshows.elim

/-! ## Down to a directory -/

/-- The listing of a directory as the server has it, at its first page. -/
structure AtDirectory (server : ServerState) (library : Library) (rel : Path) (v : Visit) :
    Prop where
  unchanged : v.server = server
  page : v.client.page = .browse (.loaded ⟨DirListing.counterpart
    ⟨library.name, rel.relText, listing server.index library rel.relText server.active⟩, 1, "", ∅⟩)

theorem Quiet.enter_directory (hs : s.Sound) (h : v.Quiet s) {library : Library}
    (hmem : library ∈ s.libraries) {rel : Path} (hdir : s.Directory library.name rel.relText)
    (hlink : (Main.view fromFloat v.client.page).Links
      (Route.browse ⟨library.name, rel.relText, 1⟩).toString)
    (hfresh : Main.sameDirectory v.client.page (.browse ⟨library.name, rel.relText, 1⟩) = false) :
    CanReach (VisitStep reader fromFloat) v fun v' =>
      v'.Quiet s ∧ AtDirectory v.server library rel v' := by
  obtain ⟨library', hmem', hname, root, rel', hroot, hnode, hrel⟩ := hdir
  have hfound := hs.findLibrary hmem'
  rw [hname, hs.findLibrary hmem] at hfound
  obtain rfl := Option.some.inj hfound
  obtain rfl := Path.relText_inj.mp hrel
  obtain ⟨picks, hserver⟩ := h.inv.server
  have hanswer : (Call.getBrowse library.name rel.relText).answer
      ((Call.getBrowse library.name rel.relText).handled v.server).2 =
      .listing (.ok (DirListing.counterpart ⟨library.name, rel.relText,
        listing v.server.index library rel.relText v.server.active⟩)) := by
    rw [hserver]
    exact ((hs.picked picks).handled_getBrowse hmem hroot hnode).2
  have hleads : s.world.Leads (.browse ⟨library.name, rel.relText, 1⟩) :=
    World.Directory.leads ⟨library, hmem, rfl, root, rel, hroot, hnode, rfl⟩
  refine (h.enter hs hleads hlink hfresh rfl rfl).mono ?_
  rintro v' ⟨hquiet, hsame, hpage⟩
  rw [hanswer] at hpage
  exact ⟨hquiet, hsame, hpage⟩

/-- The library is entered from home. -/
theorem Quiet.enter_library (hs : s.Sound) (h : v.Quiet s) (hhome : AtHome s v)
    {library : Library} (hmem : library ∈ s.libraries) :
    CanReach (VisitStep reader fromFloat) v fun v' =>
      v'.Quiet s ∧ AtDirectory v.server library [] v' := by
  obtain ⟨query, hpage⟩ := hhome
  refine h.enter_directory hs hmem (hs.directory_root (List.mem_map_of_mem hmem)) ?_ ?_
  · rw [hpage, Main.links_home]
    exact Home.links_view.mpr ⟨_, rfl, _, List.mem_map_of_mem hmem, rfl⟩
  · rw [hpage]
    rfl

/-- A row is in a directory of a configured library. -/
theorem exists_parent (hs : s.Sound) {r : Row} (hr : r ∈ s.index.videos) :
    ∃ library ∈ s.libraries, library.name = r.record.library ∧
      ∃ rel : Path, r.record.parent = rel.relText := by
  obtain ⟨library, hmem, hname⟩ := List.mem_map.mp (hs.configured r hr)
  obtain ⟨root, -, -, hlists⟩ := hs.trees library hmem
  obtain ⟨⟨dir, video⟩, hp, -, hparent⟩ := hlists.sound r hr hname.symm
  obtain ⟨rel, rfl⟩ := hlists.under _ hp
  rw [relativeOf_append] at hparent
  exact ⟨library, hmem, hname, rel, hparent⟩

/-- The parents of the rows are stored as joined components. -/
theorem parentsJoined (hs : s.Sound) : ParentsJoined s.index := by
  intro r hr
  obtain ⟨-, -, -, rel, hparent⟩ := exists_parent hs hr
  refine ⟨rel.map FileName.text, ?_, hparent⟩
  intro c hc
  obtain ⟨n, -, rfl⟩ := List.mem_map.mp hc
  exact ⟨n.valid.1, n.slash_not_mem⟩

/-- The listing of a directory above a video links to the next one on the way. -/
theorem directory_mem_listing (hs : s.Sound) {library : Library} {r : Row}
    (hr : r ∈ s.index.videos) (hlib : r.record.library = library.name) {above rest : Path}
    {n : FileName} (hparent : r.record.parent = Path.relText (above ++ n :: rest)) :
    Entry.directory ⟨n.text, Path.relText (above ++ [n])⟩ ∈
      listing s.index library above.relText s.active := by
  have hcomponents : ∀ p : Path, ∀ c ∈ p.map FileName.text, IsComponent c := by
    intro p c hc
    obtain ⟨m, -, rfl⟩ := List.mem_map.mp hc
    exact ⟨m.valid.1, m.slash_not_mem⟩
  have hname : n.text ∈ (s.index.browseDirectory library.name above.relText).subdirectories :=
    (mem_subdirectories_joined (parentsJoined hs) (hcomponents above)).mpr
      ⟨r, hr, hlib, rest.map FileName.text, hcomponents (n :: rest), by
        rw [hparent, Path.relText, List.map_append]
        rfl⟩
  refine mem_listing_directory.mpr ⟨hname, ?_⟩
  show _ = childRelPath (joined (above.map FileName.text)) n.text
  rw [childRelPath_joined (hcomponents above), Path.relText, List.map_append]
  rfl

/-- From a directory above the video its own directory is reached, one component after the
other. -/
theorem Quiet.descend (hs : s.Sound) {library : Library} (hmem : library ∈ s.libraries) {r : Row}
    (hr : r ∈ s.index.videos) (hlib : r.record.library = library.name) {server : ServerState} :
    ∀ (rest above : Path) {v : Visit}, v.Quiet s → AtDirectory server library above v →
      r.record.parent = Path.relText (above ++ rest) →
      CanReach (VisitStep reader fromFloat) v fun v' =>
        v'.Quiet s ∧ AtDirectory server library (above ++ rest) v' := by
  intro rest
  induction rest with
  | nil =>
    intro above v h hat _
    rw [List.append_nil]
    exact .here ⟨h, hat⟩
  | cons n rest ih =>
    intro above v h hat hparent
    obtain ⟨picks, hserver⟩ := h.inv.server
    have hsame : server = s.picked picks := hat.unchanged.symm.trans hserver
    have hdir : s.Directory library.name (Path.relText (above ++ [n])) := by
      refine hs.directory_of_row hmem hr hlib ?_
      rw [hparent]
      exact atOrBeneath_relText.mpr ⟨rest, by simp⟩
    have hlink : (Main.view fromFloat v.client.page).Links
        (Route.browse ⟨library.name, Path.relText (above ++ [n]), 1⟩).toString := by
      have hlisted := directory_mem_listing (hs.picked picks) hr hlib hparent
      rw [← hsame] at hlisted
      rw [hat.page, Main.links_browse]
      refine Browse.links_viewLoaded.mpr (Or.inr
        ⟨Entry.counterpart (.directory ⟨n.text, Path.relText (above ++ [n])⟩), ?_, rfl⟩)
      exact List.mem_append_left _ (List.mem_filter.mpr ⟨List.mem_map_of_mem hlisted, rfl⟩)
    have hfresh : Main.sameDirectory v.client.page
        (.browse ⟨library.name, Path.relText (above ++ [n]), 1⟩) = false := by
      rw [hat.page]
      show ((library.name, Path.relText above) == (library.name, Path.relText (above ++ [n]))) =
        false
      simp
    refine (h.enter_directory hs hmem hdir hlink hfresh).trans ?_
    rintro v' ⟨hquiet, hat'⟩
    rw [hat.unchanged] at hat'
    have hnext := ih (above ++ [n]) hquiet hat' (by simpa using hparent)
    simpa using hnext

/-- The directory of a row is reached from any state. -/
theorem reach_directory (hs : s.Sound) (h : v.SoundInv s) {library : Library}
    (hmem : library ∈ s.libraries) {r : Row} (hr : r ∈ s.index.videos)
    (hlib : r.record.library = library.name) {rel : Path}
    (hparent : r.record.parent = rel.relText) :
    CanReach (VisitStep reader fromFloat) v fun v' =>
      v'.Quiet s ∧ ∃ server, AtDirectory server library rel v' := by
  refine (reach_quiet hs h).trans fun v₁ hquiet₁ => ?_
  refine (hquiet₁.home hs).trans fun v₂ ⟨hquiet₂, hhome⟩ => ?_
  refine (hquiet₂.enter_library hs hhome hmem).trans fun v₃ ⟨hquiet₃, hroot⟩ => ?_
  refine (Quiet.descend hs hmem hr hlib rel [] hquiet₃ hroot hparent).mono ?_
  rintro v₄ ⟨hquiet₄, hat⟩
  exact ⟨hquiet₄, _, hat⟩

/-! ## To the page of a listing -/

open Browse (BrowseState)

/-- The URL of the page on show leaves it as it is. -/
theorem page_navigated {state : BrowseState} {i : Int} {v : Visit}
    (hpage : v.client.page = .browse (.loaded (state.atPage i))) {url : String}
    (hurl : Route.parse (Url.ofText url) =
      .browse ⟨state.listing.library, state.listing.path, i⟩) :
    (v.navigated url).client.page = .browse (.loaded (state.atPage i)) := by
  have hsame : Main.sameDirectory (.browse (.loaded (state.atPage i)))
      (.browse ⟨state.listing.library, state.listing.path, i⟩) = true :=
    beq_self_eq_true (state.listing.library, state.listing.path)
  show (Main.update (.urlChanged (Route.parse (Url.ofText url))) v.client.page).1 = _
  rw [hurl, hpage]
  exact congrArg Prod.fst (if_pos hsame)

/-- The button of the next page is used. -/
theorem Quiet.turn (hs : s.Sound) (h : v.Quiet s) {state : BrowseState} {i : Int} (hi : 1 ≤ i)
    (hpage : v.client.page = .browse (.loaded (state.atPage i)))
    (hlast : i + 1 ≤ state.totalPages) :
    CanReach (VisitStep reader fromFloat) v fun v' => v'.Quiet s ∧ v'.server = v.server ∧
      v'.client.page = .browse (.loaded (state.atPage (i + 1))) := by
  have hsafe : (state.atPage i).safePage = i :=
    min_eq_left (show i ≤ state.totalPages by omega)
  have hbutton : (Browse.viewLoaded (state.atPage i)).Sends (.goToPage (i + 1)) :=
    Browse.sends_goToPage (by omega) (by omega) hlast (by omega)
      (show 1 < state.totalPages by omega)
  have hsends : (Main.view fromFloat v.client.page).Sends (.browseMsg (.goToPage (i + 1))) := by
    rw [hpage, Main.sends_browse]
    exact ⟨_, hbutton, rfl⟩
  have hshows := h.inv.visit.shows
  rw [hpage] at hshows
  have hleads : s.world.Leads (.browse ⟨state.listing.library, state.listing.path, i + 1⟩) :=
    ⟨hshows.1, show 1 ≤ i + 1 by omega⟩
  have hupdate : Main.update (.browseMsg (.goToPage (i + 1))) v.client.page =
      (.browse (.loaded (state.atPage (i + 1))),
        [.pushUrl (.browse ⟨state.listing.library, state.listing.path, i + 1⟩)]) := by
    rw [hpage]
    rfl
  have huse : VisitStep reader fromFloat v _ _ := .use hsends
  have hinv := h.inv.step hs huse
  have hpushed : (v.used (.browseMsg (.goToPage (i + 1)))).pushed =
      (Route.browse ⟨state.listing.library, state.listing.path, i + 1⟩).toString :: [] := by
    unfold Visit.used
    rw [h.pushed, hupdate]
    rfl
  have hannounce : VisitStep reader fromFloat (v.used (.browseMsg (.goToPage (i + 1)))) _ _ :=
    .announce hpushed
  have hpage' := page_navigated (v := v.used (.browseMsg (.goToPage (i + 1))))
    (congrArg Prod.fst hupdate) (hs.coherent.parse_toString hleads)
  exact .of_step huse (.of_step hannounce (.here ⟨⟨hinv.step hs hannounce, rfl⟩, rfl, hpage'⟩))

/-- Any page is turned to. -/
theorem Quiet.turn_to (hs : s.Sound) (h : v.Quiet s) {state : BrowseState}
    (hpage : v.client.page = .browse (.loaded (state.atPage 1))) (j : Nat)
    (hj : (j : Int) + 1 ≤ state.totalPages) :
    CanReach (VisitStep reader fromFloat) v fun v' => v'.Quiet s ∧ v'.server = v.server ∧
      v'.client.page = .browse (.loaded (state.atPage (j + 1))) := by
  refine .iterate (I := fun (i : Nat) (v' : Visit) => v'.Quiet s ∧ v'.server = v.server ∧
    v'.client.page = .browse (.loaded (state.atPage (i + 1)))) ?_ ⟨h, rfl, hpage⟩
  rintro i hi v₁ ⟨hquiet, hserver, hpage₁⟩
  refine (hquiet.turn hs (by omega) hpage₁ (by omega)).mono ?_
  rintro v₂ ⟨hquiet₂, hserver₂, hpage₂⟩
  refine ⟨hquiet₂, hserver₂.trans hserver, ?_⟩
  rw [hpage₂, Nat.cast_add_one]

/-- The titles of a set are folded out. -/
theorem Quiet.unfold_set (hs : s.Sound) (h : v.Quiet s) {state : BrowseState}
    (hpage : v.client.page = .browse (.loaded state)) {set : Api.DiscSetEntry}
    (hshown : .discSet set ∈ state.shown) (hfolded : set.discSet ∉ state.expanded) :
    CanReach (VisitStep reader fromFloat) v fun v' => v'.Quiet s ∧ v'.client.page =
      .browse (.loaded { state with expanded := insert set.discSet state.expanded }) := by
  have hsends : (Main.view fromFloat v.client.page).Sends
      (.browseMsg (.toggleSet set.discSet)) := by
    rw [hpage, Main.sends_browse]
    exact ⟨_, Browse.sends_of_shown hshown (Or.inl rfl), rfl⟩
  have hupdate : Main.update (.browseMsg (.toggleSet set.discSet)) v.client.page =
      (.browse (.loaded { state with expanded := insert set.discSet state.expanded }), []) := by
    rw [hpage]
    show (Browse.Model.loaded { state with expanded := if _ then _ else _ }, _).map _ _ = _
    rw [if_neg hfolded]
    rfl
  exact (h.use_here hs hsends hupdate).mono fun v' ⟨hquiet, _, hpage'⟩ => ⟨hquiet, hpage'⟩

/-! ## The item -/

/-- The player shows the item of the row. -/
def Plays (s : ServerState) (r : Row) (v : Visit) : Prop :=
  v.client.page = .player (.loaded
    ⟨(VideoItem.fromRecord s.active (s.index.recordFromRow r)).counterpart, 0, none⟩)

theorem Quiet.play (hs : s.Sound) (h : v.Quiet s) {r : Row} (hr : r ∈ s.index.videos)
    (hlink : (Main.view fromFloat v.client.page).Links
      (Route.player ⟨r.record.library, r.record.relPath⟩).toString) :
    CanReach (VisitStep reader fromFloat) v (Plays s r) := by
  obtain ⟨picks, hserver⟩ := h.inv.server
  have hleads : s.world.Leads (.player ⟨r.record.library, r.record.relPath⟩) :=
    ⟨_, ⟨r, hr, rfl⟩, rfl, rfl⟩
  have hfresh : Main.sameDirectory v.client.page
      (.player ⟨r.record.library, r.record.relPath⟩) = false := by
    cases v.client.page <;> rfl
  obtain ⟨-, dir, video, hpath, -⟩ := hs.path_of_has ⟨r, hr, rfl⟩
  refine (h.enter hs hleads hlink hfresh rfl rfl).mono ?_
  rintro v' ⟨-, -, hpage⟩
  rw [hserver, ((hs.picked picks).handled_getItem hr hpath).2] at hpage
  exact hpage

/-- The entries of a listing that are no directories are not more than the rows. -/
theorem length_items_le (s : ServerState) (library : Library) (path : String) :
    (((listing s.index library path s.active).map Entry.counterpart).filter
      fun entry => !Browse.isDirectory entry).length ≤ s.index.videos.rows.length := by
  have hcount : ∀ entries : List Entry,
      (∀ entry ∈ entries, Browse.isDirectory entry.counterpart = false → entry.items ≠ []) →
      ((entries.map Entry.counterpart).filter fun entry => !Browse.isDirectory entry).length ≤
        (entries.flatMap Entry.items).length := by
    intro entries
    induction entries with
    | nil => simp
    | cons entry entries ih =>
      intro h
      have hrest := ih fun e he => h e (List.mem_cons_of_mem _ he)
      rw [List.map_cons, List.filter_cons, List.flatMap_cons, List.length_append]
      by_cases hdir : Browse.isDirectory entry.counterpart = false
      · have hpos := List.length_pos_iff.mpr (h entry List.mem_cons_self hdir)
        rw [if_pos (by simp [hdir]), List.length_cons]
        omega
      · rw [if_neg (by simpa using hdir)]
        omega
  refine (hcount _ ?_).trans ?_
  · intro entry hentry hdir
    cases entry with
    | directory dir => cases hdir
    | video item => exact List.cons_ne_nil _ _
    | discSet set => exact List.ne_nil_of_mem (ServerState.titles_of_mem_listing hentry).1
  · rw [(items_listing s.index library path s.active).length_eq, List.length_map]
    unfold Index.browseDirectory
    rw [List.length_map, List.length_insertionSort]
    exact List.length_filter_le _ _

/-- An entry of the listing that is no directory is on one of its pages. -/
theorem AtDirectory.exists_page (hs : s.Sound) {picks : Lib.Table DiscSetOverride.key}
    {library : Library} {rel : Path} (hat : AtDirectory (s.picked picks) library rel v)
    {entry : Entry}
    (hentry : entry ∈ listing (s.picked picks).index library rel.relText s.active)
    (hdir : Browse.isDirectory entry.counterpart = false) :
    ∃ state : BrowseState, state.listing = DirListing.counterpart ⟨library.name, rel.relText,
        listing (s.picked picks).index library rel.relText s.active⟩ ∧ state.expanded = ∅ ∧
      v.client.page = .browse (.loaded (state.atPage 1)) ∧
      ∃ j : Nat, (j : Int) + 1 ≤ state.totalPages ∧
        entry.counterpart ∈ (state.atPage (j + 1)).shown := by
  obtain ⟨state, hstate⟩ : ∃ state : BrowseState, state = ⟨DirListing.counterpart ⟨library.name,
    rel.relText, listing (s.picked picks).index library rel.relText s.active⟩, 1, "", ∅⟩ :=
    ⟨_, rfl⟩
  have hmem : entry.counterpart ∈ state.items := by
    rw [hstate]
    exact List.mem_filter.mpr ⟨List.mem_map_of_mem hentry, by simp [hdir]⟩
  have hfew : state.items.length < 2 ^ 36 := by
    have hrows : (s.picked picks).index.videos.rows.length < 2 ^ 31 := hs.few
    have hlen : state.items.length ≤ (s.picked picks).index.videos.rows.length := by
      rw [hstate]
      exact length_items_le (s.picked picks) library rel.relText
    omega
  obtain ⟨j, hj, hshown⟩ := Browse.BrowseState.exists_page hfew hmem
  refine ⟨state, by rw [hstate], by rw [hstate], ?_, j, hj, List.mem_append_right _ hshown⟩
  rw [hstate]
  exact hat.page

/-- The item is on some page of its parent's listing, itself or in a set. -/
theorem Quiet.play_from_parent (hs : s.Sound) {server : ServerState} (h : v.Quiet s)
    {library : Library} {r : Row} (hr : r ∈ s.index.videos)
    (hlib : r.record.library = library.name) {rel : Path}
    (hparent : r.record.parent = rel.relText) (hat : AtDirectory server library rel v) :
    CanReach (VisitStep reader fromFloat) v (Plays s r) := by
  obtain ⟨picks, hserver⟩ := h.inv.server
  obtain rfl : server = s.picked picks := hat.unchanged.symm.trans hserver
  have hitem : VideoItem.fromRecord s.active (s.index.recordFromRow r) ∈
      (listing (s.picked picks).index library rel.relText s.active).flatMap Entry.items :=
    (items_listing _ library rel.relText s.active).mem_iff.mpr
      (List.mem_map_of_mem (Index.mem_browse_videos.mpr ⟨r, hr, hlib, hparent, rfl⟩))
  obtain ⟨entry, hentry, hitem⟩ := List.mem_flatMap.mp hitem
  have hdir : Browse.isDirectory entry.counterpart = false := by
    cases entry with
    | directory dir => cases hitem
    | video item => rfl
    | discSet set => rfl
  obtain ⟨state, -, hexpanded, hpage, j, hj, hshown⟩ := hat.exists_page hs hentry hdir
  refine (h.turn_to hs hpage j hj).trans ?_
  rintro v₁ ⟨hquiet, -, hpage₁⟩
  cases entry with
  | directory dir => cases hdir
  | video item =>
    obtain rfl := List.mem_singleton.mp hitem
    refine hquiet.play hs hr ?_
    rw [hpage₁, Main.links_browse]
    exact Browse.links_viewLoaded.mpr (Or.inr ⟨_, hshown, rfl⟩)
  | discSet set =>
    have hfolded : set.discSet ∉ (state.atPage (j + 1)).expanded := by
      show set.discSet ∉ state.expanded
      rw [hexpanded]
      exact Finset.notMem_empty _
    refine (hquiet.unfold_set hs hpage₁ hshown hfolded).trans ?_
    rintro v₂ ⟨hquiet₂, hpage₂⟩
    refine hquiet₂.play hs hr ?_
    rw [hpage₂, Main.links_browse]
    exact Browse.links_viewLoaded.mpr (Or.inr ⟨_, hshown,
      Or.inr ⟨Finset.mem_insert_self _ _, _, List.mem_map_of_mem hitem, rfl⟩⟩)

end Visit

/-- From any state of a visit to a sound server, any indexed video can be come to. -/
theorem every_video {s : ServerState} (hs : s.Sound) (reader : FormReader)
    (fromFloat : Rat → String) {url : String} (hurl : s.world.Leads (Route.parse (Url.ofText url)))
    {actions : List VisitAction} {v : Visit}
    (hrun : Lib.Run (VisitStep reader fromFloat) (Visit.start url s) actions v) {r : Row}
    (hr : r ∈ s.index.videos) :
    ∃ more v', Lib.Run (VisitStep reader fromFloat) v more v' ∧
      v'.client.page = .player (.loaded
        ⟨(VideoItem.fromRecord s.active (s.index.recordFromRow r)).counterpart, 0, none⟩) := by
  have hinv := hrun.invariant (I := Visit.SoundInv s) (fun v a v' h hstep => h.step hs hstep)
    (Visit.soundInv_start hurl)
  obtain ⟨library, hmem, hname, rel, hparent⟩ := Visit.exists_parent hs hr
  have hreach : Lib.CanReach (VisitStep reader fromFloat) v (Visit.Plays s r) := by
    refine (Visit.reach_directory hs hinv hmem hr hname.symm hparent).trans ?_
    rintro v' ⟨hquiet, server, hat⟩
    exact hquiet.play_from_parent hs hr hname.symm hparent hat
  exact hreach

namespace SmallSite

def episode : Row := Replaced.index.videos.rows.head (by decide)

theorem every_video_episode :
    ∃ more v', Lib.Run (VisitStep .plain fun _ => "") (Visit.start "/" server) more v' ∧
      v'.client.page = .player (.loaded ⟨(VideoItem.fromRecord none
        (Replaced.index.recordFromRow episode)).counterpart, 0, none⟩) :=
  every_video sound_server .plain (fun _ => "") leads_home (.nil _) (List.head_mem _)

end SmallSite

end Loku
