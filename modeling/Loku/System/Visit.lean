import Loku.Frontend.Answers
import Loku.System.Configured
import Loku.System.Rescan

/-!
# A visit

A visitor uses what the pages offer: links, buttons, forms, and the history of the browser. The
client pushes URLs, which are announced to it later, and sends requests, which reach the server
in any order, and some more than once; the responses come back in any order too.

On a sound server whose files nobody changes, a visit that starts at something that is there
never leads astray: every response is a success unless it answers a search for a text that the
full-text engine cannot read, every page shows what the server has, only such an answer makes a
page fail, and a page that loads has its request on the way (`visit_sound`).
-/

namespace Loku

/-! ## The client and the server -/

structure Visit where
  client : Session
  server : ServerState
  pushed : List String
  history : List String
  returned : List (Request × HttpResponse)

/-- The URLs among the commands of a page. -/
def pushes (cmds : List Cmd) : List String :=
  cmds.filterMap fun
    | .pushUrl route => some route.toString
    | _ => none

inductive VisitAction
  | click (url : String)
  | use (msg : Msg)
  | announce (url : String)
  | back (url : String)
  | serve (request : Request)
  | arrive (request : Request) (response : HttpResponse)

namespace Visit

/-- The client as it starts on a URL. -/
def start (url : String) (server : ServerState) : Visit where
  client := Session.start (Route.parse (Url.ofText url))
  server := server
  pushed := []
  history := [url]
  returned := []

def clicked (v : Visit) (url : String) : Visit := { v with pushed := v.pushed ++ [url] }

def used (v : Visit) (msg : Msg) : Visit :=
  { v with
    client := v.client.interacted msg
    pushed := v.pushed ++ pushes (Main.update msg v.client.page).2 }

def navigated (v : Visit) (url : String) : Visit :=
  { v with
    client := v.client.navigated (Route.parse (Url.ofText url))
    history := v.history ++ [url] }

def served (v : Visit) (request : Request) (answered : ServerState × HttpResponse) : Visit :=
  { v with
    server := answered.1
    returned := v.returned ++ [(request, answered.2)] }

def arrived (v : Visit) (request : Request) (response : HttpResponse) : Visit :=
  { v with client := v.client.responded request (request.call.answer response) }

end Visit

/-- One event of a visit. -/
inductive VisitStep (reader : FormReader) (fromFloat : Rat → String) :
    Visit → VisitAction → Visit → Prop
  | click {v : Visit} {url : String} (h : (Main.view fromFloat v.client.page).Links url) :
      VisitStep reader fromFloat v (.click url) (v.clicked url)
  | use {v : Visit} {msg : Msg} (h : (Main.view fromFloat v.client.page).Sends msg) :
      VisitStep reader fromFloat v (.use msg) (v.used msg)
  /-- What the port of the page tells. -/
  | progress {v : Visit} (fraction : Rat) :
      VisitStep reader fromFloat v (.use (.playerMsg (.videoProgress fraction)))
        (v.used (.playerMsg (.videoProgress fraction)))
  | announce {v : Visit} {url : String} {rest : List String} (h : v.pushed = url :: rest) :
      VisitStep reader fromFloat v (.announce url) { v.navigated url with pushed := rest }
  | back {v : Visit} {url : String} (h : url ∈ v.history) :
      VisitStep reader fromFloat v (.back url) (v.navigated url)
  | serve {v : Visit} {request : Request} {answered : ServerState × HttpResponse}
      (h : request ∈ v.client.inFlight)
      (hroutes : v.server.appRoutes reader request.call.request = some answered) :
      VisitStep reader fromFloat v (.serve request) (v.served request answered)
  | arrive {v : Visit} {request : Request} {response : HttpResponse}
      (h : request ∈ v.client.inFlight) (hreturned : (request, response) ∈ v.returned) :
      VisitStep reader fromFloat v (.arrive request response) (v.arrived request response)

/-! ## The invariant -/

namespace Visit

/-- A visit in a world: what is shown is there, and what is asked for and told as well. -/
structure Inv (w : World) (v : Visit) : Prop where
  shows : w.Shows v.client.page
  serves : ∀ r ∈ v.client.inFlight, w.Serves r.call
  leads : ∀ url ∈ v.pushed ++ v.history, w.Leads (Route.parse (Url.ofText url))
  truthful : ∀ p ∈ v.returned, w.Truthful p.1.call (p.1.call.answer p.2)
  loads : ∀ call, v.client.page.Awaits call →
    ∃ r ∈ v.client.inFlight, v.client.page.Awaits r.call
  failed : v.client.page.SearchFailed → ∃ p ∈ v.returned, w.Unread p.1.call

variable {w : World} {s : ServerState} {v : Visit}

theorem mem_pushes {cmds : List Cmd} {url : String} :
    url ∈ pushes cmds ↔ ∃ route, Cmd.pushUrl route ∈ cmds ∧ route.toString = url := by
  unfold pushes
  rw [List.mem_filterMap]
  constructor
  · rintro ⟨cmd, hcmd, heq⟩
    cases cmd with
    | pushUrl route => exact ⟨route, hcmd, Option.some.inj heq⟩
    | call call => cases heq
    | logError message => cases heq
  · rintro ⟨route, hroute, rfl⟩
    exact ⟨_, hroute, rfl⟩

theorem inv_start {url : String} (hurl : w.Leads (Route.parse (Url.ofText url))) :
    (start url s).Inv w where
  shows := hurl.keeps.shows
  serves := by
    intro r hr
    exact hurl.keeps.serves r.call (Session.mem_sent.mp hr).2
  leads := by
    intro url' hurl'
    obtain rfl : url' = url := by simpa [start] using hurl'
    exact hurl
  truthful := fun p hp => absurd hp List.not_mem_nil
  loads := by
    intro call hcall
    obtain ⟨sent, hsent, hawaits⟩ := awaits_routeToPage hcall
    exact ⟨⟨0, sent⟩, Session.mem_sent.mpr ⟨rfl, hsent⟩, hawaits⟩
  failed := fun hfailed => absurd hfailed (World.not_searchFailed_routeToPage _)

/-- An event on a page that stays. -/
theorem Inv.used (hw : w.Coherent) (h : v.Inv w) {msg : Msg}
    (hstays : w.Stays v.client.page (Main.update msg v.client.page))
    (hfailed : (Main.update msg v.client.page).1.SearchFailed → v.client.page.SearchFailed) :
    (v.used msg).Inv w where
  shows := hstays.keeps.shows
  serves := by
    intro r hr
    rcases List.mem_append.mp hr with hr | hr
    · exact h.serves r hr
    · exact hstays.keeps.serves r.call (Session.mem_sent.mp hr).2
  leads := by
    intro url hurl
    simp only [Visit.used, List.mem_append] at hurl
    rcases hurl with (hurl | hurl) | hurl
    · exact h.leads url (List.mem_append_left _ hurl)
    · obtain ⟨route, hroute, rfl⟩ := mem_pushes.mp hurl
      have hleads := hstays.keeps.leads route hroute
      rwa [hw.parse_toString hleads]
    · exact h.leads url (List.mem_append_right _ hurl)
  truthful := h.truthful
  loads := by
    intro call hcall
    obtain ⟨r, hr, hawaits⟩ := h.loads call ((hstays.awaits call).mp hcall)
    exact ⟨r, List.mem_append_left _ hr, (hstays.awaits r.call).mpr hawaits⟩
  failed := fun hnow => h.failed (hfailed hnow)

/-- A URL that names something that is there is gone to. -/
theorem Inv.navigated (h : v.Inv w) {url : String} (hurl : w.Leads (Route.parse (Url.ofText url))) :
    (v.navigated url).Inv w where
  shows := (World.keeps_urlChanged h.shows hurl).shows
  serves := by
    intro r hr
    rcases List.mem_append.mp hr with hr | hr
    · exact h.serves r hr
    · exact (World.keeps_urlChanged h.shows hurl).serves r.call (Session.mem_sent.mp hr).2
  leads := by
    intro url' hurl'
    simp only [Visit.navigated, List.mem_append, List.mem_singleton] at hurl'
    rcases hurl' with hurl' | hurl' | rfl
    · exact h.leads url' (List.mem_append_left _ hurl')
    · exact h.leads url' (List.mem_append_right _ hurl')
    · exact hurl
  truthful := h.truthful
  loads := by
    intro call hcall
    rcases awaits_urlChanged hcall with ⟨sent, hsent, hawaits⟩ | hsame
    · exact ⟨⟨_, sent⟩, List.mem_append_right _ (Session.mem_sent.mpr ⟨rfl, hsent⟩), hawaits⟩
    · obtain ⟨r, hr, hawaits⟩ := h.loads call ((hsame call).mp hcall)
      exact ⟨r, List.mem_append_left _ hr, (hsame r.call).mpr hawaits⟩
  failed := by
    intro hnow
    rcases World.searchFailed_update hnow with hbefore | ⟨error, herror⟩
    · exact h.failed hbefore
    · cases herror

/-- A request is answered truthfully. -/
theorem Inv.served (h : v.Inv w) {request : Request} {answered : ServerState × HttpResponse}
    (htruthful : w.Truthful request.call (request.call.answer answered.2)) :
    (v.served request answered).Inv w :=
  { h with
    truthful := by
      intro p hp
      rcases List.mem_append.mp hp with hp | hp
      · exact h.truthful p hp
      · rw [List.mem_singleton.mp hp]
        exact htruthful
    failed := by
      intro hfailed
      obtain ⟨p, hp, hunread⟩ := h.failed hfailed
      exact ⟨p, List.mem_append_left _ hp, hunread⟩ }

/-- A response comes in. -/
theorem Inv.arrived (h : v.Inv w) {request : Request} {response : HttpResponse}
    (hreturned : (request, response) ∈ v.returned) : (v.arrived request response).Inv w := by
  have htruthful := h.truthful _ hreturned
  have hkeeps := World.keeps_response h.shows htruthful
  constructor
  · exact hkeeps.shows
  · intro r hr
    rcases List.mem_append.mp hr with hr | hr
    · exact h.serves r (List.mem_of_mem_erase hr)
    · exact hkeeps.serves r.call (Session.mem_sent.mp hr).2
  · exact h.leads
  · exact h.truthful
  · intro call hcall
    obtain ⟨hsame, hother⟩ := World.awaits_response htruthful hcall
    have hpage : (v.arrived request response).client.page = v.client.page := hsame
    rw [hpage] at hcall ⊢
    obtain ⟨r, hr, hawaits⟩ := h.loads call hcall
    refine ⟨r, List.mem_append_left _ ((List.mem_erase_of_ne ?_).mpr hr), hawaits⟩
    rintro rfl
    exact hother hawaits
  · intro hfailed
    rcases World.searchFailed_response htruthful hfailed with hbefore | hunread
    · exact h.failed hbefore
    · exact ⟨_, hreturned, hunread⟩

/-- What an event preserves, on a server that answers truthfully what is on the way. -/
theorem Inv.step (hw : w.Coherent) (h : v.Inv w)
    (hserver : ∀ r ∈ v.client.inFlight,
      w.Truthful r.call (r.call.answer (r.call.handled v.server).2))
    {reader : FormReader} {fromFloat : Rat → String} {action : VisitAction} {v' : Visit}
    (hstep : VisitStep reader fromFloat v action v') : v'.Inv w := by
  cases hstep with
  | @click url hlink =>
    obtain ⟨route, hroute, hparse⟩ := hw.leads_of_link h.shows hlink
    refine { h with leads := ?_ }
    intro url' hurl'
    simp only [Visit.clicked, List.mem_append, List.mem_singleton] at hurl'
    rcases hurl' with (hurl' | rfl) | hurl'
    · exact h.leads url' (List.mem_append_left _ hurl')
    · rwa [hparse]
    · exact h.leads url' (List.mem_append_right _ hurl')
  | use hsends => exact h.used hw (hw.stays_use h.shows hsends) (World.searchFailed_use hsends)
  | progress fraction =>
    refine h.used hw (World.stays_progress h.shows fraction) fun hfailed => ?_
    rcases World.searchFailed_update hfailed with hbefore | ⟨error, herror⟩
    · exact hbefore
    · cases herror
  | @announce url rest hpushed =>
    have hurl := h.leads url (List.mem_append_left _ (hpushed ▸ List.mem_cons_self))
    have hnavigated := h.navigated hurl
    refine { hnavigated with leads := ?_ }
    intro url' hurl'
    apply hnavigated.leads url'
    rcases List.mem_append.mp hurl' with hurl' | hurl'
    · refine List.mem_append_left _ ?_
      show url' ∈ v.pushed
      rw [hpushed]
      exact List.mem_cons_of_mem _ hurl'
    · exact List.mem_append_right _ hurl'
  | back hurl => exact h.navigated (h.leads _ (List.mem_append_right _ hurl))
  | serve hrequest hroutes =>
    rw [appRoutes_request] at hroutes
    obtain rfl := Option.some.inj hroutes
    exact h.served (hserver _ hrequest)
  | arrive hrequest hreturned => exact h.arrived hreturned

/-- The server after a step has at most other picks. -/
theorem exists_picked_of_step {reader : FormReader} {fromFloat : Rat → String}
    {action : VisitAction} {v' : Visit} (hstep : VisitStep reader fromFloat v action v') :
    ∃ picks, v'.server = v.server.picked picks := by
  cases hstep with
  | serve hrequest hroutes =>
    rw [appRoutes_request] at hroutes
    obtain rfl := Option.some.inj hroutes
    exact v.server.exists_picked _
  | _ => exact ⟨v.server.index.discSetOverrides, rfl⟩

/-- What is returned was returned before, or comes from the server now. -/
theorem returned_of_step {reader : FormReader} {fromFloat : Rat → String}
    {action : VisitAction} {v' : Visit} (hstep : VisitStep reader fromFloat v action v')
    {p : Request × HttpResponse} (hp : p ∈ v'.returned) :
    p ∈ v.returned ∨ p.1 ∈ v.client.inFlight ∧ p.2 = (p.1.call.handled v.server).2 := by
  cases hstep with
  | serve hrequest hroutes =>
    rw [appRoutes_request] at hroutes
    obtain rfl := Option.some.inj hroutes
    rcases List.mem_append.mp hp with hp | hp
    · exact Or.inl hp
    · rw [List.mem_singleton.mp hp]
      exact Or.inr ⟨hrequest, rfl⟩
  | _ => exact Or.inl hp

/-! ## A server that stays as it is -/

/-- A visit to a sound server. -/
structure SoundInv (s : ServerState) (v : Visit) : Prop where
  visit : v.Inv s.world
  server : ∃ picks, v.server = s.picked picks
  status : ∀ p ∈ v.returned, s.world.Answered p.1.call p.2.status

theorem soundInv_start {url : String} (hurl : s.world.Leads (Route.parse (Url.ofText url))) :
    (start url s).SoundInv s where
  visit := inv_start hurl
  server := ⟨s.index.discSetOverrides, rfl⟩
  status := fun _ hp => absurd hp List.not_mem_nil

/-- The server answers a call of the visit truthfully, whatever has been picked. -/
theorem SoundInv.truthful_answer (hs : s.Sound) (h : v.SoundInv s) {call : Call}
    (hcall : s.world.Serves call) : s.world.Answered call (call.handled v.server).2.status ∧
      s.world.Truthful call (call.answer (call.handled v.server).2) := by
  obtain ⟨picks, hserver⟩ := h.server
  rw [hserver]
  exact (hs.picked picks).truthful_answer hcall

theorem SoundInv.step (hs : s.Sound) (h : v.SoundInv s) {reader : FormReader}
    {fromFloat : Rat → String} {action : VisitAction} {v' : Visit}
    (hstep : VisitStep reader fromFloat v action v') : v'.SoundInv s where
  visit := h.visit.step hs.coherent
    (fun r hr => (h.truthful_answer hs (h.visit.serves r hr)).2) hstep
  server := by
    obtain ⟨picks, hserver⟩ := h.server
    obtain ⟨picks', hserver'⟩ := exists_picked_of_step hstep
    exact ⟨picks', by rw [hserver', hserver]; rfl⟩
  status := by
    intro p hp
    rcases returned_of_step hstep hp with hp | ⟨hrequest, hresponse⟩
    · exact h.status p hp
    · rw [hresponse]
      exact (h.truthful_answer hs (h.visit.serves _ hrequest)).1

end Visit

/-- On a visit to a sound server every response is a success, except that a search for a text that
the engine cannot read is answered with an internal error. Every page shows what is there, a
search page fails only after such an answer, and as long as a page loads, a request whose answer
it takes is on the way. -/
theorem visit_sound {s : ServerState} (hs : s.Sound) (reader : FormReader)
    (fromFloat : Rat → String) {url : String}
    (hurl : s.world.Leads (Route.parse (Url.ofText url))) {actions : List VisitAction} {v : Visit}
    (hrun : Lib.Run (VisitStep reader fromFloat) (Visit.start url s) actions v) :
    (∀ p ∈ v.returned, s.world.Answered p.1.call p.2.status) ∧
      s.world.Shows v.client.page ∧
      (v.client.page.SearchFailed → ∃ p ∈ v.returned, s.world.Unread p.1.call) ∧
      ∀ call, v.client.page.Awaits call →
        ∃ r ∈ v.client.inFlight, v.client.page.Awaits r.call := by
  have hinv := hrun.invariant (I := Visit.SoundInv s) (fun v a v' h hstep => h.step hs hstep)
    (Visit.soundInv_start hurl)
  exact ⟨hinv.status, hinv.visit.shows, hinv.visit.failed, hinv.visit.loads⟩

/-! ## A scanned server -/

/-- A scan of the configured libraries leaves a sound server. -/
theorem ServerState.sound_of_scan {decoders : Decoders} {faults : Faults} {t : FileTree}
    {cli : Option Path} {file : Option (List LibraryFileEntry)} {libraries : List Library}
    {index scanned : Index} {stats : ScanStats} (hreach : ReachableIndex decoders index)
    (hresolve : resolveLibraries t cli file = .ok libraries)
    (hbefore : ∀ r ∈ index.videos, r.record.library ∈ libraries.map Library.name)
    (hscan : scanAll decoders faults (fun _ => .still t) libraries index = (scanned, .ok stats))
    (hroots : ∀ library ∈ libraries, ∃ root, t.canonicalize library.path = some root ∧
      t.node root = some .dir)
    (engine : FullText) (active : Option ActiveDerivation)
    (hintegers : ∀ r ∈ scanned.videos,
      (VideoItem.fromRecord active (scanned.recordFromRow r)).Exact)
    (hfew : scanned.videos.rows.length < 2 ^ 31) :
    Sound ⟨t, libraries, engine, active, scanned⟩ where
  libraries := ⟨t, cli, file, hresolve⟩
  configured := (rows_configured_iff hscan).mpr hbefore
  trees library hlibrary := by
    obtain ⟨root, hroot, hdir⟩ := hroots library hlibrary
    have hplaced := rowsSatisfy_of_reachable (wellPlaced_rowProperty decoders) hreach
    exact ⟨root, hroot, hdir, lists_scanAll (nodup_resolveLibraries hresolve) hplaced
      (stampsBelow_of_reachable hreach) (hasRoom_of_reachable hreach) hscan hlibrary hroot⟩
  integers := hintegers
  few := hfew

/-! ## A visit to a small server -/

namespace SmallSite

open OneVideo (lib library decoders)
open Replaced (tree index)

def server : ServerState :=
  ⟨tree, [library], PlainLexer.everything, none, index⟩

theorem sound_server : server.Sound := by
  have hresolve : resolveLibraries tree none (some [⟨"movies", [lib], .downloads⟩]) =
      .ok [library] := by decide
  have hscan : scanAll decoders Faults.none (fun _ => .still tree) [library] .openInMemory =
      (index, .ok { directories := 4, videos := 1, removed := 0 }) := by decide
  have hnumbers : ∀ r ∈ index.videos.rows, r.record.year = none ∧ r.record.viewCount = none ∧
      r.record.discTitleIndex = none := by decide
  refine ServerState.sound_of_scan Relation.ReflTransGen.refl hresolve
    (fun r hr => absurd hr (Lib.Table.not_mem_empty r)) hscan ?_ _ _ ?_ (by decide)
  · intro l hl
    obtain rfl := List.mem_singleton.mp hl
    exact ⟨[lib], by decide, by decide⟩
  · intro r hr
    obtain ⟨hyear, hviews, htitle⟩ := hnumbers r hr
    exact VideoItem.exact_of_none hyear hviews htitle

theorem leads_home : server.world.Leads (Route.parse (Url.ofText "/")) := by
  rw [show Route.parse (Url.ofText "/") = .home from rfl]
  trivial

def libraries : Request := ⟨0, .getLibraries⟩

/-- The home page has got its libraries. -/
def home : Visit :=
  ((Visit.start "/" server).served libraries (libraries.call.handled server)).arrived libraries
    (libraries.call.handled server).2

theorem visit_sound_home : (∀ p ∈ home.returned, server.world.Answered p.1.call p.2.status) ∧
    server.world.Shows home.client.page ∧
    (home.client.page.SearchFailed → ∃ p ∈ home.returned, server.world.Unread p.1.call) ∧
    ∀ call, home.client.page.Awaits call →
      ∃ r ∈ home.client.inFlight, home.client.page.Awaits r.call := by
  have hserve : VisitStep .plain (fun _ => "") (Visit.start "/" server) _ _ :=
    .serve List.mem_cons_self (appRoutes_request .plain server libraries.call)
  have harrive : VisitStep .plain (fun _ => "") _ _ home :=
    .arrive List.mem_cons_self List.mem_cons_self
  exact visit_sound sound_server .plain (fun _ => "") leads_home (.cons hserve (.single harrive))

end SmallSite

end Loku
