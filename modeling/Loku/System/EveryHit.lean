import Loku.Routes.SearchPages
import Loku.System.EveryVideo

/-!
# Every hit of a search can be found

From any state of a visit the visitor can come to any page of the results of any search whose text
the full-text engine can read, of all libraries or of one: by the form on the home page or in the
library, the form above the results, and the buttons of the pages below them. As long as no group
of equally ranked rows goes over a page boundary, every selected row is on one of these pages
(`every_hit`).
-/

namespace Loku

namespace Visit

open Lib (CanReach)

variable {s : ServerState} {reader : FormReader} {fromFloat : Rat → String} {v : Visit}
  {q : String} {library : Option String}

/-- The page of results with the number `j`, as the handler answers for it. -/
def resultsPage (s : ServerState) (q : String) (library : Option String) (j : Nat) : SearchPage :=
  searchPage s.engine s.active s.index q library 48 j

/-- The client shows a page of results. -/
def AtResults (s : ServerState) (q : String) (library : Option String) (j : Nat) (v : Visit) :
    Prop :=
  v.client.page =
    .search ⟨⟨q, library, j + 1⟩, q, .loaded (resultsPage s q library j).counterpart⟩

/-- The client shows the search, with the page of results if the engine can read the text. -/
def AtSearch (s : ServerState) (q : String) (library : Option String) (j : Nat) (v : Visit) :
    Prop :=
  ∃ results, v.client.page = .search ⟨⟨q, library, j + 1⟩, q, results⟩ ∧
    (s.engine.Reads q → results = .loaded (resultsPage s q library j).counterpart)

theorem AtSearch.atResults {j : Nat} (h : AtSearch s q library j v) (hreads : s.engine.Reads q) :
    AtResults s q library j v := by
  obtain ⟨results, hpage, hloaded⟩ := h
  rwa [hloaded hreads] at hpage

theorem length_matchingRows_le (s : ServerState) (q : String) (library : Option String) :
    (matchingRows s.index s.engine q library).length ≤ s.index.videos.rows.length := by
  unfold matchingRows
  split
  · exact Nat.zero_le _
  · exact List.length_filter_le _ _

/-! ## One search -/

/-- The picks have no influence on a search. -/
theorem handled_request (hs : s.Sound) (picks : Lib.Table DiscSetOverride.key)
    (hlib : ∀ name ∈ library, name ∈ s.libraries.map Library.name) {j : Nat}
    (hj : j * 48 < 2 ^ 32) :
    let call := Search.request ⟨q, library, j + 1⟩
    ∃ result, call.answer (call.handled (s.picked picks)).2 = .results result ∧
      (s.engine.Reads q → result = .ok (resultsPage s q library j).counterpart) := by
  intro call
  have hoffset : ((j : Int) + 1 - 1) * pageSize = (j * 48 : Nat) := by
    unfold pageSize
    omega
  have hlimit : (0 : Int) ≤ pageSize ∧ pageSize < 2 ^ 32 := by decide
  have hrange : 0 ≤ ((j : Int) + 1 - 1) * pageSize ∧ ((j : Int) + 1 - 1) * pageSize < 2 ^ 32 := by
    rw [hoffset]
    omega
  by_cases hreads : s.engine.Reads q
  · obtain ⟨page, hpage, -, -, hanswer⟩ :=
      (hs.picked picks).handled_getSearch_ok q hlib hlimit hrange hreads
    rw [hoffset] at hpage
    have hsame : searchHandler s.libraries s.engine s.active
        ⟨q, library, some 48, some (j * 48)⟩ s.index = .ok (resultsPage s q library j) :=
      searchHandler_eq (hs.found hlib) (by decide) hreads s.active j
    obtain rfl : resultsPage s q library j = page := Except.ok.inj (hsame.symm.trans hpage)
    exact ⟨_, hanswer, fun _ => rfl⟩
  · obtain ⟨-, error, hanswer⟩ :=
      (hs.picked picks).handled_getSearch_unread hlib hlimit hrange hreads
    exact ⟨_, hanswer, fun hr => absurd hr hreads⟩

/-- A control that asks for results leads to them. -/
theorem Quiet.search (hs : s.Sound) (h : v.Quiet s)
    (hlib : ∀ name ∈ library, name ∈ s.libraries.map Library.name) {j : Nat}
    (hj : j * 48 < 2 ^ 32) {msg : Msg} (hsends : (Main.view fromFloat v.client.page).Sends msg)
    (hupdate : Main.update msg v.client.page =
      (v.client.page, [.pushUrl (.search ⟨q, library, j + 1⟩)])) :
    CanReach (VisitStep reader fromFloat) v fun v' => v'.Quiet s ∧ AtSearch s q library j v' := by
  obtain ⟨picks, hserver⟩ := h.inv.server
  have huse : VisitStep reader fromFloat v _ _ := .use hsends
  have hpushed : (v.used msg).pushed = [(Route.search ⟨q, library, j + 1⟩).toString] := by
    unfold Visit.used
    rw [h.pushed, hupdate]
    rfl
  have hleads : s.world.Leads (.search ⟨q, library, j + 1⟩) := by
    refine ⟨?_, show (1 : Int) ≤ j + 1 by omega, ?_⟩
    · unfold World.Searches
      rwa [ServerState.names_world]
    · show ((j : Int) + 1 - 1) * 48 < 2 ^ 32
      omega
  have hfresh : Main.sameDirectory (v.used msg).client.page (.search ⟨q, library, j + 1⟩) =
      false := by
    cases (v.used msg).client.page <;> rfl
  refine .of_step huse (((h.inv.step hs huse).go_to hs hleads hpushed hfresh rfl rfl).mono ?_)
  rintro v' ⟨hquiet, -, hpage⟩
  have hsame : (v.used msg).server = s.picked picks := hserver
  obtain ⟨result, hanswer, hread⟩ := handled_request (q := q) hs picks hlib hj
  rw [hsame, hanswer] at hpage
  cases result with
  | ok page => exact ⟨hquiet, _, hpage, fun hr => congrArg _ (Except.ok.inj (hread hr))⟩
  | error error => exact ⟨hquiet, _, hpage, fun hr => absurd (hread hr) (by simp)⟩

/-! ## The forms -/

theorem Quiet.search_home (hs : s.Sound) (h : v.Quiet s) (hhome : AtHome s v)
    (hq : isBlank q = false) :
    CanReach (VisitStep reader fromFloat) v fun v' => v'.Quiet s ∧ AtSearch s q none 0 v' := by
  obtain ⟨query, hpage⟩ := hhome
  have htyped : (Main.view fromFloat v.client.page).Sends (.homeMsg (.queryInput q)) := by
    rw [hpage, Main.sends_home]
    exact ⟨_, Home.sends_form.1 q, rfl⟩
  have hinput : Main.update (.homeMsg (.queryInput q)) v.client.page =
      (.home ⟨.loaded s.libraryInfos, q⟩, []) := by
    rw [hpage]
    rfl
  refine (h.use_here hs htyped hinput).trans ?_
  rintro v₁ ⟨hquiet, -, hpage₁⟩
  have hsubmit : (Main.view fromFloat v₁.client.page).Sends (.homeMsg .querySubmit) := by
    rw [hpage₁, Main.sends_home]
    exact ⟨_, Home.sends_form.2, rfl⟩
  refine hquiet.search hs (fun _ hname => absurd hname (Option.not_mem_none _)) (by omega)
    hsubmit ?_
  rw [hpage₁]
  show ((if isBlank q = true then _ else _ : Home.Model × List Cmd)).map _ _ = _
  rw [hq]
  rfl

theorem Quiet.search_library (hs : s.Sound) (h : v.Quiet s) {server : ServerState}
    {scope : Library} (hmem : scope ∈ s.libraries) (hat : AtDirectory server scope [] v)
    (hq : isBlank q = false) :
    CanReach (VisitStep reader fromFloat) v fun v' =>
      v'.Quiet s ∧ AtSearch s q (some scope.name) 0 v' := by
  have hpage := hat.page
  have htyped : (Main.view fromFloat v.client.page).Sends (.browseMsg (.queryInput q)) := by
    rw [hpage, Main.sends_browse]
    exact ⟨_, Browse.sends_form.1 q, rfl⟩
  have hinput : Main.update (.browseMsg (.queryInput q)) v.client.page =
      (.browse (.loaded ⟨DirListing.counterpart ⟨scope.name, Path.relText [],
        listing server.index scope (Path.relText []) server.active⟩, 1, q, ∅⟩), []) := by
    rw [hpage]
    rfl
  refine (h.use_here hs htyped hinput).trans ?_
  rintro v₁ ⟨hquiet, -, hpage₁⟩
  have hsubmit : (Main.view fromFloat v₁.client.page).Sends (.browseMsg .querySubmit) := by
    rw [hpage₁, Main.sends_browse]
    exact ⟨_, Browse.sends_form.2, rfl⟩
  refine hquiet.search hs ?_ (by omega) hsubmit ?_
  · intro name hname
    obtain rfl := Option.some.inj hname
    exact List.mem_map_of_mem hmem
  · rw [hpage₁]
    show ((if isBlank q = true then _ else _ : Browse.Model × List Cmd)).map _ _ = _
    rw [hq]
    rfl

/-- The form above the results takes blank texts too. -/
theorem Quiet.search_again (hs : s.Sound) (h : v.Quiet s)
    (hlib : ∀ name ∈ library, name ∈ s.libraries.map Library.name) {j : Nat}
    (hat : AtSearch s q library j v) (q' : String) :
    CanReach (VisitStep reader fromFloat) v fun v' => v'.Quiet s ∧ AtSearch s q' library 0 v' := by
  obtain ⟨results, hpage, -⟩ := hat
  have htyped : (Main.view fromFloat v.client.page).Sends (.searchMsg (.queryInput q')) := by
    rw [hpage, Main.sends_search]
    exact ⟨_, Search.sends_form.1 q', rfl⟩
  have hinput : Main.update (.searchMsg (.queryInput q')) v.client.page =
      (.search ⟨⟨q, library, j + 1⟩, q', results⟩, []) := by
    rw [hpage]
    rfl
  refine (h.use_here hs htyped hinput).trans ?_
  rintro v₁ ⟨hquiet, -, hpage₁⟩
  have hsubmit : (Main.view fromFloat v₁.client.page).Sends (.searchMsg .querySubmit) := by
    rw [hpage₁, Main.sends_search]
    exact ⟨_, Search.sends_form.2, rfl⟩
  refine hquiet.search hs hlib (by omega) hsubmit ?_
  rw [hpage₁]
  rfl

/-! ## The pages of results -/

/-- The button of the next page is used. -/
theorem Quiet.turn_results (hs : s.Sound) (h : v.Quiet s)
    (hlib : ∀ name ∈ library, name ∈ s.libraries.map Library.name) (hreads : s.engine.Reads q)
    {j : Nat} (hat : AtSearch s q library j v)
    (hmore : (j + 1) * 48 < (matchingRows s.index s.engine q library).length) :
    CanReach (VisitStep reader fromFloat) v fun v' =>
      v'.Quiet s ∧ AtSearch s q library (j + 1) v' := by
  have hpage : AtResults s q library j v := hat.atResults hreads
  have hfew := hs.few
  have hle := length_matchingRows_le s q library
  have hpages : Search.totalPages (resultsPage s q library j).counterpart =
      max 1 ((((matchingRows s.index s.engine q library).length + 47) / 48 : Nat) : Int) :=
    congrArg (max 1) (elmDiv_pageSize
      (show (matchingRows s.index s.engine q library).length < 2 ^ 36 by omega))
  have hbutton : (Main.view fromFloat v.client.page).Sends
      (.searchMsg (.goToPage ((j + 1 : Nat) + 1))) := by
    rw [hpage, Main.sends_search]
    refine ⟨_, Search.sends_goToPage rfl ?_ ?_ ?_ ?_ ?_, rfl⟩
    · show ((j + 1 : Nat) : Int) + 1 ≠ j + 1
      omega
    · omega
    · omega
    · show (((j + 1 : Nat) : Int) + 1 - (j + 1)).natAbs ≤ 2
      omega
    · omega
  refine h.search hs hlib (by omega) hbutton ?_
  rw [hpage]
  rfl

/-- Any page of the results of any search is come to. -/
theorem Quiet.results (hs : s.Sound) (h : v.Quiet s)
    (hlib : ∀ name ∈ library, name ∈ s.libraries.map Library.name) (hreads : s.engine.Reads q)
    {j : Nat} (hj : j = 0 ∨ j * 48 < (matchingRows s.index s.engine q library).length) :
    CanReach (VisitStep reader fromFloat) v fun v' => v'.Quiet s ∧ AtResults s q library j v' := by
  have hword : isBlank "a" = false := by decide
  -- any other search gives the form that takes blank texts
  have hany : CanReach (VisitStep reader fromFloat) v fun v' =>
      v'.Quiet s ∧ AtSearch s "a" library 0 v' := by
    refine (h.home hs).trans ?_
    rintro v₁ ⟨hquiet, hhome⟩
    cases library with
    | none => exact hquiet.search_home hs hhome hword
    | some name =>
      obtain ⟨scope, hmem, rfl⟩ := List.mem_map.mp (hlib name rfl)
      refine (hquiet.enter_library hs hhome hmem).trans ?_
      rintro v₂ ⟨hquiet₂, hroot⟩
      exact hquiet₂.search_library hs hmem hroot hword
  refine hany.trans ?_
  rintro v₁ ⟨hquiet, hat⟩
  refine (hquiet.search_again hs hlib hat q).trans ?_
  rintro v₂ ⟨hquiet₂, hat₂⟩
  have hpages : CanReach (VisitStep reader fromFloat) v₂ fun v' =>
      v'.Quiet s ∧ AtSearch s q library j v' := by
    refine .iterate (I := fun (i : Nat) (v' : Visit) => v'.Quiet s ∧ AtSearch s q library i v') ?_
      ⟨hquiet₂, hat₂⟩
    rintro i hi v₃ ⟨hquiet₃, hat₃⟩
    exact hquiet₃.turn_results hs hlib hreads hat₃ (by omega)
  exact hpages.mono fun _ h => ⟨h.1, h.2.atResults hreads⟩

/-- Where no group of equally ranked rows goes over a page boundary, a hit is on a page. -/
theorem exists_resultsPage (hties : ∀ fts, ftsQuery q = some fts → Lib.TiesOnOnePage
      (fun r : Row => s.engine.rank fts r.record) (s.index.matching s.engine fts library) 48)
    {r : Row} (hr : r ∈ matchingRows s.index s.engine q library) :
    ∃ j, j * 48 < (matchingRows s.index s.engine q library).length ∧
      VideoItem.fromRecord s.active (s.index.recordFromRow r) ∈
        (resultsPage s q library j).items := by
  unfold resultsPage searchPage
  unfold matchingRows at hr ⊢
  cases hfts : ftsQuery q with
  | none =>
    rw [hfts] at hr
    exact absurd hr List.not_mem_nil
  | some fts =>
    rw [hfts] at hr
    have hperm := (Lib.pages_perm_iff (matching_nodup s.index s.engine fts library).of_map
      (by omega) (((s.index.matching s.engine fts library).length + 47) / 48)).mpr
      ⟨by omega, hties fts hfts⟩ _ (answer_statementOrder s.index s.engine fts library 48)
    obtain ⟨j, hj, hpage⟩ := List.mem_flatMap.mp (hperm.mem_iff.mpr hr)
    rw [List.mem_range] at hj
    exact ⟨j, show j * 48 < (s.index.matching s.engine fts library).length by omega,
      List.mem_map_of_mem hpage⟩

end Visit

/-- From any state of a visit to a sound server, any page of the results of any search can be come
to whose text the engine can read. It shows what the handler answers, and as long as no group of
equally ranked rows goes over a page boundary, every selected row is on one of the pages. -/
theorem every_hit {s : ServerState} (hs : s.Sound) (reader : FormReader)
    (fromFloat : Rat → String) {url : String} (hurl : s.world.Leads (Route.parse (Url.ofText url)))
    {actions : List VisitAction} {v : Visit}
    (hrun : Lib.Run (VisitStep reader fromFloat) (Visit.start url s) actions v) {q : String}
    (hreads : s.engine.Reads q) {library : Option String}
    (hlib : ∀ name ∈ library, name ∈ s.libraries.map Library.name) :
    (∀ j, j = 0 ∨ j * 48 < (matchingRows s.index s.engine q library).length →
      ∃ page more v', searchHandler s.libraries s.engine s.active
          ⟨q, library, some 48, some (j * 48)⟩ s.index = .ok page ∧
        Lib.Run (VisitStep reader fromFloat) v more v' ∧
        v'.client.page = .search ⟨⟨q, library, j + 1⟩, q, .loaded page.counterpart⟩) ∧
      ((∀ fts, ftsQuery q = some fts → Lib.TiesOnOnePage
          (fun r : Row => s.engine.rank fts r.record) (s.index.matching s.engine fts library) 48) →
        ∀ r ∈ matchingRows s.index s.engine q library, ∃ j page more v',
          Lib.Run (VisitStep reader fromFloat) v more v' ∧
          v'.client.page = .search ⟨⟨q, library, j + 1⟩, q, .loaded page⟩ ∧
          (VideoItem.fromRecord s.active (s.index.recordFromRow r)).counterpart ∈ page.items) := by
  have hinv := hrun.invariant (I := Visit.SoundInv s) (fun v a v' h hstep => h.step hs hstep)
    (Visit.soundInv_start hurl)
  have hreach : ∀ j : Nat, j = 0 ∨ j * 48 < (matchingRows s.index s.engine q library).length →
      Lib.CanReach (VisitStep reader fromFloat) v (Visit.AtResults s q library j) := by
    intro j hj
    refine (Visit.reach_quiet hs hinv).trans fun v₁ hquiet => ?_
    exact (hquiet.results hs hlib hreads hj).mono fun _ h => h.2
  constructor
  · intro j hj
    obtain ⟨more, v', hmore, hat⟩ := hreach j hj
    exact ⟨_, more, v', searchHandler_eq (hs.found hlib) (by decide) hreads s.active j, hmore, hat⟩
  · intro hties r hr
    obtain ⟨j, hj, hitem⟩ := Visit.exists_resultsPage hties hr
    obtain ⟨more, v', hmore, hat⟩ := hreach j (Or.inr hj)
    exact ⟨j, _, more, v', hmore, hat, List.mem_map_of_mem hitem⟩

namespace SmallSite

theorem every_hit_episode : ∃ j page more v',
    Lib.Run (VisitStep .plain fun _ => "") (Visit.start "/" server) more v' ∧
      v'.client.page = .search ⟨⟨"episode", none, j + 1⟩, "episode", .loaded page⟩ ∧
      (VideoItem.fromRecord none (Replaced.index.recordFromRow episode)).counterpart ∈
        page.items := by
  have hnone : ∀ name ∈ (none : Option String), name ∈ server.libraries.map Library.name := by
    simp
  have hreads : server.engine.Reads "episode" := PlainLexer.reads_everything (by decide)
  refine (every_hit sound_server .plain (fun _ => "") leads_home (.nil _) hreads hnone).2 ?_
    episode (by decide)
  intro fts _ r _ j hcut
  have hone : (Replaced.index.matching server.engine fts none).length ≤ 1 :=
    (List.length_filter_le _ _).trans (by decide)
  have hle : _ ≤ (Replaced.index.matching server.engine fts none).length :=
    List.countP_le_length (p := fun r' : Row =>
      server.engine.rank fts r'.record ≤ server.engine.rank fts r.record)
  obtain ⟨hlow, hhigh⟩ := hcut
  have hhigh' := hhigh.trans_le hle
  omega

end SmallSite

end Loku
