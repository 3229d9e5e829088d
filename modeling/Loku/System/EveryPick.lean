import Loku.System.EveryVideo

/-!
# Every title can be picked

From any state of a visit any title of a disc set can be made its main one: the visitor goes to
the directory and, unless the title is the main one there, folds the titles of the set out and uses
the title's button; the pick is posted and recorded, the listing is asked for again, and the page
shows the set with that title (`every_pick`).
-/

namespace Loku

/-! ## A set in a listing -/

namespace ServerState

variable {s : ServerState} {library : Library}

/-- Two titles of one directory and one prefix are listed as a set. -/
theorem exists_discSet (hkind : library.kind = .discs) {r r' : Row} (hr : r ∈ s.index.videos)
    (hr' : r' ∈ s.index.videos) (hne : r' ≠ r) (hlib : r.record.library = library.name)
    (hlib' : r'.record.library = library.name) (hparent : r'.record.parent = r.record.parent)
    {discSet : String} (hset : r.record.discSet = some discSet)
    (hset' : r'.record.discSet = some discSet) :
    ∃ set, Entry.discSet set ∈ listing s.index library r.record.parent s.active ∧
      set.discSet = discSet ∧
      VideoItem.fromRecord s.active (s.index.recordFromRow r) ∈ set.titles := by
  have hfirst := (mem_titlesIn hkind).mpr ⟨r, hr, hlib, rfl, hset, rfl⟩
  have hsecond := (mem_titlesIn hkind).mpr ⟨r', hr', hlib', hparent, hset', rfl⟩
  have hdiffer : s.index.recordFromRow r' ≠ s.index.recordFromRow r := by
    intro heq
    have hpath : (s.index.recordFromRow r').relPath = (s.index.recordFromRow r).relPath := by
      rw [heq]
    exact hne (s.index.videos.eq_of_key_eq hr' hr (Prod.ext (hlib'.trans hlib.symm) hpath))
  have hseveral : 1 < (titlesIn s.index library r.record.parent discSet).length := by
    generalize titlesIn _ _ _ _ = records at hfirst hsecond
    rcases records with - | ⟨first, - | ⟨second, rest⟩⟩
    · cases hfirst
    · rw [List.mem_singleton] at hfirst hsecond
      exact absurd (hsecond.trans hfirst.symm) hdiffer
    · simp
  have hfilter := filter_isSet_titlesIn s.index library r.record.parent s.active discSet
  obtain ⟨set, hentry, hname, htitles, -⟩ := discSetEntry_isSome discSet
    (List.ne_nil_of_mem hfirst)
    (s.index.browseDirectory library.name r.record.parent).overrides s.active
  rw [if_pos hseveral, hentry] at hfilter
  have hlisted : Entry.discSet set ∈
      (listing s.index library r.record.parent s.active).filter (Entry.isSet discSet) := by
    rw [hfilter]
    exact List.mem_singleton_self _
  refine ⟨set, (List.mem_filter.mp hlisted).1, hname, ?_⟩
  rw [htitles]
  exact mem_discTitles.mpr ⟨_, hfirst, rfl⟩

/-- The main title is known by its path. -/
theorem main_eq_of_path {path : String} {set : DiscSetEntry}
    (hset : Entry.discSet set ∈ listing s.index library path s.active) {r : Row}
    (hr : r ∈ s.index.videos) (hlib : r.record.library = library.name)
    (hpath : set.main.path = r.record.relPath) :
    set.main = VideoItem.fromRecord s.active (s.index.recordFromRow r) := by
  obtain ⟨-, hlib', r', hr', hmain⟩ :=
    has_of_mem_items hset (titles_of_mem_listing hset).1
  rw [← hmain] at hlib' hpath
  have hsame : r' = r :=
    s.index.videos.eq_of_key_eq hr' hr (Prod.ext (hlib'.trans hlib.symm) hpath)
  rw [← hmain, hsame]

/-- The recorded pick is the main title. -/
theorem main_eq_of_pick (hkind : library.kind = .discs) {set : DiscSetEntry} {r : Row}
    (hr : r ∈ s.index.videos) (hlib : r.record.library = library.name)
    (hset : Entry.discSet set ∈ listing s.index library r.record.parent s.active)
    (hdiscSet : r.record.discSet = some set.discSet)
    (hpick : overrideOf s.index library.name set.discSet = some r.record.relPath) :
    set.main = VideoItem.fromRecord s.active (s.index.recordFromRow r) := by
  have hmain := isMain_of_discSetEntry (discSetEntry_of_mem_listing hset)
  refine main_eq_of_path hset hr hlib (hmain.picked _ ?_ ?_)
  · rw [lookup_overrides]
    exact hpick
  · exact ⟨_, (mem_titlesIn hkind).mpr ⟨r, hr, hlib, rfl, hdiscSet, rfl⟩, rfl⟩

end ServerState

namespace Visit

open Lib (CanReach)
open Browse (BrowseState)

variable {s : ServerState} {reader : FormReader} {fromFloat : Rat → String} {v : Visit}

/-! ## The button of a title -/

/-- The pick is recorded: it was posted and accepted, and the listing was loaded after that. -/
structure Picked (library : Library) (parent discSet relPath : String) (v : Visit) : Prop where
  recorded : overrideOf v.server.index library.name discSet = some relPath
  responses : ∃ post reload, [post, reload] <:+ v.returned ∧
    post.1.call = .postMainTitle library.name discSet relPath ∧ post.2.status = 200 ∧
    reload.1.call = .getBrowse library.name parent ∧ reload.2.status = 200

/-- The button of a title is used: the pick is recorded, and the listing is loaded again. -/
theorem Quiet.pick (hs : s.Sound) (h : v.Quiet s) {library : Library}
    (hmem : library ∈ s.libraries) {rel : Path}
    (hdir : s.Directory library.name rel.relText) {state : BrowseState}
    (hpage : v.client.page = .browse (.loaded state))
    (hlibrary : state.listing.library = library.name) (hpath : state.listing.path = rel.relText)
    {r : Row} (hr : r ∈ s.index.videos) (hlib : r.record.library = library.name)
    {discSet : String} (hset : r.record.discSet = some discSet)
    (hbutton : (Browse.viewLoaded state).Sends (.pickMain discSet r.record.relPath)) :
    CanReach (VisitStep reader fromFloat) v fun v' =>
      Picked library rel.relText discSet r.record.relPath v' ∧ ∃ picks, v'.server = s.picked picks ∧
        v'.client.page = .browse (.loaded { state with
          listing := DirListing.counterpart ⟨library.name, rel.relText,
            listing (s.picked picks).index library rel.relText s.active⟩ }) := by
  obtain ⟨found, hfound, hname, root, rel', hroot, hnode, hrel⟩ := hdir
  have hsame := hs.findLibrary hfound
  rw [hname, hs.findLibrary hmem] at hsame
  obtain rfl := Option.some.inj hsame
  obtain rfl := Path.relText_inj.mp hrel
  -- the pick is posted
  have hsends : (Main.view fromFloat v.client.page).Sends
      (.browseMsg (.pickMain discSet r.record.relPath)) := by
    rw [hpage, Main.sends_browse]
    exact ⟨_, hbutton, rfl⟩
  have hupdate : Main.update (.browseMsg (.pickMain discSet r.record.relPath)) v.client.page =
      (.browse (.loaded state),
        [.call (.postMainTitle r.record.library discSet r.record.relPath)]) := by
    rw [hpage, hlib, ← hlibrary]
    rfl
  have huse : VisitStep reader fromFloat v _ _ := .use hsends
  have hquiet : (v.used (.browseMsg (.pickMain discSet r.record.relPath))).Quiet s := by
    refine ⟨h.inv.step hs huse, ?_⟩
    unfold Visit.used
    rw [h.pushed, hupdate]
    rfl
  have hsent : ⟨v.client.serial, .postMainTitle r.record.library discSet r.record.relPath⟩ ∈
      (v.used (.browseMsg (.pickMain discSet r.record.relPath))).client.inFlight := by
    refine List.mem_append_right _ (Session.mem_sent.mpr ⟨rfl, ?_⟩)
    rw [hupdate]
    exact List.mem_cons_self
  -- it is recorded, and the listing is asked for
  obtain ⟨picks, hserver⟩ := h.inv.server
  have hpicked := (hs.picked picks).setMain_eq hr hset
  obtain ⟨haccepted, hanswer⟩ := (hs.picked picks).handled_postMainTitle hr hset
  have hasked : Main.update ((Call.postMainTitle r.record.library discSet r.record.relPath).answer
      ((Call.postMainTitle r.record.library discSet r.record.relPath).handled
        (v.used (.browseMsg (.pickMain discSet r.record.relPath))).server).2).toMsg
        (v.used (.browseMsg (.pickMain discSet r.record.relPath))).client.page =
      (.browse (.loaded state), [.call (.getBrowse library.name rel.relText)]) := by
    have hstays : (v.used (.browseMsg (.pickMain discSet r.record.relPath))).client.page =
        .browse (.loaded state) := congrArg Prod.fst hupdate
    have hsameServer : (v.used (.browseMsg (.pickMain discSet r.record.relPath))).server =
        s.picked picks := hserver
    rw [hstays, hsameServer, hanswer, ← hlibrary, ← hpath]
    rfl
  refine .of_step huse ((hquiet.load hs hsent hasked).trans ?_)
  rintro v₁ ⟨hquiet₁, hserver₁, hpage₁, hsent₁, hreturned₁⟩
  obtain ⟨⟨serial, call⟩, hrequest, hcall⟩ := hsent₁ _ List.mem_cons_self
  obtain rfl : call = .getBrowse library.name rel.relText := hcall
  obtain ⟨picks₁, hpicks₁⟩ := hquiet₁.inv.server
  have hrecorded : overrideOf (s.picked picks₁).index library.name discSet =
      some r.record.relPath := by
    rw [← hpicks₁, hserver₁]
    show overrideOf (v.server.setMain ⟨r.record.library, discSet, r.record.relPath⟩).1.index _ _ = _
    rw [hserver, hpicked]
    show overrideOf (Index.setMainTitle _ _ _ _) _ _ = _
    rw [overrideOf_setMainTitle, if_pos ⟨hlib.symm, rfl⟩]
  -- the listing comes in
  obtain ⟨hlistingStatus, hlistingAnswer⟩ := (hs.picked picks₁).handled_getBrowse hmem hroot hnode
  have hlisted : Main.update ((Call.getBrowse library.name rel.relText).answer
      ((Call.getBrowse library.name rel.relText).handled v₁.server).2).toMsg v₁.client.page =
      (.browse (.loaded { state with
        listing := DirListing.counterpart ⟨library.name, rel.relText,
          listing (s.picked picks₁).index library rel.relText s.active⟩ }), []) := by
    rw [hpage₁, hpicks₁, hlistingAnswer]
    rfl
  refine (hquiet₁.load hs hrequest hlisted).mono ?_
  rintro v₂ ⟨-, hserver₂, hpage₂, -, hreturned₂⟩
  have hsame : v₂.server = s.picked picks₁ := hserver₂.trans hpicks₁
  refine ⟨⟨by rwa [hsame],
    (⟨v.client.serial, .postMainTitle r.record.library discSet r.record.relPath⟩,
      ((Call.postMainTitle r.record.library discSet r.record.relPath).handled v.server).2),
    (⟨serial, .getBrowse library.name rel.relText⟩,
      ((Call.getBrowse library.name rel.relText).handled v₁.server).2),
    ⟨v.returned, ?_⟩, ?_, ?_, rfl, ?_⟩, picks₁, hsame, hpage₂⟩
  · rw [hreturned₂, hreturned₁, List.append_assoc]
    rfl
  · rw [hlib]
  · show ((Call.postMainTitle _ _ _).handled v.server).2.status = 200
    rw [hserver]
    exact haccepted
  · show ((Call.getBrowse _ _).handled v₁.server).2.status = 200
    rw [hpicks₁]
    exact hlistingStatus

/-! ## From any state -/

/-- The page shows the directory of the row as the server lists it. -/
def ShowsDirectory (library : Library) (r : Row) (v : Visit) : Prop :=
  ∃ state, v.client.page = .browse (.loaded state) ∧
    state.listing = DirListing.counterpart ⟨library.name, r.record.parent,
      listing v.server.index library r.record.parent v.server.active⟩

/-- The page shows this listing of the server, with the row as the main title of its set. -/
def ShowsMain (s : ServerState) (library : Library) (r : Row) (discSet : String) (v : Visit) :
    Prop :=
  ∃ state set, v.client.page = .browse (.loaded state) ∧
    state.listing = DirListing.counterpart ⟨library.name, r.record.parent,
      listing v.server.index library r.record.parent v.server.active⟩ ∧
    .discSet set ∈ state.listing.entries ∧ set.discSet = discSet ∧
    set.main = (VideoItem.fromRecord s.active (s.index.recordFromRow r)).counterpart

theorem showsMain_of_listed {library : Library} {r : Row}
    {picks : Lib.Table DiscSetOverride.key} (hserver : v.server = s.picked picks)
    {set : DiscSetEntry}
    (hset : .discSet set ∈ listing (s.picked picks).index library r.record.parent s.active)
    (hmain : set.main = VideoItem.fromRecord s.active (s.index.recordFromRow r))
    {state : BrowseState} (hpage : v.client.page = .browse (.loaded state))
    (hlisting : state.listing = DirListing.counterpart ⟨library.name, r.record.parent,
      listing (s.picked picks).index library r.record.parent s.active⟩) :
    ShowsMain s library r set.discSet v := by
  refine ⟨state, ⟨set.discSet, set.displayTitle, set.main.counterpart,
    set.titles.map VideoItem.counterpart⟩, hpage, ?_, ?_, rfl,
    congrArg VideoItem.counterpart hmain⟩
  · rw [hlisting, hserver]
    rfl
  · rw [hlisting]
    exact List.mem_map_of_mem hset

/-- On the directory the title is the main one, or it is picked. -/
theorem Quiet.pick_from_directory (hs : s.Sound) (h : v.Quiet s) {library : Library}
    (hmem : library ∈ s.libraries) (hkind : library.kind = .discs) {r : Row}
    (hr : r ∈ s.index.videos) (hlib : r.record.library = library.name) {rel : Path}
    (hparent : r.record.parent = rel.relText) {discSet : String}
    (hset : r.record.discSet = some discSet)
    (hother : ∃ r' ∈ s.index.videos, r' ≠ r ∧ r'.record.library = library.name ∧
      r'.record.parent = r.record.parent ∧ r'.record.discSet = some discSet)
    {server : ServerState} (hat : AtDirectory server library rel v) :
    ShowsMain s library r discSet v ∨ CanReach (VisitStep reader fromFloat) v fun v' =>
      ShowsMain s library r discSet v' ∧
        Picked library r.record.parent discSet r.record.relPath v' := by
  obtain ⟨r', hr', hne, hlib', hparent', hset'⟩ := hother
  have hlisted := fun picks => ServerState.exists_discSet (s := s.picked picks) hkind hr hr' hne
    hlib hlib' hparent' hset hset'
  obtain ⟨picks, hserver⟩ := h.inv.server
  obtain rfl : server = s.picked picks := hat.unchanged.symm.trans hserver
  obtain ⟨set, hentry, rfl, htitle⟩ := hlisted picks
  by_cases hmain : set.main.path = r.record.relPath
  · left
    have hsame := ServerState.main_eq_of_path (s := s.picked picks) hentry hr hlib hmain
    refine showsMain_of_listed hserver hentry hsame hat.page ?_
    rw [hparent]
    rfl
  · right
    rw [hparent] at hentry
    obtain ⟨state, hlisting, hexpanded, hpage, j, hj, hshown⟩ := hat.exists_page hs hentry rfl
    refine (h.turn_to hs hpage j hj).trans ?_
    rintro v₁ ⟨hquiet₁, -, hpage₁⟩
    have hfolded : set.discSet ∉ (state.atPage (j + 1)).expanded := by
      show set.discSet ∉ state.expanded
      rw [hexpanded]
      exact Finset.notMem_empty _
    refine (hquiet₁.unfold_set hs hpage₁ hshown hfolded).trans ?_
    rintro v₂ ⟨hquiet₂, hpage₂⟩
    have hdir : s.Directory library.name rel.relText := by
      refine hs.directory_of_row hmem hr hlib ?_
      rw [hparent]
      exact atOrBeneath_relText.mpr List.prefix_rfl
    have hlibrary : state.listing.library = library.name := by
      rw [hlisting]
      rfl
    have hpath : state.listing.path = rel.relText := by
      rw [hlisting]
      rfl
    refine (hquiet₂.pick hs hmem hdir hpage₂ hlibrary hpath hr hlib hset ?_).mono ?_
    · exact Browse.sends_of_shown hshown (Or.inr ⟨Finset.mem_insert_self _ _, _,
        List.mem_map_of_mem htitle, Ne.symm hmain, rfl⟩)
    · rintro v₃ ⟨hpicked, picks₃, hserver₃, hpage₃⟩
      obtain ⟨set₃, hentry₃, hname, -⟩ := hlisted picks₃
      have hpick := hpicked.recorded
      rw [hserver₃] at hpick
      rw [← hparent] at hpicked
      rw [← hname] at hset hpick hpicked ⊢
      have hsame := ServerState.main_eq_of_pick (s := s.picked picks₃) hkind hr hlib hentry₃ hset
        hpick
      refine ⟨showsMain_of_listed hserver₃ hentry₃ hsame hpage₃ ?_, hpicked⟩
      rw [hparent]

end Visit

/-- From any state of a visit to a sound server, the directory of any title of a disc set can be
come to. The title is the main one of its set there, or it can be made that from there: the pick is
posted and recorded, the listing is loaded again, and the page shows the set with that title. -/
theorem every_pick {s : ServerState} (hs : s.Sound) (reader : FormReader)
    (fromFloat : Rat → String) {url : String} (hurl : s.world.Leads (Route.parse (Url.ofText url)))
    {actions : List VisitAction} {v : Visit}
    (hrun : Lib.Run (VisitStep reader fromFloat) (Visit.start url s) actions v) {library : Library}
    (hmem : library ∈ s.libraries) (hkind : library.kind = .discs) {r : Row}
    (hr : r ∈ s.index.videos) (hlib : r.record.library = library.name) {discSet : String}
    (hset : r.record.discSet = some discSet)
    (hother : ∃ r' ∈ s.index.videos, r' ≠ r ∧ r'.record.library = library.name ∧
      r'.record.parent = r.record.parent ∧ r'.record.discSet = some discSet) :
    ∃ before v₁, Lib.Run (VisitStep reader fromFloat) v before v₁ ∧
      Visit.ShowsDirectory library r v₁ ∧
      (Visit.ShowsMain s library r discSet v₁ ∨
        ∃ more v', Lib.Run (VisitStep reader fromFloat) v₁ more v' ∧
          Visit.ShowsMain s library r discSet v' ∧
          Visit.Picked library r.record.parent discSet r.record.relPath v') := by
  have hinv := hrun.invariant (I := Visit.SoundInv s) (fun v a v' h hstep => h.step hs hstep)
    (Visit.soundInv_start hurl)
  obtain ⟨-, -, -, rel, hparent⟩ := Visit.exists_parent hs hr
  obtain ⟨before, v₁, hbefore, hquiet, server, hat⟩ : Lib.CanReach (VisitStep reader fromFloat) v
      fun v' => v'.Quiet s ∧ ∃ server, Visit.AtDirectory server library rel v' :=
    Visit.reach_directory hs hinv hmem hr hlib hparent
  refine ⟨before, v₁, hbefore, ⟨_, hat.page, ?_⟩,
    hquiet.pick_from_directory hs hmem hkind hr hlib hparent hset hother hat⟩
  rw [hat.unchanged, hparent]

/-! ## A disc of two titles -/

namespace TwoTitles

open OneVideo (lib decoders)

def library : Library := ⟨"discs", [lib], .discs⟩

def tree : FileTree :=
  .ofNodes [([], .dir), ([lib], .dir), ([lib, ⟨"Movie_t00.mkv", by decide⟩], .file ⟨[1, 2, 3], 5⟩),
    ([lib, ⟨"Movie_t01.mkv", by decide⟩], .file ⟨[1], 5⟩)] (by decide) (by decide)

def index : Index := (scanAll decoders Faults.none (fun _ => .still tree) [library] .openInMemory).1

def server : ServerState :=
  ⟨tree, [library], PlainLexer.everything, none, index⟩

theorem sound_server : server.Sound := by
  have hresolve : resolveLibraries tree none (some [⟨"discs", [lib], .discs⟩]) =
      .ok [library] := by decide
  have hscan : scanAll decoders Faults.none (fun _ => .still tree) [library] .openInMemory =
      (index, .ok { directories := 1, videos := 2, removed := 0 }) := by decide +kernel
  have hnumbers : ∀ r ∈ index.videos.rows, r.record.year = none ∧ r.record.viewCount = none ∧
      ∀ n ∈ r.record.discTitleIndex, n.natAbs < 2 ^ 53 := by decide +kernel
  refine ServerState.sound_of_scan Relation.ReflTransGen.refl hresolve
    (fun r hr => absurd hr (Lib.Table.not_mem_empty r)) hscan ?_ _ _ ?_ (by decide +kernel)
  · intro l hl
    obtain rfl := List.mem_singleton.mp hl
    exact ⟨[lib], by decide, by decide⟩
  · intro r hr
    obtain ⟨hyear, hviews, htitle⟩ := hnumbers r hr
    refine ⟨fun n hn => ?_, fun n hn => ?_, fun n hn => ?_⟩
    · exact absurd (hyear ▸ hn : n ∈ (none : Option Int)) (Option.not_mem_none n)
    · exact absurd (hviews ▸ hn : n ∈ (none : Option Int)) (Option.not_mem_none n)
    · exact Lib.asDouble_of_natAbs_lt (htitle n hn)

/-- The smaller title. -/
def second : Row := index.videos.rows.getLast (by decide +kernel)

theorem every_pick_second : ∃ before v₁,
    Lib.Run (VisitStep .plain fun _ => "") (Visit.start "/" server) before v₁ ∧
      Visit.ShowsDirectory library second v₁ ∧
      (Visit.ShowsMain server library second "Movie" v₁ ∨
        ∃ more v', Lib.Run (VisitStep .plain fun _ => "") v₁ more v' ∧
          Visit.ShowsMain server library second "Movie" v' ∧
          Visit.Picked library second.record.parent "Movie" second.record.relPath v') := by
  have hleads : server.world.Leads (Route.parse (Url.ofText "/")) := by
    rw [show Route.parse (Url.ofText "/") = .home from rfl]
    trivial
  have hother : ∃ r' ∈ index.videos.rows, r' ≠ second ∧ r'.record.library = "discs" ∧
      r'.record.parent = second.record.parent ∧ r'.record.discSet = some "Movie" := by
    decide +kernel
  have hmem : library ∈ server.libraries := List.mem_cons_self
  exact every_pick sound_server .plain (fun _ => "") hleads (.nil _) hmem rfl
    (List.getLast_mem _) (by decide +kernel) (by decide +kernel) hother

end TwoTitles

end Loku
