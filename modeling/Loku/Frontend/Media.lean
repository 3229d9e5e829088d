import Loku.Frontend.Links

/-!
# The files that a page asks for

A page loads pictures and videos by itself and offers files to be downloaded. All that it asks
for so is of the items that it holds: their videos, thumbnails and compat copies
(`holds_of_fetches`).
-/

namespace Loku

open Html Attribute

section
variable {msg msg' : Type} {tag url : String} {attributes : List (Attribute msg)}
  {children : List (Html msg)}

/-- An address that the page loads by itself, or offers for download. -/
def Html.Fetches (html : Html msg) (url : String) : Prop :=
  html.Has fun tag attributes => Attribute.src url ∈ attributes ∨
    (tag = "a" ∧ Attribute.href url ∈ attributes ∧ ∃ a ∈ attributes, a.isNamed "download")

@[simp]
theorem Html.fetches_text (s : String) : ¬ (text s : Html msg).Fetches url := has_text _ s

@[simp]
theorem Html.fetches_node : (node tag attributes children).Fetches url ↔
    (Attribute.src url ∈ attributes ∨
      (tag = "a" ∧ Attribute.href url ∈ attributes ∧
        ∃ a ∈ attributes, a.isNamed "download")) ∨
    ∃ child ∈ children, child.Fetches url :=
  has_node

theorem Html.fetches_map {f : msg → msg'} {html : Html msg} :
    (html.map f).Fetches url ↔ html.Fetches url := by
  unfold Fetches
  rw [has_map]
  have hnamed : ∀ (name : String) (a : Attribute msg),
      a.map f = .named name url ↔ a = .named name url := by
    intro name a
    cases a <;> simp [Attribute.map]
  unfold Has src href
  simp only [List.mem_map, hnamed, exists_eq_right, exists_exists_and_eq_and,
    Attribute.isNamed_map]

end

/-- The files of an item: its video, its thumbnail and its compat copy. -/
def Api.VideoItem.files (item : Api.VideoItem) : List String :=
  item.path :: (item.thumbPath.toList ++ item.compatPath.toList)

def Api.Entry.items : Api.Entry → List Api.VideoItem
  | .directory _ => []
  | .video item => [item]
  | .discSet set => set.main :: set.titles

/-- The items that a page has got. -/
def Page.Holds : Page → Api.VideoItem → Prop
  | .browse (.loaded state), item => ∃ entry ∈ state.listing.entries, item ∈ entry.items
  | .search model, item => ∃ page, model.results = .loaded page ∧ item ∈ page.items
  | .player (.loaded state), item => item = state.item
  | _, _ => False

/-! ## Cards -/

namespace Ui

section
variable {msg : Type} {url : String} {item : Api.VideoItem}

/-- A card shows its item's thumbnail. -/
theorem fetches_videoCard : (videoCard item : Html msg).Fetches url ↔
    ∃ thumb, item.thumbPath = some thumb ∧ url = Api.videoUrl item.library thumb := by
  have hthumbnail : (cardThumbnail item : Html msg).Fetches url ↔
      ∃ thumb, item.thumbPath = some thumb ∧ url = Api.videoUrl item.library thumb := by
    unfold cardThumbnail
    cases item.thumbPath with
    | none => simp [div, class_, src]
    | some thumb => simp [img, class_, src, alt, Api.thumbUrl]
  have hbadge : ¬ (derivationBadge item : Html msg).Fetches url := by
    unfold derivationBadge
    split <;> simp [div, class_, src]
  simp [videoCard, div, a, class_, src, href, isNamed, hthumbnail, hbadge]

theorem fetches_errorText (message : String) : ¬ (errorText message : Html msg).Fetches url := by
  simp [errorText, p, class_, src]

theorem fetches_viewPagination {toMsg : Int → msg} {current total : Int} :
    ¬ (viewPagination toMsg current total).Fetches url := by
  have hitem : ∀ item, ¬ (viewPageItem toMsg current item).Fetches url := by
    intro item
    cases item with
    | gap => simp [viewPageItem, span, class_, src]
    | page i =>
      simp only [viewPageItem]
      split <;> simp [span, button, class_, src]
  simp [viewPagination, div, hitem, class_, src]

end

end Ui

/-! ## The pages -/

theorem Home.fetches_view {model : Home.Model} {url : String} :
    ¬ (Home.view model).Fetches url := by
  have hsearch : ¬ (viewSearch model.query).Fetches url := by
    simp [viewSearch, form, input, button, class_, src, type_, placeholder, value]
  have hcard : ∀ library, ¬ (viewLibraryCard library).Fetches url := by
    intro library
    simp [viewLibraryCard, a, div, class_, src, href, isNamed]
  cases hlibraries : model.libraries <;>
    simp [view, viewLibraries, hlibraries, div, h1, p, class_, src, hsearch, hcard,
      Ui.fetches_errorText]

namespace Browse

variable {url : String}

theorem fetches_viewBreadcrumb {library path : String} :
    ¬ (viewBreadcrumb library path).Fetches url := by
  have hcrumb : ∀ path label, ¬ (viewCrumb library path label).Fetches url := by
    intro path label
    simp [viewCrumb, span, a, href, src, isNamed]
  unfold viewBreadcrumb nav
  rw [fetches_node]
  rintro (h | ⟨child, hchild, h⟩)
  · simp [class_, src] at h
  · rcases List.mem_cons.mp hchild with rfl | hchild
    · simp [a, href, src, isNamed] at h
    · rcases List.mem_cons.mp hchild with rfl | hchild
      · exact hcrumb _ _ h
      · obtain ⟨i, hi, rfl⟩ := List.mem_mapIdx.mp hchild
        exact hcrumb _ _ h

theorem fetches_viewSetTitle {set : Api.DiscSetEntry} {item : Api.VideoItem} :
    ¬ (viewSetTitle set item).Fetches url := by
  by_cases hmain : item.path = set.main.path <;>
    simp [viewSetTitle, hmain, div, a, button, class_, href, src, isNamed]

theorem fetches_viewEntry {library : String} {expanded : Finset String} {entry : Api.Entry}
    (h : (viewEntry library expanded entry).Fetches url) : ∃ item ∈ entry.items, ∃ thumb,
      item.thumbPath = some thumb ∧ url = Api.videoUrl item.library thumb := by
  cases entry with
  | directory dir => simp [viewEntry, div, a, class_, href, src, isNamed] at h
  | video item => exact ⟨item, List.mem_cons_self, Ui.fetches_videoCard.mp h⟩
  | discSet set =>
    have hcard : (Ui.videoCard set.main : Html Msg).Fetches url := by
      by_cases hexpanded : set.discSet ∈ expanded <;>
        simpa [viewEntry, viewDiscSet, hexpanded, div, button, class_, src, fetches_viewSetTitle]
          using h
    exact ⟨set.main, List.mem_cons_self, Ui.fetches_videoCard.mp hcard⟩

theorem fetches_viewLoaded {state : BrowseState} (h : (viewLoaded state).Fetches url) :
    ∃ entry ∈ state.listing.entries, ∃ item ∈ entry.items, ∃ thumb,
      item.thumbPath = some thumb ∧ url = Api.videoUrl item.library thumb := by
  unfold viewLoaded div at h
  rcases fetches_node.mp h with h | ⟨child, hchild, h⟩
  · simp at h
  · simp only [List.mem_cons, List.not_mem_nil, or_false] at hchild
    rcases hchild with rfl | rfl | rfl | rfl
    · exact absurd h fetches_viewBreadcrumb
    · simp [viewSearchBar, form, input, button, class_, src, type_, placeholder, value] at h
    · rcases fetches_node.mp h with h | ⟨child, hchild, h⟩
      · simp [class_, src] at h
      · rw [← List.map_append] at hchild
        obtain ⟨entry, hentry, rfl⟩ := List.mem_map.mp hchild
        refine ⟨entry, ?_, fetches_viewEntry h⟩
        rcases List.mem_append.mp hentry with hdir | hitem
        · exact (List.mem_filter.mp hdir).1
        · exact (List.mem_filter.mp (List.mem_of_mem_drop (List.mem_of_mem_take hitem))).1
    · split at h
      · exact absurd h Ui.fetches_viewPagination
      · exact absurd h (fetches_text _)

end Browse

theorem Search.fetches_view {model : Search.Model} {url : String}
    (h : (Search.view model).Fetches url) : ∃ page, model.results = .loaded page ∧
      ∃ item ∈ page.items, ∃ thumb,
        item.thumbPath = some thumb ∧ url = Api.videoUrl item.library thumb := by
  have hheader : ¬ (viewHeader model).Fetches url := by
    simp [viewHeader, div, a, form, input, button, class_, src, type_, placeholder, value, href,
      isNamed]
  cases hmodel : model.results with
  | loading => simp [view, hmodel, div, p, class_, src, hheader] at h
  | failed message => simp [view, hmodel, div, hheader, Ui.fetches_errorText] at h
  | loaded page =>
    refine ⟨page, rfl, ?_⟩
    by_cases hpages : totalPages page > 1 <;>
      simpa [view, hmodel, viewResults, hpages, div, p, class_, src, hheader,
        Ui.fetches_videoCard, Ui.fetches_viewPagination] using h

namespace Player

section
variable {msg : Type} {url : String}

theorem fetches_outerLink (address label : String) :
    ¬ (outerLink address label : Html msg).Fetches url := by
  simp [outerLink, a, target, href, src, isNamed]

theorem fetches_viewDescription (desc : String) :
    ¬ (viewDescription desc : Html msg).Fetches url := by
  unfold viewDescription div
  rw [fetches_node]
  rintro (h | ⟨child, hchild, h⟩)
  · simp [class_, src] at h
  · rcases mem_renderDescription hchild with ⟨s, rfl⟩ | ⟨address, rest, rfl⟩
    · exact fetches_text s h
    · simp [span, fetches_outerLink] at h

end

variable {fromFloat : Rat → String} {state : PlayerState} {url : String}

theorem not_fetches_viewMetadata {item : Api.VideoItem} {html : Html Msg}
    (h : html ∈ viewMetadata fromFloat item) : ¬ html.Fetches url := by
  rcases mem_viewMetadata h with
    ⟨line, rfl⟩ | ⟨address, channel, rfl⟩ | ⟨address, rfl⟩ | ⟨desc, rfl⟩
  · simp [p]
  · cases address <;> simp [viewChannel, p, fetches_outerLink]
  · simp [viewYoutubeLink, p, fetches_outerLink]
  · exact fetches_viewDescription desc

/-- The player's addresses: the video itself, and its compat copy. -/
def PlayerState.Plays (state : PlayerState) (url : String) : Prop :=
  url = Api.videoUrl state.item.library state.item.path ∨
    ∃ compat, state.item.compatPath = some compat ∧ url = Api.videoUrl state.item.library compat

theorem fetches_downloadLink (h : (downloadLink state.item).Fetches url) : state.Plays url := by
  refine Or.inl ?_
  simpa [downloadLink, a, href, src, isNamed] using h

theorem fetches_viewPlayer (h : (viewPlayer fromFloat state).Fetches url) : state.Plays url := by
  have hbar : ¬ (bufferBar fromFloat state.bufferFraction).Fetches url := by
    unfold bufferBar
    split <;> simp [progress, class_, src]
  unfold PlayerState.Plays
  cases hnative : state.item.nativeType <;> cases hcompat : state.item.compatPath <;>
    simp [viewPlayer, videoSources, hnative, hcompat, div, video, source, videoAttrs, controls,
      class_, src, type_, hbar] at h ⊢
  · exact h
  · exact Or.inr h
  · exact h
  · exact h

theorem fetches_viewMain (h : (viewMain fromFloat state).Fetches url) : state.Plays url := by
  have hpreparing : ∀ message, (viewPreparing message state.item).Fetches url →
      (downloadLink state.item).Fetches url := by
    intro message h
    simpa [viewPreparing, div, p, class_, src] using h
  unfold viewMain at h
  split at h
  · refine fetches_downloadLink ?_
    simpa [viewMediaError, div, p, class_, src] using h
  · split at h
    · split at h
      · exact fetches_downloadLink (hpreparing _ h)
      · exact fetches_downloadLink (hpreparing _ h)
      · exact fetches_downloadLink (hpreparing _ h)
      · exact fetches_viewPlayer h
    · exact fetches_viewPlayer h

theorem fetches_viewLoaded (h : (viewLoaded fromFloat state).Fetches url) : state.Plays url := by
  unfold viewLoaded div at h
  rcases fetches_node.mp h with h | ⟨child, hchild, h⟩
  · simp [class_, src] at h
  · simp only [List.mem_append, List.mem_cons, List.not_mem_nil, or_false] at hchild
    rcases hchild with (rfl | rfl | rfl) | hchild
    · simp [backLink, a, class_, href, src, isNamed] at h
    · exact fetches_viewMain h
    · simp [h2, class_, src] at h
    · exact absurd h (not_fetches_viewMetadata hchild)

end Player

/-- All that a page asks for is a file of an item that it has got. -/
theorem Main.holds_of_fetches {fromFloat : Rat → String} {page : Page} {url : String}
    (h : (Main.view fromFloat page).Fetches url) :
    ∃ item, page.Holds item ∧ ∃ file ∈ item.files, url = Api.videoUrl item.library file := by
  have hthumb : ∀ {item : Api.VideoItem}, (∃ thumb, item.thumbPath = some thumb ∧
      url = Api.videoUrl item.library thumb) →
      ∃ file ∈ item.files, url = Api.videoUrl item.library file := by
    rintro item ⟨thumb, hthumb, rfl⟩
    exact ⟨thumb, by simp [Api.VideoItem.files, hthumb], rfl⟩
  unfold view div at h
  rcases fetches_node.mp h with h | ⟨child, hchild, h⟩
  · simp [class_, src] at h
  · obtain rfl := List.mem_singleton.mp hchild
    cases page with
    | home model => exact absurd (fetches_map.mp h) Home.fetches_view
    | browse model =>
      have h := fetches_map.mp h
      cases model with
      | loading params => simp [Browse.view, p, class_, src] at h
      | failed message => exact absurd h (Ui.fetches_errorText _)
      | loaded state =>
        obtain ⟨entry, hentry, item, hitem, hfile⟩ := Browse.fetches_viewLoaded h
        exact ⟨item, ⟨entry, hentry, hitem⟩, hthumb hfile⟩
    | search model =>
      obtain ⟨page, hpage, item, hitem, hfile⟩ := Search.fetches_view (fetches_map.mp h)
      exact ⟨item, ⟨page, hpage, hitem⟩, hthumb hfile⟩
    | player model =>
      have h := fetches_map.mp h
      cases model with
      | loading params => simp [Player.view, p, class_, src] at h
      | failed message => simp [Player.view, p, class_, src] at h
      | loaded state =>
        refine ⟨state.item, rfl, ?_⟩
        rcases Player.fetches_viewLoaded h with rfl | ⟨compat, hcompat, rfl⟩
        · exact ⟨_, List.mem_cons_self, rfl⟩
        · exact ⟨compat, by simp [Api.VideoItem.files, hcompat], rfl⟩
    | notFound => simp [p, class_, src] at h

end Loku
