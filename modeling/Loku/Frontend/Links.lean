import Loku.Frontend.Views

/-!
# What a page offers

The links that a page renders and the messages that its controls send, page by page: a card leads
to the player of its item, a directory to its listing, a crumb to the listing of a part of the
path, and a page button sends the number of a page that exists.
-/

namespace Loku

open Html Attribute

section
variable {msg : Type} {tag url : String} {m : msg} {attributes : List (Attribute msg)}
  {children : List (Html msg)}

@[simp]
theorem Html.links_text (s : String) : ¬ (text s : Html msg).Links url := has_text _ s

@[simp]
theorem Html.sends_text (s : String) : ¬ (text s : Html msg).Sends m := has_text _ s

@[simp]
theorem Html.links_node : (node tag attributes children).Links url ↔
    (tag = "a" ∧ Attribute.href url ∈ attributes ∧
      (∀ a ∈ attributes, a.isNamed "target" = false ∧ a.isNamed "download" = false)) ∨
    ∃ child ∈ children, child.Links url :=
  has_node

@[simp]
theorem Html.sends_node : (node tag attributes children).Sends m ↔
    (∃ a ∈ attributes, a.Sends m) ∨ ∃ child ∈ children, child.Sends m :=
  has_node

end

/-! ## Cards and page buttons -/

namespace Ui

section
variable {msg : Type} {url : String} {m : msg} {item : Api.VideoItem}

theorem has_cardThumbnail {P : String → List (Attribute msg) → Prop}
    (h : (cardThumbnail item : Html msg).Has P) :
    ∃ tag attributes, P tag attributes ∧ tag ≠ "a" ∧ ∀ a ∈ attributes, ∀ m, ¬ a.Sends m := by
  unfold cardThumbnail at h
  split at h
  · rcases has_node.mp h with h | ⟨child, hchild, -⟩
    · exact ⟨_, _, h, by decide, by simp [Attribute.src, alt, class_, Attribute.Sends]⟩
    · cases hchild
  · rcases has_node.mp h with h | ⟨child, hchild, h⟩
    · exact ⟨_, _, h, by decide, by simp [class_, Attribute.Sends]⟩
    · obtain rfl := List.mem_singleton.mp hchild
      exact absurd h (has_text _ _)

@[simp]
theorem links_cardThumbnail : ¬ (cardThumbnail item : Html msg).Links url := by
  intro h
  obtain ⟨tag, attributes, ⟨htag, -⟩, hne, -⟩ := has_cardThumbnail h
  exact hne htag

@[simp]
theorem sends_cardThumbnail : ¬ (cardThumbnail item : Html msg).Sends m := by
  intro h
  obtain ⟨tag, attributes, ⟨a, ha, hsends⟩, -, hnone⟩ := has_cardThumbnail h
  exact hnone a ha m hsends

@[simp]
theorem links_derivationBadge : ¬ (derivationBadge item : Html msg).Links url := by
  unfold derivationBadge
  split <;> simp [div]

@[simp]
theorem sends_derivationBadge : ¬ (derivationBadge item : Html msg).Sends m := by
  unfold derivationBadge
  split <;> simp [div, class_, Attribute.Sends]

/-- A card leads to the player. -/
@[simp]
theorem links_videoCard : (videoCard item : Html msg).Links url ↔
    url = (Route.player ⟨item.library, item.path⟩).toString := by
  simp [videoCard, div, a, class_, href, isNamed]

@[simp]
theorem sends_videoCard : ¬ (videoCard item : Html msg).Sends m := by
  simp [videoCard, div, a, class_, href, Attribute.Sends]

@[simp]
theorem links_errorText (message : String) : ¬ (errorText message : Html msg).Links url := by
  simp [errorText, p]

@[simp]
theorem sends_errorText (message : String) : ¬ (errorText message : Html msg).Sends m := by
  simp [errorText, p, class_, Attribute.Sends]

end

/-- Whether a page is listed by number. -/
theorem mem_build {current total : Int} {i : Int} {j last : Int} {acc : List PageItem} :
    PageItem.page i ∈ build current total j last acc ↔
      PageItem.page i ∈ acc ∨ (j ≤ i ∧ i ≤ total ∧ shouldInclude current total i) := by
  fun_induction build current total j last acc with
  | case1 j last acc hend =>
    rw [List.mem_reverse]
    constructor
    · exact Or.inl
    · rintro (h | ⟨hj, hi, -⟩)
      · exact h
      · omega
  | case2 j last acc hle hinclude gapped ih =>
    have hgapped : PageItem.page i ∈ gapped ↔ PageItem.page i ∈ acc := by
      simp only [gapped]
      split <;> simp
    rw [ih, List.mem_cons, hgapped, PageItem.page.injEq]
    constructor
    · rintro ((rfl | h) | ⟨hj, hi, h⟩)
      · exact Or.inr ⟨le_rfl, by omega, hinclude⟩
      · exact Or.inl h
      · exact Or.inr ⟨by omega, hi, h⟩
    · rintro (h | ⟨hj, hi, h⟩)
      · exact Or.inl (Or.inr h)
      · by_cases heq : i = j
        · exact Or.inl (Or.inl heq)
        · exact Or.inr ⟨by omega, hi, h⟩
  | case3 j last acc hle hexclude ih =>
    rw [ih]
    refine or_congr_right ⟨?_, ?_⟩
    · rintro ⟨hj, hi, h⟩
      exact ⟨by omega, hi, h⟩
    · rintro ⟨hj, hi, h⟩
      have hne : i ≠ j := by
        rintro rfl
        exact hexclude h
      exact ⟨by omega, hi, h⟩

theorem mem_pageItems {current total i : Int} :
    PageItem.page i ∈ pageItems current total ↔
      1 ≤ i ∧ i ≤ total ∧ (i = 1 ∨ i = total ∨ (i - current).natAbs ≤ 2) := by
  unfold pageItems
  rw [mem_build]
  simp [shouldInclude, or_assoc]

section
variable {msg : Type} {url : String} {m : msg} {toMsg : Int → msg} {current total : Int}

@[simp]
theorem links_viewPagination : ¬ (viewPagination toMsg current total).Links url := by
  have hitem : ∀ item, ¬ (viewPageItem toMsg current item).Links url := by
    intro item
    cases item with
    | gap => simp [viewPageItem, span]
    | page i =>
      simp only [viewPageItem]
      split <;> simp [span, button]
  simp [viewPagination, div, hitem]

/-- The buttons are those of the pages listed, save the current one. -/
theorem sends_viewPagination : (viewPagination toMsg current total).Sends m ↔
    ∃ i, i ≠ current ∧ 1 ≤ i ∧ i ≤ total ∧ (i = 1 ∨ i = total ∨ (i - current).natAbs ≤ 2) ∧
      toMsg i = m := by
  have hitem : ∀ item, (viewPageItem toMsg current item).Sends m ↔
      ∃ i, item = .page i ∧ i ≠ current ∧ toMsg i = m := by
    intro item
    cases item with
    | gap => simp [viewPageItem, span, class_, Attribute.Sends]
    | page i =>
      simp only [viewPageItem]
      by_cases hi : i = current
      · simp [span, class_, Attribute.Sends, hi]
      · simp [button, class_, Attribute.Sends, hi]
  simp only [viewPagination, div, sends_node, List.mem_map, exists_exists_and_eq_and, hitem]
  constructor
  · rintro (h | ⟨item, hmem, i, rfl, hne, htoMsg⟩)
    · simp [class_, Attribute.Sends] at h
    · obtain ⟨hfirst, hlast, hnear⟩ := mem_pageItems.mp hmem
      exact ⟨i, hne, hfirst, hlast, hnear, htoMsg⟩
  · rintro ⟨i, hne, hfirst, hlast, hnear, htoMsg⟩
    exact Or.inr ⟨.page i, mem_pageItems.mpr ⟨hfirst, hlast, hnear⟩, i, rfl, hne, htoMsg⟩

end

end Ui

/-! ## The home page -/

namespace Home

variable {model : Model} {url : String} {m : Msg}

/-- The home page leads to the libraries. -/
theorem links_view : (view model).Links url ↔ ∃ libraries, model.libraries = .loaded libraries ∧
    ∃ library ∈ libraries, url = (Route.browse ⟨library.name, "", 1⟩).toString := by
  have hsearch : ¬ (viewSearch model.query).Links url := by simp [viewSearch, form, input, button]
  have hcard : ∀ library, (viewLibraryCard library).Links url ↔
      url = (Route.browse ⟨library.name, "", 1⟩).toString := by
    intro library
    simp [viewLibraryCard, a, div, class_, href, isNamed]
  cases hlibraries : model.libraries <;>
    simp [view, viewLibraries, hlibraries, div, h1, p, hsearch, hcard]

theorem sends_view (h : (view model).Sends m) :
    (∃ query, m = .queryInput query) ∨ m = .querySubmit := by
  have hlibraries : ¬ (viewLibraries model.libraries).Sends m := by
    cases model.libraries <;>
      simp [viewLibraries, viewLibraryCard, a, div, p, class_, href, Attribute.Sends]
  simp [view, viewSearch, hlibraries, div, h1, form, input, button, class_, type_, placeholder,
    value, Attribute.Sends] at h
  rcases h with rfl | ⟨query, rfl⟩
  · exact Or.inr rfl
  · exact Or.inl ⟨query, rfl⟩

/-- The form takes any text. -/
theorem sends_form : (∀ query, (view model).Sends (.queryInput query)) ∧
    (view model).Sends .querySubmit := by
  simp [view, viewSearch, div, form, input, Attribute.Sends]

end Home

/-! ## The browse page -/

namespace Browse

variable {url : String} {m : Msg}

/-- The crumbs lead home, to the library and to each part of the path. -/
theorem links_viewBreadcrumb {library path : String} :
    (viewBreadcrumb library path).Links url ↔ url = Route.home.toString ∨
      url = (Route.browse ⟨library, "", 1⟩).toString ∨
      ∃ i < (crumbParts path).length,
        url = (Route.browse ⟨library, crumbPath (crumbParts path) i, 1⟩).toString := by
  have hcrumb : ∀ path label, (viewCrumb library path label).Links url ↔
      url = (Route.browse ⟨library, path, 1⟩).toString := by
    intro path label
    simp [viewCrumb, span, a, href, isNamed]
  have hparts : (∃ child ∈ (crumbParts path).mapIdx fun i part =>
      viewCrumb library (crumbPath (crumbParts path) i) part, child.Links url) ↔
      ∃ i < (crumbParts path).length,
        url = (Route.browse ⟨library, crumbPath (crumbParts path) i, 1⟩).toString := by
    simp only [List.mem_mapIdx]
    constructor
    · rintro ⟨child, ⟨i, hi, rfl⟩, hlinks⟩
      exact ⟨i, hi, (hcrumb _ _).mp hlinks⟩
    · rintro ⟨i, hi, hurl⟩
      exact ⟨_, ⟨i, hi, rfl⟩, (hcrumb _ _).mpr hurl⟩
  unfold viewBreadcrumb nav
  rw [links_node]
  simp only [List.mem_cons, exists_eq_or_imp, hcrumb, hparts]
  simp [a, href, isNamed]

theorem sends_viewBreadcrumb {library path : String} :
    ¬ (viewBreadcrumb library path).Sends m := by
  have hcrumb : ∀ path label, ¬ (viewCrumb library path label).Sends m := by
    intro path label
    simp [viewCrumb, span, a, href, Attribute.Sends]
  unfold viewBreadcrumb nav
  rw [sends_node]
  rintro (h | ⟨child, hchild, h⟩)
  · simp [class_, Attribute.Sends] at h
  · rcases List.mem_cons.mp hchild with rfl | hchild
    · simp [a, href, Attribute.Sends] at h
    · rcases List.mem_cons.mp hchild with rfl | hchild
      · exact hcrumb _ _ h
      · obtain ⟨i, hi, rfl⟩ := List.mem_mapIdx.mp hchild
        exact hcrumb _ _ h

/-- The entry leads to a listing or to a player. -/
def EntryLinks (library : String) (expanded : Finset String) : Api.Entry → String → Prop
  | .directory dir, url => url = (Route.browse ⟨library, dir.path, 1⟩).toString
  | .video item, url => url = (Route.player ⟨item.library, item.path⟩).toString
  | .discSet set, url =>
    url = (Route.player ⟨set.main.library, set.main.path⟩).toString ∨
      (set.discSet ∈ expanded ∧ ∃ item ∈ set.titles,
        url = (Route.player ⟨item.library, item.path⟩).toString)

theorem links_viewSetTitle {set : Api.DiscSetEntry} {item : Api.VideoItem} :
    (viewSetTitle set item).Links url ↔
      url = (Route.player ⟨item.library, item.path⟩).toString := by
  by_cases hmain : item.path = set.main.path <;>
    simp [viewSetTitle, hmain, div, a, button, class_, href, isNamed]

theorem sends_viewSetTitle {set : Api.DiscSetEntry} {item : Api.VideoItem} :
    (viewSetTitle set item).Sends m ↔
      item.path ≠ set.main.path ∧ m = .pickMain set.discSet item.path := by
  have hcomm : Msg.pickMain set.discSet item.path = m ↔ m = .pickMain set.discSet item.path :=
    eq_comm
  by_cases hmain : item.path = set.main.path <;>
    simp [viewSetTitle, hmain, hcomm, div, a, button, class_, href, Attribute.Sends]

theorem links_viewEntry {library : String} {expanded : Finset String} {entry : Api.Entry} :
    (viewEntry library expanded entry).Links url ↔ EntryLinks library expanded entry url := by
  cases entry with
  | directory dir => simp [viewEntry, EntryLinks, div, a, href, isNamed]
  | video item => simp [viewEntry, EntryLinks]
  | discSet set =>
    by_cases hexpanded : set.discSet ∈ expanded <;>
      simp [viewEntry, viewDiscSet, EntryLinks, hexpanded, div, button, links_viewSetTitle]

/-- The controls of an entry fold its titles out and in, and pick the main one among them. -/
def EntrySends (expanded : Finset String) : Api.Entry → Msg → Prop
  | .discSet set, m => m = .toggleSet set.discSet ∨
    (set.discSet ∈ expanded ∧ ∃ item ∈ set.titles, item.path ≠ set.main.path ∧
      m = .pickMain set.discSet item.path)
  | _, _ => False

theorem sends_viewEntry {library : String} {expanded : Finset String} {entry : Api.Entry} :
    (viewEntry library expanded entry).Sends m ↔ EntrySends expanded entry m := by
  cases entry with
  | directory dir => simp [viewEntry, EntrySends, div, a, href, class_, Attribute.Sends]
  | video item => simp [viewEntry, EntrySends]
  | discSet set =>
    have hcomm : Msg.toggleSet set.discSet = m ↔ m = .toggleSet set.discSet := eq_comm
    by_cases hexpanded : set.discSet ∈ expanded <;>
      simp [viewEntry, viewDiscSet, EntrySends, hexpanded, hcomm, div, button, class_,
        Attribute.Sends, sends_viewSetTitle]

/-- The entries on show: the directories and one page of the other entries. -/
def BrowseState.shown (state : BrowseState) : List Api.Entry := state.dirs ++ state.pageEntries

variable {state : BrowseState}

theorem links_viewLoaded : (viewLoaded state).Links url ↔
    (viewBreadcrumb state.listing.library state.listing.path).Links url ∨
      ∃ entry ∈ state.shown, EntryLinks state.listing.library state.expanded entry url := by
  have hsearch : ¬ (viewSearchBar state.query).Links url := by
    simp [viewSearchBar, form, input, button]
  have hpages : ¬ (if state.totalPages > 1 then
      Ui.viewPagination Msg.goToPage state.safePage state.totalPages else text "").Links url := by
    split <;> simp
  have hentries : (div [class_ "listing"]
      (state.dirs.map (viewEntry state.listing.library state.expanded) ++
        state.pageEntries.map (viewEntry state.listing.library state.expanded)) :
        Html Msg).Links url ↔
      ∃ entry ∈ state.shown, EntryLinks state.listing.library state.expanded entry url := by
    unfold div BrowseState.shown
    rw [links_node, ← List.map_append]
    simp only [List.mem_map, exists_exists_and_eq_and, links_viewEntry]
    simp
  unfold viewLoaded
  unfold div at hentries ⊢
  rw [links_node]
  simp only [List.mem_cons, List.not_mem_nil, or_false, exists_eq_or_imp, exists_eq_left, hsearch,
    hpages, hentries, false_or]
  simp

theorem sends_viewLoaded (h : (viewLoaded state).Sends m) :
    (∃ query, m = .queryInput query) ∨ m = .querySubmit ∨
      (∃ entry ∈ state.shown, EntrySends state.expanded entry m) ∨
      ∃ i, 1 ≤ i ∧ i ≤ state.totalPages ∧ m = .goToPage i := by
  unfold viewLoaded div at h
  rw [sends_node] at h
  rcases h with h | ⟨child, hchild, h⟩
  · simp at h
  · simp only [List.mem_cons, List.not_mem_nil, or_false] at hchild
    rcases hchild with rfl | rfl | rfl | rfl
    · exact absurd h sends_viewBreadcrumb
    · simp [viewSearchBar, form, input, button, class_, type_, placeholder, value,
        Attribute.Sends] at h
      rcases h with rfl | ⟨query, rfl⟩
      · exact Or.inr (Or.inl rfl)
      · exact Or.inl ⟨query, rfl⟩
    · rw [sends_node, ← List.map_append] at h
      rcases h with h | ⟨child, hchild, h⟩
      · simp [class_, Attribute.Sends] at h
      · obtain ⟨entry, hentry, rfl⟩ := List.mem_map.mp hchild
        exact Or.inr (Or.inr (Or.inl ⟨entry, hentry, sends_viewEntry.mp h⟩))
    · split at h
      · obtain ⟨i, -, hfirst, hlast, -, rfl⟩ := Ui.sends_viewPagination.mp h
        exact Or.inr (Or.inr (Or.inr ⟨i, hfirst, hlast, rfl⟩))
      · exact absurd h (sends_text _)

/-- The form takes any text. -/
theorem sends_form : (∀ query, (viewLoaded state).Sends (.queryInput query)) ∧
    (viewLoaded state).Sends .querySubmit := by
  simp [viewLoaded, viewSearchBar, div, form, input, Attribute.Sends]

/-- The button of a page near the current one. -/
theorem sends_goToPage {i : Int} (hne : i ≠ state.safePage) (hfirst : 1 ≤ i)
    (hlast : i ≤ state.totalPages) (hnear : (i - state.safePage).natAbs ≤ 2)
    (hpages : 1 < state.totalPages) : (viewLoaded state).Sends (.goToPage i) := by
  unfold viewLoaded div
  refine sends_node.mpr (Or.inr ⟨_, List.mem_cons_of_mem _ (List.mem_cons_of_mem _
    (List.mem_cons_of_mem _ List.mem_cons_self)), ?_⟩)
  rw [if_pos hpages]
  exact Ui.sends_viewPagination.mpr ⟨i, hne, hfirst, hlast, Or.inr (Or.inr hnear), rfl⟩

/-- A control of an entry on show. -/
theorem sends_of_shown {entry : Api.Entry} (h : entry ∈ state.shown)
    (hsends : EntrySends state.expanded entry m) : (viewLoaded state).Sends m := by
  unfold viewLoaded div
  refine sends_node.mpr (Or.inr ⟨_, List.mem_cons_of_mem _ (List.mem_cons_of_mem _
    List.mem_cons_self), ?_⟩)
  rw [← List.map_append]
  exact sends_node.mpr (Or.inr ⟨_, List.mem_map_of_mem h, sends_viewEntry.mpr hsends⟩)

end Browse

/-! ## The search page -/

namespace Search

variable {model : Model} {url : String} {m : Msg}

theorem links_view : (view model).Links url ↔ url = Route.home.toString ∨
    ∃ page, model.results = .loaded page ∧ ∃ item ∈ page.items,
      url = (Route.player ⟨item.library, item.path⟩).toString := by
  have hheader : (viewHeader model).Links url ↔ url = Route.home.toString := by
    simp [viewHeader, div, a, form, input, button, href, isNamed]
  have hresults : ∀ page, (viewResults model page).Links url ↔ ∃ item ∈ page.items,
      url = (Route.player ⟨item.library, item.path⟩).toString := by
    intro page
    by_cases hpages : totalPages page > 1 <;> simp [viewResults, div, p, hpages]
  cases hmodel : model.results <;> simp [view, hmodel, div, p, hheader, hresults]

theorem sends_view (h : (view model).Sends m) :
    (∃ query, m = .queryInput query) ∨ m = .querySubmit ∨
      ∃ page, model.results = .loaded page ∧
        ∃ i, 1 ≤ i ∧ i ≤ totalPages page ∧ m = .goToPage i := by
  have hheader : (viewHeader model).Sends m →
      (∃ query, m = .queryInput query) ∨ m = .querySubmit := by
    intro h
    simp [viewHeader, div, a, form, input, button, class_, type_, placeholder, value, href,
      Attribute.Sends] at h
    rcases h with rfl | ⟨query, rfl⟩
    · exact Or.inr rfl
    · exact Or.inl ⟨query, rfl⟩
  unfold view div at h
  rw [sends_node] at h
  rcases h with h | ⟨child, hchild, h⟩
  · simp at h
  · simp only [List.mem_cons, List.not_mem_nil, or_false] at hchild
    rcases hchild with rfl | rfl
    · rcases hheader h with h | h
      · exact Or.inl h
      · exact Or.inr (Or.inl h)
    · split at h
      · simp [p, class_, Attribute.Sends] at h
      · exact absurd h (Ui.sends_errorText _)
      · rename_i page hpage
        unfold viewResults div at h
        simp only [sends_node, List.mem_cons, List.not_mem_nil, or_false, exists_eq_or_imp,
          exists_eq_left] at h
        rcases h with h | h | h | h
        · simp [class_, Attribute.Sends] at h
        · simp [p, class_, Attribute.Sends] at h
        · simp at h
        · split at h
          · obtain ⟨i, -, hfirst, hlast, -, rfl⟩ := Ui.sends_viewPagination.mp h
            exact Or.inr (Or.inr ⟨page, hpage, i, hfirst, hlast, rfl⟩)
          · exact absurd h (sends_text _)

/-- The form takes any text. -/
theorem sends_form : (∀ query, (view model).Sends (.queryInput query)) ∧
    (view model).Sends .querySubmit := by
  simp [view, viewHeader, div, form, input, Attribute.Sends]

/-- The button of a page near the current one. -/
theorem sends_goToPage {page : Api.SearchPage} (hpage : model.results = .loaded page) {i : Int}
    (hne : i ≠ model.params.page) (hfirst : 1 ≤ i) (hlast : i ≤ totalPages page)
    (hnear : (i - model.params.page).natAbs ≤ 2) (hpages : 1 < totalPages page) :
    (view model).Sends (.goToPage i) := by
  unfold view div
  refine sends_node.mpr (Or.inr ⟨_, List.mem_cons_of_mem _ List.mem_cons_self, ?_⟩)
  rw [hpage]
  unfold viewResults div
  refine sends_node.mpr (Or.inr ⟨_, List.mem_cons_of_mem _ (List.mem_cons_of_mem _
    List.mem_cons_self), ?_⟩)
  rw [if_pos hpages]
  exact Ui.sends_viewPagination.mpr ⟨i, hne, hfirst, hlast, Or.inr (Or.inr hnear), rfl⟩

end Search

/-! ## The player page -/

namespace Player

section
variable {msg : Type} {url : String} {m : msg}

@[simp]
theorem links_outerLink (address label : String) :
    ¬ (outerLink address label : Html msg).Links url := by
  simp [outerLink, a, target, href, isNamed]

@[simp]
theorem sends_outerLink (address label : String) :
    ¬ (outerLink address label : Html msg).Sends m := by
  simp [outerLink, a, target, href, Attribute.Sends]

theorem mem_intersperse {α : Type} {x sep : α} {l : List α} (h : x ∈ l.intersperse sep) :
    x ∈ l ∨ x = sep := by
  induction l using List.twoStepInduction with
  | nil => cases h
  | singleton y => exact Or.inl h
  | cons_cons y z l _ ih =>
    rw [List.intersperse_cons_cons, List.mem_cons, List.mem_cons] at h
    rcases h with rfl | rfl | h
    · exact Or.inl List.mem_cons_self
    · exact Or.inr rfl
    · rcases ih z h with h | h
      · exact Or.inl (List.mem_cons_of_mem _ h)
      · exact Or.inr h

/-- A piece of a description is a text, or a text after a link that opens another window. -/
theorem mem_renderDescription {desc : String} {html : Html msg}
    (h : html ∈ renderDescription desc) : (∃ s, html = text s) ∨
      ∃ url rest, html = span [] [outerLink url url, text rest] := by
  obtain ⟨line, -, hline⟩ := List.mem_flatMap.mp h
  unfold renderLine at hline
  split at hline
  · exact Or.inl ⟨_, List.mem_singleton.mp hline⟩
  · rcases List.mem_append.mp hline with hword | hend
    · rcases mem_intersperse hword with hword | hsep
      · obtain ⟨w, -, rfl⟩ := List.mem_map.mp hword
        unfold renderWord
        split
        · exact Or.inr ⟨_, _, rfl⟩
        · exact Or.inl ⟨_, rfl⟩
      · exact Or.inl ⟨_, hsep⟩
    · exact Or.inl ⟨_, List.mem_singleton.mp hend⟩

theorem links_viewDescription (desc : String) :
    ¬ (viewDescription desc : Html msg).Links url := by
  unfold viewDescription div
  rw [links_node]
  rintro (⟨htag, -⟩ | ⟨child, hchild, h⟩)
  · exact absurd htag (by decide)
  · rcases mem_renderDescription hchild with ⟨s, rfl⟩ | ⟨address, rest, rfl⟩
    · exact links_text s h
    · simp [span] at h

theorem sends_viewDescription (desc : String) :
    ¬ (viewDescription desc : Html msg).Sends m := by
  unfold viewDescription div
  rw [sends_node]
  rintro (h | ⟨child, hchild, h⟩)
  · simp [class_, Attribute.Sends] at h
  · rcases mem_renderDescription hchild with ⟨s, rfl⟩ | ⟨address, rest, rfl⟩
    · exact sends_text s h
    · simp [span] at h

end

variable {fromFloat : Rat → String} {state : PlayerState} {url : String} {m : Msg}

/-- Each of the metadata is a line of text, the channel, the link to YouTube or the description. -/
theorem mem_viewMetadata {item : Api.VideoItem} {html : Html Msg}
    (h : html ∈ viewMetadata fromFloat item) :
    (∃ line, html = p [] [text line]) ∨ (∃ address channel, html = viewChannel address channel) ∨
      (∃ address, html = viewYoutubeLink address) ∨ ∃ desc, html = viewDescription desc := by
  unfold viewMetadata at h
  rw [List.mem_filterMap] at h
  obtain ⟨shown, hmem, rfl⟩ := h
  simp only [List.mem_cons, List.not_mem_nil, or_false] at hmem
  rcases hmem with hmem | hmem | hmem | hmem | hmem | hmem | hmem | hmem <;>
    obtain ⟨value, -, rfl⟩ := Option.map_eq_some_iff.mp hmem.symm
  · exact Or.inl ⟨_, rfl⟩
  · exact Or.inl ⟨_, rfl⟩
  · exact Or.inl ⟨_, rfl⟩
  · exact Or.inl ⟨_, rfl⟩
  · exact Or.inl ⟨_, rfl⟩
  · exact Or.inr (Or.inl ⟨_, _, rfl⟩)
  · exact Or.inr (Or.inr (Or.inl ⟨_, rfl⟩))
  · exact Or.inr (Or.inr (Or.inr ⟨_, rfl⟩))

/-- The metadata offers nothing that the application handles. -/
theorem not_has_viewMetadata (url : String) (m : Msg) {item : Api.VideoItem} {html : Html Msg}
    (h : html ∈ viewMetadata fromFloat item) : ¬ html.Links url ∧ ¬ html.Sends m := by
  rcases mem_viewMetadata h with
    ⟨line, rfl⟩ | ⟨address, channel, rfl⟩ | ⟨address, rfl⟩ | ⟨desc, rfl⟩
  · simp [p]
  · cases address <;> simp [viewChannel, p]
  · simp [viewYoutubeLink, p]
  · exact ⟨links_viewDescription desc, sends_viewDescription desc⟩

theorem links_viewMain : ¬ (viewMain fromFloat state).Links url := by
  have hdownload : ¬ (downloadLink state.item).Links url := by
    simp [downloadLink, a, href, isNamed]
  have hplayer : ¬ (viewPlayer fromFloat state).Links url := by
    have hbar : ¬ (bufferBar fromFloat state.bufferFraction).Links url := by
      unfold bufferBar
      split <;> simp [progress]
    have hsources : ∀ child ∈ (videoSources state.item).2, ¬ child.Links url := by
      unfold videoSources
      cases state.item.nativeType <;> cases state.item.compatPath <;> simp [source]
    unfold viewPlayer div video
    rw [links_node]
    rintro (⟨htag, -⟩ | ⟨child, hchild, h⟩)
    · exact absurd htag (by decide)
    · simp only [List.mem_cons, List.not_mem_nil, or_false] at hchild
      rcases hchild with rfl | rfl
      · exact hbar h
      · rcases links_node.mp h with ⟨htag, -⟩ | ⟨child, hchild, h⟩
        · exact absurd htag (by decide)
        · exact hsources child hchild h
  have hpreparing : ∀ message, ¬ (viewPreparing message state.item).Links url := by
    simp [viewPreparing, div, p, hdownload]
  unfold viewMain
  split
  · simp [viewMediaError, div, p, hdownload]
  · split
    · split
      · exact hpreparing _
      · exact hpreparing _
      · exact hpreparing _
      · exact hplayer
    · exact hplayer

/-- The messages of a video element. -/
def Msg.OfMedia (m : Msg) : Prop := m = .videoCanPlay ∨ ∃ code, m = .mediaError code

theorem sends_fixedError (h : (Attribute.on "error" (Decode.succeed
    (Msg.mediaError .errSrcNotSupported))).Sends m) : m.OfMedia := by
  obtain ⟨event, hevent⟩ := h
  exact Or.inr ⟨_, (Option.some.inj hevent).symm⟩

theorem sends_codedError (h : (Attribute.on "error"
    (Decode.map Msg.mediaError mediaErrorDecoder)).Sends m) : m.OfMedia := by
  obtain ⟨event, hevent⟩ := h
  obtain ⟨code, -, rfl⟩ := Option.map_eq_some_iff.mp hevent
  exact Or.inr ⟨code, rfl⟩

theorem sends_videoSources {item : Api.VideoItem} :
    (∀ a ∈ (videoSources item).1, a.Sends m → m.OfMedia) ∧
      ∀ child ∈ (videoSources item).2, child.Sends m → m.OfMedia := by
  have hnamed : ∀ name value, ¬ (Attribute.named name value : Attribute Msg).Sends m :=
    fun _ _ h => h
  unfold videoSources
  cases item.nativeType <;> cases item.compatPath <;> simp [source, src, type_, hnamed]
  · exact sends_codedError
  · exact sends_codedError
  · exact sends_fixedError
  · exact sends_fixedError

/-- The player sends the messages of its video element. -/
theorem sends_viewMain (h : (viewMain fromFloat state).Sends m) : m.OfMedia := by
  have hdownload : ¬ (downloadLink state.item).Sends m := by
    simp [downloadLink, a, href, Attribute.Sends]
  have hpreparing : ∀ message, ¬ (viewPreparing message state.item).Sends m := by
    simp [viewPreparing, div, p, class_, Attribute.Sends, hdownload]
  have hplayer : (viewPlayer fromFloat state).Sends m → m.OfMedia := by
    have hbar : ¬ (bufferBar fromFloat state.bufferFraction).Sends m := by
      unfold bufferBar
      split <;> simp [progress, class_, Attribute.Sends]
    have hattrs : ∀ a ∈ videoAttrs, a.Sends m → m.OfMedia := by
      intro a ha hsends
      simp only [videoAttrs, List.mem_cons, List.not_mem_nil, or_false] at ha
      rcases ha with rfl | rfl | rfl
      · exact hsends.elim
      · obtain ⟨event, hevent⟩ := hsends
        exact Or.inl (Option.some.inj hevent).symm
      · exact hsends.elim
    intro h
    unfold viewPlayer div video at h
    simp only [sends_node, List.mem_cons, List.not_mem_nil, or_false, exists_eq_or_imp,
      exists_eq_left, false_and, exists_false, false_or, hbar] at h
    rcases h with ⟨a, ha, hsends⟩ | ⟨child, hchild, hsends⟩
    · rcases List.mem_append.mp ha with ha | ha
      · exact hattrs a ha hsends
      · exact sends_videoSources.1 a ha hsends
    · exact sends_videoSources.2 child hchild hsends
  unfold viewMain at h
  split at h
  · simp [viewMediaError, div, p, class_, Attribute.Sends, hdownload] at h
  · split at h
    · split at h
      · exact absurd h (hpreparing _)
      · exact absurd h (hpreparing _)
      · exact absurd h (hpreparing _)
      · exact hplayer h
    · exact hplayer h

theorem sends_viewLoaded (h : (viewLoaded fromFloat state).Sends m) : m.OfMedia := by
  unfold viewLoaded div at h
  rcases sends_node.mp h with h | ⟨child, hchild, h⟩
  · simp [class_, Attribute.Sends] at h
  · simp only [List.mem_append, List.mem_cons, List.not_mem_nil, or_false] at hchild
    rcases hchild with (rfl | rfl | rfl) | hchild
    · simp [backLink, a, class_, href, Attribute.Sends] at h
    · exact sends_viewMain h
    · simp [h2, class_, Attribute.Sends] at h
    · exact absurd h (not_has_viewMetadata "" m hchild).2

/-- The player leads back to the directory of its item. -/
theorem links_viewLoaded : (viewLoaded fromFloat state).Links url ↔
    url = (Route.browse ⟨state.item.library, parentPath state.item.path, 1⟩).toString := by
  have hback : (backLink state.item).Links url ↔
      url = (Route.browse ⟨state.item.library, parentPath state.item.path, 1⟩).toString := by
    simp [backLink, a, class_, href, isNamed]
  unfold viewLoaded div
  rw [links_node, ← hback]
  constructor
  · rintro (⟨htag, -⟩ | ⟨child, hchild, h⟩)
    · exact absurd htag (by decide)
    · simp only [List.mem_append, List.mem_cons, List.not_mem_nil, or_false] at hchild
      rcases hchild with (rfl | rfl | rfl) | hchild
      · exact h
      · exact absurd h links_viewMain
      · simp [h2] at h
      · exact absurd h (not_has_viewMetadata url .videoCanPlay hchild).1
  · intro h
    exact Or.inr ⟨_, List.mem_append_left _ List.mem_cons_self, h⟩

end Player

/-! ## The application -/

namespace Main

variable {fromFloat : Rat → String} {url : String} {msg : Msg}

@[simp]
theorem links_home {model : Home.Model} :
    (view fromFloat (.home model)).Links url ↔ (Home.view model).Links url := by
  simp [view, div, links_map]

@[simp]
theorem links_browse {model : Browse.Model} :
    (view fromFloat (.browse model)).Links url ↔ (Browse.view model).Links url := by
  simp [view, div, links_map]

@[simp]
theorem links_search {model : Search.Model} :
    (view fromFloat (.search model)).Links url ↔ (Search.view model).Links url := by
  simp [view, div, links_map]

@[simp]
theorem links_player {model : Player.Model} :
    (view fromFloat (.player model)).Links url ↔ (Player.view fromFloat model).Links url := by
  simp [view, div, links_map]

@[simp]
theorem sends_home {model : Home.Model} :
    (view fromFloat (.home model)).Sends msg ↔
      ∃ m, (Home.view model).Sends m ∧ .homeMsg m = msg := by
  simp [view, div, Html.sends_map, class_, Attribute.Sends]

@[simp]
theorem sends_browse {model : Browse.Model} : (view fromFloat (.browse model)).Sends msg ↔
    ∃ m, (Browse.view model).Sends m ∧ .browseMsg m = msg := by
  simp [view, div, Html.sends_map, class_, Attribute.Sends]

@[simp]
theorem sends_search {model : Search.Model} : (view fromFloat (.search model)).Sends msg ↔
    ∃ m, (Search.view model).Sends m ∧ .searchMsg m = msg := by
  simp [view, div, Html.sends_map, class_, Attribute.Sends]

@[simp]
theorem sends_player {model : Player.Model} : (view fromFloat (.player model)).Sends msg ↔
    ∃ m, (Player.view fromFloat model).Sends m ∧ .playerMsg m = msg := by
  simp [view, div, Html.sends_map, class_, Attribute.Sends]

end Main

end Loku
