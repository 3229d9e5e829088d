import Loku.Frontend.Links
import Loku.Lib.Paging

/-!
# Pages of a listing

The client cuts the items of a listing into pages itself. The pages hold the items in their order,
each once (`flatMap_pageEntries`), and the strip below them lists the first page, the last one and
those around the current one, with a gap exactly where pages are left out (`pageItems_eq`).
-/

namespace Loku

/-! ## The strip -/

namespace Ui

/-- Pages with a gap before each that does not follow the one before it. -/
def withGaps : List Int → List PageItem
  | [] => []
  | [i] => [.page i]
  | i :: j :: rest => .page i :: ((if i + 1 < j then [.gap] else []) ++ withGaps (j :: rest))

/-- From one page on, the first and the last page and those within 2 of the current one. -/
def listedFrom (current total i : Int) : List Int :=
  ((List.range (total + 1 - i).toNat).map fun j : Nat => i + j).filter
    fun i => i = 1 ∨ i = total ∨ (i - current).natAbs ≤ 2

def listedPages (current total : Int) : List Int := listedFrom current total 1

theorem shouldInclude_eq (current total i : Int) :
    shouldInclude current total i = decide (i = 1 ∨ i = total ∨ (i - current).natAbs ≤ 2) := by
  rw [Bool.eq_iff_iff, decide_eq_true_iff]
  simp [shouldInclude, or_assoc]

theorem listedFrom_eq_nil {current total i : Int} (h : i > total) :
    listedFrom current total i = [] := by
  have hnone : (total + 1 - i).toNat = 0 := by omega
  unfold listedFrom
  rw [hnone]
  rfl

theorem listedFrom_eq {current total i : Int} (h : ¬ i > total) :
    listedFrom current total i =
      (if shouldInclude current total i then [i] else []) ++ listedFrom current total (i + 1) := by
  have hsucc : (total + 1 - i).toNat = (total + 1 - (i + 1)).toNat + 1 := by omega
  have hnext : ((fun j : Nat => i + (j : Int)) ∘ Nat.succ) = fun j : Nat => i + 1 + (j : Int) := by
    funext j
    rw [Function.comp_apply]
    omega
  unfold listedFrom
  rw [hsucc, List.range_succ_eq_map, List.map_cons, List.map_map, hnext, List.filter_cons]
  simp only [Nat.cast_zero, add_zero, shouldInclude_eq]
  split <;> rfl

/-- The loop goes on with the pages that are left after the one it has listed last. -/
theorem build_eq_of_listed {current total : Int} : ∀ (n : Nat) {i last : Int},
    (total + 1 - i).toNat = n → 0 ≤ last → last < i → ∀ acc : List PageItem,
      build current total i last (.page last :: acc) =
        acc.reverse ++ withGaps (last :: listedFrom current total i) := by
  intro n
  induction n with
  | zero =>
    intro i last hn hlast hlt acc
    have hend : i > total := by omega
    rw [build, if_pos hend, listedFrom_eq_nil hend, List.reverse_cons]
    rfl
  | succ n ih =>
    intro i last hn hlast hlt acc
    have hgo : ¬ i > total := by omega
    rw [build, if_neg hgo, listedFrom_eq hgo]
    by_cases hinclude : shouldInclude current total i = true
    · rw [if_pos hinclude, if_pos hinclude, ih (by omega) (by omega) (by omega)]
      by_cases hgap : last + 1 < i
      · rw [if_pos ⟨hlast, hgap⟩]
        simp [withGaps, hgap]
      · rw [if_neg fun h => hgap h.2]
        simp [withGaps, hgap]
    · rw [if_neg hinclude, if_neg hinclude, ih (by omega) hlast (by omega), List.nil_append]

/-- The strip lists the pages in order, with a gap where some are left out. -/
theorem pageItems_eq (current total : Int) :
    pageItems current total = withGaps (listedPages current total) := by
  unfold pageItems listedPages
  by_cases hnone : 1 > total
  · rw [build, if_pos hnone, listedFrom_eq_nil hnone]
    rfl
  · have hfirst : shouldInclude current total 1 = true := rfl
    rw [build, if_neg hnone, if_pos hfirst, listedFrom_eq hnone, if_pos hfirst]
    exact build_eq_of_listed _ rfl (by omega) (by omega) []

end Ui

/-! ## The pages -/

/-- The number of pages that so many items fill. -/
theorem elmDiv_pageSize {n : Nat} (hfew : n < 2 ^ 36) :
    elmDiv (n + pageSize - 1) pageSize = (((n + 47) / 48 : Nat) : Int) := by
  have hquotient : ((n : Int) + pageSize - 1).tdiv pageSize = (((n + 47) / 48 : Nat) : Int) := by
    unfold pageSize
    rw [Int.tdiv_eq_ediv_of_nonneg (by omega)]
    omega
  unfold elmDiv
  rw [hquotient, Int.bmod_eq_of_le (by omega) (by omega)]

namespace Browse.BrowseState

variable {state : BrowseState}

/-- Another page of the same state. -/
def atPage (state : BrowseState) (page : Int) : BrowseState := { state with page := page }

theorem totalPages_eq (hfew : state.items.length < 2 ^ 36) :
    state.totalPages = max 1 (((state.items.length + 47) / 48 : Nat) : Int) :=
  congrArg (max 1) (elmDiv_pageSize hfew)

theorem pageEntries_atPage {j : Nat} (hj : (j : Int) + 1 ≤ state.totalPages) :
    (state.atPage (j + 1)).pageEntries = Lib.page state.items 48 j := by
  have hsafe : (state.atPage (j + 1)).safePage = j + 1 := min_eq_left hj
  have hoffset : (((j : Int) + 1 - 1) * pageSize).toNat = j * 48 := by
    unfold pageSize
    omega
  unfold pageEntries
  rw [hsafe, hoffset]
  rfl

/-- The pages hold the items in their order. -/
theorem flatMap_pageEntries (hfew : state.items.length < 2 ^ 36) :
    (List.range state.totalPages.toNat).flatMap
      (fun j : Nat => (state.atPage (j + 1)).pageEntries) = state.items := by
  have htotal := totalPages_eq hfew
  have hpages : (List.range state.totalPages.toNat).flatMap
      (fun j : Nat => (state.atPage (j + 1)).pageEntries) =
      Lib.pages (fun _ => state.items) 48 state.totalPages.toNat := by
    unfold Lib.pages
    refine List.flatMap_congr fun j hj => ?_
    rw [List.mem_range] at hj
    exact pageEntries_atPage (by omega)
  rw [hpages, Lib.pages_const]
  exact List.take_of_length_le (by omega)

theorem exists_page (hfew : state.items.length < 2 ^ 36) {entry : Api.Entry}
    (h : entry ∈ state.items) :
    ∃ j : Nat, (j : Int) + 1 ≤ state.totalPages ∧ entry ∈ (state.atPage (j + 1)).pageEntries := by
  rw [← flatMap_pageEntries hfew, List.mem_flatMap] at h
  obtain ⟨j, hj, hentry⟩ := h
  rw [List.mem_range] at hj
  exact ⟨j, by omega, hentry⟩

/-- No page of a listing that has several is empty. -/
theorem pageEntries_ne_nil (hfew : state.items.length < 2 ^ 36) (hpages : 1 < state.totalPages)
    {j : Nat} (hj : (j : Int) + 1 ≤ state.totalPages) :
    (state.atPage (j + 1)).pageEntries ≠ [] := by
  have htotal := totalPages_eq hfew
  rw [pageEntries_atPage hj, Lib.page, Ne, List.take_eq_nil_iff, List.drop_eq_nil_iff]
  omega

end Browse.BrowseState

/-- The pages of a listing hold each of its items once and in order, none is empty where there are
several, and the strip lists their numbers with a gap exactly where some are left out. -/
theorem browse_pages (state : Browse.BrowseState) (hfew : state.items.length < 2 ^ 36) :
    (List.range state.totalPages.toNat).flatMap
        (fun j : Nat => (state.atPage (j + 1)).pageEntries) = state.items ∧
      (1 < state.totalPages → ∀ j : Nat, (j : Int) + 1 ≤ state.totalPages →
        (state.atPage (j + 1)).pageEntries ≠ []) ∧
      ∀ current total, Ui.pageItems current total = Ui.withGaps (Ui.listedPages current total) :=
  ⟨Browse.BrowseState.flatMap_pageEntries hfew,
    fun hpages _ hj => Browse.BrowseState.pageEntries_ne_nil hfew hpages hj, Ui.pageItems_eq⟩

/-- Fifty items are on two pages. -/
theorem browse_pages_fifty :
    let state : Browse.BrowseState :=
      ⟨⟨"movies", "", List.replicate 50 (.video (Player.bareItem "movies" "a"))⟩, 1, "", ∅⟩
    (List.range state.totalPages.toNat).flatMap
      (fun j : Nat => (state.atPage (j + 1)).pageEntries) = state.items :=
  (browse_pages _ (by decide)).1

end Loku
