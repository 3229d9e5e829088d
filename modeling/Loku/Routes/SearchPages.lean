import Loku.Index.FtsSyntax
import Loku.Lib.Paging
import Loku.Routes.Search
import Mathlib.Algebra.Order.Ring.Unbundled.Rat

/-!
# Paging through a search

Every page is a statement of its own, `ORDER BY bm25 LIMIT k OFFSET j * k`, and nothing settles the
order of equally ranked rows from one statement to the next. The pages together hold every
selected row exactly once, whatever the engine does with ties, exactly when no group of equally
ranked rows goes over a page boundary (`pages_exact_iff`).
-/

namespace Loku

/-- The engine with another order of equally ranked rows. -/
def FullText.withTie (engine : FullText)
    (tie : String → Nat → Nat → VideoRecord → VideoRecord → Bool) : FullText :=
  { engine with tie := tie }

/-- The rows that a search selects. -/
def matchingRows (index : Index) (engine : FullText) (q : String) (library : Option String) :
    List Row :=
  match ftsQuery q with
  | none => []
  | some fts => index.matching engine fts library

/-- How many multiples of `k` are a `u32`, as an offset must be. -/
def pageCount (k : Nat) : Nat := (UInt32.size - 1) / k + 1

/-- The answers to the requests for the pages of size `k`, while the worker goes on. -/
def requestedPages (libraries : List Library) (engine : FullText)
    (active : Nat → Option ActiveDerivation) (index : Index) (q : String)
    (library : Option String) (k : Nat) : List (Except SearchError SearchPage) :=
  (List.range (pageCount k)).map fun j =>
    searchHandler libraries engine (active j)
      { q := q, library := library, limit := some k, offset := some (j * k) } index

def VideoItem.key (item : VideoItem) : RowKey := (item.library, item.path)

/-- The pages hold every row once, and as many items as each of them reports. -/
def PagesExact (answers : List (Except SearchError SearchPage)) (rows : List Row) : Prop :=
  ∃ pages : List SearchPage, answers = pages.map .ok ∧
    ((pages.flatMap SearchPage.items).map VideoItem.key).Perm (rows.map Row.key) ∧
    ∀ page ∈ pages, (pages.flatMap SearchPage.items).length = page.total

/-! ## The pages of one search -/

section Search
variable {libraries : List Library} {engine : FullText} {active : Nat → Option ActiveDerivation}
  {index : Index} {q : String} {library : Option String} {k : Nat}

/-- The order in which the statement for a page leaves the selected rows. -/
def statementOrder (index : Index) (engine : FullText) (fts : String) (library : Option String)
    (k j : Nat) : List Row :=
  (index.matching engine fts library).insertionSort (Index.rankLe engine fts k (j * k))

theorem answer_statementOrder (index : Index) (engine : FullText) (fts : String)
    (library : Option String) (k j : Nat) :
    Lib.Answer (fun r : Row => engine.rank fts r.record) (index.matching engine fts library)
      (statementOrder index engine fts library k j) := by
  refine Lib.answer_insertionSort ?_ ?_ _
  · rintro r r' (hlt | ⟨heq, -⟩)
    · exact hlt.le
    · exact heq.le
  · intro r r' hnot
    exact not_lt.mp fun hlt => hnot (Or.inl hlt)

theorem matching_nodup (index : Index) (engine : FullText) (fts : String)
    (library : Option String) : ((index.matching engine fts library).map Row.key).Nodup :=
  index.videos.nodup.sublist (List.filter_sublist.map _)

/-- What the handler answers for one page. -/
def searchPage (engine : FullText) (active : Option ActiveDerivation) (index : Index) (q : String)
    (library : Option String) (k j : Nat) : SearchPage where
  total := (matchingRows index engine q library).length
  limit := k
  offset := j * k
  items := ((ftsQuery q).elim [] fun fts =>
    Lib.page (statementOrder index engine fts library k j) k j).map fun r =>
      VideoItem.fromRecord active (index.recordFromRow r)

theorem searchHandler_eq (hlib : ∀ name ∈ library, (findLibrary libraries name).isSome = true)
    (hk : k ≤ maxLimit) (hreads : engine.Reads q) (a : Option ActiveDerivation) (j : Nat) :
    searchHandler libraries engine a
        { q := q, library := library, limit := some k, offset := some (j * k) } index =
      .ok (searchPage engine a index q library k j) := by
  unfold searchHandler searchPage matchingRows
  simp only [findLibrary_filter hlib, Option.getD_some, Nat.min_eq_left hk]
  cases hfts : ftsQuery q with
  | none => rfl
  | some fts =>
    simp only [Index.search, hreads fts hfts, statementOrder, Lib.page, Option.elim_some,
      List.map_map]
    rfl

theorem requestedPages_eq (hlib : ∀ name ∈ library, (findLibrary libraries name).isSome = true)
    (hk : k ≤ maxLimit) (hreads : engine.Reads q) :
    requestedPages libraries engine active index q library k =
      ((List.range (pageCount k)).map fun j =>
        searchPage engine (active j) index q library k j).map .ok := by
  unfold requestedPages
  rw [List.map_map]
  exact List.map_congr_left fun j _ => searchHandler_eq hlib hk hreads (active j) j

/-- Of a query that the engine cannot read there is no page. -/
theorem not_pagesExact_of_unread
    (hlib : ∀ name ∈ library, (findLibrary libraries name).isSome = true)
    (hunread : ¬ engine.Reads q) (rows : List Row) :
    ¬ PagesExact (requestedPages libraries engine active index q library k) rows := by
  rintro ⟨pages, hpages, -⟩
  obtain ⟨error, herror⟩ : ∃ error, searchHandler libraries engine (active 0)
      { q := q, library := library, limit := some k, offset := some (0 * k) } index =
        .error (.index error) := searchHandler_unread hlib hunread (active 0) _ _
  have hfirst : searchHandler libraries engine (active 0)
      { q := q, library := library, limit := some k, offset := some (0 * k) } index ∈
      requestedPages libraries engine active index q library k :=
    List.mem_map_of_mem (List.mem_range.mpr (Nat.succ_pos _))
  rw [hpages, herror] at hfirst
  obtain ⟨page, -, hpage⟩ := List.mem_map.mp hfirst
  cases hpage

/-- The keys on the pages are those of the rows that the statements leave there. -/
theorem keys_searchPages (engine : FullText) (fts : String) (hfts : ftsQuery q = some fts)
    (n : Nat) :
    (((List.range n).map fun j => searchPage engine (active j) index q library k j).flatMap
      SearchPage.items).map VideoItem.key =
        (Lib.pages (statementOrder index engine fts library k) k n).map Row.key := by
  unfold Lib.pages searchPage
  simp only [hfts, Option.elim_some, List.flatMap_map, List.map_flatMap, List.map_map]
  rfl

/-- Exactness of the pages, said of the rows. -/
theorem pagesExact_iff (hlib : ∀ name ∈ library, (findLibrary libraries name).isSome = true)
    (hk : k ≤ maxLimit) (hreads : engine.Reads q) {fts : String} (hfts : ftsQuery q = some fts) :
    PagesExact (requestedPages libraries engine active index q library k)
        (matchingRows index engine q library) ↔
      (Lib.pages (statementOrder index engine fts library k) k (pageCount k)).Perm
        (index.matching engine fts library) := by
  have hrows : matchingRows index engine q library = index.matching engine fts library := by
    unfold matchingRows
    rw [hfts]
  have hkeys : (((List.range (pageCount k)).map fun j =>
      searchPage engine (active j) index q library k j).flatMap SearchPage.items).map
        VideoItem.key =
        (Lib.pages (statementOrder index engine fts library k) k (pageCount k)).map Row.key :=
    keys_searchPages engine fts hfts (pageCount k)
  unfold PagesExact
  rw [requestedPages_eq hlib hk hreads]
  constructor
  · rintro ⟨pages, hpages, hperm, -⟩
    obtain rfl := List.map_injective_iff.mpr (fun _ _ h => Except.ok.inj h) hpages
    rw [hkeys, hrows] at hperm
    exact Lib.perm_of_map_perm
      (Lib.mem_of_mem_pages (answer_statementOrder index engine fts library k))
      (matching_nodup index engine fts library) hperm
  · intro hperm
    refine ⟨_, rfl, ?_, ?_⟩
    · rw [hkeys, hrows]
      exact hperm.map _
    · intro page hpage
      obtain ⟨j, -, rfl⟩ := List.mem_map.mp hpage
      have hlen := (hperm.map Row.key).length_eq
      rw [← hkeys, List.length_map, List.length_map] at hlen
      rw [hlen]
      exact congrArg List.length hrows.symm

theorem pagesExact_of_no_tokens
    (hlib : ∀ name ∈ library, (findLibrary libraries name).isSome = true) (hk : k ≤ maxLimit)
    (hfts : ftsQuery q = none) :
    PagesExact (requestedPages libraries engine active index q library k)
      (matchingRows index engine q library) := by
  have hitems : ((List.range (pageCount k)).map fun j =>
      searchPage engine (active j) index q library k j).flatMap SearchPage.items = [] := by
    rw [List.flatMap_eq_nil_iff]
    intro page hpage
    obtain ⟨j, -, rfl⟩ := List.mem_map.mp hpage
    simp [searchPage, hfts]
  have hreads : engine.Reads q := fun fts hsome => by
    rw [hfts] at hsome
    cases hsome
  refine ⟨_, requestedPages_eq hlib hk hreads, ?_, ?_⟩
  · rw [hitems]
    simp [matchingRows, hfts]
  · intro page hpage
    obtain ⟨j, -, rfl⟩ := List.mem_map.mp hpage
    rw [hitems]
    simp [searchPage, matchingRows, hfts]

/-- A row's place in an answer, by its record. -/
def placeIn (answer : List Row) (record : VideoRecord) : Nat :=
  (answer.map Row.record).idxOf record

theorem placeIn_ascends {answer : List Row} (h : (answer.map Row.key).Nodup) :
    answer.Pairwise fun r r' => placeIn answer r.record < placeIn answer r'.record := by
  have hrecords : (answer.map Row.record).Nodup := by
    have hkeys : answer.map Row.key = (answer.map Row.record).map VideoRecord.key := by
      rw [List.map_map]
      rfl
    exact (hkeys ▸ h).of_map
  have hplace : ∀ i (hi : i < answer.length), placeIn answer answer[i].record = i := by
    intro i hi
    have hidx := hrecords.idxOf_getElem i (by rwa [List.length_map])
    rwa [List.getElem_map] at hidx
  rw [List.pairwise_iff_getElem]
  intro i i' hi hi' hlt
  rwa [hplace i hi, hplace i' hi']

/-- The engine may answer in every order by rank, and in another one for each page. -/
theorem exists_tie (engine : FullText) (fts : String) {answers : Nat → List Row} (hk : 0 < k)
    (h : ∀ j, Lib.Answer (fun r : Row => engine.rank fts r.record)
      (index.matching engine fts library) (answers j)) :
    ∃ tie, ∀ j, statementOrder index (engine.withTie tie) fts library k j = answers j := by
  refine ⟨fun _ _ offset r r' =>
    placeIn (answers (offset / k)) r ≤ placeIn (answers (offset / k)) r', fun j => ?_⟩
  have hnodup : ((answers j).map Row.key).Nodup :=
    ((h j).perm.map Row.key).nodup_iff.mpr (matching_nodup index engine fts library)
  refine (h j).insertionSort_eq (placeIn_ascends hnodup) fun r r' => ?_
  unfold Index.rankLe FullText.withTie
  rw [decide_eq_true_eq, Nat.mul_div_cancel j hk]

theorem forall_pagesExact_iff
    (hlib : ∀ name ∈ library, (findLibrary libraries name).isSome = true) (hk : 0 < k)
    (hmax : k ≤ maxLimit) (hreads : engine.Reads q) {fts : String}
    (hfts : ftsQuery q = some fts) :
    (∀ tie, PagesExact (requestedPages libraries (engine.withTie tie) active index q library k)
      (matchingRows index engine q library)) ↔
      (index.matching engine fts library).length ≤ pageCount k * k ∧
        Lib.TiesOnOnePage (fun r : Row => engine.rank fts r.record)
          (index.matching engine fts library) k := by
  have hpages : ∀ tie,
      PagesExact (requestedPages libraries (engine.withTie tie) active index q library k)
        (matchingRows index engine q library) ↔
      (Lib.pages (statementOrder index (engine.withTie tie) fts library k) k (pageCount k)).Perm
        (index.matching engine fts library) :=
    fun tie =>
      have hreads' : (engine.withTie tie).Reads q := hreads
      pagesExact_iff hlib hmax hreads' hfts
  simp only [hpages]
  rw [← Lib.pages_perm_iff (matching_nodup index engine fts library).of_map hk (pageCount k)]
  constructor
  · intro h answers hanswers
    obtain ⟨tie, htie⟩ := exists_tie engine fts hk hanswers
    have hperm := h tie
    rwa [funext htie] at hperm
  · intro h tie
    exact h _ fun j => answer_statementOrder index (engine.withTie tie) fts library k j

end Search

/-- Paging is exact for every order of equally ranked rows exactly when the query has no NUL, no
group of such rows goes over a page boundary, and the offsets reach the last row. -/
theorem pages_exact_iff {lex : List Char → Option (List FtsToken)} {engine : FullText}
    (hengine : FtsEngine lex engine) {libraries : List Library} {library : Option String}
    (hlib : ∀ name ∈ library, (findLibrary libraries name).isSome = true) {k : Nat} (hk : 0 < k)
    (hmax : k ≤ maxLimit) (active : Nat → Option ActiveDerivation) (index : Index) (q : String) :
    (∀ tie, PagesExact (requestedPages libraries (engine.withTie tie) active index q library k)
      (matchingRows index engine q library)) ↔
      nul ∉ q.toList ∧ ∀ fts, ftsQuery q = some fts →
        (index.matching engine fts library).length ≤ pageCount k * k ∧
          Lib.TiesOnOnePage (fun r : Row => engine.rank fts r.record)
            (index.matching engine fts library) k := by
  rw [← hengine.reads_iff]
  by_cases hreads : engine.Reads q
  · rw [and_iff_right hreads]
    cases hfts : ftsQuery q with
    | none =>
      refine iff_of_true (fun tie => ?_) (fun fts h => by cases h)
      exact pagesExact_of_no_tokens hlib hmax hfts
    | some fts =>
      rw [forall_pagesExact_iff hlib hk hmax hreads hfts]
      simp
  · refine iff_of_false (fun h => ?_) fun h => hreads h.1
    exact not_pagesExact_of_unread hlib hreads _ (h engine.tie)

/-! ## Two files that score the same -/

namespace EqualScores

def index : Index :=
  { Index.openInMemory with
    videos := ⟨[⟨1, .placed "movies" "Concert A.mkv" "" "Concert A.mkv" 3 5, 1⟩,
      ⟨2, .placed "movies" "Concert B.mkv" "" "Concert B.mkv" 3 5, 1⟩], by decide⟩ }

/-- Ties by name for the first page, and the other way round for the others. -/
def engine : FullText where
  syntaxError := PlainLexer.syntaxError
  selects _ _ := true
  rank _ _ := 1
  tie _ _ offset r r' := if offset = 0 then r.relPath ≤ r'.relPath else r'.relPath ≤ r.relPath

/-- The first title of the page at an offset. -/
def titleAt (offset : Nat) : Option (Option String) :=
  (searchHandler [] engine none ⟨"concert", none, some 1, some offset⟩ index).toOption.map
    fun page => page.items.head?.map VideoItem.path

theorem ftsEngine : FtsEngine PlainLexer.lex engine := PlainLexer.ftsEngine rfl

theorem reads_concert : engine.Reads "concert" :=
  (ftsEngine.reads_iff "concert").mpr (by decide)

theorem titleAt_eq (j : Nat) : titleAt (j * 1) =
    some ((searchPage engine none index "concert" none 1 j).items.head?.map VideoItem.path) := by
  unfold titleAt
  rw [searchHandler_eq (by simp) (by decide) reads_concert none j]
  rfl

theorem concert_on_both_pages :
    titleAt 0 = some (some "Concert A.mkv") ∧ titleAt 1 = some (some "Concert A.mkv") ∧
      ¬ ∀ tie, PagesExact
        (requestedPages [] (engine.withTie tie) (fun _ => none) index "concert" none 1)
        (matchingRows index engine "concert" none) := by
  refine ⟨(titleAt_eq 0).trans (by decide), (titleAt_eq 1).trans (by decide), fun h => ?_⟩
  have hfts : ftsQuery "concert" = some "\"concert\"*" := by decide
  have hties := ((forall_pagesExact_iff (by simp) (by omega) (by decide) reads_concert
    hfts).mp h).2
  exact hties ⟨1, .placed "movies" "Concert A.mkv" "" "Concert A.mkv" 3 5, 1⟩ (by decide) 1
    (by decide)

theorem pages_exact_iff_equalScores :
    (∀ tie, PagesExact
      (requestedPages [] (engine.withTie tie) (fun _ => none) index "concert" none 2)
      (matchingRows index engine "concert" none)) ↔
      nul ∉ "concert".toList ∧ ∀ fts, ftsQuery "concert" = some fts →
        (index.matching engine fts none).length ≤ pageCount 2 * 2 ∧
          Lib.TiesOnOnePage (fun r : Row => engine.rank fts r.record)
            (index.matching engine fts none) 2 :=
  pages_exact_iff ftsEngine (by simp) (by omega) (by decide) (fun _ => none) index "concert"

end EqualScores

end Loku
