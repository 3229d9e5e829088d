import Mathlib.Data.List.TakeWhile
import Loku.Frontend.Pages
import Loku.Lib.PercentCode

/-!
# Routes in the address bar

A page is named by a URL: `Route.toString` prints a route, `Route.parse` reads a path and a
query. The segments of a path are encoded one by one and decoded after they are joined, the
values of a query are encoded and the query is cut at `&` and `=` before they are decoded.
Reading undoes printing for every route that names a page (`parse_ofText_toString`), and what
is read always satisfies what the pages expect of a route (`fromUrl_parse`). Page numbers are
integers here as in the language of the source, which leaves those beyond `2 ^ 53` to the target
it is compiled to.
-/

namespace Loku

open Lib.PercentCode (encode decode)

/-! ## URLs -/

/-- The parts of a URL that a route is read from. -/
structure Url where
  path : List Char
  query : Option (List Char)
deriving DecidableEq

/-- A text is cut at its first `?`. -/
def Url.ofText (text : String) : Url where
  path := text.toList.takeWhile (· ≠ '?')
  query :=
    match text.toList.dropWhile (· ≠ '?') with
    | [] => none
    | _ :: query => some query

theorem forall_ne_of_not_mem {l : List Char} (h : '?' ∉ l) : ∀ c ∈ l, decide (c ≠ '?') = true := by
  intro c hc
  rw [decide_eq_true_eq]
  rintro rfl
  exact h hc

theorem Url.ofText_of_not_mem {text : String} (h : '?' ∉ text.toList) :
    Url.ofText text = ⟨text.toList, none⟩ := by
  have htake := List.takeWhile_eq_self_iff.mpr (forall_ne_of_not_mem h)
  have hdrop := List.dropWhile_eq_nil_iff.mpr (forall_ne_of_not_mem h)
  unfold ofText
  rw [htake, hdrop]

theorem Url.ofText_append {text : String} {path query : List Char}
    (htext : text.toList = path ++ '?' :: query) (h : '?' ∉ path) :
    Url.ofText text = ⟨path, some query⟩ := by
  unfold ofText
  rw [htext, List.takeWhile_append_of_pos (forall_ne_of_not_mem h),
    List.dropWhile_append_of_pos (forall_ne_of_not_mem h)]
  simp

/-! ## The functions of the source -/

/-- Split off the first segment of a path, before any decoding. -/
def splitFirstSegment (s : List Char) : List Char × List Char :=
  match s.splitOn '/' with
  | first :: rest => (first, ['/'].intercalate rest)
  | [] => ([], [])

/-- A text that cannot be decoded is taken as it is. -/
def percentDecode (s : List Char) : List Char := (decode s).getD s

/-- Encode the segments of a path, keep the slashes. -/
def encodePath (path : List Char) : List Char :=
  ['/'].intercalate ((path.splitOn '/').map encode)

def splitKeyValue (s : List Char) : Option (List Char × List Char) :=
  match s.splitOn '=' with
  | k :: rest => some (k, ['='].intercalate rest)
  | [] => none

structure QueryParams where
  query : String
  library : Option String
  page : Int
deriving DecidableEq

/-- The first value of a key. -/
def getValue (pairs : List (List Char × List Char)) (key : String) : Option (List Char) :=
  (pairs.filterMap fun kv => if kv.1 = key.toList then some kv.2 else none).head?

def parseQueryParams : Option (List Char) → QueryParams
  | none => ⟨"", none, 1⟩
  | some qs =>
    let pairs := (qs.splitOn '&').filterMap splitKeyValue
    { query := String.ofList (((getValue pairs "q").map percentDecode).getD [])
      library := (getValue pairs "library").map fun value => String.ofList (percentDecode value)
      page := max 1 (((getValue pairs "page").bind Lib.readInt).getD 1) }

def Route.parse (url : Url) : Route :=
  let qp := parseQueryParams url.query
  if url.path = "/".toList ∨ url.path = [] then .home
  else if "/browse/".toList <+: url.path then
    let segments := splitFirstSegment (url.path.drop 8)
    if segments.1 = [] then .home
    else
      .browse
        { library := String.ofList (percentDecode segments.1)
          path := String.ofList (percentDecode segments.2)
          page := qp.page }
  else if "/search".toList <+: url.path then
    .search { query := qp.query, library := qp.library, page := qp.page }
  else if "/player/".toList <+: url.path then
    let segments := splitFirstSegment (url.path.drop 8)
    if segments.1 = [] ∨ segments.2 = [] then .notFound
    else
      .player
        { library := String.ofList (percentDecode segments.1)
          path := String.ofList (percentDecode segments.2) }
  else .notFound

/-- `String.fromInt`. -/
def fromInt (i : Int) : String := toString i

def Route.toString : Route → String
  | .home => "/"
  | .browse params =>
    let base := "/browse/" ++ String.ofList (encode params.library.toList) ++
      (if params.path = "" then "" else "/" ++ String.ofList (encodePath params.path.toList))
    if params.page ≤ 1 then base else base ++ "?page=" ++ fromInt params.page
  | .search params =>
    "/search?q=" ++ String.ofList (encode params.query.toList) ++
      (match params.library with
        | some lib => "&library=" ++ String.ofList (encode lib.toList)
        | none => "") ++
      (if params.page ≤ 1 then "" else "&page=" ++ fromInt params.page)
  | .player params =>
    "/player/" ++ String.ofList (encode params.library.toList) ++ "/" ++
      String.ofList (encodePath params.path.toList)
  | .notFound => "/"

/-! ## Segments -/

theorem percentDecode_encode (text : List Char) : percentDecode (encode text) = text := by
  rw [percentDecode, Lib.PercentCode.decode_encode, Option.getD_some]

theorem decode_encodePath (path : List Char) : decode (encodePath path) = some path := by
  unfold encodePath
  rw [Lib.PercentCode.decode_joined (by decide), List.intercalate_splitOn]

theorem percentDecode_encodePath (path : List Char) : percentDecode (encodePath path) = path := by
  rw [percentDecode, decode_encodePath, Option.getD_some]

theorem encodePath_ne_nil {path : List Char} (h : path ≠ []) : encodePath path ≠ [] := by
  intro hnil
  have hdecode := decode_encodePath path
  rw [hnil, Lib.PercentCode.decode_nil] at hdecode
  exact h (Option.some.inj hdecode).symm

/-- What is neither a slash nor in an encoded text is not in an encoded path. -/
theorem not_mem_encodePath {d : Char} (hslash : d ≠ '/')
    (h : ∀ text, d ∉ encode text) (path : List Char) : d ∉ encodePath path := by
  have henc : encode = List.flatMap Lib.PercentCode.encodeChar := rfl
  unfold encodePath
  rw [henc, Lib.intercalate_flatMap_splitOn]
  intro hmem
  obtain ⟨c, -, hc⟩ := List.mem_flatMap.mp hmem
  split at hc
  · exact hslash (List.mem_singleton.mp hc)
  · apply h [c]
    rwa [henc, List.flatMap_cons, List.flatMap_nil, List.append_nil]

theorem splitFirstSegment_of_not_mem {first : List Char} (h : '/' ∉ first) :
    splitFirstSegment first = (first, []) := by
  simp [splitFirstSegment, List.splitOn_eq_singleton h]

theorem splitFirstSegment_append {first : List Char} (h : '/' ∉ first) (rest : List Char) :
    splitFirstSegment (first ++ '/' :: rest) = (first, rest) := by
  simp [splitFirstSegment, List.splitOn_append_cons_self_of_not_mem h, List.intercalate_splitOn]

/-! ## Queries -/

theorem splitKeyValue_append {key : List Char} (h : '=' ∉ key) (value : List Char) :
    splitKeyValue (key ++ '=' :: value) = some (key, value) := by
  simp [splitKeyValue, List.splitOn_append_cons_self_of_not_mem h, List.intercalate_splitOn]

/-- A query as its keys with their values. -/
def queryText (pairs : List (List Char × List Char)) : List Char :=
  ['&'].intercalate (pairs.map fun kv => kv.1 ++ '=' :: kv.2)

/-- The pairs are read back where no key has a separator and no value has `&`. -/
theorem filterMap_splitKeyValue_queryText {pairs : List (List Char × List Char)}
    (hne : pairs ≠ []) (h : ∀ kv ∈ pairs, '=' ∉ kv.1 ∧ '&' ∉ kv.1 ∧ '&' ∉ kv.2) :
    ((queryText pairs).splitOn '&').filterMap splitKeyValue = pairs := by
  have hparts : ∀ part ∈ pairs.map fun kv => kv.1 ++ '=' :: kv.2, '&' ∉ part := by
    intro part hpart
    obtain ⟨kv, hkv, rfl⟩ := List.mem_map.mp hpart
    simp [(h kv hkv).2.1, (h kv hkv).2.2]
  unfold queryText
  rw [List.splitOn_intercalate '&' hparts (by simpa using hne), List.filterMap_map]
  have hread : ∀ kv ∈ pairs, (splitKeyValue ∘ fun kv => kv.1 ++ '=' :: kv.2) kv = some kv :=
    fun kv hkv => splitKeyValue_append (h kv hkv).1 kv.2
  rw [List.filterMap_congr hread, List.filterMap_some]

theorem getValue_cons_self (key : String) (value : List Char)
    (pairs : List (List Char × List Char)) :
    getValue ((key.toList, value) :: pairs) key = some value := by
  simp [getValue]

theorem getValue_cons_of_ne {k : List Char} {key : String} (h : k ≠ key.toList)
    (value : List Char) (pairs : List (List Char × List Char)) :
    getValue ((k, value) :: pairs) key = getValue pairs key := by
  simp [getValue, h]

theorem not_mem_fromInt {page : Int} (hpage : 1 ≤ page) {d : Char} (hd : d.isDigit = false) :
    d ∉ (fromInt page).toList := by
  obtain ⟨n, rfl⟩ := Int.eq_ofNat_of_zero_le (show 0 ≤ page by omega)
  intro hmem
  rw [Lib.isDigit_of_mem_toString hmem] at hd
  cases hd

theorem readInt_fromInt (page : Int) : Lib.readInt (fromInt page).toList = some page :=
  Lib.readInt_toString page

/-! ## Reading undoes printing -/

/-- A route that names a page: with a library and a path where there must be one, and a page
number that counts from one. -/
def Route.Printable : Route → Prop
  | .home => True
  | .browse params => params.library ≠ "" ∧ 1 ≤ params.page
  | .search params => 1 ≤ params.page
  | .player params => params.library ≠ "" ∧ params.path ≠ ""
  | .notFound => False

instance : (route : Route) → Decidable route.Printable
  | .home => instDecidableTrue
  | .browse params => inferInstanceAs (Decidable (params.library ≠ "" ∧ 1 ≤ params.page))
  | .search params => Int.decLe 1 params.page
  | .player params => inferInstanceAs (Decidable (params.library ≠ "" ∧ params.path ≠ ""))
  | .notFound => instDecidableFalse

/-- None of the characters that a URL is cut at is left in an encoded text. -/
theorem not_mem_encode_of_separator {d : Char} (h : d ∈ "/?&=#+".toList) (text : List Char) :
    d ∉ encode text := by
  have hsep : ∀ d ∈ "/?&=#+".toList,
      (!Lib.PercentCode.unreserved d && decide (d ≠ '%')) = true :=
    List.all_eq_true.mp (by decide)
  have hd := hsep d h
  rw [Bool.and_eq_true, Bool.not_eq_true', decide_eq_true_eq] at hd
  exact Lib.PercentCode.not_mem_encode hd.1 hd.2 text

theorem encode_toList_ne_nil {text : String} (h : text ≠ "") : encode text.toList ≠ [] := by
  apply Lib.PercentCode.encode_ne_nil
  rwa [Ne, String.toList_eq_nil_iff]

/-- The path of a browse page behind its prefix. -/
def browseRest (library path : String) : List Char :=
  encode library.toList ++ (if path = "" then [] else '/' :: encodePath path.toList)

theorem splitFirstSegment_browseRest (library path : String) :
    splitFirstSegment (browseRest library path) =
      (encode library.toList, encodePath path.toList) := by
  have hslash := not_mem_encode_of_separator (d := '/') (by decide) library.toList
  unfold browseRest
  split
  · rename_i hpath
    rw [hpath, List.append_nil, splitFirstSegment_of_not_mem hslash]
    rfl
  · exact splitFirstSegment_append hslash _

theorem not_mem_browseRest (library path : String) : '?' ∉ browseRest library path := by
  have hquery := not_mem_encode_of_separator (d := '?') (by decide)
  unfold browseRest
  split
  · simpa using hquery library.toList
  · have hpath := not_mem_encodePath (by decide) hquery path.toList
    simp [hquery library.toList, hpath]

theorem Route.parse_browsePath {rest library path : List Char}
    (hsplit : splitFirstSegment rest = (library, path)) (hlib : library ≠ [])
    (query : Option (List Char)) :
    Route.parse ⟨"/browse/".toList ++ rest, query⟩ =
      .browse ⟨String.ofList (percentDecode library), String.ofList (percentDecode path),
        (parseQueryParams query).page⟩ := by
  simp [Route.parse, hsplit, hlib]

theorem Route.parse_playerPath {rest library path : List Char}
    (hsplit : splitFirstSegment rest = (library, path)) (hlib : library ≠ []) (hpath : path ≠ [])
    (query : Option (List Char)) :
    Route.parse ⟨"/player/".toList ++ rest, query⟩ =
      .player ⟨String.ofList (percentDecode library), String.ofList (percentDecode path)⟩ := by
  simp [Route.parse, hsplit, hlib, hpath]

theorem Route.parse_searchPath (query : Option (List Char)) :
    Route.parse ⟨"/search".toList, query⟩ =
      .search ⟨(parseQueryParams query).query, (parseQueryParams query).library,
        (parseQueryParams query).page⟩ := by
  simp [Route.parse]

theorem parseQueryParams_queryText {pairs : List (List Char × List Char)}
    (hne : pairs ≠ []) (h : ∀ kv ∈ pairs, '=' ∉ kv.1 ∧ '&' ∉ kv.1 ∧ '&' ∉ kv.2) :
    parseQueryParams (some (queryText pairs)) =
      { query := String.ofList (((getValue pairs "q").map percentDecode).getD [])
        library := (getValue pairs "library").map fun value => String.ofList (percentDecode value)
        page := max 1 (((getValue pairs "page").bind Lib.readInt).getD 1) } := by
  simp only [parseQueryParams, filterMap_splitKeyValue_queryText hne h]

theorem page_parseQueryParams {page : Int} (hpage : 1 ≤ page) :
    (parseQueryParams (some ("page=".toList ++ (fromInt page).toList))).page = page := by
  have htext : "page=".toList ++ (fromInt page).toList =
      queryText [("page".toList, (fromInt page).toList)] := by
    simp [queryText]
  have hdigits := not_mem_fromInt hpage (d := '&') (by decide)
  rw [htext, parseQueryParams_queryText (by simp) (by simpa using hdigits)]
  simp only [getValue, List.filterMap_cons, if_true, List.filterMap_nil, List.head?_cons,
    Option.bind_some, readInt_fromInt, Option.getD_some]
  omega

theorem parse_ofText_browse {params : BrowseParams} (h : (Route.browse params).Printable) :
    Route.parse (Url.ofText (Route.browse params).toString) = .browse params := by
  obtain ⟨library, path, page⟩ := params
  obtain ⟨hlib, hpage⟩ := h
  dsimp only at hlib hpage
  have hread := Route.parse_browsePath (splitFirstSegment_browseRest library path)
    (encode_toList_ne_nil hlib)
  have hquery : '?' ∉ "/browse/".toList ++ browseRest library path := by
    simpa using not_mem_browseRest library path
  by_cases hone : page ≤ 1
  · have htext : (Route.browse ⟨library, path, page⟩).toString.toList =
        "/browse/".toList ++ browseRest library path := by
      by_cases hpath : path = "" <;> simp [Route.toString, browseRest, hone, hpath]
    have hpage_one : page = 1 := by omega
    rw [Url.ofText_of_not_mem (by rwa [htext]), htext, hread, percentDecode_encode,
      percentDecode_encodePath, String.ofList_toList, String.ofList_toList, hpage_one]
    rfl
  · have htext : (Route.browse ⟨library, path, page⟩).toString.toList =
        "/browse/".toList ++ browseRest library path ++
          '?' :: ("page=".toList ++ (fromInt page).toList) := by
      by_cases hpath : path = "" <;> simp [Route.toString, browseRest, hone, hpath]
    rw [Url.ofText_append htext hquery, hread, percentDecode_encode, percentDecode_encodePath,
      String.ofList_toList, String.ofList_toList, page_parseQueryParams hpage]

/-- The pairs of a search. -/
def searchPairs (params : SearchParams) : List (List Char × List Char) :=
  ("q".toList, encode params.query.toList) ::
    (params.library.toList.map fun lib => ("library".toList, encode lib.toList)) ++
    (if params.page ≤ 1 then [] else [("page".toList, (fromInt params.page).toList)])

theorem toString_search (params : SearchParams) : (Route.search params).toString.toList =
    "/search".toList ++ '?' :: queryText (searchPairs params) := by
  obtain ⟨query, library, page⟩ := params
  cases library with
  | none => by_cases hone : page ≤ 1 <;> simp [Route.toString, searchPairs, queryText, hone]
  | some lib => by_cases hone : page ≤ 1 <;> simp [Route.toString, searchPairs, queryText, hone]

/-- The pairs of a search can be cut apart again. -/
theorem separators_searchPairs {params : SearchParams} (hpage : 1 ≤ params.page) :
    ∀ kv ∈ searchPairs params, '=' ∉ kv.1 ∧ '&' ∉ kv.1 ∧ '&' ∉ kv.2 := by
  have hamp := not_mem_encode_of_separator (d := '&') (by decide)
  have hdigits := not_mem_fromInt hpage (d := '&') (by decide)
  intro kv hkv
  simp only [searchPairs, List.cons_append, List.mem_cons, List.mem_append, List.mem_map] at hkv
  rcases hkv with rfl | ⟨lib, -, rfl⟩ | hkv
  · exact ⟨(by decide : '=' ∉ "q".toList), (by decide : '&' ∉ "q".toList), hamp _⟩
  · exact ⟨(by decide : '=' ∉ "library".toList), (by decide : '&' ∉ "library".toList), hamp _⟩
  · split at hkv
    · cases hkv
    · rw [List.mem_singleton] at hkv
      subst hkv
      exact ⟨(by decide : '=' ∉ "page".toList), (by decide : '&' ∉ "page".toList), hdigits⟩

theorem getValue_q_searchPairs (params : SearchParams) :
    getValue (searchPairs params) "q" = some (encode params.query.toList) :=
  getValue_cons_self _ _ _

theorem getValue_library_searchPairs (params : SearchParams) :
    getValue (searchPairs params) "library" =
      params.library.map fun lib => encode lib.toList := by
  unfold searchPairs
  rw [List.cons_append, getValue_cons_of_ne (by decide)]
  cases params.library with
  | none =>
    split
    · rfl
    · exact getValue_cons_of_ne (by decide) _ _
  | some lib => exact getValue_cons_self _ _ _

theorem getValue_page_searchPairs (params : SearchParams) :
    getValue (searchPairs params) "page" =
      if params.page ≤ 1 then none else some (fromInt params.page).toList := by
  unfold searchPairs
  rw [List.cons_append, getValue_cons_of_ne (by decide)]
  have hlibrary : ∀ rest, getValue ((params.library.toList.map fun lib =>
      ("library".toList, encode lib.toList)) ++ rest) "page" = getValue rest "page" := by
    intro rest
    cases params.library with
    | none => rfl
    | some lib => exact getValue_cons_of_ne (by decide) _ _
  rw [hlibrary]
  split
  · rfl
  · exact getValue_cons_self _ _ _

theorem parse_ofText_search {params : SearchParams} (h : (Route.search params).Printable) :
    Route.parse (Url.ofText (Route.search params).toString) = .search params := by
  have hpage : 1 ≤ params.page := h
  have hlibrary : (params.library.map fun lib => encode lib.toList).map
      (fun value => String.ofList (percentDecode value)) = params.library := by
    cases params.library with
    | none => rfl
    | some lib => simp [percentDecode_encode]
  have hread : max 1 (((if params.page ≤ 1 then none else some (fromInt params.page).toList).bind
      Lib.readInt).getD 1) = params.page := by
    split
    · simp only [Option.bind_none, Option.getD_none]
      omega
    · simp only [Option.bind_some, readInt_fromInt, Option.getD_some]
      omega
  rw [Url.ofText_append (toString_search params) (by decide), Route.parse_searchPath,
    parseQueryParams_queryText (by simp [searchPairs]) (separators_searchPairs hpage)]
  simp only [getValue_q_searchPairs, getValue_library_searchPairs, getValue_page_searchPairs,
    Option.map_some, Option.getD_some, percentDecode_encode, String.ofList_toList, hlibrary, hread]

theorem parse_ofText_player {params : PlayerParams} (h : (Route.player params).Printable) :
    Route.parse (Url.ofText (Route.player params).toString) = .player params := by
  obtain ⟨library, path⟩ := params
  obtain ⟨hlib, hpath⟩ := h
  dsimp only at hlib hpath
  have hquery := not_mem_encode_of_separator (d := '?') (by decide)
  have hslash := not_mem_encode_of_separator (d := '/') (by decide) library.toList
  have htext : (Route.player ⟨library, path⟩).toString.toList =
      "/player/".toList ++ (encode library.toList ++ '/' :: encodePath path.toList) := by
    simp [Route.toString]
  have hpath_ne : encodePath path.toList ≠ [] := by
    apply encodePath_ne_nil
    rwa [Ne, String.toList_eq_nil_iff]
  have hmark : '?' ∉ (Route.player ⟨library, path⟩).toString.toList := by
    rw [htext]
    have hpath_mark := not_mem_encodePath (by decide) hquery path.toList
    simp [hquery library.toList, hpath_mark]
  rw [Url.ofText_of_not_mem hmark, htext,
    Route.parse_playerPath (splitFirstSegment_append hslash _) (encode_toList_ne_nil hlib) hpath_ne,
    percentDecode_encode, percentDecode_encodePath, String.ofList_toList, String.ofList_toList]

/-- Reading the URL of a route gives the route back. -/
theorem Route.parse_ofText_toString {route : Route} (h : route.Printable) :
    Route.parse (Url.ofText route.toString) = route := by
  cases route with
  | home => rfl
  | browse params => exact parse_ofText_browse h
  | search params => exact parse_ofText_search h
  | player params => exact parse_ofText_player h
  | notFound => exact h.elim

theorem Route.parse_ofText_toString_search :
    Route.parse (Url.ofText (Route.search ⟨"a&b = 100%?", some "", 3⟩).toString) =
      .search ⟨"a&b = 100%?", some "", 3⟩ :=
  Route.parse_ofText_toString (by decide)

/-! ## What is read -/

theorem percentDecode_ne_nil {s : List Char} (h : s ≠ []) : percentDecode s ≠ [] := by
  unfold percentDecode
  cases hdecode : decode s with
  | none => exact h
  | some text =>
    rintro rfl
    exact Lib.PercentCode.decodeFrom_ne_some_nil (Or.inr h) hdecode

/-- The pages are only ever entered with what they expect of a route. -/
theorem Route.fromUrl_parse (url : Url) : (Route.parse url).FromUrl := by
  have hofList : ∀ s : List Char, s ≠ [] → String.ofList (percentDecode s) ≠ "" := by
    intro s hs hempty
    have hnil := congrArg String.toList hempty
    rw [String.toList_ofList] at hnil
    exact percentDecode_ne_nil hs hnil
  simp only [Route.parse]
  split
  · trivial
  · split
    · split
      · trivial
      · rename_i hlib
        exact hofList _ hlib
    · split
      · trivial
      · split
        · split
          · trivial
          · rename_i hsegments
            rw [not_or] at hsegments
            exact ⟨hofList _ hsegments.1, hofList _ hsegments.2⟩
        · trivial

end Loku
