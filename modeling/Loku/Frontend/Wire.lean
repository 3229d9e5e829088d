import Loku.Frontend.RoundTrip
import Loku.Frontend.Route
import Loku.Frontend.Session
import Loku.Routes.Server

/-!
# Requests between the client and the server

A call of the client is a URL with its arguments encoded, or a body; the server cuts the query
apart, decodes the parts and reads its numbers. Both ends mean the same: whatever the arguments,
the server does what the handler does with them (`appRoutes_request`).
-/

namespace Loku

open Lib.PercentCode (encode)

/-! ## The client's end -/

def Call.url : Call → String
  | .getLibraries => "/api/libraries"
  | .getBrowse library path =>
    "/api/browse?library=" ++ String.ofList (encode library.toList) ++
      "&path=" ++ String.ofList (encode path.toList)
  | .getItem library path =>
    "/api/item?library=" ++ String.ofList (encode library.toList) ++
      "&path=" ++ String.ofList (encode path.toList)
  | .getSearch query library limit offset =>
    "/api/search?q=" ++ String.ofList (encode query.toList) ++
      (match library with
        | some library => "&library=" ++ String.ofList (encode library.toList)
        | none => "") ++
      "&limit=" ++ fromInt limit ++ "&offset=" ++ fromInt offset
  | .postMainTitle .. => "/api/disc-sets/main"

def Call.request (call : Call) : HttpRequest :=
  let url := Url.ofText call.url
  match call with
  | .postMainTitle library discSet path =>
    ⟨.post, url.path, url.query, some (.object
      [("library", .string library), ("disc_set", .string discSet), ("path", .string path)])⟩
  | _ => ⟨.get, url.path, url.query, none⟩

def Api.libraryKindDecoder : Decoder LibraryKind :=
  Decode.string |> Decode.andThen fun kind =>
    match kind with
    | "downloads" => Decode.succeed .downloads
    | "discs" => Decode.succeed .discs
    | _ => Decode.fail

def Api.libraryDecoder : Decoder Api.Library := fun json =>
  (Decode.field "name" Decode.string json).bind fun name =>
    (Decode.field "kind" Api.libraryKindDecoder json).map fun kind => ⟨name, kind⟩

/-- `Http.expectJson`. -/
def expectJson {α : Type} (decoder : Decoder α) (response : HttpResponse) : Except HttpError α :=
  if 200 ≤ response.status ∧ response.status < 300 then
    match response.body with
    | .json value =>
      match decoder value with
      | some a => .ok a
      | none => .error (.badBody "")
    | _ => .error (.badBody "")
  else .error (.badStatus response.status)

/-- `Http.expectWhatever`. -/
def expectWhatever (response : HttpResponse) : Except HttpError Unit :=
  if 200 ≤ response.status ∧ response.status < 300 then .ok ()
  else .error (.badStatus response.status)

/-- What a page is given of a response. -/
def Call.answer (response : HttpResponse) : Call → Answer
  | .getLibraries => .libraries (expectJson (Decode.list Api.libraryDecoder) response)
  | .getBrowse .. => .listing (expectJson Api.dirListingDecoder response)
  | .getSearch .. => .results (expectJson Api.searchPageDecoder response)
  | .getItem .. => .item (expectJson Api.videoItemDecoder response)
  | .postMainTitle .. => .mainTitle (expectWhatever response)

/-! ## What a call means -/

def asU32 (i : Int) : Option Nat := if 0 ≤ i ∧ i ≤ 4294967295 then some i.toNat else none

/-- The handler's answer to the arguments of a call; a number that is none of 32 bits makes the
query unreadable. -/
def Call.handled (s : ServerState) : Call → ServerState × HttpResponse
  | .getLibraries => (s, s.listLibraries)
  | .getBrowse library path => (s, s.browse ⟨some library, path⟩)
  | .getItem library path => (s, s.item ⟨library, path⟩)
  | .getSearch query library limit offset =>
    (s, (((asU32 limit).bind fun limit => (asU32 offset).map fun offset =>
      s.search ⟨query, library, some limit, some offset⟩).getD .badQuery))
  | .postMainTitle library discSet path => s.setMain ⟨library, discSet, path⟩

/-! ## Reading what was written -/

theorem encode_eq_self {text : List Char} (h : ∀ c ∈ text, Lib.PercentCode.unreserved c = true) :
    encode text = text := by
  induction text with
  | nil => rfl
  | cons c text ih =>
    have hchar : Lib.PercentCode.encodeChar c = [c] := if_pos (h c List.mem_cons_self)
    have htail := ih fun d hd => h d (List.mem_cons_of_mem _ hd)
    unfold encode at htail ⊢
    rw [List.flatMap_cons, hchar, htail]
    rfl

/-- A query of encoded keys and values is read back. -/
theorem FormReader.pairs_queryText (reader : FormReader) {texts : List (List Char × List Char)}
    (hne : texts ≠ []) :
    reader.pairs (some (queryText (texts.map fun kv => (encode kv.1, encode kv.2)))) = texts := by
  have hamp := not_mem_encode_of_separator (d := '&') (by decide)
  have heq := not_mem_encode_of_separator (d := '=') (by decide)
  have hparts : ∀ part ∈ texts.map fun kv => encode kv.1 ++ '=' :: encode kv.2, '&' ∉ part := by
    intro part hpart
    obtain ⟨kv, -, rfl⟩ := List.mem_map.mp hpart
    simp [hamp]
  have hsplit : (queryText (texts.map fun kv => (encode kv.1, encode kv.2))).splitOn '&' =
      texts.map fun kv => encode kv.1 ++ '=' :: encode kv.2 := by
    unfold queryText
    rw [List.map_map]
    exact List.splitOn_intercalate '&' hparts (by simpa using hne)
  have hfull : (texts.map fun kv => encode kv.1 ++ '=' :: encode kv.2).filter (· ≠ []) =
      texts.map fun kv => encode kv.1 ++ '=' :: encode kv.2 := by
    rw [List.filter_eq_self]
    intro part hpart
    obtain ⟨kv, -, rfl⟩ := List.mem_map.mp hpart
    simp
  have hkey : ∀ key : List Char, ∀ c ∈ encode key, decide (c ≠ '=') = true := by
    intro key c hc
    rw [decide_eq_true_eq]
    rintro rfl
    exact heq key hc
  unfold FormReader.pairs
  rw [Option.getD_some, hsplit, hfull, List.map_map]
  refine (List.map_congr_left fun kv _ => ?_).trans (List.map_id _)
  rw [Function.comp_apply, List.takeWhile_append_of_pos (hkey kv.1),
    List.dropWhile_append_of_pos (hkey kv.1)]
  simp [reader.decode_encode]

theorem text_negSucc (n : Nat) :
    (fromInt (Int.negSucc n)).toList = '-' :: (n + 1).repr.toList := by
  change ("-" ++ (n + 1).repr).toList = _
  rw [String.toList_append]
  rfl

theorem parseU32_of_readNat {text : String} {n : Nat} (h : Lib.readNat text.toList = some n) :
    parseU32 text = (some n).filter (· ≤ 4294967295) := by
  unfold parseU32
  split
  · rename_i digits hdigits
    rw [hdigits] at h
    simp [Lib.readNat] at h
  · rw [h]

theorem parseU32_fromInt (i : Int) : parseU32 (fromInt i) = asU32 i := by
  cases i with
  | ofNat n =>
    have hread : Lib.readNat (fromInt (Int.ofNat n)).toList = some n := Lib.readNat_repr n
    have hle : (0 ≤ Int.ofNat n ∧ Int.ofNat n ≤ 4294967295) ↔ n ≤ 4294967295 := by
      rw [Int.ofNat_eq_natCast]
      omega
    unfold asU32
    rw [parseU32_of_readNat hread, Option.filter_some]
    simp only [decide_eq_true_eq, hle]
    rfl
  | negSucc n =>
    have hout : ¬ (0 ≤ Int.negSucc n ∧ Int.negSucc n ≤ 4294967295) := by omega
    unfold parseU32 asU32
    rw [text_negSucc, if_neg hout]
    rfl

theorem encode_fromInt (i : Int) : encode (fromInt i).toList = (fromInt i).toList := by
  have hdigits : ∀ n : Nat, ∀ c ∈ n.repr.toList, Lib.PercentCode.unreserved c = true := by
    intro n c hc
    have hdigit : c.isDigit = true := Lib.isDigit_of_mem_toString hc
    simp [Lib.PercentCode.unreserved, Char.isAlphanum, hdigit]
  apply encode_eq_self
  cases i with
  | ofNat n => exact hdigits n
  | negSucc n =>
    rw [text_negSucc]
    intro c hc
    rcases List.mem_cons.mp hc with rfl | hc
    · rfl
    · exact hdigits (n + 1) c hc

/-! ## Both ends -/

/-- The route of a call. -/
def Call.route : Call → String
  | .getLibraries => "/api/libraries"
  | .getBrowse .. => "/api/browse"
  | .getItem .. => "/api/item"
  | .getSearch .. => "/api/search"
  | .postMainTitle .. => "/api/disc-sets/main"

/-- The keys and values that a call sends in its query. -/
def Call.texts : Call → List (String × String)
  | .getLibraries | .postMainTitle .. => []
  | .getBrowse library path => [("library", library), ("path", path)]
  | .getItem library path => [("library", library), ("path", path)]
  | .getSearch query library limit offset =>
    ("q", query) :: (library.toList.map fun name => ("library", name)) ++
      [("limit", fromInt limit), ("offset", fromInt offset)]

theorem not_mem_route : (call : Call) → '?' ∉ call.route.toList
  | .getLibraries => (by decide : '?' ∉ "/api/libraries".toList)
  | .getBrowse .. => (by decide : '?' ∉ "/api/browse".toList)
  | .getItem .. => (by decide : '?' ∉ "/api/item".toList)
  | .getSearch .. => (by decide : '?' ∉ "/api/search".toList)
  | .postMainTitle .. => (by decide : '?' ∉ "/api/disc-sets/main".toList)

/-- The keys are their own encoding. -/
theorem encode_key {call : Call} {kv : String × String} (h : kv ∈ call.texts) :
    encode kv.1.toList = kv.1.toList := by
  have hkeys : kv.1 ∈ ["library", "path", "q", "limit", "offset"] := by
    have hmem := List.mem_map_of_mem (f := Prod.fst) h
    cases call with
    | getLibraries | postMainTitle => exact absurd h List.not_mem_nil
    | getBrowse library path => exact (by decide : ["library", "path"] ⊆ _) hmem
    | getItem library path => exact (by decide : ["library", "path"] ⊆ _) hmem
    | getSearch query library limit offset =>
      cases library with
      | none => exact (by decide : ["q", "limit", "offset"] ⊆ _) hmem
      | some name => exact (by decide : ["q", "library", "limit", "offset"] ⊆ _) hmem
  have hall : ∀ key ∈ ["library", "path", "q", "limit", "offset"],
      encode key.toList = key.toList := by decide
  exact hall kv.1 hkeys

section
variable {first second third fourth : String} {r k₁ k₂ k₃ k₄ : List Char}

theorem toList_twoArguments (u v : List Char) (h₁ : first.toList = r ++ '?' :: (k₁ ++ ['=']))
    (h₂ : second.toList = '&' :: (k₂ ++ ['='])) :
    (first ++ String.ofList u ++ second ++ String.ofList v).toList =
      r ++ '?' :: queryText [(k₁, u), (k₂, v)] := by
  simp [h₁, h₂, queryText]

theorem toList_optionalArgument (u : List Char) (v : Option (List Char)) (w x : String)
    (h₁ : first.toList = r ++ '?' :: (k₁ ++ ['='])) (h₂ : second.toList = '&' :: (k₂ ++ ['=']))
    (h₃ : third.toList = '&' :: (k₃ ++ ['='])) (h₄ : fourth.toList = '&' :: (k₄ ++ ['='])) :
    (first ++ String.ofList u ++ (match v with
      | some v => second ++ String.ofList v
      | none => "") ++ third ++ w ++ fourth ++ x).toList =
      r ++ '?' :: queryText ((k₁, u) :: (v.toList.map fun v => (k₂, v)) ++
        [(k₃, w.toList), (k₄, x.toList)]) := by
  cases v with
  | none => simp [h₁, h₃, h₄, queryText]
  | some v => simp [h₁, h₂, h₃, h₄, queryText]

end

theorem toList_url (call : Call) :
    call.url.toList = call.route.toList ++
      (if call.texts = [] then []
      else '?' :: queryText (call.texts.map fun kv => (kv.1.toList, encode kv.2.toList))) := by
  cases call with
  | getLibraries | postMainTitle =>
    rw [Call.texts, if_pos rfl, List.append_nil]
    rfl
  | getBrowse library path =>
    exact toList_twoArguments (encode library.toList) (encode path.toList)
      (by decide : "/api/browse?library=".toList =
        "/api/browse".toList ++ '?' :: ("library".toList ++ ['=']))
      (by decide : "&path=".toList = '&' :: ("path".toList ++ ['=']))
  | getItem library path =>
    exact toList_twoArguments (encode library.toList) (encode path.toList)
      (by decide : "/api/item?library=".toList =
        "/api/item".toList ++ '?' :: ("library".toList ++ ['=']))
      (by decide : "&path=".toList = '&' :: ("path".toList ++ ['=']))
  | getSearch query library limit offset =>
    have hurl := toList_optionalArgument (encode query.toList)
      (library.map fun name => encode name.toList) (fromInt limit) (fromInt offset)
      (by decide : "/api/search?q=".toList = "/api/search".toList ++ '?' :: ("q".toList ++ ['=']))
      (by decide : "&library=".toList = '&' :: ("library".toList ++ ['=']))
      (by decide : "&limit=".toList = '&' :: ("limit".toList ++ ['=']))
      (by decide : "&offset=".toList = '&' :: ("offset".toList ++ ['=']))
    rw [← encode_fromInt limit, ← encode_fromInt offset] at hurl
    cases library with
    | none => exact hurl
    | some name => exact hurl

/-- The query of a call is made of its texts, encoded. -/
theorem ofText_url (call : Call) :
    Url.ofText call.url = ⟨call.route.toList,
      if call.texts = [] then none
      else some (queryText (call.texts.map fun kv => (kv.1.toList, encode kv.2.toList)))⟩ := by
  have htext := toList_url call
  split at htext
  · rename_i hnone
    rw [List.append_nil] at htext
    rw [Url.ofText_of_not_mem (htext ▸ not_mem_route call), htext, if_pos hnone]
  · rename_i hsome
    rw [Url.ofText_append htext (not_mem_route call), if_neg hsome]

/-- The server reads the texts of a call. -/
theorem pairs_ofText_url (reader : FormReader) (call : Call) (h : call.texts ≠ []) :
    reader.pairs (Url.ofText call.url).query =
      call.texts.map fun kv => (kv.1.toList, kv.2.toList) := by
  have hencoded : (call.texts.map fun kv => (kv.1.toList, encode kv.2.toList)) =
      (call.texts.map fun kv => (kv.1.toList, kv.2.toList)).map fun kv =>
        (encode kv.1, encode kv.2) := by
    rw [List.map_map]
    refine List.map_congr_left fun kv hkv => ?_
    rw [Function.comp_apply, encode_key hkv]
  rw [ofText_url]
  dsimp only
  rw [if_neg h, hencoded]
  exact reader.pairs_queryText (by simpa using h)

section
variable {pairs : List (List Char × List Char)}

theorem formU32_fromInt (name : String) (i : Int)
    (h : formField pairs name = some (some (fromInt i))) :
    formU32 pairs name = (asU32 i).map some := by
  unfold formU32
  rw [h, Option.bind_some]
  dsimp only
  rw [parseU32_fromInt]

end

/-- Whatever the arguments of a call, the server does what its handler does with them. -/
theorem appRoutes_request (reader : FormReader) (s : ServerState) (call : Call) :
    s.appRoutes reader call.request = some (call.handled s) := by
  have hpairs := pairs_ofText_url reader call
  have hpath : (Url.ofText call.url).path = call.route.toList := by rw [ofText_url]
  cases call with
  | getLibraries => rfl
  | postMainTitle library discSet path =>
    have hbody : SetMainTitleRequest.deserialize (.object
        [("library", .string library), ("disc_set", .string discSet), ("path", .string path)]) =
          some ⟨library, discSet, path⟩ := by
      simp [SetMainTitleRequest.deserialize, Serde.structField, Json.asStr]
    simp [ServerState.appRoutes, Call.request, hpath, hbody, Call.route, Call.handled]
  | getBrowse library path =>
    have hform : BrowseQuery.ofForm (reader.pairs (Url.ofText
        (Call.getBrowse library path).url).query) = some ⟨some library, path⟩ := by
      rw [hpairs (by simp [Call.texts])]
      simp [BrowseQuery.ofForm, formField, Call.texts]
    simp [ServerState.appRoutes, Call.request, hpath, hform, Call.route, Call.handled]
  | getItem library path =>
    have hform : ItemQuery.ofForm (reader.pairs (Url.ofText
        (Call.getItem library path).url).query) = some ⟨library, path⟩ := by
      rw [hpairs (by simp [Call.texts])]
      simp [ItemQuery.ofForm, formField, Call.texts]
    simp [ServerState.appRoutes, Call.request, hpath, hform, Call.route, Call.handled]
  | getSearch query library limit offset =>
    have hq : formField ((Call.getSearch query library limit offset).texts.map fun kv =>
        (kv.1.toList, kv.2.toList)) "q" = some (some query) := by
      cases library <;> simp [formField, Call.texts]
    have hlibrary : formField ((Call.getSearch query library limit offset).texts.map fun kv =>
        (kv.1.toList, kv.2.toList)) "library" = some library := by
      cases library <;> simp [formField, Call.texts]
    have hlimit : formField ((Call.getSearch query library limit offset).texts.map fun kv =>
        (kv.1.toList, kv.2.toList)) "limit" = some (some (fromInt limit)) := by
      cases library <;> simp [formField, Call.texts]
    have hoffset : formField ((Call.getSearch query library limit offset).texts.map fun kv =>
        (kv.1.toList, kv.2.toList)) "offset" = some (some (fromInt offset)) := by
      cases library <;> simp [formField, Call.texts]
    have hform : SearchQuery.ofForm (reader.pairs (Url.ofText
        (Call.getSearch query library limit offset).url).query) =
        (asU32 limit).bind fun limit => (asU32 offset).map fun offset =>
          ⟨query, library, some limit, some offset⟩ := by
      rw [hpairs (by simp [Call.texts])]
      unfold SearchQuery.ofForm
      rw [hq, hlibrary, formU32_fromInt "limit" limit hlimit,
        formU32_fromInt "offset" offset hoffset]
      cases asU32 limit <;> cases asU32 offset <;> rfl
    simp only [ServerState.appRoutes, Call.request, hpath, hform, Call.route, Call.handled]
    simp [Option.map_bind, Function.comp_def]

/-! ## No two calls look alike -/

theorem url_request (call : Call) :
    Url.mk call.request.path call.request.query = Url.ofText call.url := by
  unfold Call.request
  split <;> dsimp only

theorem path_request (call : Call) : call.request.path = call.route.toList := by
  have hurl := (url_request call).trans (ofText_url call)
  exact congrArg Url.path hurl

theorem pairs_request (reader : FormReader) (call : Call) :
    reader.pairs call.request.query = call.texts.map fun kv => (kv.1.toList, kv.2.toList) := by
  have hquery : call.request.query = (Url.ofText call.url).query :=
    congrArg Url.query (url_request call)
  rw [hquery]
  by_cases hnone : call.texts = []
  · rw [ofText_url]
    dsimp only
    rw [if_pos hnone, hnone]
    rfl
  · exact pairs_ofText_url reader call hnone

theorem fromInt_injective : Function.Injective fromInt := by
  intro i j h
  have hread := readInt_fromInt i
  rw [h, readInt_fromInt] at hread
  exact (Option.some.inj hread).symm

/-- The routes, in the order of the calls. -/
def callRoutes : List String :=
  ["/api/libraries", "/api/browse", "/api/item", "/api/search", "/api/disc-sets/main"]

theorem idxOf_route : (call : Call) → callRoutes.idxOf call.route =
    match call with
    | .getLibraries => 0
    | .getBrowse .. => 1
    | .getItem .. => 2
    | .getSearch .. => 3
    | .postMainTitle .. => 4
  | .getLibraries => (by decide : callRoutes.idxOf "/api/libraries" = 0)
  | .getBrowse .. => (by decide : callRoutes.idxOf "/api/browse" = 1)
  | .getItem .. => (by decide : callRoutes.idxOf "/api/item" = 2)
  | .getSearch .. => (by decide : callRoutes.idxOf "/api/search" = 3)
  | .postMainTitle .. => (by decide : callRoutes.idxOf "/api/disc-sets/main" = 4)

theorem request_injective : Function.Injective Call.request := by
  intro call call' h
  have hroute : call.route = call'.route := by
    rw [← String.toList_inj, ← path_request, ← path_request, h]
  have hkind := congrArg callRoutes.idxOf hroute
  rw [idxOf_route, idxOf_route] at hkind
  have htexts : call.texts = call'.texts := by
    have hpairs := pairs_request .plain call
    rw [h, pairs_request .plain call'] at hpairs
    refine List.map_injective_iff.mpr (fun kv kv' heq => ?_) hpairs.symm
    obtain ⟨hkey, hvalue⟩ := Prod.mk.inj heq
    exact Prod.ext (String.toList_inj.mp hkey) (String.toList_inj.mp hvalue)
  cases call with
  | getLibraries =>
    cases call' with
    | getLibraries => rfl
    | _ => cases hkind
  | getBrowse library path =>
    cases call' with
    | getBrowse library' path' =>
      obtain ⟨rfl, rfl⟩ : library = library' ∧ path = path' := by simpa [Call.texts] using htexts
      rfl
    | _ => cases hkind
  | getItem library path =>
    cases call' with
    | getItem library' path' =>
      obtain ⟨rfl, rfl⟩ : library = library' ∧ path = path' := by simpa [Call.texts] using htexts
      rfl
    | _ => cases hkind
  | getSearch query library limit offset =>
    cases call' with
    | getSearch query' library' limit' offset' =>
      have hargs : query = query' ∧ library = library' ∧ fromInt limit = fromInt limit' ∧
          fromInt offset = fromInt offset' := by
        cases library <;> cases library' <;> simp_all [Call.texts]
      obtain ⟨rfl, rfl, hlimit, hoffset⟩ := hargs
      rw [fromInt_injective hlimit, fromInt_injective hoffset]
    | _ => cases hkind
  | postMainTitle library discSet path =>
    cases call' with
    | postMainTitle library' discSet' path' =>
      have hbody := congrArg HttpRequest.body h
      obtain ⟨rfl, rfl, rfl⟩ : library = library' ∧ discSet = discSet' ∧ path = path' := by
        simpa [Call.request] using hbody
      rfl
    | _ => cases hkind

/-- Whatever its arguments, a call is understood as what it is, and no two calls look alike. -/
theorem requests_read_back (reader : FormReader) :
    (∀ (s : ServerState) (call : Call),
      s.appRoutes reader call.request = some (call.handled s)) ∧
      Function.Injective Call.request :=
  ⟨appRoutes_request reader, request_injective⟩

end Loku
