import Loku.Frontend.Api
import Loku.Routes.Payloads

/-!
# The decoders undo the encoding

Every payload has its counterpart among the client's records (`VideoItem.counterpart` and those
of the other types): absent options stay absent, a non-finite duration is nothing, each
derivation state and title source goes to its own. Decoding what serde writes gives the
counterpart, as long as the integers are exact in the reader's numbers
(`decode_payloads`).
-/

namespace Loku

def DerivationState.counterpart : DerivationState → Api.DerivationState
  | .notNeeded => .notNeeded
  | .done => .done
  | .processing => .processing
  | .pending => .pending
  | .failed => .failed
  | .unknown => .unknown

def DerivationStatus.counterpart (status : DerivationStatus) : Api.DerivationStatus where
  state := status.state.counterpart
  error := status.error

def VideoItem.counterpart (item : VideoItem) : Api.VideoItem where
  library := item.library
  path := item.path
  name := item.name
  title := item.title
  titleSource := item.titleSource.map TitleSource.text
  durationSecs := item.durationSecs.bind F64.toRat?
  uploadDate := item.uploadDate
  year := item.year
  description := item.description
  channel := item.channel
  channelUrl := item.channelUrl
  webpageUrl := item.webpageUrl
  viewCount := item.viewCount
  genres := item.genres
  thumbPath := item.thumbPath
  compatPath := item.compatPath
  nativeType := item.nativeType
  derivation := item.derivation.counterpart
  discSet := item.discSet
  discTitleIndex := item.discTitleIndex

def Entry.counterpart : Entry → Api.Entry
  | .directory dir => .directory ⟨dir.name, dir.path⟩
  | .video item => .video item.counterpart
  | .discSet set =>
    .discSet ⟨set.discSet, set.displayTitle, set.main.counterpart,
      set.titles.map VideoItem.counterpart⟩

def DirListing.counterpart (listing : DirListing) : Api.DirListing :=
  ⟨listing.library, listing.path, listing.entries.map Entry.counterpart⟩

def SearchPage.counterpart (page : SearchPage) : Api.SearchPage :=
  ⟨page.total, page.limit, page.offset, page.items.map VideoItem.counterpart⟩

/-! ## Exact integers -/

open Decode (Exact)

/-- The integers of an item are exact. -/
structure VideoItem.Exact (item : VideoItem) : Prop where
  year : ∀ n ∈ item.year, Decode.Exact n
  viewCount : ∀ n ∈ item.viewCount, Decode.Exact n
  discTitleIndex : ∀ n ∈ item.discTitleIndex, Decode.Exact n

def Entry.Exact : Entry → Prop
  | .directory _ => True
  | .video item => item.Exact
  | .discSet set => set.main.Exact ∧ ∀ item ∈ set.titles, item.Exact

structure SearchPage.Exact (page : SearchPage) : Prop where
  total : Decode.Exact page.total
  limit : Decode.Exact page.limit
  offset : Decode.Exact page.offset
  items : ∀ item ∈ page.items, item.Exact

/-! ## Decoding each payload -/

open Decode

theorem decode_derivationState (state : DerivationState) :
    Api.derivationStateDecoder state.toJson = some state.counterpart := by
  cases state <;> rfl

theorem decode_derivationStatus (status : DerivationStatus) :
    Api.derivationStatusDecoder status.toJson = some status.counterpart := by
  have hstate : field "state" Api.derivationStateDecoder status.toJson =
      some status.state.counterpart := by
    have hget : status.toJson.get "state" = some status.state.toJson := by
      simp [DerivationStatus.toJson, Json.get_record, Json.slot]
    rw [field, hget, Option.bind_some, decode_derivationState]
  have herror : maybe (field "error" string) status.toJson = some status.error := by
    have hget : status.toJson.get "error" = status.error.map .string := by
      simp [DerivationStatus.toJson, Json.get_record, Json.slot]
    rw [maybe, field, hget]
    cases status.error <;> rfl
  rw [Api.derivationStatusDecoder, hstate, herror]
  rfl

theorem decode_genres {json : Json} {genres : List String}
    (hget : json.get "genres" = genresJson genres) :
    optionalField "genres" (list string) [] json = some genres := by
  unfold optionalField field
  rw [hget]
  unfold genresJson
  cases genres with
  | nil => rfl
  | cons g genres =>
    have hlist : list string (.array ((g :: genres).map .string)) = some (g :: genres) := by
      have hstring : ∀ s ∈ g :: genres, string (.string s) = some (id s) := fun _ _ => rfl
      rw [list_array hstring, List.map_id]
    simp only [List.isEmpty_cons, Bool.false_eq_true, if_false, Option.bind_some, value, orElse,
      hlist, Option.some_or]

/-- An item, alone or with its kind beside its fields. -/
theorem decode_item {item : VideoItem} (h : item.Exact) {extra : List (String × Option Json)}
    (hextra : extra = [] ∨ extra = [("type", some (.string "video"))]) :
    Api.videoItemDecoder (.record (extra ++ item.fields)) = some item.counterpart := by
  have hget : ∀ key, key ≠ "type" →
      (Json.record (extra ++ item.fields)).get key = Json.slot key item.fields := by
    intro key hkey
    rw [Json.get_record]
    rcases hextra with rfl | rfl
    · rfl
    · rw [List.singleton_append, Json.slot, if_neg (Ne.symm hkey)]
  generalize Json.record (extra ++ item.fields) = json at hget ⊢
  have hlibrary : field "library" string json = some item.library := by
    rw [field, hget "library" (by decide)]
    rfl
  have hpath : field "path" string json = some item.path := by
    rw [field, hget "path" (by decide)]
    rfl
  have hname : field "name" string json = some item.name := by
    rw [field, hget "name" (by decide)]
    rfl
  have htitle : optionalField "title" (map some string) none json = some item.title :=
    optionalField_string (by simp [hget, VideoItem.fields, Json.slot])
  have htitleSource : optionalField "title_source" (map some string) none json =
      some (item.titleSource.map TitleSource.text) :=
    optionalField_just TitleSource.toJson (by simp [hget, VideoItem.fields, Json.slot])
      fun _ _ => rfl
  have hdurationSecs : optionalField "duration_secs" (map some float) none json =
      some (item.durationSecs.bind F64.toRat?) :=
    optionalField_float (by simp [hget, VideoItem.fields, Json.slot])
  have huploadDate : optionalField "upload_date" (map some string) none json =
      some item.uploadDate :=
    optionalField_string (by simp [hget, VideoItem.fields, Json.slot])
  have hyear : optionalField "year" (map some int) none json = some item.year :=
    optionalField_int (by simp [hget, VideoItem.fields, Json.slot]) h.year
  have hdescription : optionalField "description" (map some string) none json =
      some item.description :=
    optionalField_string (by simp [hget, VideoItem.fields, Json.slot])
  have hchannel : optionalField "channel" (map some string) none json = some item.channel :=
    optionalField_string (by simp [hget, VideoItem.fields, Json.slot])
  have hchannelUrl : optionalField "channel_url" (map some string) none json =
      some item.channelUrl :=
    optionalField_string (by simp [hget, VideoItem.fields, Json.slot])
  have hwebpageUrl : optionalField "webpage_url" (map some string) none json =
      some item.webpageUrl :=
    optionalField_string (by simp [hget, VideoItem.fields, Json.slot])
  have hviewCount : optionalField "view_count" (map some int) none json = some item.viewCount :=
    optionalField_int (by simp [hget, VideoItem.fields, Json.slot]) h.viewCount
  have hgenres : optionalField "genres" (list string) [] json = some item.genres :=
    decode_genres (by simp [hget, VideoItem.fields, Json.slot])
  have hthumbPath : optionalField "thumb_path" (map some string) none json = some item.thumbPath :=
    optionalField_string (by simp [hget, VideoItem.fields, Json.slot])
  have hcompatPath : optionalField "compat_path" (map some string) none json =
      some item.compatPath :=
    optionalField_string (by simp [hget, VideoItem.fields, Json.slot])
  have hnativeType : optionalField "native_type" (map some string) none json =
      some item.nativeType :=
    optionalField_string (by simp [hget, VideoItem.fields, Json.slot])
  have hderivation : field "derivation" Api.derivationStatusDecoder json =
      some item.derivation.counterpart := by
    have hstatus : json.get "derivation" = some item.derivation.toJson := by
      simp [hget, VideoItem.fields, Json.slot]
    rw [field, hstatus, Option.bind_some, decode_derivationStatus]
  have hdiscSet : optionalField "disc_set" (map some string) none json = some item.discSet :=
    optionalField_string (by simp [hget, VideoItem.fields, Json.slot])
  have hdiscTitleIndex : optionalField "disc_title_index" (map some int) none json =
      some item.discTitleIndex :=
    optionalField_int (by simp [hget, VideoItem.fields, Json.slot]) h.discTitleIndex
  simp only [Api.videoItemDecoder, required, Decode.optional, succeed, Option.bind_some,
    Option.map_some, hlibrary, hpath, hname, htitle, htitleSource, hdurationSecs, huploadDate,
    hyear, hdescription, hchannel, hchannelUrl, hwebpageUrl, hviewCount, hgenres, hthumbPath,
    hcompatPath, hnativeType, hderivation, hdiscSet, hdiscTitleIndex]
  rfl

theorem decode_videoItem {item : VideoItem} (h : item.Exact) :
    Api.videoItemDecoder item.toJson = some item.counterpart := by
  have hjson : item.toJson = .record ([] ++ item.fields) := rfl
  rw [hjson]
  exact decode_item h (Or.inl rfl)

theorem decode_videoItems {items : List VideoItem} (h : ∀ item ∈ items, item.Exact) :
    list Api.videoItemDecoder (.array (items.map VideoItem.toJson)) =
      some (items.map VideoItem.counterpart) :=
  list_array fun item hitem => decode_videoItem (h item hitem)

/-- An entry is told by its kind. -/
theorem decode_entry {entry : Entry} (h : entry.Exact) :
    Api.entryDecoder entry.toJson = some entry.counterpart := by
  cases entry with
  | directory dir =>
    have htype : field "type" string (Entry.directory dir).toJson = some "directory" := by
      simp [field, Entry.toJson, Json.get_record, Json.slot, string]
    have hdir : Api.dirEntryDecoder (Entry.directory dir).toJson = some ⟨dir.name, dir.path⟩ := by
      simp [Api.dirEntryDecoder, field, Entry.toJson, DirEntry.fields, Json.get_record, Json.slot,
        string]
    rw [Api.entryDecoder, andThen, htype, Option.bind_some]
    show map Api.Entry.directory Api.dirEntryDecoder _ = _
    rw [map, hdir]
    rfl
  | video item =>
    have htype : field "type" string (Entry.video item).toJson = some "video" := by
      simp [field, Entry.toJson, Json.get_record, Json.slot, string]
    have hjson : (Entry.video item).toJson =
        .record ([("type", some (.string "video"))] ++ item.fields) := rfl
    have hitem : Api.videoItemDecoder (Entry.video item).toJson = some item.counterpart := by
      rw [hjson]
      exact decode_item h (Or.inr rfl)
    rw [Api.entryDecoder, andThen, htype, Option.bind_some]
    show map Api.Entry.video Api.videoItemDecoder _ = _
    rw [map, hitem]
    rfl
  | discSet set =>
    have htype : field "type" string (Entry.discSet set).toJson = some "disc_set" := by
      simp [field, Entry.toJson, Json.get_record, Json.slot, string]
    have hset : Api.discSetDecoder (Entry.discSet set).toJson =
        some ⟨set.discSet, set.displayTitle, set.main.counterpart,
          set.titles.map VideoItem.counterpart⟩ := by
      simp [Api.discSetDecoder, field, Entry.toJson, DiscSetEntry.fields, Json.get_record,
        Json.slot, string, decode_videoItem h.1, decode_videoItems h.2]
    rw [Api.entryDecoder, andThen, htype, Option.bind_some]
    show map Api.Entry.discSet Api.discSetDecoder _ = _
    rw [map, hset]
    rfl

theorem decode_dirListing {listing : DirListing} (h : ∀ entry ∈ listing.entries, entry.Exact) :
    Api.dirListingDecoder listing.toJson = some listing.counterpart := by
  have hentries : list Api.entryDecoder (.array (listing.entries.map Entry.toJson)) =
      some (listing.entries.map Entry.counterpart) :=
    list_array fun entry hentry => decode_entry (h entry hentry)
  simp [Api.dirListingDecoder, field, DirListing.toJson, Json.get_record, Json.slot, string,
    hentries, DirListing.counterpart]

theorem decode_searchPage {page : SearchPage} (h : page.Exact) :
    Api.searchPageDecoder page.toJson = some page.counterpart := by
  simp [Api.searchPageDecoder, field, SearchPage.toJson, Json.get_record, Json.slot,
    int_ofInt h.total, int_ofInt h.limit, int_ofInt h.offset, decode_videoItems h.items,
    SearchPage.counterpart]

/-- The client's decoders undo the server's encoding. -/
theorem decode_payloads :
    (∀ listing : DirListing, (∀ entry ∈ listing.entries, entry.Exact) →
      Api.dirListingDecoder listing.toJson = some listing.counterpart) ∧
    ∀ page : SearchPage, page.Exact →
      Api.searchPageDecoder page.toJson = some page.counterpart :=
  ⟨fun _ h => decode_dirListing h, fun _ h => decode_searchPage h⟩

/-! ## A listing and a page -/

namespace SamplePayloads

/-- A video whose duration is no number and whose title was guessed. -/
def item : VideoItem where
  library := "movies"
  path := "Disc_t00.mkv"
  name := "Disc_t00.mkv"
  title := some "Disc"
  titleSource := some .ripName
  durationSecs := some .nan
  uploadDate := none
  year := some 1999
  description := none
  channel := none
  channelUrl := none
  webpageUrl := none
  viewCount := none
  genres := []
  thumbPath := none
  compatPath := none
  nativeType := none
  derivation := ⟨.failed, some "no muxer"⟩
  discSet := some "Disc"
  discTitleIndex := some 0

def listing : DirListing :=
  ⟨"movies", "", [.directory ⟨"Extras", "Extras"⟩, .video item,
    .discSet ⟨"Disc", "Disc", item, [item]⟩]⟩

def page : SearchPage := ⟨1, 50, 0, [item]⟩

theorem exact_item : item.Exact where
  year := by
    rintro n ⟨⟩
    exact Lib.asDouble_of_natAbs_lt (by omega)
  viewCount := by
    rintro n ⟨⟩
  discTitleIndex := by
    rintro n ⟨⟩
    exact Lib.asDouble_of_natAbs_lt (by omega)

theorem exact_page : page.Exact where
  total := Lib.asDouble_of_natAbs_lt (by decide)
  limit := Lib.asDouble_of_natAbs_lt (by decide)
  offset := Lib.asDouble_of_natAbs_lt (by decide)
  items := fun i hi => List.mem_singleton.mp hi ▸ exact_item

theorem decode_payloads_sample :
    Api.dirListingDecoder listing.toJson = some listing.counterpart ∧
      Api.searchPageDecoder page.toJson = some page.counterpart :=
  ⟨decode_payloads.1 listing (by
      intro entry hentry
      simp only [listing, List.mem_cons, List.not_mem_nil, or_false] at hentry
      rcases hentry with rfl | rfl | rfl
      · trivial
      · exact exact_item
      · exact ⟨exact_item, fun i hi => List.mem_singleton.mp hi ▸ exact_item⟩),
    decode_payloads.2 page exact_page⟩

end SamplePayloads

end Loku
