import Jaunder.Elisp.LinkPairing

namespace Jaunder.Elisp.OrgLinks

section Documented

variable (emacs : Emacs)

/-- The links of a text in a buffer of its own. -/
def ownLinks (text : List Char) : List OrgLink := emacs.links (emacs.inFileSettings text) text

def ownRecords (text : List Char) : Option (List LinkRecord) :=
  records emacs (emacs.inFileSettings text) text

/-- A link that is given an address no longer names a file, any other is read as before. -/
def Reread (url : Option (List Char)) (r r' : LinkRecord) : Prop :=
  (url.isSome = true → isLocalType r'.type = false) ∧ (url = none → r' = r)

/-- Org reads links one after the other. Its in-file settings decide how a link is read and not where
it is, blanks at the end of a text are in no link, and a link whose target is replaced by an address
leaves the others as they are. -/
structure Documented (isUrl : List Char → Prop) : Prop where
  ordered : ∀ settings text, Ordered text.length (emacs.links settings text)
  samePlaces : ∀ settings settings' text, (emacs.links settings text).map (fun l ↦ (l.start, l.stop)) =
    (emacs.links settings' text).map (fun l ↦ (l.start, l.stop))
  trailing : ∀ settings text,
    emacs.links settings (stringTrimRight text) = emacs.links settings text
  reread : ∀ text rs urls, ownRecords emacs text = some rs → urls.length = rs.length →
    (∀ url, some url ∈ urls → isUrl url) →
    ∃ rs', ownRecords emacs (splice text 0 (edits (ownLinks emacs text) urls)) = some rs' ∧
      rs'.length = rs.length ∧ ∀ (i : ℕ) url r r', urls[i]? = some url → rs[i]? = some r →
        rs'[i]? = some r' → Reread url r r'

/-- The addresses that the server answers with. -/
structure Answers (services : Services) (isUrl : List Char → Prop) : Prop where
  posts : ∀ record url, services.postHref record = some url → isUrl url
  media : ∀ path url, services.uploadMedia path = some url → isUrl url

end Documented

section Substitution

variable {emacs : Emacs} {isUrl : List Char → Prop} {text text' : List Char} {settings : emacs.Settings}
  {rs : List LinkRecord} {p : LinkRecord → Bool} {urls : List (List Char)}

theorem length_of_records (h : records emacs settings text = some rs) :
    rs.length = (emacs.links settings text).length := by
  have hmap := mapM_eq_some h
  have hlength := congrArg List.length hmap
  rwa [List.length_map, List.length_map, eq_comm] at hlength

theorem file_isSome (h : records emacs settings text = some rs) {r : LinkRecord} (hr : r ∈ rs)
    (hlocal : isLocalType r.type = true) : ∃ file, r.file = some file := by
  have hmap := mapM_eq_some h
  have hmem : some r ∈ (emacs.links settings text).map (orgLinkToRecord emacs settings text) :=
    hmap ▸ List.mem_map_of_mem hr
  obtain ⟨link, -, hlink⟩ := List.mem_map.mp hmem
  unfold orgLinkToRecord at hlink
  split_ifs at hlink with htype
  · obtain ⟨file, -, rfl⟩ := Option.map_eq_some_iff.mp hlink
    exact ⟨file, rfl⟩
  · rw [← Option.some.inj hlink] at hlocal
    exact absurd hlocal htype

theorem orgSubstituteLinks_eq_some (h : orgSubstituteLinks emacs text p urls = some text') :
    ∃ rs', ownRecords emacs text = some rs' ∧ text' = ((((ownLinks emacs text).zip rs').filter
      (fun pair ↦ p pair.2)).map Prod.fst |>.zip urls).reverse.foldl rewriteLink text := by
  obtain ⟨rs', hrs', h⟩ := Option.bind_eq_some_iff.mp h
  exact ⟨rs', hrs', (Option.some.inj h).symm⟩

/-- Where the links are selected as the records were collected, each gets its own address. -/
theorem orgSubstituteLinks_eq_splice (hdoc : Documented emacs isUrl)
    (h : orgSubstituteLinks emacs text p urls = some text') {rs' : List LinkRecord}
    (hrs' : ownRecords emacs text = some rs') {url : LinkRecord → Option (List Char)}
    (hselected : List.Forall₂ (fun r r' ↦ p r = p r') rs rs')
    (hurls : (rs.filter p).map url = urls.map some) :
    text' = splice text 0 (edits (ownLinks emacs text) (rs.map (ownUrl p url))) := by
  obtain ⟨rs'', hrs'', rfl⟩ := orgSubstituteLinks_eq_some h
  obtain rfl := Option.some.inj (hrs'.symm.trans hrs'')
  have hlength : (ownLinks emacs text).length = rs.length := by
    rw [hselected.length_eq, length_of_records hrs']
    rfl
  rw [zip_selected_eq_edits hlength hselected hurls]
  exact foldl_rewriteLink_eq_splice
    ((hdoc.ordered _ text).sublist (map_fst_edits_sublist _ _))

end Substitution

section Publishing

variable {emacs : Emacs} {services : Services} {isUrl : List Char → Prop} {buffer : PostBuffer}
  {body between sent : List Char} {rs : List LinkRecord}

theorem localizePostLinks_eq_some (h : localizePostLinks emacs services buffer body = some between) :
    ∃ rs, orgBodyLinks emacs buffer = some rs ∧
      ((rs.filter (localPostLinkCandidate emacs) = [] ∧ between = body) ∨
        ∃ urls, (rs.filter (localPostLinkCandidate emacs)).map services.postHref = urls.map some ∧
          orgSubstituteLinks emacs body (localPostLinkCandidate emacs) urls = some between) := by
  obtain ⟨rs, hrs, h⟩ := Option.bind_eq_some_iff.mp h
  refine ⟨rs, hrs, ?_⟩
  dsimp only at h
  split_ifs at h with hnone
  · exact .inl ⟨hnone, (Option.some.inj h).symm⟩
  · obtain ⟨urls, hurls, h⟩ := Option.bind_eq_some_iff.mp h
    exact .inr ⟨urls, mapM_eq_some hurls, h⟩

/-- Every entry of the cache is an upload. -/
theorem uploadEach_eq_some {paths : List (List Char)} {cache cache' : UploadCache}
    (hcache : ∀ path url, cache.lookup path = some url → services.uploadMedia path = some url)
    (h : uploadEach services paths cache = some cache') :
    (∀ path url, cache'.lookup path = some url → services.uploadMedia path = some url) ∧
      (∀ path ∈ paths, (cache'.lookup path).isSome = true) ∧
      ∀ path, (cache.lookup path).isSome = true → (cache'.lookup path).isSome = true := by
  induction paths generalizing cache with
  | nil =>
    cases h
    exact ⟨hcache, fun _ hp ↦ absurd hp List.not_mem_nil, fun _ hp ↦ hp⟩
  | cons path paths ih =>
    rw [uploadEach] at h
    split_ifs at h with hpath
    · obtain ⟨huploads, hpaths, hkept⟩ := ih hcache h
      exact ⟨huploads, List.forall_mem_cons.mpr ⟨hkept path hpath, hpaths⟩, hkept⟩
    · obtain ⟨url, hurl, h⟩ := Option.bind_eq_some_iff.mp h
      have hcons : ∀ path' url', ((path, url) :: cache).lookup path' = some url' →
          services.uploadMedia path' = some url' := by
        intro path' url' hlookup
        rw [List.lookup_cons] at hlookup
        split at hlookup
        · rename_i heq
          rw [← Option.some.inj hlookup, eq_of_beq heq]
          exact hurl
        · exact hcache path' url' hlookup
      obtain ⟨huploads, hpaths, hkept⟩ := ih hcons h
      have hkept' (path' : List Char) (h' : (((path, url) :: cache).lookup path').isSome = true) :
          (cache'.lookup path').isSome = true := hkept path' h'
      refine ⟨huploads, List.forall_mem_cons.mpr ⟨hkept' path ?_, hpaths⟩, fun path' h' ↦ hkept' path' ?_⟩
      · rw [List.lookup_cons, beq_self_eq_true]
        rfl
      · rw [List.lookup_cons]
        split
        · rfl
        · exact h'

/-- The address of the file of a record. -/
def mediaUrl (services : Services) (record : LinkRecord) : Option (List Char) :=
  record.file.bind services.uploadMedia

theorem map_mediaUrl {cache : UploadCache} {media : List LinkRecord}
    (hfile : ∀ r ∈ media, ∃ file, r.file = some file)
    (huploads : ∀ path url, cache.lookup path = some url → services.uploadMedia path = some url)
    (hpaths : ∀ path ∈ media.filterMap LinkRecord.file, (cache.lookup path).isSome = true) :
    media.map (mediaUrl services) = ((media.filterMap LinkRecord.file).map
      (fun path ↦ (cache.lookup path).getD [])).map some := by
  induction media with
  | nil => rfl
  | cons r media ih =>
    obtain ⟨⟨file, hr⟩, hmedia⟩ := List.forall_mem_cons.mp hfile
    rw [List.filterMap_cons_some hr] at hpaths ⊢
    obtain ⟨hcached, hpaths⟩ := List.forall_mem_cons.mp hpaths
    obtain ⟨url, hurl⟩ := Option.isSome_iff_exists.mp hcached
    rw [List.map_cons, List.map_cons, List.map_cons, ih hmedia hpaths, mediaUrl, hr, hurl,
      Option.bind_some, huploads file url hurl, Option.getD_some]

theorem localizeMedia_eq_some (h : localizeMedia emacs services buffer between = some sent) :
    ∃ rs, orgBodyLinks emacs buffer = some rs ∧
      ∃ urls, (rs.filter (mediaLink emacs)).map (mediaUrl services) = urls.map some ∧
        orgSubstituteLinks emacs between (mediaLink emacs) urls = some sent := by
  obtain ⟨rs, hrs, h⟩ := Option.bind_eq_some_iff.mp h
  refine ⟨rs, hrs, ?_⟩
  dsimp only at h
  split_ifs at h
  obtain ⟨cache, hcache, h⟩ := Option.bind_eq_some_iff.mp h
  obtain ⟨huploads, hpaths, -⟩ := uploadEach_eq_some (fun _ _ hnone ↦ (by cases hnone)) hcache
  have hfile : ∀ r ∈ rs.filter (mediaLink emacs), ∃ file, r.file = some file := by
    intro r hr
    obtain ⟨hmem, hmedia⟩ := List.mem_filter.mp hr
    exact file_isSome hrs hmem (of_decide_eq_true hmedia).1
  exact ⟨_, map_mediaUrl hfile huploads hpaths, h⟩

theorem candidate_type {r : LinkRecord} (h : localPostLinkCandidate emacs r = true) :
    isLocalType r.type = true ∧ mediaLink emacs r = false := by
  have htype : r.type = "file" := (of_decide_eq_true h).1
  refine ⟨decide_eq_true (.inl htype), decide_eq_false (fun hmedia ↦ ?_)⟩
  rw [h] at hmedia
  cases hmedia.2

theorem localType_cases {r : LinkRecord} (h : isLocalType r.type = true) :
    localPostLinkCandidate emacs r = true ∨ mediaLink emacs r = true := by
  cases hcandidate : localPostLinkCandidate emacs r with
  | true => exact .inl rfl
  | false => exact .inr (decide_eq_true ⟨h, hcandidate⟩)

/-- The readings of the body in the authoring buffer and on its own select the same links alike. -/
def ReadAlike (emacs : Emacs) (buffer : PostBuffer) : Prop :=
  ∀ rs rs', orgBodyLinks emacs buffer = some rs →
    ownRecords emacs (stringTrimRight buffer.region) = some rs' →
    List.Forall₂ (fun r r' ↦ Alike (localPostLinkCandidate emacs) r r' ∧ Alike (mediaLink emacs) r r')
      rs rs'

/-- The collected records are those of the links that are selected in the body that is sent, first of
the Local Post Links and, when these have been replaced, of the media links. -/
def Corresponding (emacs : Emacs) (services : Services) (buffer : PostBuffer) : Prop :=
  ∀ rs rs' between rs'', orgBodyLinks emacs buffer = some rs →
    ownRecords emacs (stringTrimRight buffer.region) = some rs' →
    localizePostLinks emacs services buffer (stringTrimRight buffer.region) = some between →
    ownRecords emacs between = some rs'' →
    picked (localPostLinkCandidate emacs) rs = picked (localPostLinkCandidate emacs) rs' ∧
      picked (mediaLink emacs) rs = picked (mediaLink emacs) rs''

/-- Each local link carries the address of its own Post or file, the text around the links is as it
was, and no link names a file. -/
def OwnAddresses (emacs : Emacs) (services : Services) (buffer : PostBuffer) (sent : List Char) :
    Prop :=
  ∃ rs between, orgBodyLinks emacs buffer = some rs ∧
    between = splice (stringTrimRight buffer.region) 0
      (edits (ownLinks emacs (stringTrimRight buffer.region))
        (rs.map (ownUrl (localPostLinkCandidate emacs) services.postHref))) ∧
    sent = splice between 0 (edits (ownLinks emacs between)
      (rs.map (ownUrl (mediaLink emacs) (mediaUrl services)))) ∧
    ∃ rs', ownRecords emacs sent = some rs' ∧ ∀ r ∈ rs', isLocalType r.type = false

end Publishing

section Passes

variable {emacs : Emacs} {services : Services} {isUrl : List Char → Prop} {buffer : PostBuffer}
  {body between sent : List Char} {rs rs' rs'' : List LinkRecord}

/-- Both readings of a body have the same number of links. -/
theorem length_readings (hdoc : Documented emacs isUrl) (hrs : orgBodyLinks emacs buffer = some rs)
    (hrs' : ownRecords emacs (stringTrimRight buffer.region) = some rs') : rs.length = rs'.length := by
  have hlinks := congrArg List.length (hdoc.samePlaces (buffer.settings emacs)
    (emacs.inFileSettings (stringTrimRight buffer.region)) (stringTrimRight buffer.region))
  rw [List.length_map, List.length_map, hdoc.trailing] at hlinks
  rw [length_of_records hrs, length_of_records hrs', hlinks]

theorem publishedBody_eq_some (h : publishedBody emacs services buffer = some sent) :
    ∃ rs rs' between rs'', orgBodyLinks emacs buffer = some rs ∧
      ownRecords emacs (stringTrimRight buffer.region) = some rs' ∧
      localizePostLinks emacs services buffer (stringTrimRight buffer.region) = some between ∧
      ownRecords emacs between = some rs'' ∧ localizeMedia emacs services buffer between = some sent := by
  obtain ⟨between, hbetween, hsent⟩ := Option.bind_eq_some_iff.mp h
  obtain ⟨rs, hrs, urls, -, hmedia⟩ := localizeMedia_eq_some hsent
  obtain ⟨rs'', hrs'', -⟩ := orgSubstituteLinks_eq_some hmedia
  obtain ⟨_, -, ⟨-, rfl⟩ | ⟨urls', -, hposts⟩⟩ := localizePostLinks_eq_some hbetween
  · exact ⟨rs, rs'', _, rs'', hrs, hrs'', hbetween, hrs'', hsent⟩
  · obtain ⟨rs', hrs', -⟩ := orgSubstituteLinks_eq_some hposts
    exact ⟨rs, rs', between, rs'', hrs, hrs', hbetween, hrs'', hsent⟩

theorem edits_none (links : List OrgLink) {urls : List (Option (List Char))}
    (h : ∀ url ∈ urls, url = none) : edits links urls = [] := by
  unfold edits
  rw [List.filterMap_eq_nil_iff]
  rintro ⟨link, url⟩ hmem
  rw [h url (List.of_mem_zip hmem).2]
  rfl

/-- The first pass, when both readings select the same Local Post Links. -/
theorem localizePostLinks_eq_splice (hdoc : Documented emacs isUrl)
    (h : localizePostLinks emacs services buffer body = some between)
    (hrs : orgBodyLinks emacs buffer = some rs) (hrs' : ownRecords emacs body = some rs')
    (hselected : List.Forall₂
      (fun r r' ↦ localPostLinkCandidate emacs r = localPostLinkCandidate emacs r') rs rs') :
    between = splice body 0 (edits (ownLinks emacs body)
        (rs.map (ownUrl (localPostLinkCandidate emacs) services.postHref))) ∧
      ∀ r ∈ rs, localPostLinkCandidate emacs r = true → ∃ url, services.postHref r = some url := by
  obtain ⟨rs₁, hrs₁, hcases⟩ := localizePostLinks_eq_some h
  obtain rfl := Option.some.inj (hrs.symm.trans hrs₁)
  rcases hcases with ⟨hnone, rfl⟩ | ⟨urls, hurls, hsubstitute⟩
  · have hno (r : LinkRecord) (hr : r ∈ rs) : ¬localPostLinkCandidate emacs r = true := by
      intro hcandidate
      have hmem := List.mem_filter.mpr ⟨hr, hcandidate⟩
      rw [hnone] at hmem
      cases hmem
    refine ⟨?_, fun r hr hcandidate ↦ absurd hcandidate (hno r hr)⟩
    rw [edits_none, splice, List.drop_zero]
    intro url hurl
    obtain ⟨r, hr, rfl⟩ := List.mem_map.mp hurl
    exact if_neg (hno r hr)
  · refine ⟨orgSubstituteLinks_eq_splice hdoc hsubstitute hrs' hselected hurls, fun r hr hcandidate ↦ ?_⟩
    have hmem := List.mem_map_of_mem (f := services.postHref) (List.mem_filter.mpr ⟨hr, hcandidate⟩)
    rw [hurls] at hmem
    obtain ⟨url, -, hurl⟩ := List.mem_map.mp hmem
    exact ⟨url, hurl.symm⟩

theorem isUrl_of_ownUrl {p : LinkRecord → Bool} {f : LinkRecord → Option (List Char)}
    (hf : ∀ r url, f r = some url → isUrl url) :
    ∀ url, some url ∈ rs.map (ownUrl p f) → isUrl url := by
  intro url hmem
  obtain ⟨r, -, hr⟩ := List.mem_map.mp hmem
  unfold ownUrl at hr
  split_ifs at hr
  exact hf r url hr

/-- What the second pass reads, in terms of what it would have read in the body. -/
structure Between (emacs : Emacs) (r r' r'' : LinkRecord) : Prop where
  replaced : localPostLinkCandidate emacs r = true → isLocalType r''.type = false
  kept : localPostLinkCandidate emacs r = false → r'' = r'

theorem between_records (hdoc : Documented emacs isUrl) (hanswers : Answers services isUrl)
    (hlength : rs.length = rs'.length) (hrs' : ownRecords emacs body = some rs')
    (hbetween : between = splice body 0 (edits (ownLinks emacs body)
        (rs.map (ownUrl (localPostLinkCandidate emacs) services.postHref))))
    (hposts : ∀ r ∈ rs, localPostLinkCandidate emacs r = true → ∃ url, services.postHref r = some url)
    (hrs'' : ownRecords emacs between = some rs'') :
    rs''.length = rs.length ∧ ∀ (i : ℕ) r r' r'', rs[i]? = some r → rs'[i]? = some r' →
      rs''[i]? = some r'' → Between emacs r r' r'' := by
  obtain ⟨found, hfound, hcount, hread⟩ := hdoc.reread body rs'
    (rs.map (ownUrl (localPostLinkCandidate emacs) services.postHref)) hrs'
    (by rw [List.length_map, hlength]) (isUrl_of_ownUrl hanswers.posts)
  rw [← hbetween, hrs''] at hfound
  obtain rfl := Option.some.inj hfound
  refine ⟨hcount.trans hlength.symm, fun i r r' r'' hr hr' hr'' ↦ ?_⟩
  have hurl : (rs.map (ownUrl (localPostLinkCandidate emacs) services.postHref))[i]? =
      some (ownUrl (localPostLinkCandidate emacs) services.postHref r) := by
    rw [List.getElem?_map, hr]
    rfl
  have hreread := hread i _ r' r'' hurl hr' hr''
  constructor
  · intro hcandidate
    obtain ⟨url, hpost⟩ := hposts r (List.mem_of_getElem? hr) hcandidate
    exact hreread.1 (by rw [ownUrl, if_pos hcandidate, hpost]; rfl)
  · intro hcandidate
    exact hreread.2 (by rw [ownUrl, if_neg (by rw [hcandidate]; exact Bool.false_ne_true)])

theorem mediaLink_of_not_local {r : LinkRecord} (h : isLocalType r.type = false) :
    mediaLink emacs r = false :=
  decide_eq_false (fun hmedia ↦ by rw [h] at hmedia; cases hmedia.1)

/-- The media links of the second pass are selected like those of the body. -/
theorem Between.alike {r r' r'' : LinkRecord} (h : Between emacs r r' r'')
    (hcandidate : localPostLinkCandidate emacs r = localPostLinkCandidate emacs r') :
    Alike (mediaLink emacs) r r' ↔ Alike (mediaLink emacs) r r'' := by
  cases hr : localPostLinkCandidate emacs r with
  | true =>
    have hmedia := (candidate_type hr).2
    have hmedia' := (candidate_type (hcandidate ▸ hr)).2
    have hmedia'' : mediaLink emacs r'' = false := mediaLink_of_not_local (h.replaced hr)
    constructor
    · exact fun _ ↦ ⟨hmedia.trans hmedia''.symm, fun hp ↦ by rw [hmedia] at hp; cases hp⟩
    · exact fun _ ↦ ⟨hmedia.trans hmedia'.symm, fun hp ↦ by rw [hmedia] at hp; cases hp⟩
  | false => rw [h.kept hr]

theorem forall₂_and_iff {R S : LinkRecord → LinkRecord → Prop} :
    List.Forall₂ (fun r r' ↦ R r r' ∧ S r r') rs rs' ↔
      List.Forall₂ R rs rs' ∧ List.Forall₂ S rs rs' := by
  constructor
  · exact fun h ↦ ⟨h.imp (fun _ _ h ↦ h.1), h.imp (fun _ _ h ↦ h.2)⟩
  · rintro ⟨h, h'⟩
    exact forall₂_of_getElem? h.length_eq
      (fun i r r' hr hr' ↦ ⟨forall₂_getElem? h hr hr', forall₂_getElem? h' hr hr'⟩)

/-- Where the Local Post Links are selected alike, the media links of both passes are those of the
body. -/
theorem forall₂_media_iff (hlength : rs.length = rs'.length) (hlength' : rs''.length = rs.length)
    (hposts : List.Forall₂ (Alike (localPostLinkCandidate emacs)) rs rs')
    (hbetween : ∀ (i : ℕ) r r' r'', rs[i]? = some r → rs'[i]? = some r' → rs''[i]? = some r'' →
      Between emacs r r' r'') :
    List.Forall₂ (Alike (mediaLink emacs)) rs rs' ↔ List.Forall₂ (Alike (mediaLink emacs)) rs rs'' := by
  have hget {as bs : List LinkRecord} (h : as.length = bs.length) {i : ℕ} {a : LinkRecord}
      (ha : as[i]? = some a) : ∃ b, bs[i]? = some b := by
    have hi := (List.getElem?_eq_some_iff.mp ha).1
    exact ⟨_, List.getElem?_eq_getElem (h ▸ hi)⟩
  constructor
  · intro h
    refine forall₂_of_getElem? hlength'.symm (fun i r r'' hr hr'' ↦ ?_)
    obtain ⟨r', hr'⟩ := hget hlength hr
    exact ((hbetween i r r' r'' hr hr' hr'').alike (forall₂_getElem? hposts hr hr').1).mp
      (forall₂_getElem? h hr hr')
  · intro h
    refine forall₂_of_getElem? hlength (fun i r r' hr hr' ↦ ?_)
    obtain ⟨r'', hr''⟩ := hget hlength'.symm hr
    exact ((hbetween i r r' r'' hr hr' hr'').alike (forall₂_getElem? hposts hr hr').1).mpr
      (forall₂_getElem? h hr hr'')

/-- After both passes no link names a file. -/
theorem sent_records (hdoc : Documented emacs isUrl) (hanswers : Answers services isUrl)
    (hlength : rs.length = rs'.length) (hlength' : rs''.length = rs.length)
    (hposts : List.Forall₂ (Alike (localPostLinkCandidate emacs)) rs rs')
    (hmedia : List.Forall₂ (Alike (mediaLink emacs)) rs rs'')
    (hbetween : ∀ (i : ℕ) r r' r'', rs[i]? = some r → rs'[i]? = some r' → rs''[i]? = some r'' →
      Between emacs r r' r'')
    (hurls : ∀ r ∈ rs, mediaLink emacs r = true → ∃ url, mediaUrl services r = some url)
    (hrs'' : ownRecords emacs between = some rs'')
    (hsent : sent = splice between 0 (edits (ownLinks emacs between)
      (rs.map (ownUrl (mediaLink emacs) (mediaUrl services))))) :
    ∃ found, ownRecords emacs sent = some found ∧ ∀ r ∈ found, isLocalType r.type = false := by
  have hanswered : ∀ r url, mediaUrl services r = some url → isUrl url := by
    intro r url h
    obtain ⟨path, -, hpath⟩ := Option.bind_eq_some_iff.mp h
    exact hanswers.media path url hpath
  obtain ⟨found, hfound, hcount, hread⟩ := hdoc.reread between rs''
    (rs.map (ownUrl (mediaLink emacs) (mediaUrl services))) hrs''
    (by rw [List.length_map, hlength']) (isUrl_of_ownUrl hanswered)
  rw [← hsent] at hfound
  refine ⟨found, hfound, fun last hlast ↦ ?_⟩
  obtain ⟨i, hi⟩ := List.mem_iff_getElem?.mp hlast
  have hlt := (List.getElem?_eq_some_iff.mp hi).1
  have hr'' := List.getElem?_eq_getElem (hcount ▸ hlt : i < rs''.length)
  have hr := List.getElem?_eq_getElem (hlength' ▸ hcount ▸ hlt : i < rs.length)
  have hr' := List.getElem?_eq_getElem (hlength ▸ hlength' ▸ hcount ▸ hlt : i < rs'.length)
  have hurl : (rs.map (ownUrl (mediaLink emacs) (mediaUrl services)))[i]? =
      some (ownUrl (mediaLink emacs) (mediaUrl services) rs[i]) := by
    rw [List.getElem?_map, hr]
    rfl
  have hreread := hread i _ _ last hurl hr'' hi
  have halike := forall₂_getElem? hmedia hr hr''
  cases hm : mediaLink emacs rs[i] with
  | true =>
    obtain ⟨url, hmediaUrl⟩ := hurls _ (List.mem_of_getElem? hr) hm
    exact hreread.1 (by rw [ownUrl, if_pos hm, hmediaUrl]; rfl)
  | false =>
    rw [hreread.2 (by rw [ownUrl, if_neg (by rw [hm]; exact Bool.false_ne_true)])]
    have hb := hbetween i _ _ _ hr hr' hr''
    cases hc : localPostLinkCandidate emacs rs[i] with
    | true => exact hb.replaced hc
    | false =>
      have hc' := (forall₂_getElem? hposts hr hr').1.symm.trans hc
      have hm'' := halike.1.symm.trans hm
      rw [← hb.kept hc] at hc'
      refine eq_false_of_ne_true (fun hlocal ↦ ?_)
      have hcases : localPostLinkCandidate emacs _ = true ∨ mediaLink emacs _ = true := localType_cases hlocal
      rcases hcases with h | h
      · rw [hc'] at h
        cases h
      · rw [hm''] at h
        cases h

/-- What is published has the addresses in the right places exactly when the settings of the header
do not change which links of the body are local and what they name. -/
theorem published_iff_readAlike (hdoc : Documented emacs isUrl) (hanswers : Answers services isUrl)
    (h : publishedBody emacs services buffer = some sent) :
    (Corresponding emacs services buffer ∧ OwnAddresses emacs services buffer sent) ↔
      ReadAlike emacs buffer := by
  obtain ⟨rs, rs', between, rs'', hrs, hrs', hbetween, hrs'', hsent⟩ := publishedBody_eq_some h
  have hlength := length_readings hdoc hrs hrs'
  have hsecond (hposts : List.Forall₂ (Alike (localPostLinkCandidate emacs)) rs rs') :=
    localizePostLinks_eq_splice hdoc hbetween hrs hrs' (hposts.imp (fun _ _ halike ↦ halike.1))
  constructor
  · rintro ⟨hcorresponding, -⟩ rs₁ rs₁' hrs₁ hrs₁'
    obtain rfl := Option.some.inj (hrs.symm.trans hrs₁)
    obtain rfl := Option.some.inj (hrs'.symm.trans hrs₁')
    obtain ⟨hpicked, hpicked'⟩ := hcorresponding rs rs' between rs'' hrs hrs' hbetween hrs''
    have hposts := (picked_eq_iff hlength).mp hpicked
    obtain ⟨hsplice, hurls⟩ := hsecond hposts
    obtain ⟨hlength', hb⟩ := between_records hdoc hanswers hlength hrs' hsplice hurls hrs''
    have hmedia := (picked_eq_iff hlength'.symm).mp hpicked'
    exact forall₂_and_iff.mpr ⟨hposts, (forall₂_media_iff hlength hlength' hposts hb).mpr hmedia⟩
  · intro halike
    obtain ⟨hposts, hmedia'⟩ := forall₂_and_iff.mp (halike rs rs' hrs hrs')
    obtain ⟨hsplice, hurls⟩ := hsecond hposts
    obtain ⟨hlength', hb⟩ := between_records hdoc hanswers hlength hrs' hsplice hurls hrs''
    have hmedia := (forall₂_media_iff hlength hlength' hposts hb).mp hmedia'
    constructor
    · intro rs₁ rs₁' between₁ rs₁'' hrs₁ hrs₁' hbetween₁ hrs₁''
      obtain rfl := Option.some.inj (hrs.symm.trans hrs₁)
      obtain rfl := Option.some.inj (hrs'.symm.trans hrs₁')
      obtain rfl := Option.some.inj (hbetween.symm.trans hbetween₁)
      obtain rfl := Option.some.inj (hrs''.symm.trans hrs₁'')
      exact ⟨(picked_eq_iff hlength).mpr hposts, (picked_eq_iff hlength'.symm).mpr hmedia⟩
    · obtain ⟨rs₁, hrs₁, urls, hmediaUrls, hsubstitute⟩ := localizeMedia_eq_some hsent
      obtain rfl := Option.some.inj (hrs.symm.trans hrs₁)
      have hsentSplice := orgSubstituteLinks_eq_splice hdoc hsubstitute hrs''
        (hmedia.imp (fun _ _ halike ↦ halike.1)) hmediaUrls
      have hanswered : ∀ r ∈ rs, mediaLink emacs r = true → ∃ url, mediaUrl services r = some url := by
        intro r hr hm
        have hmem := List.mem_map_of_mem (f := mediaUrl services) (List.mem_filter.mpr ⟨hr, hm⟩)
        rw [hmediaUrls] at hmem
        obtain ⟨url, -, hurl⟩ := List.mem_map.mp hmem
        exact ⟨url, hurl.symm⟩
      exact ⟨rs, between, hrs, hsplice, hsentSplice,
        sent_records hdoc hanswers hlength hlength' hposts hmedia hb hanswered hrs'' hsentSplice⟩

end Passes

section Pictures

def fileLink (path : String) (start stop : ℕ) : OrgLink :=
  ⟨"file", path.toList, "file:".toList ++ path.toList, none, start, stop, none⟩

/-- Links without descriptions; the abbreviation of the header is the only setting. -/
def abbreviatedLinks (abbreviated : Bool) (text : List Char) : List OrgLink :=
  if text = "[[pics:a.png]] [[file:b.png]]".toList then
    [if abbreviated then fileLink "images/a.png" 0 14
      else ⟨"fuzzy", "pics:a.png".toList, "pics:a.png".toList, none, 0, 14, none⟩,
      fileLink "b.png" 15 29]
  else []

def abbreviatingEmacs : Emacs where
  Settings := Bool
  inFileSettings text := "#+LINK: pics file:images/".toList.isPrefixOf text
  links := abbreviatedLinks
  unhex := id
  expandFileName path := "/posts/".toList ++ path
  isFileNameAbsolute path := path.head? = some '/'
  orgAttachExpand _ _ _ _ := none

/-- Each file is uploaded under its own name. -/
def pictureServices : Services where
  postHref _ := none
  preflight _ := true
  uploadMedia path := some ("https://example.test".toList ++ path)

def abbreviatedPost : PostBuffer where
  header := "#+LINK: pics file:images/\n\n".toList
  region := "[[pics:a.png]] [[file:b.png]]".toList

/-- The abbreviation of the header is not known where the body is rewritten: the second picture gets
the address of the first one and the first keeps its spelling. -/
theorem abbreviated_misplaced :
    publishedBody abbreviatingEmacs pictureServices abbreviatedPost =
        some "[[pics:a.png]] [[https://example.test/posts/images/a.png]]".toList ∧
      ¬Corresponding abbreviatingEmacs pictureServices abbreviatedPost := by
  refine ⟨by decide +kernel, fun h ↦ ?_⟩
  have hpicked := (h _ _ _ _ rfl rfl rfl rfl).2
  revert hpicked
  decide +kernel

end Pictures

section Picture

def addressLink : OrgLink :=
  ⟨"https", "//example.test/b".toList, "https://example.test/b".toList, none, 0, 26, none⟩

/-- The links of a text with one picture, before its upload and after it. -/
def pictureLinks (text : List Char) : List OrgLink :=
  if stringTrimRight text = "[[file:b.png]]".toList then [fileLink "b.png" 0 14]
  else if stringTrimRight text = "[[https://example.test/b]]".toList then [addressLink]
  else []

def pictureEmacs : Emacs where
  Settings := Unit
  inFileSettings _ := ()
  links _ := pictureLinks
  unhex := id
  expandFileName path := "/posts/".toList ++ path
  isFileNameAbsolute path := path.head? = some '/'
  orgAttachExpand _ _ _ _ := none

def IsPictureUrl (url : List Char) : Prop := url = "https://example.test/b".toList

theorem stringTrimRight_idem (text : List Char) :
    stringTrimRight (stringTrimRight text) = stringTrimRight text :=
  List.rdropWhile_idempotent _ text

theorem length_stringTrimRight_le (text : List Char) : (stringTrimRight text).length ≤ text.length :=
  (List.rdropWhile_prefix _ text).length_le

theorem stringTrimRight_append (text : List Char) :
    ∃ rest, stringTrimRight text ++ rest = text ∧ ∀ c ∈ rest, c ∈ [' ', '\t', '\n', '\r'] := by
  refine ⟨text.rtakeWhile (fun c ↦ c ∈ [' ', '\t', '\n', '\r']), List.rdropWhile_append_rtakeWhile,
    fun c hc ↦ ?_⟩
  have hblank := List.mem_rtakeWhile_imp hc
  exact of_decide_eq_true hblank

theorem stringTrimRight_append_blank {text rest : List Char}
    (h : ∀ c ∈ rest, c ∈ [' ', '\t', '\n', '\r']) :
    stringTrimRight (text ++ rest) = stringTrimRight text := by
  rw [stringTrimRight, List.rdropWhile, List.reverse_append, List.dropWhile_append_of_pos]
  · rfl
  · exact fun c hc ↦ decide_eq_true (h c (List.mem_reverse.mp hc))

/-- Blanks may follow whatever is put in the place of a text. -/
theorem stringTrimRight_append_drop (target text : List Char) :
    stringTrimRight (target ++ text.drop (stringTrimRight text).length) = stringTrimRight target := by
  obtain ⟨rest, hrest, hblank⟩ := stringTrimRight_append text
  have hdrop : text.drop (stringTrimRight text).length = rest := by
    conv_lhs => rw [← hrest, stringTrimRight_append_blank hblank, stringTrimRight_idem]
    exact List.drop_left
  rw [hdrop, stringTrimRight_append_blank hblank]

/-- A text has no link, or one link that is all of it. -/
theorem pictureLinks_cases (text : List Char) : pictureLinks text = [] ∨
    ∃ link, pictureLinks text = [link] ∧ link.start = 0 ∧
      link.stop = (stringTrimRight text).length ∧ link.contents = none ∧ link.type ≠ "attachment" := by
  unfold pictureLinks
  split_ifs with hfile haddress
  · exact .inr ⟨_, rfl, rfl, by rw [hfile]; rfl, rfl, by decide⟩
  · exact .inr ⟨_, rfl, rfl, by rw [haddress]; rfl, rfl, by decide⟩
  · exact .inl rfl

theorem pictureLinks_of_address {text : List Char}
    (h : stringTrimRight text = "[[https://example.test/b]]".toList) :
    pictureLinks text = [addressLink] := by
  rw [pictureLinks, h, if_neg (by decide), if_pos rfl]

/-- Without attachments every link has a record. -/
theorem records_picture {text : List Char} {link : OrgLink} (hlinks : pictureLinks text = [link])
    (htype : link.type ≠ "attachment") :
    ∃ r, ownRecords pictureEmacs text = some [r] := by
  have hrecord : ∃ r, orgLinkToRecord pictureEmacs () text link = some r := by
    unfold orgLinkToRecord
    split_ifs
    · unfold orgLinkFile
      rw [if_neg htype]
      exact ⟨_, rfl⟩
    · exact ⟨_, rfl⟩
  obtain ⟨r, hr⟩ := hrecord
  refine ⟨r, ?_⟩
  change (pictureLinks text).mapM (orgLinkToRecord pictureEmacs () text) = some [r]
  rw [hlinks, List.mapM_cons, hr, List.mapM_nil]
  rfl

theorem pictureEmacs_documented : Documented pictureEmacs IsPictureUrl where
  ordered _ text := by
    change Ordered text.length (pictureLinks text)
    rcases pictureLinks_cases text with hnone | ⟨link, hlink, hstart, hstop, hcontents, -⟩
    · rw [hnone]
      exact ⟨.nil, fun _ hl ↦ absurd hl List.not_mem_nil⟩
    · rw [hlink]
      refine ⟨List.pairwise_singleton _ _, fun l hl ↦ ?_⟩
      obtain rfl := List.mem_singleton.mp hl
      rw [hstart, hstop, hcontents]
      exact ⟨Nat.zero_le _, length_stringTrimRight_le text, fun _ _ h ↦ (by cases h)⟩
  samePlaces _ _ _ := rfl
  trailing _ text := by
    change pictureLinks (stringTrimRight text) = pictureLinks text
    rw [pictureLinks, pictureLinks, stringTrimRight_idem]
  reread text rs urls hrs hlength hurls := by
    change ∃ rs', ownRecords pictureEmacs (splice text 0 (edits (pictureLinks text) urls)) = some rs' ∧ _
    rcases pictureLinks_cases text with hnone | ⟨link, hlink, hstart, hstop, hcontents, htype⟩
    · rw [hnone]
      have hrs' : rs = [] := by
        rw [← List.length_eq_zero_iff, length_of_records hrs]
        exact congrArg List.length hnone
      subst hrs'
      exact ⟨[], hrs, rfl, fun _ _ _ _ _ h ↦ (by cases h)⟩
    · obtain ⟨r, hr⟩ := records_picture hlink htype
      obtain rfl := Option.some.inj (hrs.symm.trans hr)
      obtain ⟨url, rfl⟩ := List.length_eq_one_iff.mp hlength
      rw [hlink]
      cases url with
      | none =>
        refine ⟨[r], hrs, rfl, fun i url r₁ r₂ hurl hr₁ hr₂ ↦ ⟨fun h ↦ ?_, fun _ ↦ ?_⟩⟩
        · rw [List.mem_singleton.mp (List.mem_of_getElem? hurl)] at h
          cases h
        · exact Option.some.inj (hr₂.symm.trans hr₁)
      | some url =>
        obtain rfl := hurls url List.mem_cons_self
        have htrim : stringTrimRight (splice text 0
            (edits [link] [some "https://example.test/b".toList])) =
            "[[https://example.test/b]]".toList := by
          change stringTrimRight (substring 0 link.start text ++ bracketLink _ _ ++
            text.drop link.stop) = _
          rw [hstart, hstop, hcontents, substring, List.take_zero, List.drop_nil, List.nil_append,
            stringTrimRight_append_drop]
          rfl
        have hlinks := pictureLinks_of_address htrim
        refine ⟨[⟨"https", "//example.test/b".toList, "https://example.test/b".toList, none, none⟩],
          ?_, rfl, fun i url r₁ r₂ hurl _ hr₂ ↦ ⟨fun _ ↦ ?_, fun hnone ↦ ?_⟩⟩
        · change (pictureLinks _).mapM (orgLinkToRecord pictureEmacs () _) = _
          rw [hlinks]
          rfl
        · rw [List.mem_singleton.mp (List.mem_of_getElem? hr₂)]
          rfl
        · rw [hnone] at hurl
          cases List.mem_singleton.mp (List.mem_of_getElem? hurl)

def addressServices : Services where
  postHref _ := none
  preflight _ := true
  uploadMedia _ := some "https://example.test/b".toList

def picturePost : PostBuffer where
  header := []
  region := "[[file:b.png]]\n".toList

theorem published_iff_readAlike_picture :
    (Corresponding pictureEmacs addressServices picturePost ∧
        OwnAddresses pictureEmacs addressServices picturePost "[[https://example.test/b]]".toList) ↔
      ReadAlike pictureEmacs picturePost :=
  published_iff_readAlike pictureEmacs_documented
    ⟨fun _ _ h ↦ (by cases h), fun _ _ h ↦ (Option.some.inj h).symm⟩ (by decide +kernel)

end Picture

end Jaunder.Elisp.OrgLinks
