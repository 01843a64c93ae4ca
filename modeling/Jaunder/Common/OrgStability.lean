import Jaunder.Common.OrgNormalization

namespace Jaunder.Common.Org

open Foundation.Octets Foundation.Outcome
open Foundation.TextLines hiding trimEnd
open Jaunder.Common.Body
open Jaunder.Common.PostNaming (PostTitle derivePostNaming splitOnce stripPrefix publicTitle slugSeed
  firstMeaningfulLine)
open Jaunder.Common.PostText (isWhitespace trim)
open Jaunder.Common.Render Jaunder.Common.Time Jaunder.Common.Visibility
open Jaunder.Common.Slug (UnicodeData Clear items)

section Filled

/-- How many lines say something. -/
def filled (ls : List Line) : ℕ := ls.countP (fun l ↦ ¬Blank isWhitespace l)

variable {ls ls' : List Line} {line : Line}

theorem filled_cons : filled (line :: ls) =
    filled ls + if Blank isWhitespace line then 0 else 1 := by
  rw [filled, filled, List.countP_cons]
  simp only [decide_eq_true_eq, ite_not]

theorem filled_append : filled (ls ++ ls') = filled ls + filled ls' := List.countP_append

theorem filled_le_of_sublist (h : ls.Sublist ls') : filled ls ≤ filled ls' := h.countP_le

theorem filled_map_chomp (ls : List Line) : filled (ls.map chomp) = filled ls := by
  rw [filled, filled, List.countP_map]
  congr 1
  funext l
  exact decide_eq_decide.mpr (not_congr (blank_chomp isWhitespace_return))

theorem filled_eq_zero (h : ∀ l ∈ ls, Blank isWhitespace l) : filled ls = 0 :=
  List.countP_eq_zero.mpr fun l hl ↦ by simpa using h l hl

theorem filled_settle (ls : List Line) : filled (settle isWhitespace ls) = filled ls := by
  induction ls with
  | nil => rfl
  | cons line rest ih =>
    rw [settle, filled_cons]
    split_ifs with hall hblank hblank
    · rw [filled_eq_zero hall]
      rfl
    · rw [filled_eq_zero hall, filled_cons, if_neg fun h ↦ hblank (blank_trimEnd.mp h)]
      rfl
    · rw [filled_cons, ih, if_pos ((blank_chomp isWhitespace_return).mpr hblank)]
    · rw [filled_cons, ih, if_neg fun h ↦ hblank ((blank_chomp isWhitespace_return).mp h)]

theorem filled_lines_joinLines (h : Plain ls) : filled (lines (joinLines ls)) = filled ls := by
  by_cases hne : ls = []
  · rw [hne]
    rfl
  · rw [lines_joinLines h hne, filled_append, filled_map_chomp,
      lines_plain (h _ (List.getLast_mem hne))]
    conv_rhs => rw [← List.dropLast_append_getLast hne, filled_append]
    split_ifs with hlast
    · rw [hlast]
      rfl
    · rfl

/-- The mark of a title is a title line, which no canonical body has. -/
theorem filled_content_marked (s : List Char) :
    filled (content (lines ("#+TITLE:".toList ++ '\n' :: s))) ≤ filled (lines s) := by
  have hplain : '\n' ∉ "#+TITLE:".toList := by decide
  have hchomp : chomp "#+TITLE:".toList = "#+TITLE:".toList := by decide
  have hheader : isHeaderLine "#+TITLE:".toList = true := by decide
  have htitle : isTitleLine "#+TITLE:".toList = true := by decide
  have hblank : ¬Blank isWhitespace "#+TITLE:".toList := by decide
  rw [lines_append hplain, hchomp]
  set mark := "#+TITLE:".toList
  have hleading : header (mark :: lines s) = mark :: header (lines s) :=
    List.takeWhile_cons_of_pos hheader
  have hrest : below (mark :: lines s) = below (lines s) := List.dropWhile_cons_of_pos hheader
  have hnone : titleSource (mark :: lines s) = none := by
    cases hsource : titleSource (mark :: lines s) with
    | none => rfl
    | some rest =>
      obtain ⟨_, -, -, hall⟩ := titleSource_eq_some.mp hsource
      rw [hleading] at hall
      exact absurd (hall mark List.mem_cons_self) hblank
  rw [content_of_none hnone, hleading, hrest, List.filter_cons_of_neg (by simp [htitle])]
  refine filled_le_of_sublist ?_
  conv_rhs => rw [← header_append_below (lines s)]
  exact ((List.dropWhile_sublist _).trans List.filter_sublist).append (List.Sublist.refl _)

end Filled

section Recognizing

variable {r : Readers} {d : UnicodeData} {line : Line} {fields fields' : HeaderFields}
  {o : Option HeaderFields} {ls body : List Line} {headerEnd offset : ℕ}

/-- A header line, well formed or not. -/
def isRecognized (line : Line) : Bool :=
  match headerKeyword line with
  | none => false
  | some (.property value) =>
    match propertyLine value with
    | .ok .unknown => false
    | .ok (.recognized _ _) | .error _ => true
  | some (.title _) | some (.description _) | some (.keywords _) | some (.date _) => true

theorem parseHeaderKeyword_unrecognized (h : isRecognized line = false) :
    parseHeaderKeyword r d line fields = .ok none := by
  rw [isRecognized] at h
  rw [parseHeaderKeyword]
  cases hkeyword : headerKeyword line with
  | none => rfl
  | some keyword =>
    rw [hkeyword] at h
    cases keyword with
    | title value => exact absurd h nofun
    | description value => exact absurd h nofun
    | keywords value => exact absurd h nofun
    | date value => exact absurd h nofun
    | property value =>
      dsimp only at h ⊢
      cases hline : propertyLine value with
      | error e =>
        rw [hline] at h
        exact absurd h nofun
      | ok property =>
        rw [hline] at h
        cases property with
        | unknown => rfl
        | recognized name value => exact absurd h nofun

theorem parseHeaderKeyword_recognized (h : isRecognized line = true)
    (hparse : parseHeaderKeyword r d line fields = .ok o) : ∃ fields', o = some fields' := by
  rw [isRecognized] at h
  rw [parseHeaderKeyword] at hparse
  cases hkeyword : headerKeyword line with
  | none =>
    rw [hkeyword] at h
    exact absurd h nofun
  | some keyword =>
    rw [hkeyword] at h hparse
    cases keyword with
    | title value =>
      obtain ⟨_, -, hparse⟩ := bind_eq_ok.mp hparse
      exact ⟨_, (pure_eq_ok.mp hparse).symm⟩
    | description value =>
      obtain ⟨_, -, hparse⟩ := bind_eq_ok.mp hparse
      exact ⟨_, (pure_eq_ok.mp hparse).symm⟩
    | keywords value =>
      obtain ⟨_, -, hparse⟩ := bind_eq_ok.mp hparse
      exact ⟨_, (pure_eq_ok.mp hparse).symm⟩
    | date value =>
      obtain ⟨_, -, hparse⟩ := bind_eq_ok.mp hparse
      obtain ⟨_, -, hparse⟩ := bind_eq_ok.mp hparse
      exact ⟨_, (pure_eq_ok.mp hparse).symm⟩
    | property value =>
      obtain ⟨property, hline, hparse⟩ := bind_eq_ok.mp hparse
      cases property with
      | unknown =>
        simp only [hline] at h
        exact absurd h nofun
      | recognized name value =>
        obtain ⟨_, -, hparse⟩ := bind_eq_ok.mp hparse
        exact ⟨_, (pure_eq_ok.mp hparse).symm⟩

theorem not_blank_of_recognized (h : isRecognized line = true) : ¬Blank isWhitespace line := by
  intro hblank
  have hnone : keyword line = none := by
    rw [keyword, trimStart_eq_nil_iff.mpr hblank]
    rfl
  rw [isRecognized, headerKeyword, hnone] at h
  exact absurd h nofun

/-- No line that begins in front of the end of the leading block is a header. -/
def Unrecognized (headerEnd : ℕ) : ℕ → List Line → Prop
  | _, [] => True
  | offset, sourceLine :: rest =>
    (offset < headerEnd → isRecognized (stripNewline sourceLine) = false) ∧
      Unrecognized headerEnd (offset + (utf8 sourceLine).length) rest

theorem handleLine_unrecognized (h : offset < headerEnd → isRecognized line = false) :
    handleLine r d headerEnd offset line fields = .ok none := by
  rw [handleLine]
  split_ifs with hoffset
  · exact parseHeaderKeyword_unrecognized (h hoffset)
  · rfl

theorem handleLine_recognized (hoffset : offset < headerEnd) (h : isRecognized line = true)
    (hhandle : handleLine r d headerEnd offset line fields = .ok o) : ∃ fields', o = some fields' := by
  rw [handleLine, if_pos hoffset] at hhandle
  exact parseHeaderKeyword_recognized h hhandle

theorem headerLoop_unrecognized (h : Unrecognized headerEnd offset ls) :
    headerLoop r d headerEnd offset fields ls = .ok (fields, ls.map stripNewline) := by
  induction ls generalizing offset with
  | nil => rfl
  | cons sourceLine rest ih =>
    simp only [headerLoop, handleLine_unrecognized h.1, ok_bind, ih h.2]
    rfl

/-- The lines that stay are lines of the source, and fewer when some line is a header. -/
theorem headerLoop_ok (h : headerLoop r d headerEnd offset fields ls = .ok (fields', body)) :
    body.Sublist (ls.map stripNewline) ∧
      (¬Unrecognized headerEnd offset ls → filled body < filled (ls.map stripNewline)) := by
  induction ls generalizing offset fields fields' body with
  | nil =>
    obtain ⟨-, rfl⟩ := Prod.mk.inj (Except.ok.inj h)
    exact ⟨List.Sublist.slnil, fun hnot ↦ absurd trivial hnot⟩
  | cons sourceLine rest ih =>
    obtain ⟨handled, hhandled, h⟩ := bind_eq_ok.mp h
    cases handled with
    | some fields₁ =>
      obtain ⟨hsub, -⟩ := ih h
      have hrecognized : isRecognized (stripNewline sourceLine) = true := by
        by_contra hnot
        rw [handleLine_unrecognized fun _ ↦ eq_false_of_ne_true hnot] at hhandled
        exact absurd (Except.ok.inj hhandled) nofun
      rw [List.map_cons, filled_cons, if_neg (not_blank_of_recognized hrecognized)]
      have hle := filled_le_of_sublist hsub
      exact ⟨hsub.cons _, fun _ ↦ by omega⟩
    | none =>
      obtain ⟨⟨fields₁, body₁⟩, hrest, h⟩ := bind_eq_ok.mp h
      obtain ⟨-, rfl⟩ := Prod.mk.inj (pure_eq_ok.mp h)
      obtain ⟨hsub, hless⟩ := ih hrest
      have hline : offset < headerEnd → isRecognized (stripNewline sourceLine) = false := by
        intro hoffset
        by_contra hnot
        obtain ⟨_, hsome⟩ :=
          handleLine_recognized hoffset (eq_true_of_ne_false hnot) hhandled
        exact absurd hsome nofun
      refine ⟨hsub.cons_cons _, fun hnot ↦ ?_⟩
      have hlt := hless fun hrest ↦ hnot ⟨hline, hrest⟩
      rw [List.map_cons, filled_cons, filled_cons]
      omega

end Recognizing

section Stored

variable {d : UnicodeData} {b b' source : PostBody} {t : Option PostTitle} {line : Line}
  {ls : List Line}

theorem splitInclusive_append (h : '\n' ∉ line) (s : List Char) :
    splitInclusive (line ++ '\n' :: s) = (line ++ ['\n']) :: splitInclusive s := by
  induction line with
  | nil => rw [List.nil_append, splitInclusive, if_pos rfl, List.nil_append]
  | cons c line ih =>
    have hc : c ≠ '\n' := fun heq ↦ h (heq ▸ List.mem_cons_self)
    rw [List.cons_append, splitInclusive, if_neg hc, ih fun hmem ↦ h (List.mem_cons_of_mem c hmem)]
    rfl

theorem stripNewline_concat (line : Line) : stripNewline (line ++ ['\n']) = line := by
  rw [stripNewline, List.getLast?_concat, if_pos rfl, List.dropLast_concat]

theorem splitInclusive_unlines (h : Plain ls) :
    (splitInclusive (unlines ls)).map stripNewline = ls := by
  induction ls with
  | nil => rfl
  | cons line rest ih =>
    rw [unlines, List.flatMap_cons, List.append_assoc, List.singleton_append,
      splitInclusive_append h.head, ← unlines, List.map_cons, stripNewline_concat, ih h.tail]

theorem trim_append_of_blank {t : List Char} (ht : Blank isWhitespace t) (s : List Char) :
    trim (s ++ t) = trim s := by
  by_cases hs : Blank isWhitespace s
  · have hboth : Blank isWhitespace (s ++ t) := by
      rw [Blank, List.all_append, hs, ht]
      rfl
    rw [trim_eq_nil_iff.mpr hs, trim_eq_nil_iff.mpr hboth]
  · have hstart := trimStart_append hs t
    calc trim (s ++ t) = Foundation.TextLines.trimEnd isWhitespace (trimStart (s ++ t)) := rfl
      _ = Foundation.TextLines.trimEnd isWhitespace (trimStart s) := by
        rw [hstart, trimEnd_append_of_blank ht]
      _ = trim s := rfl

/-- The names and the canonical form of an Org body come from its lines. -/
theorem derivePostNaming_congr (hlines : lines b.text = lines b'.text)
    (htrim : trim b.text = trim b'.text) :
    derivePostNaming d none b .org = derivePostNaming d none b' .org := by
  have htitle : publicTitle none b .org = publicTitle none b' .org := by
    rw [publicTitle, publicTitle, htrim]
  have hseed (t : Option PostTitle) : slugSeed t b = slugSeed t b' := by
    cases t with
    | some t => rfl
    | none => rw [slugSeed, slugSeed, firstMeaningfulLine, firstMeaningfulLine, hlines]
  rw [derivePostNaming, derivePostNaming, htitle]
  simp only [hseed]

theorem canonicalizeBody_congr (hlines : lines b.text = lines b'.text) :
    canonicalizeBody b .org = canonicalizeBody b' .org := by
  rw [canonicalizeBody, canonicalizeBody, canonicalizeOrgBody, canonicalizeOrgBody, hlines]

theorem headingTitle_eq_ok : headingTitle d source = .ok t ↔
    ∃ slug, derivePostNaming d none source .org = .ok (t, slug) := by
  rw [headingTitle]
  cases hnaming : derivePostNaming d none source .org with
  | error e =>
    refine ⟨fun h ↦ ?_, fun ⟨_, h⟩ ↦ absurd h nofun⟩
    cases e with
    | invalidPostTitle => exact absurd h nofun
    | unreachable => exact absurd h nofun
  | ok named =>
    obtain ⟨title, slug⟩ := named
    constructor
    · intro h
      exact ⟨slug, by rw [Except.ok.inj h]⟩
    · rintro ⟨slug', h⟩
      rw [(Prod.mk.inj (Except.ok.inj h)).1]

theorem headingTitle_congr (hlines : lines b.text = lines b'.text)
    (htrim : trim b.text = trim b'.text) : headingTitle d b = headingTitle d b' := by
  rw [headingTitle, headingTitle, derivePostNaming_congr hlines htrim]

theorem canonicalBody_eq_ok {body : List Char} {marked : Bool} :
    canonicalBody d body marked = .ok (b, t) ↔
      ∃ source, PostBody.fromStr (markedSource body marked) = some source ∧
        headingTitle d source = .ok t ∧ canonicalizeBody source .org = some b := by
  constructor
  · intro h
    obtain ⟨source, hsource, h⟩ := bind_eq_ok.mp h
    obtain ⟨heading, hheading, h⟩ := bind_eq_ok.mp h
    obtain ⟨canonical, hcanonical, h⟩ := bind_eq_ok.mp h
    obtain ⟨rfl, rfl⟩ := Prod.mk.inj (pure_eq_ok.mp h)
    exact ⟨source, orError_eq_ok.mp hsource, hheading, orError_eq_ok.mp hcanonical⟩
  · rintro ⟨source, hsource, hheading, hcanonical⟩
    refine bind_eq_ok.mpr ⟨source, orError_eq_ok.mpr hsource, ?_⟩
    refine bind_eq_ok.mpr ⟨t, hheading, ?_⟩
    exact bind_eq_ok.mpr ⟨b, orError_eq_ok.mpr hcanonical, rfl⟩

/-- The lines of a canonical body. -/
structure Stored (b : PostBody) (ls : List Line) : Prop where
  text : b.text = unlines ls
  plain : Plain ls
  starts : Starts ls
  settled : ∃ ls₀, ls = settle isWhitespace ls₀

theorem exists_stored (h : canonicalizeBody source .org = some b) :
    Stored b (settle isWhitespace (content (lines source.text))) where
  text := by rw [fromStr_eq_some.mp h, org_text]
  plain := plain_settle isWhitespace (plain_content (plain_lines source.text))
  starts := starts_settle (starts_content (lines source.text))
  settled := ⟨_, rfl⟩

theorem Stored.ended (h : Stored b ls) : Ended isWhitespace ls := by
  obtain ⟨ls₀, rfl⟩ := h.settled
  exact ended_settle isWhitespace_return ls₀

theorem Stored.lines_text (h : Stored b ls) : lines b.text = ls.map chomp := by
  rw [h.text, lines_unlines h.plain]

theorem Stored.lines_joinLines (h : Stored b ls) : lines (joinLines ls) = lines b.text := by
  rw [lines_joinLines_of_ended h.plain h.ended, h.lines_text]

theorem Stored.trim_joinLines (h : Stored b ls) : trim (joinLines ls) = trim b.text := by
  by_cases hne : ls = []
  · rw [h.text, hne]
    rfl
  · have hblank : Blank isWhitespace ['\n'] := rfl
    rw [h.text, unlines_eq_concat hne, trim_append_of_blank hblank]

theorem Stored.noReturns_iff (h : Stored b ls) : NoReturns (segments b.text) ↔ NoReturns ls := by
  rw [h.text, segments_unlines h.plain, NoReturns, NoReturns]
  simp only [List.mem_append, List.mem_singleton, or_imp, forall_and, forall_eq]
  exact and_iff_left (Option.some_ne_none _).symm

/-- A canonical body that the canonicalizer gives back. -/
theorem Stored.canonicalizeBody_iff (h : Stored b ls) :
    canonicalizeBody b .org = some b ↔ NoReturns (segments b.text) ∧ Untitled (lines b.text) ∧
      (Headed (lines b.text) → Named (lines b.text)) := by
  have hplain : Plain (ls.map chomp) := by
    intro l hl
    obtain ⟨line, hline, rfl⟩ := List.mem_map.mp hl
    exact not_mem_chomp (h.plain line hline)
  have hmarks := content_eq_self_iff h.starts
  obtain ⟨ls₀, hls₀⟩ := h.settled
  rw [h.noReturns_iff, canonicalizeBody, canonicalizeOrgBody, fromStr_eq_some, org_text,
    h.lines_text, h.text, unlines_inj h.plain (plain_settle isWhitespace (plain_content hplain)),
    eq_comm]
  have hiff := settle_content_iff ls₀
  rw [← hls₀] at hiff
  rw [hiff]
  refine and_congr_right fun hreturns ↦ ?_
  rw [map_chomp_of_noReturns hreturns, hmarks]

/-- Of a body whose lines stay together only the marks in it are looked at. -/
theorem Stored.canonicalBody_iff (h : Stored b ls) :
    canonicalBody d (joinLines ls) false = .ok (b', t) ↔
      headingTitle d b = .ok t ∧ canonicalizeBody b .org = some b' := by
  have hvalid : (lines (joinLines ls)).all (fun line ↦ trim line = []) = false := by
    rw [h.lines_joinLines]
    exact b.valid
  let joined : PostBody := ⟨joinLines ls, hvalid⟩
  have hlines : lines joined.text = lines b.text := h.lines_joinLines
  have htrim : trim joined.text = trim b.text := h.trim_joinLines
  have hjoined : PostBody.fromStr (markedSource (joinLines ls) false) = some joined :=
    fromStr_eq_some.mpr rfl
  rw [canonicalBody_eq_ok, ← headingTitle_congr hlines htrim, ← canonicalizeBody_congr hlines]
  constructor
  · rintro ⟨source, hsource, hrest⟩
    obtain rfl := Option.some.inj (hjoined.symm.trans hsource)
    exact hrest
  · exact fun hrest ↦ ⟨joined, hjoined, hrest⟩

/-- A canonical body says no more than the lines that it was made of. -/
theorem Stored.filled_le (h : Stored b ls) {body : List Line} {marked : Bool} (hplain : Plain body)
    (hbody : canonicalBody d (joinLines body) marked = .ok (b, t)) : filled ls ≤ filled body := by
  obtain ⟨source, hsource, -, hcanonical⟩ := canonicalBody_eq_ok.mp hbody
  have hstored := exists_stored hcanonical
  have hsame := h.text.symm.trans hstored.text
  rw [unlines_inj h.plain hstored.plain] at hsame
  rw [hsame, filled_settle, fromStr_eq_some.mp hsource, ← filled_lines_joinLines hplain]
  cases marked with
  | true => exact filled_content_marked (joinLines body)
  | false => exact filled_le_of_sublist (content_sublist _)

end Stored

section Again

variable {r : Readers} {d : UnicodeData} {source : List Char} {structured : OrgStructuredMetadata}
  {operation : OrgOperation} {clock : UtcInstant} {n n' : OrgNormalization} {ls body : List Line}

theorem choose_absent {α : Type} (p : Presence α) : choose p .absent = p := by
  cases p with
  | absent => rfl
  | present value => rfl

/-- The lifecycle that a header gives has been validated. -/
theorem parseLifecycle_ok {status date timezone : Option (List Char)}
    {lifecycle : Presence PublicationState}
    (h : parseLifecycle r status date timezone clock = .ok lifecycle) :
    validateLifecycle lifecycle clock = .ok () := by
  cases status with
  | none =>
    simp only [parseLifecycle] at h
    split_ifs at h
    · exact absurd h nofun
    · obtain rfl := Except.ok.inj h
      rfl
  | some status =>
    obtain ⟨instant, -, h⟩ := bind_eq_ok.mp h
    obtain ⟨state, -, h⟩ := bind_eq_ok.mp h
    obtain ⟨u, hvalid, h⟩ := bind_eq_ok.mp h
    obtain rfl := pure_eq_ok.mp h
    exact hvalid

theorem parseFields_default : parseFields r .default body clock =
    .ok ⟨joinLines body, .absent, .absent, .absent, .absent, .absent,
      ⟨none, none, none, none, none, none⟩⟩ := rfl

theorem parseFields_ok {fields : HeaderFields} {parsed : ParsedBlock}
    (h : parseFields r fields body clock = .ok parsed) :
    parsed.body = joinLines body ∧ validateLifecycle parsed.lifecycle clock = .ok () := by
  obtain ⟨title, -, h⟩ := bind_eq_ok.mp h
  obtain ⟨summary, -, h⟩ := bind_eq_ok.mp h
  obtain ⟨tags, -, h⟩ := bind_eq_ok.mp h
  obtain ⟨lifecycle, hlifecycle, h⟩ := bind_eq_ok.mp h
  obtain rfl := pure_eq_ok.mp h
  exact ⟨rfl, parseLifecycle_ok hlifecycle⟩

/-- What a request that was not rejected has passed. -/
structure Normalized (r : Readers) (d : UnicodeData) (source : List Char)
    (structured : OrgStructuredMetadata) (operation : OrgOperation) (clock : UtcInstant)
    (n : OrgNormalization) (parsed : ParsedBlock) (heading : Option PostTitle) : Prop where
  lifecycle : validateLifecycle structured.lifecycle clock = .ok ()
  block : parseLeadingBlock r d source clock = .ok parsed
  operation : validateOperation parsed.bookkeeping operation = .ok ()
  body : canonicalBody d parsed.body parsed.title.isPresent = .ok (n.body, heading)
  audiences : validateAudiences n.metadata.audiences = .ok ()
  metadata : n.metadata =
    ⟨choose (choose structured.title parsed.title) (.ofOption heading),
      choose structured.summary parsed.summary, choose structured.tags parsed.tags,
      choose structured.audiences parsed.audiences, choose structured.lifecycle parsed.lifecycle⟩
  bookkeeping : n.bookkeeping = parsed.bookkeeping

theorem normalizeOrg_eq_ok : normalizeOrg r d source structured operation clock = .ok n ↔
    ∃ parsed heading, Normalized r d source structured operation clock n parsed heading := by
  constructor
  · intro h
    obtain ⟨u₁, hlifecycle, h⟩ := bind_eq_ok.mp h
    obtain ⟨parsed, hblock, h⟩ := bind_eq_ok.mp h
    obtain ⟨u₂, hoperation, h⟩ := bind_eq_ok.mp h
    obtain ⟨⟨body, heading⟩, hbody, h⟩ := bind_eq_ok.mp h
    obtain ⟨u₃, haudiences, h⟩ := bind_eq_ok.mp h
    obtain rfl := pure_eq_ok.mp h
    exact ⟨parsed, heading, mapError_eq_ok.mp hlifecycle, mapError_eq_ok.mp hblock,
      mapError_eq_ok.mp hoperation, hbody, mapError_eq_ok.mp haudiences, rfl, rfl⟩
  · rintro ⟨parsed, heading, h⟩
    obtain ⟨body, metadata, bookkeeping⟩ := n
    obtain ⟨hlifecycle, hblock, hoperation, hbody, haudiences, hmetadata, hbookkeeping⟩ := h
    obtain rfl := hbookkeeping
    obtain rfl := hmetadata
    refine bind_eq_ok.mpr ⟨(), mapError_eq_ok.mpr hlifecycle, ?_⟩
    refine bind_eq_ok.mpr ⟨parsed, mapError_eq_ok.mpr hblock, ?_⟩
    refine bind_eq_ok.mpr ⟨(), mapError_eq_ok.mpr hoperation, ?_⟩
    refine bind_eq_ok.mpr ⟨(body, heading), hbody, ?_⟩
    exact bind_eq_ok.mpr ⟨(), mapError_eq_ok.mpr haudiences, rfl⟩

theorem parseLeadingBlock_unrecognized
    (h : Unrecognized (leadingKeywordEnd r source) 0 (splitInclusive source)) :
    parseLeadingBlock r d source clock =
      .ok ⟨joinLines ((splitInclusive source).map stripNewline), .absent, .absent, .absent, .absent,
        .absent, ⟨none, none, none, none, none, none⟩⟩ := by
  rw [parseLeadingBlock, headerLoop_unrecognized h, ok_bind]
  exact parseFields_default

theorem parseLeadingBlock_ok {parsed : ParsedBlock}
    (h : parseLeadingBlock r d source clock = .ok parsed) :
    validateLifecycle parsed.lifecycle clock = .ok () ∧ ∃ body, parsed.body = joinLines body ∧
      body.Sublist ((splitInclusive source).map stripNewline) ∧
        (¬Unrecognized (leadingKeywordEnd r source) 0 (splitInclusive source) →
          filled body < filled ((splitInclusive source).map stripNewline)) := by
  obtain ⟨⟨fields, body⟩, hloop, hfields⟩ := bind_eq_ok.mp h
  obtain ⟨hbody, hlifecycle⟩ := parseFields_ok hfields
  obtain ⟨hsub, hless⟩ := headerLoop_ok hloop
  exact ⟨hlifecycle, body, hbody, hsub, hless⟩

theorem validateLifecycle_choose {p q : Presence PublicationState}
    (hp : validateLifecycle p clock = .ok ()) (hq : validateLifecycle q clock = .ok ()) :
    validateLifecycle (choose p q) clock = .ok () := by
  cases p with
  | absent => exact hq
  | present value => exact hp

def OrgEffectiveMetadata.asStructured (m : OrgEffectiveMetadata) : OrgStructuredMetadata :=
  ⟨m.title, m.summary, m.tags, m.audiences, m.lifecycle⟩

/-- Storing the result once more gives it back. -/
def Kept (r : Readers) (d : UnicodeData) (clock : UtcInstant) (postId : ℤ) (n : OrgNormalization) :
    Prop :=
  ∃ n', normalizeOrg r d n.body.text n.metadata.asStructured (.update postId) clock = .ok n' ∧
    n'.body = n.body ∧ n'.metadata = n.metadata

/-- Nothing in the body is taken for metadata or for the title, no carriage return for a part of a
line ending, and the body has a name. -/
structure Stable (r : Readers) (d : UnicodeData) (b : PostBody) (title : Presence PostTitle) :
    Prop where
  unrecognized : Unrecognized (leadingKeywordEnd r b.text) 0 (splitInclusive b.text)
  returns : NoReturns (segments b.text)
  untitled : Untitled (lines b.text)
  headed : Headed (lines b.text) → Named (lines b.text)
  naming : ∃ t seed, publicTitle none b .org = .ok t ∧ slugSeed t b = .ok seed ∧
    Clear d (items d.unicode (d.unicode.graphemes (d.normalize seed))) ∧ (title = .absent → t = none)

theorem headingTitle_iff_clear (hd : d.Documented) {b : PostBody} {t : Option PostTitle} :
    headingTitle d b = .ok t ↔ ∃ seed, publicTitle none b .org = .ok t ∧ slugSeed t b = .ok seed ∧
      Clear d (items d.unicode (d.unicode.graphemes (d.normalize seed))) :=
  headingTitle_eq_ok.trans (PostNaming.derivePostNaming_ok_iff hd)

/-- What the first pass leaves for the second. -/
theorem normalizeOrg_stored (h : normalizeOrg r d source structured operation clock = .ok n) :
    (∃ ls, Stored n.body ls) ∧ validateLifecycle n.metadata.lifecycle clock = .ok () ∧
      validateAudiences n.metadata.audiences = .ok () := by
  obtain ⟨parsed, heading, hn⟩ := normalizeOrg_eq_ok.mp h
  obtain ⟨source', -, -, hcanonical⟩ := canonicalBody_eq_ok.mp hn.body
  refine ⟨⟨_, exists_stored hcanonical⟩, ?_, hn.audiences⟩
  rw [hn.metadata]
  exact validateLifecycle_choose hn.lifecycle (parseLeadingBlock_ok hn.block).1

theorem choose_title_eq_iff {title : Presence PostTitle} {t : Option PostTitle} :
    choose (choose title .absent) (.ofOption t) = title ↔ (title = .absent → t = none) := by
  cases title with
  | present title => exact iff_of_true rfl nofun
  | absent =>
    cases t with
    | none => exact iff_of_true rfl fun _ ↦ rfl
    | some t => exact iff_of_false nofun fun h ↦ absurd (h rfl) nofun

/-- The second pass over a body in which no line is a header. -/
theorem kept_of_unrecognized (hstored : Stored n.body ls)
    (hlifecycle : validateLifecycle n.metadata.lifecycle clock = .ok ())
    (haudiences : validateAudiences n.metadata.audiences = .ok ()) (postId : ℤ)
    (hunrecognized : Unrecognized (leadingKeywordEnd r n.body.text) 0
      (splitInclusive n.body.text)) :
    Kept r d clock postId n ↔ canonicalizeBody n.body .org = some n.body ∧
      ∃ t, headingTitle d n.body = .ok t ∧ (n.metadata.title = .absent → t = none) := by
  have hblock : parseLeadingBlock r d n.body.text clock =
      .ok ⟨joinLines ((splitInclusive n.body.text).map stripNewline), .absent, .absent, .absent, .absent,
        .absent, ⟨none, none, none, none, none, none⟩⟩ := parseLeadingBlock_unrecognized hunrecognized
  have hsplit : (splitInclusive n.body.text).map stripNewline = ls := by
    rw [hstored.text, splitInclusive_unlines hstored.plain]
  rw [hsplit] at hblock
  constructor
  · rintro ⟨n', hagain, hbody, hmetadata⟩
    obtain ⟨parsed, heading, hn⟩ := normalizeOrg_eq_ok.mp hagain
    obtain rfl := Except.ok.inj (hblock.symm.trans hn.block)
    obtain ⟨hheading, hcanonical⟩ := hstored.canonicalBody_iff.mp hn.body
    rw [hbody] at hcanonical
    refine ⟨hcanonical, heading, hheading, choose_title_eq_iff.mp ?_⟩
    have htitle := congrArg OrgEffectiveMetadata.title (hn.metadata.symm.trans hmetadata)
    exact htitle
  · rintro ⟨hcanonical, t, hheading, htitle⟩
    refine ⟨⟨n.body, n.metadata, ⟨none, none, none, none, none, none⟩⟩, ?_, rfl, rfl⟩
    refine normalizeOrg_eq_ok.mpr ⟨_, t, ⟨hlifecycle, hblock, rfl,
      hstored.canonicalBody_iff.mpr ⟨hheading, hcanonical⟩, haudiences, ?_, rfl⟩⟩
    have hchoose := choose_title_eq_iff.mpr htitle
    rw [choose_absent] at hchoose
    simp only [OrgEffectiveMetadata.asStructured, choose_absent, hchoose]

/-- A header line of the body is lost by the second pass. -/
theorem unrecognized_of_kept (hstored : Stored n.body ls) {postId : ℤ}
    (h : Kept r d clock postId n) :
    Unrecognized (leadingKeywordEnd r n.body.text) 0 (splitInclusive n.body.text) := by
  obtain ⟨n', hagain, hbody, -⟩ := h
  obtain ⟨parsed, heading, hn⟩ := normalizeOrg_eq_ok.mp hagain
  obtain ⟨-, body, hparsed, hsub, hless⟩ := parseLeadingBlock_ok hn.block
  have hsplit : (splitInclusive n.body.text).map stripNewline = ls := by
    rw [hstored.text, splitInclusive_unlines hstored.plain]
  rw [hsplit] at hsub hless
  have hcanonical := hn.body
  rw [hparsed, hbody] at hcanonical
  have hle := hstored.filled_le (fun l hl ↦ hstored.plain l (hsub.subset hl)) hcanonical
  by_contra hnot
  have hlt := hless hnot
  omega

/-- A normalized post is given back by a second normalization just when it is stable. -/
theorem normalizeOrg_again_iff (hd : d.Documented)
    (h : normalizeOrg r d source structured operation clock = .ok n) (postId : ℤ) :
    (∃ n', normalizeOrg r d n.body.text n.metadata.asStructured (.update postId) clock = .ok n' ∧
        n'.body = n.body ∧ n'.metadata = n.metadata) ↔
      Stable r d n.body n.metadata.title := by
  obtain ⟨⟨ls, hstored⟩, hlifecycle, haudiences⟩ := normalizeOrg_stored h
  constructor
  · intro hkept
    have hunrecognized := unrecognized_of_kept hstored hkept
    obtain ⟨hcanonical, t, hheading, htitle⟩ :=
      (kept_of_unrecognized hstored hlifecycle haudiences postId hunrecognized).mp hkept
    obtain ⟨hreturns, huntitled, hheaded⟩ := hstored.canonicalizeBody_iff.mp hcanonical
    obtain ⟨seed, hpublic, hseed, hclear⟩ := (headingTitle_iff_clear hd).mp hheading
    exact ⟨hunrecognized, hreturns, huntitled, hheaded, t, seed, hpublic, hseed, hclear, htitle⟩
  · rintro ⟨hunrecognized, hreturns, huntitled, hheaded, t, seed, hpublic, hseed, hclear, htitle⟩
    refine (kept_of_unrecognized hstored hlifecycle haudiences postId hunrecognized).mpr
      ⟨hstored.canonicalizeBody_iff.mpr ⟨hreturns, huntitled, hheaded⟩, t, ?_, htitle⟩
    exact (headingTitle_iff_clear hd).mpr ⟨seed, hpublic, hseed, hclear⟩

/-- A parser that knows the documents below. -/
def sampleReaders : Readers where
  section_ s :=
    if s.head? = some '*' then none
    else if s.head? = some '#' then some [(true, 11)]
    else some [(false, s.length)]
  instant _ := none
  Date := Unit
  date _ := none
  weekday _ := []
  DateTime := Unit
  sameDateTime := inferInstance
  dateTime _ := none
  TimeZone := Unit
  timeZone _ := none
  compatible _ _ := none
  toDateTime _ _ := ()

def noMetadata : OrgStructuredMetadata := ⟨.absent, .absent, .absent, .absent, .absent⟩

def sampleClock : UtcInstant := .epoch

def plainNormalization : OrgNormalization :=
  ⟨⟨"Text\n".toList, by decide⟩, ⟨.absent, .absent, .absent, .absent, .absent⟩,
    ⟨none, none, none, none, none, none⟩⟩

theorem normalizeOrg_plain_again :
    (∃ n', normalizeOrg sampleReaders Slug.sampleData plainNormalization.body.text
        plainNormalization.metadata.asStructured (.update 1) sampleClock = .ok n' ∧
        n'.body = plainNormalization.body ∧ n'.metadata = plainNormalization.metadata) ↔
      Stable sampleReaders Slug.sampleData plainNormalization.body
        plainNormalization.metadata.title :=
  normalizeOrg_again_iff Slug.sampleData_documented
    (by decide : normalizeOrg sampleReaders Slug.sampleData "Text".toList noMetadata .create
      sampleClock = .ok plainNormalization) 1

def titledSource : List Char := "#+TITLE: T\n* H\nText".toList

/-- The heading below a title in the header is content the first time and the title source the
second time. -/
theorem normalizeOrg_drops_heading :
    (normalizeOrg sampleReaders Slug.sampleData titledSource noMetadata .create
        sampleClock).map (fun n ↦ n.body.text) = .ok "* H\nText\n".toList ∧
      (normalizeOrg sampleReaders Slug.sampleData titledSource noMetadata .create sampleClock
        >>= fun n ↦ normalizeOrg sampleReaders Slug.sampleData n.body.text
          n.metadata.asStructured (.update 1) sampleClock).map (fun n ↦ n.body.text) =
        .ok "Text\n".toList := by
  constructor <;> decide

end Again

end Jaunder.Common.Org
