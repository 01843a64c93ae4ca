import Jaunder.Common.PostText
import Jaunder.Foundation.Substrings
import Jaunder.Host.FeedPath

namespace Jaunder.Host.FeedPath

open Foundation.Substrings
open Jaunder.Common.Feed Jaunder.Common.PostText Jaunder.Common.Tag

section Parse

/-- `Tag::from_str` -/
def tagFromStr (s : List Char) : Option Tag :=
  let normalized := s.map lowercase
  if isTag normalized then some (String.ofList normalized) else none

/-- `Username::from_str` -/
def usernameFromStr (s : List Char) : Option Username := (username s).map String.ofList

def feedFormatFromStr (s : List Char) : Option FeedFormat :=
  if s = "rss".toList then some .rss
  else if s = "atom".toList then some .atom
  else if s = "json".toList then some .json
  else none

def parseSurface (surfacePart : List Char) : Option FeedSurface :=
  match stripPrefix "tags/".toList surfacePart with
  | some tag => (tagFromStr tag).map .siteTag
  | none =>
    match stripPrefix ['~'] surfacePart with
    | none => none
    | some afterTilde =>
      match splitOnce "/tags/".toList afterTilde with
      | some (username, tagPart) => do
        let username ← usernameFromStr username
        let tag ← tagFromStr tagPart
        return .userTag username tag
      | none => (usernameFromStr afterTilde).map .user

def parse (path : List Char) : Option (FeedSurface × FeedFormat) := do
  let rest ← stripPrefix ['/'] path
  let (head, ext) ← rsplitOnce '.' rest
  let format ← feedFormatFromStr ext
  if head = "feed".toList then return (.site, format)
  else
    let surfacePart ← stripSuffix "/feed".toList head
    if surfacePart = [] then none
    else
      let surface ← parseSurface surfacePart
      return (surface, format)

end Parse

section Names

variable {tag : Tag} {user : Username} {s : List Char} {c : Char}

/-- A tag as its parser leaves it. -/
def IsTag (tag : Tag) : Prop := isTag tag.toList = true

/-- A username as its parser leaves it. -/
def IsUsername (user : Username) : Prop :=
  user.toList ≠ [] ∧ ∀ c ∈ user.toList, isUsernameByte c = true ∧ c.toLower = c

def ValidSurface : FeedSurface → Prop
  | .site => True
  | .siteTag tag => IsTag tag
  | .user user => IsUsername user
  | .userTag user tag => IsUsername user ∧ IsTag tag

theorem isTagChar_of_isTag (h : isTag s = true) : ∀ c ∈ s, isTagChar c = true := by
  cases s with
  | nil => exact absurd h nofun
  | cons d s =>
    rw [isTag, Bool.and_eq_true, List.all_eq_true] at h
    intro c hc
    rcases List.mem_cons.mp hc with rfl | hc
    · simp [isTagChar, h.1]
    · exact h.2 c hc

theorem lowercase_of_isTagChar (h : isTagChar c = true) : lowercase c = c := by
  have hne : c ≠ Char.ofNat 0x212A := by
    rintro rfl
    revert h
    decide
  have hnot : ¬('A' ≤ c ∧ c ≤ 'Z') := by
    simp only [isTagChar, isTagStart, decide_eq_true_eq, Bool.decide_or, Bool.or_eq_true,
      Bool.decide_and, Bool.and_eq_true] at h
    rintro ⟨hlow, hhigh⟩
    rw [Char.le_def, UInt32.le_iff_toNat_le] at hlow hhigh
    rcases h with (⟨h, -⟩ | ⟨-, h⟩) | rfl
    · rw [Char.le_def, UInt32.le_iff_toNat_le] at h
      have hz : 'Z'.val.toNat < 'a'.val.toNat := by decide
      omega
    · rw [Char.le_def, UInt32.le_iff_toNat_le] at h
      have hz : '9'.val.toNat < 'A'.val.toNat := by decide
      omega
    · revert hlow
      decide
  rw [lowercase, if_neg hne, if_neg hnot]

theorem map_lowercase_of_isTag (h : isTag s = true) : s.map lowercase = s := by
  conv_rhs => rw [← List.map_id s]
  exact List.map_congr_left fun c hc ↦ lowercase_of_isTagChar (isTagChar_of_isTag h c hc)

theorem tagFromStr_of_isTag (h : IsTag tag) : tagFromStr tag.toList = some tag := by
  have hmap : tag.toList.map lowercase = tag.toList := map_lowercase_of_isTag h
  have hvalid : isTag tag.toList = true := h
  simp only [tagFromStr, hmap, hvalid, if_true, String.ofList_toList]

theorem isTag_of_tagFromStr (h : tagFromStr s = some tag) : IsTag tag := by
  simp only [tagFromStr] at h
  split_ifs at h with hvalid
  rw [IsTag, ← Option.some.inj h, String.toList_ofList]
  exact hvalid

theorem isUsernameByte_toLower (h : isUsernameByte c = true) :
    isUsernameByte c.toLower = true ∧ c.toLower.toLower = c.toLower := by
  by_cases hupper : 65 ≤ c.toNat ∧ c.toNat ≤ 90
  · obtain ⟨n, hn, hc⟩ : ∃ n < 26, c = Char.ofNat (65 + n) := by
      refine ⟨c.toNat - 65, by omega, ?_⟩
      have hsum : 65 + (c.toNat - 65) = c.toNat := by omega
      rw [hsum, Char.ofNat_toNat]
    have hall : ∀ n < 26, isUsernameByte (Char.ofNat (65 + n)).toLower = true ∧
        (Char.ofNat (65 + n)).toLower.toLower = (Char.ofNat (65 + n)).toLower := by decide
    rw [hc]
    exact hall n hn
  · have hsame : c.toLower = c := by
      unfold Char.toLower
      rw [dif_neg]
      simp only [ge_iff_le, UInt32.le_iff_toNat_le]
      exact hupper
    rw [hsame]
    exact ⟨h, hsame⟩

theorem isUsername_of_fromStr (h : usernameFromStr s = some user) : IsUsername user := by
  rw [usernameFromStr, username] at h
  split_ifs at h with hinvalid
  · exact absurd h nofun
  · push Not at hinvalid
    obtain ⟨hne, hall⟩ := hinvalid
    rw [IsUsername, ← Option.some.inj h, String.toList_ofList]
    refine ⟨fun hnil ↦ hne (List.map_eq_nil_iff.mp hnil), fun c hc ↦ ?_⟩
    obtain ⟨b, hb, rfl⟩ := List.mem_map.mp hc
    exact isUsernameByte_toLower (List.all_eq_true.mp hall b hb)

theorem usernameFromStr_of_isUsername (h : IsUsername user) :
    usernameFromStr user.toList = some user := by
  have hall : user.toList.all isUsernameByte = true :=
    List.all_eq_true.mpr fun c hc ↦ (h.2 c hc).1
  have hmap : user.toList.map Char.toLower = user.toList := by
    conv_rhs => rw [← List.map_id user.toList]
    exact List.map_congr_left fun c hc ↦ (h.2 c hc).2
  rw [usernameFromStr, username, if_neg (by simp [h.1, hall]), hmap, Option.map_some,
    String.ofList_toList]

theorem slash_not_mem_username (h : IsUsername user) : '/' ∉ user.toList := by
  intro hmem
  exact absurd (h.2 '/' hmem).1 (by decide)

end Names

section Text

variable {surface : FeedSurface} {format : FeedFormat} {s : List Char}

/-- The part of a path that names the surface. -/
def surfaceText : FeedSurface → List Char
  | .site => []
  | .siteTag tag => "tags/".toList ++ tag.toList
  | .user user => '~' :: user.toList
  | .userTag user tag => '~' :: (user.toList ++ "/tags/".toList ++ tag.toList)

def headText (surface : FeedSurface) : List Char :=
  if surface = .site then "feed".toList else surfaceText surface ++ "/feed".toList

theorem text_toList (surface : FeedSurface) (format : FeedFormat) :
    (FeedPath.mk surface format).text.toList =
      '/' :: (headText surface ++ '.' :: format.ext.toList) := by
  cases surface with
  | site => simp [FeedPath.text, headText, String.toList_append]
  | siteTag tag => simp [FeedPath.text, headText, surfaceText, String.toList_append]
  | user user => simp [FeedPath.text, headText, surfaceText, String.toList_append]
  | userTag user tag => simp [FeedPath.text, headText, surfaceText, String.toList_append]

theorem parseSurface_surfaceText (h : ValidSurface surface) (hsite : surface ≠ .site) :
    parseSurface (surfaceText surface) = some surface := by
  cases surface with
  | site => exact absurd rfl hsite
  | siteTag tag =>
    have hprefix := stripPrefix_eq_some.mpr (rfl : surfaceText (.siteTag tag) = _ ++ _)
    rw [parseSurface, hprefix]
    dsimp only
    rw [tagFromStr_of_isTag h]
    rfl
  | user user =>
    have hnot : stripPrefix "tags/".toList (surfaceText (.user user)) = none := rfl
    have hprefix : stripPrefix ['~'] (surfaceText (.user user)) = some user.toList :=
      stripPrefix_eq_some.mpr rfl
    have hsplit : splitOnce "/tags/".toList user.toList = none :=
      splitOnce_eq_none (slash_not_mem_username h)
    rw [parseSurface, hnot, hprefix]
    dsimp only
    rw [hsplit]
    dsimp only
    rw [usernameFromStr_of_isUsername h]
    rfl
  | userTag user tag =>
    have hnot : stripPrefix "tags/".toList (surfaceText (.userTag user tag)) = none := rfl
    have hprefix : stripPrefix ['~'] (surfaceText (.userTag user tag)) =
        some (user.toList ++ "/tags/".toList ++ tag.toList) := stripPrefix_eq_some.mpr rfl
    have hsplit : splitOnce "/tags/".toList (user.toList ++ "/tags/".toList ++ tag.toList) =
        some (user.toList, tag.toList) := splitOnce_append (slash_not_mem_username h.1) _
    rw [parseSurface, hnot, hprefix]
    dsimp only
    rw [hsplit]
    dsimp only
    rw [usernameFromStr_of_isUsername h.1, tagFromStr_of_isTag h.2]
    rfl

theorem surfaceText_ne_nil (hsite : surface ≠ .site) : surfaceText surface ≠ [] := by
  cases surface with
  | site => exact absurd rfl hsite
  | siteTag tag => exact List.append_ne_nil_of_left_ne_nil (by decide) _
  | user user => exact List.cons_ne_nil _ _
  | userTag user tag => exact List.cons_ne_nil _ _

theorem surfaceText_ne_feed : surfaceText surface ++ "/feed".toList ≠ "feed".toList := by
  intro h
  have hlength := congrArg List.length h
  rw [List.length_append] at hlength
  have hfive : "/feed".toList.length = 5 := rfl
  have hfour : "feed".toList.length = 4 := rfl
  omega

/-- A path that was printed parses to the surface and the format that it was printed from. -/
theorem parse_text (h : ValidSurface surface) :
    parse (FeedPath.mk surface format).text.toList = some (surface, format) := by
  have hext : '.' ∉ format.ext.toList := by cases format <;> decide
  have hformat : feedFormatFromStr format.ext.toList = some format := by cases format <;> decide
  have hstrip : stripPrefix ['/'] ('/' :: (headText surface ++ '.' :: format.ext.toList)) =
      some (headText surface ++ '.' :: format.ext.toList) := stripPrefix_eq_some.mpr rfl
  rw [parse, text_toList, hstrip, Option.bind_eq_bind, Option.bind_some, rsplitOnce_append hext]
  dsimp only [Option.bind_eq_bind, Option.bind_some]
  rw [hformat, Option.bind_some, headText]
  by_cases hsite : surface = .site
  · rw [if_pos hsite, if_pos rfl, hsite]
    rfl
  · have hsuffix : stripSuffix "/feed".toList (surfaceText surface ++ "/feed".toList) =
        some (surfaceText surface) := stripSuffix_eq_some.mpr rfl
    rw [if_neg hsite, if_neg surfaceText_ne_feed, hsuffix, Option.bind_some,
      if_neg (surfaceText_ne_nil hsite), parseSurface_surfaceText h hsite]
    rfl

theorem validSurface_of_parseSurface {surfacePart : List Char}
    (h : parseSurface surfacePart = some surface) : ValidSurface surface := by
  rw [parseSurface] at h
  cases htag : stripPrefix "tags/".toList surfacePart with
  | some tag =>
    rw [htag] at h
    obtain ⟨tag, htag, rfl⟩ := Option.map_eq_some_iff.mp h
    exact isTag_of_tagFromStr htag
  | none =>
    rw [htag] at h
    cases htilde : stripPrefix ['~'] surfacePart with
    | none =>
      rw [htilde] at h
      exact absurd h nofun
    | some afterTilde =>
      rw [htilde] at h
      dsimp only at h
      cases hsplit : splitOnce "/tags/".toList afterTilde with
      | none =>
        rw [hsplit] at h
        obtain ⟨user, huser, rfl⟩ := Option.map_eq_some_iff.mp h
        exact isUsername_of_fromStr huser
      | some parts =>
        obtain ⟨userPart, tagPart⟩ := parts
        rw [hsplit] at h
        obtain ⟨user, huser, h⟩ := Option.bind_eq_some_iff.mp h
        obtain ⟨tag, htag, h⟩ := Option.bind_eq_some_iff.mp h
        obtain rfl := Option.some.inj h
        exact ⟨isUsername_of_fromStr huser, isTag_of_tagFromStr htag⟩

theorem validSurface_of_parse (h : parse s = some (surface, format)) : ValidSurface surface := by
  obtain ⟨rest, -, h⟩ := Option.bind_eq_some_iff.mp h
  obtain ⟨⟨head, ext⟩, -, h⟩ := Option.bind_eq_some_iff.mp h
  obtain ⟨format', -, h⟩ := Option.bind_eq_some_iff.mp h
  split_ifs at h with hfeed
  · obtain ⟨rfl, -⟩ := Prod.mk.inj (Option.some.inj h)
    exact trivial
  · obtain ⟨surfacePart, -, h⟩ := Option.bind_eq_some_iff.mp h
    split_ifs at h with hempty
    obtain ⟨surface', hsurface, h⟩ := Option.bind_eq_some_iff.mp h
    obtain ⟨rfl, -⟩ := Prod.mk.inj (Option.some.inj h)
    exact validSurface_of_parseSurface hsurface

end Text

section Canonical

/-- What `feed_cache` and `feed_events` are keyed by: a text that was printed from a surface and a
format. -/
structure CanonicalPath where
  text : List Char
  printed : ∃ surface format, ValidSurface surface ∧ text = (FeedPath.mk surface format).text.toList

namespace CanonicalPath

abbrev Surface : Type := { surface : FeedSurface // ValidSurface surface }

def canonical (surface : Surface) (format : FeedFormat) : CanonicalPath :=
  ⟨_, surface.val, format, surface.property, rfl⟩

def parts (path : CanonicalPath) : Option (FeedSurface × FeedFormat) := parse path.text

def fromStr (s : List Char) : Option CanonicalPath :=
  match h : parse s with
  | some (surface, format) => some (canonical ⟨surface, validSurface_of_parse h⟩ format)
  | none => none

variable {s t : List Char} {path path' : CanonicalPath} {surface surface' : Surface}
  {format format' : FeedFormat}

theorem parts_canonical : (canonical surface format).parts = some (surface.val, format) :=
  parse_text surface.property

theorem canonical_injective (h : canonical surface format = canonical surface' format') :
    surface = surface' ∧ format = format' := by
  have hparts : some (surface.val, format) = some (surface'.val, format') := by
    rw [← parts_canonical, h, parts_canonical]
  obtain ⟨hsurface, hformat⟩ := Prod.mk.inj (Option.some.inj hparts)
  exact ⟨Subtype.ext hsurface, hformat⟩

theorem fromStr_eq_some : fromStr s = some path ↔
    ∃ (surface : Surface) (format : FeedFormat), parse s = some (surface.val, format) ∧
      path = canonical surface format := by
  rw [fromStr]
  split
  · rename_i surface format hparse
    constructor
    · intro h
      exact ⟨⟨surface, validSurface_of_parse hparse⟩, format, hparse, (Option.some.inj h).symm⟩
    · rintro ⟨surface', format', hparse', rfl⟩
      obtain ⟨hsurface, rfl⟩ := Prod.mk.inj (Option.some.inj (hparse.symm.trans hparse'))
      subst hsurface
      rfl
  · rename_i hparse
    constructor
    · intro h
      exact absurd h nofun
    · rintro ⟨surface', format', hparse', -⟩
      exact absurd (hparse.symm.trans hparse') nofun

theorem exists_canonical (path : CanonicalPath) : ∃ surface format, path = canonical surface format := by
  obtain ⟨text, surface, format, hvalid, rfl⟩ := path
  exact ⟨⟨surface, hvalid⟩, format, rfl⟩

theorem fromStr_text (path : CanonicalPath) : fromStr path.text = some path := by
  obtain ⟨surface, format, rfl⟩ := exists_canonical path
  exact fromStr_eq_some.mpr ⟨surface, format, parse_text surface.property, rfl⟩

theorem fromStr_congr (hs : fromStr s = some path) (ht : fromStr t = some path')
    (h : parse s = parse t) : path = path' := by
  obtain ⟨surface, format, hparse, rfl⟩ := fromStr_eq_some.mp hs
  obtain ⟨surface', format', hparse', rfl⟩ := fromStr_eq_some.mp ht
  rw [hparse, hparse'] at h
  obtain ⟨hsurface, rfl⟩ := Prod.mk.inj (Option.some.inj h)
  rw [Subtype.ext hsurface]

/-- One path for each surface and format, whatever spelling it is asked for by. -/
theorem feedPaths_canonical :
    (∀ (surface surface' : Surface) (format format' : FeedFormat),
        canonical surface format = canonical surface' format' →
          surface = surface' ∧ format = format') ∧
      (∀ (surface : Surface) (format : FeedFormat),
        (canonical surface format).parts = some (surface.val, format)) ∧
      (∀ s path, fromStr s = some path →
        (∃ (surface : Surface) (format : FeedFormat), parse s = some (surface.val, format) ∧
          path = canonical surface format) ∧ fromStr path.text = some path) ∧
      (∀ s t path path', fromStr s = some path → fromStr t = some path' → parse s = parse t →
        path = path') ∧
      ∀ path : CanonicalPath, path.parts ≠ none := by
  refine ⟨fun _ _ _ _ ↦ canonical_injective, fun _ _ ↦ parts_canonical, fun s path h ↦ ?_,
    fun _ _ _ _ ↦ fromStr_congr, fun path ↦ ?_⟩
  · exact ⟨fromStr_eq_some.mp h, fromStr_text path⟩
  · obtain ⟨surface, format, rfl⟩ := exists_canonical path
    rw [parts_canonical]
    exact nofun

end CanonicalPath

example : (CanonicalPath.fromStr "/~Alice/tags/Rust/feed.atom".toList).map CanonicalPath.text =
    some "/~alice/tags/rust/feed.atom".toList := by decide

end Canonical

end Jaunder.Host.FeedPath
