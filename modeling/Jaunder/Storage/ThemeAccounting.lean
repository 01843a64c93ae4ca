import Jaunder.Foundation.Run
import Jaunder.Storage.ThemePublication
import Jaunder.Storage.ThemeRemoval
import Jaunder.Storage.WriteScope

namespace Jaunder.Storage.ThemeAccounting

open Foundation.Ledger Foundation.Run
open Jaunder.Common.Hash Jaunder.Common.Owned
open Jaunder.Host.ThemePackage
open Jaunder.Storage.ThemeAssetManager Jaunder.Storage.ThemeBooks Jaunder.Storage.ThemeDrafts
open Jaunder.Storage.ThemePublication Jaunder.Storage.ThemeRemoval Jaunder.Storage.Themes
open Jaunder.Storage.WriteScope

/-- The mutations of the custom catalogs; `edit` stands for every change of the image bindings and
of the selections. -/
inductive Operation
  | create (owner : ThemeOwner) (name : String) (package : ValidatedThemePackage)
      (limits : ThemeQuotaLimits) (id : ℤ)
  | replaceDraft (owner : ThemeOwner) (themeId : ℤ) (package : ValidatedThemePackage)
      (limits : ThemeQuotaLimits)
  | publish (owner : ThemeOwner) (limits : ThemeQuotaLimits) (themeId : ℤ)
      (compiled : CompiledThemeRevision) (now : ℤ)
  | remove (owner : ThemeOwner) (themeId retainedUntil : ℤ)
  | collect (owner : ThemeOwner) (digest : ContentHash) (now : ℤ)
  | edit (boundPaths : List BoundPath) (selections : Keyed ThemeOwner PublicThemeSelection)

section Runs

variable (sha256 : List UInt8 → ContentHash) (text : NameText)

/-- The draft that stores a validated package. -/
def draftOf (themeId : ℤ) (package : ValidatedThemePackage) : ThemeDraft where
  themeId := themeId
  manifest := package.manifest
  stylesheet := package.css
  sourceDigest := package.sourceDigest sha256
  assets := package.assets.toList.map (fun a ↦
    ⟨a.1, a.2.mime.asStr, a.2.bytes, a.2.content.digest sha256⟩)

/-- The tables after a transaction that commits; an error leaves none of its writes. -/
def execute (t : ThemeTables) : Operation → Option ThemeTables
  | .create owner name package limits id =>
    (createTheme text t owner name (draftOf sha256 id package) limits id).toOption
  | .replaceDraft owner themeId package limits =>
    (replaceDraft t owner (draftOf sha256 themeId package) limits).toOption
  | .publish owner limits themeId compiled now =>
    (admitPublication t (admission sha256 owner limits themeId compiled now)).toOption
  | .remove owner themeId retainedUntil => (removeTheme t owner themeId retainedUntil).toOption
  | .collect owner digest now => (collectRetainedContent t owner digest now).toOption
  | .edit boundPaths selections => some { t with boundPaths := boundPaths, selections := selections }

def step (t : ThemeTables) (event : Operation × Commit) : ThemeTables :=
  if event.2.applies then (execute sha256 text t event.1).getD t else t

end Runs

/-- What an operation gives to the hasher. -/
def hashed : Operation → List (List UInt8)
  | .create _ _ package _ _ => [sourcePreimage package]
  | .replaceDraft _ _ package _ => [sourcePreimage package]
  | .publish _ _ _ compiled _ => compiled.contents.map (fun c ↦ c.bytes.toList)
  | _ => []

/-- No two contents of a published package are equal. -/
def HasDistinctContents (sha256 : List UInt8 → ContentHash) : Operation → Prop
  | .publish _ _ _ compiled _ => Distinct sha256 compiled
  | _ => True

section Sizes

variable {sha256 : List UInt8 → ContentHash} {hashes : List (List UInt8)}

/-- Without a collision the digests determine what is measured of the hashed bytes. -/
theorem exists_measure (hcollision : ∀ x ∈ hashes, ∀ y ∈ hashes, sha256 x = sha256 y → x = y)
    (measure : List UInt8 → ℕ) :
    ∃ size : ContentHash → ℕ, ∀ x ∈ hashes, size (sha256 x) = measure x := by
  classical
  refine ⟨fun digest ↦ ((hashes.find? (fun x ↦ sha256 x = digest)).map measure).getD 0, fun x hx ↦ ?_⟩
  cases hfind : hashes.find? (fun y ↦ sha256 y = sha256 x) with
  | none => exact absurd (decide_eq_true rfl) (List.find?_eq_none.mp hfind x hx)
  | some y =>
    have hp := List.find?_some hfind
    have heq : sha256 y = sha256 x := of_decide_eq_true hp
    have hyx := hcollision y (List.mem_of_find?_eq_some hfind) x hx heq
    dsimp only
    rw [hfind, hyx]
    rfl

theorem draftStorageBytes_draftOf {themeId bytes : ℤ} {package : ValidatedThemePackage}
    (h : draftStorageBytes (draftOf sha256 themeId package) = .ok bytes) : bytes = package.size := by
  have hsum : ((draftOf sha256 themeId package).assets.map (fun a ↦ a.bytes.toList.length)).sum =
      (package.assets.toList.map (fun a ↦ a.2.bytes.toList.length)).sum := by
    unfold draftOf
    rw [List.map_map]
    rfl
  unfold draftStorageBytes at h
  dsimp only at h
  split_ifs at h
  rw [← Except.ok.inj h, hsum]
  rfl

/-- The size of the source behind a preimage. -/
noncomputable def sourceSize (preimage : List UInt8) : ℕ := by
  classical
  exact if h : ∃ package, sourcePreimage package = preimage then h.choose.size else 0

theorem sourceSize_preimage (package : ValidatedThemePackage) :
    sourceSize (sourcePreimage package) = package.size := by
  have h : ∃ other, sourcePreimage other = sourcePreimage package := ⟨package, rfl⟩
  unfold sourceSize
  rw [dif_pos h]
  exact sourcePreimage_size h.choose_spec

end Sizes

section Soundness

variable {sha256 : List UInt8 → ContentHash} {text : NameText} {size draftSize : ContentHash → ℕ}
  {t t' : ThemeTables}

theorem empty_sound : Sound size draftSize ThemeTables.empty := by
  refine ⟨⟨fun _ _ ↦ rfl, fun _ ↦ rfl, rfl, fun _ ↦ rfl, fun _ ↦ rfl, fun _ ↦ rfl, rfl, fun _ ↦ rfl⟩,
    ⟨fun key row h ↦ ?_, fun id row h ↦ ?_, fun source row h ↦ ?_⟩, fun id ↦ ?_, fun r hr ↦ ?_⟩
  · cases h
  · cases h
  · cases h
  · exact Iff.rfl
  · cases hr

/-- The measures of what an operation hashes. -/
structure Measured (sha256 : List UInt8 → ContentHash) (size draftSize : ContentHash → ℕ)
    (operation : Operation) : Prop where
  contents : ∀ x ∈ hashed operation, size (sha256 x) = x.length
  sources : ∀ x ∈ hashed operation, draftSize (sha256 x) = sourceSize x

theorem execute_sound {operation : Operation} (h : Sound size draftSize t)
    (measured : Measured sha256 size draftSize operation)
    (hdistinct : HasDistinctContents sha256 operation)
    (hexecute : execute sha256 text t operation = some t') : Sound size draftSize t' := by
  have hok : ∀ {ε : Type} {x : Except ε ThemeTables}, x.toOption = some t' → x = .ok t' := by
    intro ε x hx
    cases x with
    | error e => cases hx
    | ok t => rw [Option.some.inj hx]
  have hsource : ∀ (package : ValidatedThemePackage) (themeId : ℤ),
      sourcePreimage package ∈ hashed operation → ∀ bytes,
      draftStorageBytes (draftOf sha256 themeId package) = .ok bytes →
      bytes = draftSize (draftOf sha256 themeId package).sourceDigest := by
    intro package themeId hmem bytes hbytes
    rw [draftStorageBytes_draftOf hbytes, ← sourceSize_preimage, ← measured.sources _ hmem]
    rfl
  cases operation with
  | create owner name package limits id =>
    obtain ⟨row, bytes, hbytes, created⟩ := createTheme_created (hok hexecute)
    exact created.sound h (hsource package id List.mem_cons_self bytes hbytes)
  | replaceDraft owner themeId package limits =>
    obtain ⟨old, oldRow, bytes, hbytes, replaced⟩ := replaceDraft_replaced (hok hexecute)
    exact replaced.sound h (hsource package themeId List.mem_cons_self bytes hbytes)
  | publish owner limits themeId compiled now =>
    refine admitPublication_sound h (fun content hcontent ↦ ?_) hdistinct (hok hexecute)
    have hmeasured := measured.contents content.bytes.toList (List.mem_map_of_mem hcontent)
    exact congrArg Nat.cast hmeasured
  | remove owner themeId retainedUntil =>
    have hremove := hok hexecute
    have howned : ownerOf t themeId = some owner := by
      obtain ⟨_, howns, -⟩ := Foundation.Outcome.bind_eq_ok.mp hremove
      exact owns_iff.mp (Foundation.Outcome.require_eq_ok.mp howns)
    obtain ⟨t₁, hsucceeds, hsound⟩ := @removeTheme_succeeds _ _ _ _ _ retainedUntil h howned
    rw [hremove] at hsucceeds
    rw [Except.ok.inj hsucceeds]
    exact hsound
  | collect owner digest now =>
    obtain ⟨charge, collected⟩ := collectRetainedContent_collected (hok hexecute)
    exact (collected.booked h).sound h
  | edit boundPaths selections =>
    obtain rfl := Option.some.inj hexecute
    obtain ⟨books, sized, drafted, revised⟩ := h
    exact ⟨⟨books.charged, books.eligible, books.siteRevisions, books.ownerRevisions,
      books.activeThemes, books.logicalBytes, books.physicalBytes, books.draftReferences⟩,
      ⟨sized.charges, sized.drafts, sized.draftContents⟩, drafted, revised⟩

theorem step_sound {event : Operation × Commit} (h : Sound size draftSize t)
    (measured : Measured sha256 size draftSize event.1)
    (hdistinct : HasDistinctContents sha256 event.1) :
    Sound size draftSize (step sha256 text t event) := by
  unfold step
  split_ifs
  · cases hexecute : execute sha256 text t event.1 with
    | none => exact h
    | some t' => exact execute_sound h measured hdistinct hexecute
  · exact h

theorem run_sound {events : List (Operation × Commit)} (h : Sound size draftSize t)
    (measured : ∀ event ∈ events, Measured sha256 size draftSize event.1)
    (hdistinct : ∀ event ∈ events, HasDistinctContents sha256 event.1) :
    Sound size draftSize (run (step sha256 text) t events) := by
  induction events generalizing t with
  | nil => exact h
  | cons event events ih =>
    rw [run_cons]
    refine ih (step_sound h (measured _ List.mem_cons_self) (hdistinct _ List.mem_cons_self)) ?_ ?_
    · exact fun e he ↦ measured e (List.mem_cons_of_mem _ he)
    · exact fun e he ↦ hdistinct e (List.mem_cons_of_mem _ he)

end Soundness

/-- Along every run whose published packages have distinct contents, and whose hashes do not collide,
the counters are the numbers of uses and the sums of their rows; the removal of an owned theme never
fails, and a collection never takes content that a retained revision uses. -/
theorem content_accounted (sha256 : List UInt8 → ContentHash) (text : NameText)
    (events : List (Operation × Commit))
    (hcollision : ∀ x ∈ events.flatMap (fun e ↦ hashed e.1),
      ∀ y ∈ events.flatMap (fun e ↦ hashed e.1), sha256 x = sha256 y → x = y)
    (hdistinct : ∀ event ∈ events, HasDistinctContents sha256 event.1) :
    let t := run (step sha256 text) ThemeTables.empty events
    Accounted t ∧
      (∀ owner themeId retainedUntil, t.owns owner themeId = true →
        ∃ t', removeTheme t owner themeId retainedUntil = .ok t') ∧
      ∀ owner digest now t', collectRetainedContent t owner digest now = .ok t' →
        ∀ r ∈ t.revisions, digest ∉ r.digests := by
  intro t
  obtain ⟨size, hsize⟩ := exists_measure hcollision List.length
  obtain ⟨draftSize, hdraftSize⟩ := exists_measure hcollision sourceSize
  have hsound : Sound size draftSize t := by
    refine run_sound empty_sound (fun event hevent ↦ ⟨fun x hx ↦ hsize x ?_, fun x hx ↦ hdraftSize x ?_⟩)
      hdistinct
    · exact List.mem_flatMap.mpr ⟨event, hevent, hx⟩
    · exact List.mem_flatMap.mpr ⟨event, hevent, hx⟩
  refine ⟨hsound.books, fun owner themeId retainedUntil howns ↦ ?_, fun owner digest now t' hcollect ↦ ?_⟩
  · obtain ⟨t', hremove, -⟩ := @removeTheme_succeeds _ _ _ _ _ retainedUntil hsound (owns_iff.mp howns)
    exact ⟨t', hremove⟩
  · obtain ⟨charge, collected⟩ := collectRetainedContent_collected hcollect
    have hunused := collected.unused_digest hsound
    intro r hr hmem
    have hcount : (t.revisions.flatMap RetainedRevision.digests).count digest = 0 := by
      unfold totalUses at hunused
      exact_mod_cast hunused
    exact List.count_eq_zero.mp hcount (List.mem_flatMap.mpr ⟨r, hr, hmem⟩)

def redDot : Vec UInt8 :=
  ⟨[137, 80, 78, 71, 13, 10, 26, 10, 0, 0, 0, 13, 73, 72, 68, 82, 0, 0, 0, 1, 0, 0, 0, 1, 8, 2, 0, 0,
    0, 144, 119, 83, 222, 0, 0, 0, 12, 73, 68, 65, 84, 120, 156, 99, 248, 207, 192, 0, 0, 3, 1, 1, 0,
    201, 254, 146, 239, 0, 0, 0, 0, 73, 69, 78, 68, 174, 66, 96, 130], by decide⟩

def bytesOf (text : String) : Vec UInt8 := Vec.collect text.toUTF8.data.toList

def plainPackage : ValidatedThemePackage where
  manifest := bytesOf "\x7b\"assets\":\x7b\"logo.png\":\"image/png\"\x7d,\"defaults\":\x7b\x7d,\"name\":\"Plain\",\"schema\":1,\"style_contract\":1\x7d"
  css := bytesOf "p\x7bcolor:red\x7d"
  assets := ⟨[(⟨"logo.png", by decide⟩, ⟨.png, redDot⟩)], by decide⟩
  ordered := by decide

/-- Both assets are the same image. -/
def twinPackage : ValidatedThemePackage where
  manifest := bytesOf "\x7b\"assets\":\x7b\"header.png\":\"image/png\",\"logo.png\":\"image/png\"\x7d,\"defaults\":\x7b\x7d,\"name\":\"Twin\",\"schema\":1,\"style_contract\":1\x7d"
  css := bytesOf "p\x7bcolor:red\x7d"
  assets := ⟨[(⟨"header.png", by decide⟩, ⟨.png, redDot⟩), (⟨"logo.png", by decide⟩, ⟨.png, redDot⟩)],
    by decide⟩
  ordered := by decide +kernel

def compile (package : ValidatedThemePackage) : CompiledThemeRevision :=
  ⟨package, bytesOf "[data-jaunder-theme-surface][data-jaunder-style-contract=\"1\"] p\x7bcolor:red\x7d"⟩

/-- The SHA-256 digests of the sample bytes. -/
def plainCssSha256 : ContentHash :=
  ⟨"b9f0fbe6298b941898655efbf82141f0043cebc50978f7716ba88ab09fee7c38", by decide +kernel⟩

def contentSha256 (bytes : List UInt8) : ContentHash :=
  if bytes = redDot.toList then
    ⟨"b1ff9c8ea3a780bad09b346c423d2d0e46815926879b18e841d928376a946640", by decide +kernel⟩
  else if bytes = (compile plainPackage).css.toList then
    plainCssSha256
  else if bytes = sourcePreimage plainPackage then
    ⟨"b2d39f6311e992d4f2eaf89e2f100c3952bcc5f303b535ea250c9b41e181b9b8", by decide +kernel⟩
  else ⟨"e1e3e321c82a96a7f2b5d5d6522b51ab4545178521f96f52e693f1e96cc5b65c", by decide +kernel⟩

def sampleSha256 (bytes : List UInt8) : ContentHash :=
  if bytes = revisionPreimage contentSha256 (compile plainPackage) then
    ⟨"f00172bdb7b0db9088579f88ef4560abe6743b65d3e81af1b498a9e7e96fdc06", by decide +kernel⟩
  else if bytes = revisionPreimage contentSha256 (compile twinPackage) then
    ⟨"690789c8d864a4c363198eea7e2fa08de432c3af9dea3e863cda42f1992da7d1", by decide +kernel⟩
  else contentSha256 bytes

def asciiNames : NameText := ⟨id, fun c ↦ [c.toLower]⟩

def productionLimits : ThemeQuotaLimits := ⟨64, 256, 536870912, 4096, 8589934592⟩

/-- Two catalogs share the content of a package until the site removes its theme. -/
def sharedPlain : List (Operation × Commit) :=
  [(.create .site "Plain" plainPackage productionLimits 1, .confirmed),
    (.publish .site productionLimits 1 (compile plainPackage) 100, .confirmed),
    (.create (.author 7) "Plain" plainPackage productionLimits 2, .indeterminate true),
    (.publish (.author 7) productionLimits 2 (compile plainPackage) 100, .confirmed),
    (.replaceDraft .site 1 twinPackage productionLimits, .confirmed),
    (.remove .site 1 1000, .confirmed)]

theorem shared_plain_accounted :
    let t := run (step sampleSha256 asciiNames) ThemeTables.empty sharedPlain
    Accounted t ∧ ∃ t', removeTheme t (.author 7) 2 2000 = .ok t' := by
  have h := content_accounted sampleSha256 asciiNames sharedPlain (by decide +kernel) (by
    intro event hevent
    fin_cases hevent
    all_goals first | trivial | (unfold HasDistinctContents Distinct; decide +kernel))
  exact ⟨h.1, h.2.1 (.author 7) 2 2000 (by decide +kernel)⟩

/-- The admission of a package with two equal assets takes one reference, but the removal of its
theme asks for two. -/
theorem twin_theme_stays :
    let t := run (step sampleSha256 asciiNames) ThemeTables.empty
      [(.create .site "Twin" twinPackage productionLimits 1, .confirmed),
        (.publish .site productionLimits 1 (compile twinPackage) 100, .confirmed)]
    t.owns .site 1 = true ∧ (removeTheme t .site 1 1000).toOption.isNone = true ∧
      chargeLive t .site (sampleSha256 redDot.toList) = 1 ∧
      uses t .site (sampleSha256 redDot.toList) = 2 := by
  decide +kernel

end Jaunder.Storage.ThemeAccounting
