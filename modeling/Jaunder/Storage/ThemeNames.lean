import Jaunder.Common.Keywords
import Jaunder.Foundation.FreeName
import Jaunder.Foundation.Trimming
import Jaunder.Storage.Themes

namespace Jaunder.Storage.ThemeNames

open Foundation.FreeName Foundation.Ledger Foundation.Outcome Foundation.Trimming
open Jaunder.Common.Hash Jaunder.Common.Keywords Jaunder.Common.PostText
open Jaunder.Storage.Themes

/-- Catalog names with `str::trim`; the lowercase of a character is the library's. -/
def nameText (toLowercase : Char → List Char) : NameText where
  trim s := String.ofList (trim s.toList)
  toLowercase := toLowercase

/-- What the code relies on: the lowercase of ASCII, and that nothing but the Kelvin sign leaves ASCII
characters alone. -/
structure Documented (toLowercase : Char → List Char) : Prop where
  ascii : ∀ c : Char, c.toNat < 128 → toLowercase c = [c.toLower]
  kelvin : toLowercase (Char.ofNat 0x212A) = ['k']
  other : ∀ c : Char, 128 ≤ c.toNat → c ≠ Char.ofNat 0x212A → ∃ d ∈ toLowercase c, 128 ≤ d.toNat

section Allocation

variable (text : NameText)

def validateAutomaticThemeNameBase (name : String) : Except ThemeError String :=
  match validateThemeCatalogName text name with
  | .ok name => .ok name
  | .error error =>
    if error = .protocol "theme name conflicts with a built-in theme" then .ok (text.trim name)
    else .error error

/-- The name that carries a number. -/
def candidate (base : String) (number : ℕ) : String :=
  let suffix := ' ' :: Nat.toDigits 10 number
  String.ofList (trimEnd (base.toList.take (nameMaxLength - suffix.length)) ++ suffix)

def Free (keys : Finset String) (name : String) : Prop :=
  (validateThemeCatalogName text name).isOk = true ∧ canonicalThemeNameKey text name ∉ keys

instance (keys : Finset String) (name : String) : Decidable (Free text keys name) :=
  inferInstanceAs (Decidable (_ ∧ _))

/-- The loop, which may go on for as many rounds as there are numbers left in a `u128`. -/
def allocateFrom (base : String) (keys : Finset String) : ℕ → ℕ → Option String
  | 0, _ => none
  | rounds + 1, number =>
    if Free text keys (candidate base number) then some (candidate base number)
    else allocateFrom base keys rounds (number + 1)

/-- `allocate_theme_name`; none when the counter overflows. -/
def allocateThemeName (base : String) (keys : Finset String) : Option String :=
  if Free text keys base then some base else allocateFrom text base keys (2 ^ 128 - 2) 2

structure ThemeCatalogEntry where
  id : ℤ
  owner : ThemeOwner
  name : String
  currentRevision : Option ContentHash

/-- `SELECT name_key FROM themes WHERE catalog_owner_key = $1` -/
def ownerKeys (t : ThemeTables) (owner : ThemeOwner) : Finset String :=
  t.themes.keys.biUnion fun id ↦
    ((t.themes.lookup id).bind fun row ↦
      if row.owner = owner then some row.nameKey else none).toFinset

/-- `create_theme_automatic`; a counter that overflows stops the request. -/
def createThemeAutomatic (t : ThemeTables) (owner : ThemeOwner) (base : String) (draft : ThemeDraft)
    (limits : ThemeQuotaLimits) (id : ℤ) : Except (Option ThemeError) (ThemeTables × ThemeCatalogEntry) := do
  let base ← (validateAutomaticThemeNameBase text base).mapError some
  let name ← orError (allocateThemeName text base (ownerKeys t owner)) none
  let t ← (createTheme text t owner name draft limits id).mapError some
  .ok (t, ⟨id, owner, name, none⟩)

end Allocation

/-- The keys that a `BTreeSet` can hold. -/
structure NameKeys where
  names : Finset String
  fits : names.card < 2 ^ 64

section Names

variable {toLowercase : Char → List Char} {base name raw : String} {number i j : ℕ}
  {keys : Finset String}

theorem validate_eq_ok : validateThemeCatalogName (nameText toLowercase) name = .ok base ↔
    base = String.ofList (trim name.toList) ∧ base ≠ "" ∧ base.toList.length ≤ nameMaxLength ∧
      ∀ reserved ∈ ["terminal", "studio", "reader"], base.toList.map Char.toLower ≠ reserved.toList := by
  rw [validateThemeCatalogName, nameText]
  simp only
  constructor
  · intro h
    split_ifs at h with hempty hlong hreserved
    obtain rfl := Except.ok.inj h
    refine ⟨rfl, hempty, not_lt.mp hlong, fun reserved hmem heq ↦ hreserved ?_⟩
    exact List.any_eq_true.mpr ⟨reserved, hmem, decide_eq_true heq⟩
  · rintro ⟨rfl, hempty, hlength, hreserved⟩
    rw [if_neg hempty, if_neg (not_lt.mpr hlength), if_neg]
    intro hany
    obtain ⟨reserved, hmem, heq⟩ := List.any_eq_true.mp hany
    exact hreserved reserved hmem (of_decide_eq_true heq)

/-- An accepted base is trimmed, and neither empty nor too long. -/
theorem validateAutomatic_eq_ok
    (h : validateAutomaticThemeNameBase (nameText toLowercase) raw = .ok base) :
    base = String.ofList (trim raw.toList) ∧ base ≠ "" ∧ base.toList.length ≤ nameMaxLength := by
  rw [validateAutomaticThemeNameBase] at h
  split at h
  · rename_i hvalid
    obtain rfl := Except.ok.inj h
    obtain ⟨hbase, hempty, hlength, -⟩ := validate_eq_ok.mp hvalid
    exact ⟨hbase, hempty, hlength⟩
  · rename_i error hvalid
    split at h
    · rename_i hreserved
      obtain rfl := Except.ok.inj h
      rw [hreserved, validateThemeCatalogName] at hvalid
      split_ifs at hvalid with hempty hlong
      · exact absurd (ThemeError.protocol.inj (Except.error.inj hvalid)) (by decide)
      · exact absurd (ThemeError.protocol.inj (Except.error.inj hvalid)) (by decide)
      · exact ⟨rfl, hempty, not_lt.mp hlong⟩
    · cases h

theorem isDigit_toDigits : ∀ c ∈ Nat.toDigits 10 number, c.isDigit = true :=
  fun _ hc ↦ Nat.isDigit_of_mem_toDigits (by decide) (by decide) hc

theorem not_mem_toDigits : ' ' ∉ Nat.toDigits 10 number :=
  fun hmem ↦ absurd (isDigit_toDigits ' ' hmem) (by decide)

theorem isDigit_bounds {c : Char} (h : c.isDigit = true) : 48 ≤ c.toNat ∧ c.toNat ≤ 57 :=
  Char.isDigit_iff_toNat.mp h

theorem isWhitespace_of_isDigit {c : Char} (h : c.isDigit = true) : isWhitespace c = false := by
  have hbounds := isDigit_bounds h
  refine decide_eq_false ?_
  omega

theorem toLower_of_isDigit {c : Char} (h : c.isDigit = true) : c.toLower = c :=
  ascii_forall (P := fun c ↦ c.isDigit = true → c.toLower = c) (by decide)
    (by have hbounds := isDigit_bounds h; omega) h

theorem toList_candidate (base : String) (number : ℕ) : (candidate base number).toList =
    trimEnd (base.toList.take (nameMaxLength - (' ' :: Nat.toDigits 10 number).length)) ++
      ' ' :: Nat.toDigits 10 number := String.toList_ofList

theorem length_toDigits_le (h : number < 2 ^ 128) : (Nat.toDigits 10 number).length ≤ 39 := by
  have hbound : 2 ^ 128 < 10 ^ 39 := by decide
  exact (Nat.length_toDigits_le_iff (by decide) (by decide)).mpr (h.trans hbound)

/-- A text that begins with no white space keeps its first character. -/
theorem trimEnd_cons {c : Char} (hc : isWhitespace c = false) (s : List Char) :
    ∃ rest, trimEnd (c :: s) = c :: rest := by
  have hne : trimEnd (c :: s) ≠ [] := by
    rw [trimEnd, ne_eq, List.rdropWhile_eq_nil_iff]
    intro hall
    rw [hall c List.mem_cons_self] at hc
    cases hc
  obtain ⟨d, rest, heq⟩ := List.exists_cons_of_ne_nil hne
  have hsub : d :: rest <+: c :: s := heq ▸ List.rdropWhile_prefix isWhitespace (c :: s)
  rw [heq, (List.cons_prefix_cons.mp hsub).1]
  exact ⟨rest, rfl⟩

/-- Every candidate is a valid name. -/
theorem validate_candidate {c : Char} {rest : List Char} (hbase : base.toList = c :: rest)
    (hc : isWhitespace c = false) (hnumber : number < 2 ^ 128) :
    validateThemeCatalogName (nameText toLowercase) (candidate base number) =
      .ok (candidate base number) := by
  have hdigits := length_toDigits_le hnumber
  have htoList := toList_candidate base number
  obtain ⟨k, hk⟩ : ∃ k, nameMaxLength - (' ' :: Nat.toDigits 10 number).length = k + 1 :=
    ⟨nameMaxLength - (' ' :: Nat.toDigits 10 number).length - 1, by
      rw [List.length_cons, nameMaxLength]; omega⟩
  have hstem : (trimEnd (c :: rest.take k)).length ≤ k + 1 := by
    have hsub := (List.rdropWhile_prefix isWhitespace (c :: rest.take k)).length_le
    rw [← trimEnd, List.length_cons] at hsub
    have htake := List.length_take_le k rest
    omega
  obtain ⟨stem, hcons⟩ := trimEnd_cons hc (rest.take k)
  rw [hk, hbase, List.take_succ_cons] at htoList
  have hspace : ' ' ∈ (candidate base number).toList := by
    rw [htoList]
    exact List.mem_append_right _ List.mem_cons_self
  have htight : Tight isWhitespace (candidate base number).toList := by
    refine ⟨fun d hd ↦ ?_, fun d hd ↦ ?_⟩
    · rw [htoList, hcons, List.cons_append, List.head?_cons, Option.mem_some_iff] at hd
      rwa [← hd]
    · obtain ⟨e, digits, heq⟩ := List.exists_cons_of_ne_nil (Nat.toDigits_ne_nil (b := 10) (n := number))
      rw [htoList, heq, List.getLast?_append_of_ne_nil _ (List.cons_ne_nil _ _), List.getLast?_cons_cons,
        ← heq] at hd
      exact isWhitespace_of_isDigit (isDigit_toDigits d (List.mem_of_mem_getLast? hd))
  refine validate_eq_ok.mpr ⟨?_, ?_, ?_, ?_⟩
  · have htrim : trim (candidate base number).toList = (candidate base number).toList := htight.trimBy_eq
    rw [htrim, String.ofList_toList]
  · intro hempty
    rw [hempty] at hspace
    cases hspace
  · rw [htoList, List.length_append]
    have hlength : k + 1 + (' ' :: Nat.toDigits 10 number).length = nameMaxLength := by
      rw [← hk]
      rw [List.length_cons, nameMaxLength]
      omega
    omega
  · intro reserved hmem heq
    have hlower : ' ' ∈ reserved.toList := heq ▸ List.mem_map.mpr ⟨' ', hspace, by decide⟩
    simp only [List.mem_cons, List.not_mem_nil, or_false] at hmem
    rcases hmem with rfl | rfl | rfl <;> exact absurd hlower (by decide)

theorem toList_key (name : String) : (canonicalThemeNameKey (nameText toLowercase) name).toList =
    name.toList.flatMap toLowercase := String.toList_ofList

/-- Candidates of different numbers have different keys. -/
theorem key_candidate_injective (hl : Documented toLowercase) (base : String) : Function.Injective
    fun number ↦ canonicalThemeNameKey (nameText toLowercase) (candidate base number) := by
  have hdigits (number : ℕ) : (Nat.toDigits 10 number).flatMap toLowercase = Nat.toDigits 10 number := by
    have hkept : ∀ c ∈ Nat.toDigits 10 number, toLowercase c = [c] := by
      intro c hc
      have hdigit := isDigit_toDigits c hc
      have hbounds := isDigit_bounds hdigit
      rw [hl.ascii c (by omega), toLower_of_isDigit hdigit]
    rw [List.flatMap_congr hkept, List.flatMap_singleton']
  have hkey (number : ℕ) : (canonicalThemeNameKey (nameText toLowercase) (candidate base number)).toList =
      (trimEnd (base.toList.take (nameMaxLength - (' ' :: Nat.toDigits 10 number).length))).flatMap
        toLowercase ++ ' ' :: Nat.toDigits 10 number := by
    rw [toList_key, toList_candidate, List.flatMap_append, List.flatMap_cons, hdigits,
      hl.ascii ' ' (by decide)]
    rfl
  intro i j h
  have htext := congrArg String.toList h
  simp only at htext
  rw [hkey, hkey] at htext
  have hsuffix := suffix_injective not_mem_toDigits not_mem_toDigits htext
  have hvalue := congrArg (fun l ↦ Nat.ofDigitChars 10 l 0) hsuffix
  simpa using hvalue

/-- A key of ASCII characters other than `k` is the ASCII lowercase of its name. -/
theorem map_toLower_of_key (hl : Documented toLowercase) {key : List Char}
    (h : name.toList.flatMap toLowercase = key) (hascii : ∀ d ∈ key, d.toNat < 128)
    (hkelvin : 'k' ∉ key) : name.toList.map Char.toLower = key := by
  have hchar : ∀ c ∈ name.toList, toLowercase c = [c.toLower] := by
    intro c hc
    have hsub : toLowercase c ⊆ key := fun d hd ↦ h ▸ List.mem_flatMap.mpr ⟨c, hc, hd⟩
    by_cases hc' : c.toNat < 128
    · exact hl.ascii c hc'
    · by_cases hk : c = Char.ofNat 0x212A
      · refine absurd (hsub ?_) hkelvin
        rw [hk, hl.kelvin]
        exact List.mem_cons_self
      · obtain ⟨d, hd, hbig⟩ := hl.other c (not_lt.mp hc') hk
        exact absurd (hascii d (hsub hd)) (not_lt.mpr hbig)
  rw [← h, List.flatMap_congr hchar, List.map_eq_flatMap]

/-- The key of a valid name is none of the reserved ones. -/
theorem key_unreserved (hl : Documented toLowercase)
    (h : validateThemeCatalogName (nameText toLowercase) name = .ok name) :
    canonicalThemeNameKey (nameText toLowercase) name ∉ ["terminal", "studio", "reader"] := by
  intro hmem
  obtain ⟨-, -, -, hreserved⟩ := validate_eq_ok.mp h
  refine hreserved _ hmem (map_toLower_of_key hl (toList_key name).symm ?_ ?_)
  · generalize canonicalThemeNameKey (nameText toLowercase) name = key at hmem
    simp only [List.mem_cons, List.not_mem_nil, or_false] at hmem
    rcases hmem with rfl | rfl | rfl <;> exact List.forall_iff_forall_mem.mp (by decide)
  · generalize canonicalThemeNameKey (nameText toLowercase) name = key at hmem
    simp only [List.mem_cons, List.not_mem_nil, or_false] at hmem
    rcases hmem with rfl | rfl | rfl <;> decide

end Names

section Search

variable {text : NameText} {base : String} {keys : Finset String}

/-- The loop ends at the first free candidate. -/
theorem allocateFrom_eq {rounds number : ℕ}
    (h : ∃ k < rounds, Free text keys (candidate base (number + k))) :
    ∃ k < rounds, allocateFrom text base keys rounds number = some (candidate base (number + k)) ∧
      Free text keys (candidate base (number + k)) ∧
      ∀ i < k, ¬ Free text keys (candidate base (number + i)) := by
  induction rounds generalizing number with
  | zero =>
    obtain ⟨k, hk, -⟩ := h
    exact absurd hk (Nat.not_lt_zero k)
  | succ rounds ih =>
    by_cases hfree : Free text keys (candidate base number)
    · exact ⟨0, Nat.succ_pos _, by rw [allocateFrom, if_pos hfree, Nat.add_zero], hfree,
        fun i hi ↦ absurd hi (Nat.not_lt_zero i)⟩
    · have hlater : ∃ k < rounds, Free text keys (candidate base (number + 1 + k)) := by
        obtain ⟨k, hk, hk'⟩ := h
        cases k with
        | zero => exact absurd hk' hfree
        | succ k => exact ⟨k, Nat.lt_of_succ_lt_succ hk, by rwa [Nat.add_right_comm, Nat.add_assoc]⟩
      obtain ⟨k, hk, heq, hfound, hfirst⟩ := ih hlater
      refine ⟨k + 1, Nat.succ_lt_succ hk, ?_, ?_, fun i hi ↦ ?_⟩
      · rw [allocateFrom, if_neg hfree, heq, Nat.add_right_comm, Nat.add_assoc]
      · rwa [← Nat.add_assoc, Nat.add_right_comm]
      · cases i with
        | zero => exact hfree
        | succ i =>
          have hnot := hfirst i (Nat.lt_of_succ_lt_succ hi)
          rwa [Nat.add_right_comm, Nat.add_assoc] at hnot

end Search

section Automatic

variable {toLowercase : Char → List Char} {base name raw : String} {keys : Finset String}
  {t : ThemeTables} {owner : ThemeOwner} {draft : ThemeDraft} {limits : ThemeQuotaLimits} {id : ℤ}

/-- What an allocated name is. -/
structure Allocated (text : NameText) (base : String) (keys : Finset String) (name : String) : Prop where
  valid : validateThemeCatalogName text name = .ok name
  length : name.toList.length ≤ nameMaxLength
  fresh : canonicalThemeNameKey text name ∉ keys
  unnumbered : Free text keys base → name = base
  numbered : ¬ Free text keys base → ∃ number ≥ 2, name = candidate base number ∧
    Free text keys name ∧ ∀ m, 2 ≤ m → m < number → ¬ Free text keys (candidate base m)

theorem isOk_eq {result : Except ThemeError String} (h : result.isOk = true) : ∃ a, result = .ok a := by
  cases result with
  | error e => cases h
  | ok a => exact ⟨a, rfl⟩

theorem allocateThemeName_allocated (hl : Documented toLowercase) (keys : NameKeys)
    (h : validateAutomaticThemeNameBase (nameText toLowercase) raw = .ok base) :
    ∃ name, allocateThemeName (nameText toLowercase) base keys.names = some name ∧
      Allocated (nameText toLowercase) base keys.names name := by
  obtain ⟨hbase, hempty, -⟩ := validateAutomatic_eq_ok h
  have hlist : base.toList = trim raw.toList := by rw [hbase, String.toList_ofList]
  have htight : Tight isWhitespace base.toList := by
    rw [hlist]
    exact tight_trimBy isWhitespace raw.toList
  obtain ⟨c, rest, hcons⟩ : ∃ c rest, base.toList = c :: rest :=
    List.exists_cons_of_ne_nil fun hnil ↦ hempty (String.toList_eq_nil_iff.mp hnil)
  have hc : isWhitespace c = false := htight.first c (by rw [hcons]; rfl)
  rw [allocateThemeName]
  by_cases hfree : Free (nameText toLowercase) keys.names base
  · obtain ⟨a, ha⟩ := isOk_eq hfree.1
    have hsame : a = base := by
      obtain ⟨heq, -⟩ := validate_eq_ok.mp ha
      have htrim : trim base.toList = base.toList := htight.trimBy_eq
      rw [heq, htrim, String.ofList_toList]
    rw [hsame] at ha
    refine ⟨base, if_pos hfree, ha, (validate_eq_ok.mp ha).2.2.1, hfree.2, fun _ ↦ rfl,
      fun hnot ↦ absurd hfree hnot⟩
  · have hinjective : Function.Injective fun k ↦
        canonicalThemeNameKey (nameText toLowercase) (candidate base (k + 1)) := fun i j hij ↦
      Nat.succ.inj (key_candidate_injective hl base hij)
    obtain ⟨k, hk, hbound, hnew⟩ := exists_free hinjective keys.names.toList
    rw [Finset.length_toList] at hbound
    have hfits := keys.fits
    have hvalid : ∀ number < 2 ^ 128, validateThemeCatalogName (nameText toLowercase)
        (candidate base number) = .ok (candidate base number) :=
      fun _ hnumber ↦ validate_candidate hcons hc hnumber
    have hsome : ∃ k < 2 ^ 128 - 2,
        Free (nameText toLowercase) keys.names (candidate base (2 + k)) := by
      refine ⟨k - 1, by omega, ?_, ?_⟩
      · rw [hvalid _ (by omega)]
        rfl
      · have heq : 2 + (k - 1) = k + 1 := by omega
        rw [heq]
        exact fun hmem ↦ hnew (Finset.mem_toList.mpr hmem)
    obtain ⟨j, hj, heq, hfound, hfirst⟩ := allocateFrom_eq hsome
    have hok := hvalid (2 + j) (by omega)
    refine ⟨candidate base (2 + j), by rw [if_neg hfree, heq], hok, (validate_eq_ok.mp hok).2.2.1,
      hfound.2, fun h ↦ absurd h hfree, fun _ ↦ ⟨2 + j, Nat.le_add_right 2 j, rfl, hfound, ?_⟩⟩
    intro m hm hlt
    obtain ⟨i, rfl⟩ := Nat.exists_eq_add_of_le hm
    exact hfirst i (by omega)

theorem mem_ownerKeys {key : String} : key ∈ ownerKeys t owner ↔
    ∃ id row, t.themes.lookup id = some row ∧ row.owner = owner ∧ row.nameKey = key := by
  rw [ownerKeys, Finset.mem_biUnion]
  constructor
  · rintro ⟨id, -, hmem⟩
    rw [Option.mem_toFinset, Option.mem_def, Option.bind_eq_some_iff] at hmem
    obtain ⟨row, hrow, hkey⟩ := hmem
    split_ifs at hkey with howner
    exact ⟨id, row, hrow, howner, Option.some.inj hkey⟩
  · rintro ⟨id, row, hrow, howner, rfl⟩
    refine ⟨id, mem_keys_of_lookup hrow, ?_⟩
    rw [Option.mem_toFinset, hrow]
    exact if_pos howner

/-- A new name is refused neither for itself nor for its key. -/
theorem createTheme_accepts (hl : Documented toLowercase)
    (hvalid : validateThemeCatalogName (nameText toLowercase) name = .ok name)
    (hfresh : canonicalThemeNameKey (nameText toLowercase) name ∉ ownerKeys t owner) :
    (∀ message, createTheme (nameText toLowercase) t owner name draft limits id ≠
      .error (.protocol message)) ∧
    (createTheme (nameText toLowercase) t owner name draft limits id = .error .constraint →
      id ∈ t.themes.keys ∨ ¬(draft.assets.map ThemeDraftAsset.path).Nodup) := by
  have hkey : canonicalThemeNameKey (nameText toLowercase) name ∉ ["terminal", "studio", "reader"] ∧
      ∀ other ∈ t.themes.keys, ¬(t.themes.lookup other).any (fun row ↦
        row.owner = owner ∧ row.nameKey = canonicalThemeNameKey (nameText toLowercase) name) := by
    refine ⟨key_unreserved hl hvalid, fun other _ hany ↦ hfresh (mem_ownerKeys.mpr ?_)⟩
    cases hrow : t.themes.lookup other with
    | none =>
      rw [hrow] at hany
      cases hany
    | some row =>
      rw [hrow] at hany
      obtain ⟨howner, hkey⟩ := of_decide_eq_true hany
      exact ⟨other, row, hrow, howner, hkey⟩
  have herror {error : ThemeError}
      (h : createTheme (nameText toLowercase) t owner name draft limits id = .error error) :
      error = .rowNotFound ∨ error = .constraint ∧
        (id ∈ t.themes.keys ∨ ¬(draft.assets.map ThemeDraftAsset.path).Nodup) := by
    rw [createTheme, hvalid, ok_bind] at h
    rcases bind_eq_error.mp h with hbytes | ⟨bytes, -, h⟩
    · rw [draftStorageBytes] at hbytes
      split at hbytes
      · cases hbytes
      · exact .inl (Except.error.inj hbytes).symm
    rcases bind_eq_error.mp h with hquota | ⟨-, -, h⟩
    · exact .inl (require_eq_error.mp hquota).2.symm
    rcases bind_eq_error.mp h with hrow | ⟨-, -, h⟩
    · obtain ⟨hnot, herror⟩ := require_eq_error.mp hrow
      refine .inr ⟨herror.symm, .inl ?_⟩
      by_contra hid
      exact hnot ⟨hkey.1, hid, hkey.2⟩
    rcases bind_eq_error.mp h with hassets | ⟨-, -, h⟩
    · obtain ⟨hnot, herror⟩ := require_eq_error.mp hassets
      exact .inr ⟨herror.symm, .inr hnot⟩
    · cases h
  refine ⟨fun message h ↦ ?_, fun h ↦ ?_⟩
  · rcases herror h with h | ⟨h, -⟩
    · cases h
    · cases h
  · rcases herror h with h | ⟨-, h⟩
    · cases h
    · exact h

/-- Automatic names are found, and their insertion meets no constraint on names. -/
theorem allocateThemeName_spec (hl : Documented toLowercase) (keys : NameKeys)
    (h : validateAutomaticThemeNameBase (nameText toLowercase) raw = .ok base) :
    ∃ name, allocateThemeName (nameText toLowercase) base keys.names = some name ∧
      Allocated (nameText toLowercase) base keys.names name ∧
      ∀ t owner draft limits id, ownerKeys t owner = keys.names →
        createThemeAutomatic (nameText toLowercase) t owner raw draft limits id =
          ((createTheme (nameText toLowercase) t owner name draft limits id).mapError some).map
            (fun t' ↦ (t', ⟨id, owner, name, none⟩)) ∧
        (∀ message, createTheme (nameText toLowercase) t owner name draft limits id ≠
          .error (.protocol message)) ∧
        (createTheme (nameText toLowercase) t owner name draft limits id = .error .constraint →
          id ∈ t.themes.keys ∨ ¬(draft.assets.map ThemeDraftAsset.path).Nodup) := by
  obtain ⟨name, hname, hallocated⟩ := allocateThemeName_allocated hl keys h
  refine ⟨name, hname, hallocated, fun t owner draft limits id hkeys ↦ ⟨?_, ?_⟩⟩
  · have hbase : (Except.ok base : Except ThemeError String).mapError some = .ok base := rfl
    rw [createThemeAutomatic, h, hkeys, hbase, ok_bind, hname, orError_some, ok_bind]
    cases createTheme (nameText toLowercase) t owner name draft limits id <;> rfl
  · refine createTheme_accepts hl hallocated.valid ?_
    rw [hkeys]
    exact hallocated.fresh

def simpleLowercase (c : Char) : List Char := if c = Char.ofNat 0x212A then ['k'] else [c.toLower]

theorem simpleLowercase_documented : Documented simpleLowercase where
  ascii := by
    intro c hc
    refine if_neg ?_
    rintro rfl
    exact absurd hc (by decide)
  kelvin := rfl
  other := by
    intro c hc hk
    refine ⟨c.toLower, ?_, ?_⟩
    · rw [simpleLowercase, if_neg hk]
      exact List.mem_cons_self
    · have hsame : c.toLower = c := by
        refine dif_neg fun hupper ↦ ?_
        have hle : c.toNat ≤ 'Z'.toNat := UInt32.le_iff_toNat_le.mp hupper.2
        exact absurd (hc.trans hle) (by decide)
      rwa [hsame]

/-- A reserved base with a taken second number. -/
theorem studio_named : ∃ name,
    allocateThemeName (nameText simpleLowercase) "Studio" {"studio 2"} = some name ∧
      Allocated (nameText simpleLowercase) "Studio" {"studio 2"} name := by
  have hbase : validateAutomaticThemeNameBase (nameText simpleLowercase) " Studio " = .ok "Studio" := by
    rfl
  obtain ⟨name, hname, hallocated, -⟩ :=
    allocateThemeName_spec simpleLowercase_documented ⟨{"studio 2"}, by decide⟩ hbase
  exact ⟨name, hname, hallocated⟩

end Automatic

end Jaunder.Storage.ThemeNames
