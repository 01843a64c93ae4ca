import Jaunder.Common.Media
import Jaunder.Common.SlugTitles

namespace Jaunder.Common.Media

open Foundation.Octets
open Foundation.Segmentation
open Jaunder.Common.Slug (UnicodeData takeFitting truncateByGraphemes)

def encodedLen (s : List Char) : ℕ := len (utf8PercentEncode (String.ofList s))

def truncatedStem : List Char := ['u', 'p', 'l', 'o', 'a', 'd']

/-- What `Path` takes for the stem and the extension of a file name, split at its last dot. -/
def rsplitFileAtDot (file : List Char) : Option (List Char × List Char) :=
  let before := file.rdropWhile (· ≠ '.')
  if file = ['.', '.'] ∨ before.dropLast = [] then none
  else some (before.dropLast, file.rtakeWhile (· ≠ '.'))

/-- `Path::file_stem` with `Path::extension`. -/
def stemAndExtension (name : List Char) : Option (List Char × List Char) :=
  (pathFileName name).bind rsplitFileAtDot

/-- The part of a name that is cut, and the end of it that is kept. -/
def budgetSplit (name : List Char) : List Char × List Char :=
  let (stem, extension) :=
    match stemAndExtension name with
    | some (stem, extension) => (stem, '.' :: extension)
    | none => (name, [])
  if encodedLen extension + encodedLen truncatedStem > maxFilenameEncodedBytes then (name, [])
  else (stem, extension)

/-- A run of clusters that is a name of its own, or else the placeholder. -/
def orPlaceholder (run : List Char) : List Char :=
  if run = [] ∨ run = ['.'] ∨ run = ['.', '.'] then truncatedStem else run

def truncateToBudget (d : UnicodeData) (name : List Char) : List Char :=
  if encodedLen name ≤ maxFilenameEncodedBytes then name
  else
    let (stem, extension) := budgetSplit name
    let budget := maxFilenameEncodedBytes - encodedLen extension
    orPlaceholder (truncateByGraphemes d.unicode stem budget encodedLen) ++ extension

/-- `Filename::sanitized`: the text is wrapped without another check. -/
def sanitized (d : UnicodeData) (raw : String) : Except InvalidFilename String :=
  let s := String.ofList (truncateToBudget d (sanitizeFilename raw).toList)
  if isSafeLeaf s then .ok (utf8PercentEncode s) else .error .notASafeLeaf

section Encoding

theorem encodedLen_eq (s : List Char) :
    encodedLen s = (utf8 (percentEncode unreserved (utf8 s))).length := by
  rw [encodedLen, len, utf8PercentEncode, String.toList_ofList, String.toList_ofList]

theorem encodedLen_append (s t : List Char) :
    encodedLen (s ++ t) = encodedLen s + encodedLen t := by
  rw [encodedLen_eq, encodedLen_eq, encodedLen_eq, utf8_append, percentEncode,
    List.flatMap_append, utf8_append, List.length_append]
  rfl

theorem encodedLen_nil : encodedLen [] = 0 := by
  rw [encodedLen_eq]
  rfl

theorem encodedLen_replicate (n : ℕ) (c : Char) :
    encodedLen (List.replicate n c) = n * encodedLen [c] := by
  induction n with
  | zero => rw [List.replicate_zero, encodedLen_nil, Nat.zero_mul]
  | succ n ih =>
    rw [List.replicate_succ, ← List.singleton_append, encodedLen_append, ih, Nat.succ_mul,
      Nat.add_comm]

theorem encodedLen_truncatedStem : encodedLen truncatedStem = 6 := by
  rw [encodedLen_eq]
  decide

end Encoding

section Leaves

variable {s t name : List Char} {raw : String}

/-- The characters that no leaf has. -/
def IsPlainName (s : List Char) : Prop := ∀ c ∈ s, c ≠ '/' ∧ c ≠ '\\' ∧ c ≠ '\x00'

structure IsLeaf (s : List Char) : Prop where
  plain : IsPlainName s
  ne_nil : s ≠ []
  ne_dot : s ≠ ['.']
  ne_dots : s ≠ ['.', '.']

theorem replaceChar_self {a b : Char} (h : ∀ c ∈ s, c ≠ a) : replaceChar a b s = s := by
  have hsame : ∀ c ∈ s, (if c = a then b else c) = c := fun c hc ↦ if_neg (h c hc)
  exact (List.map_congr_left hsame).trans (List.map_id s)

theorem mem_replaceChar {a b c : Char} (h : c ∈ replaceChar a b s) : c = b ∨ c ∈ s ∧ c ≠ a := by
  obtain ⟨e, he, rfl⟩ := List.mem_map.mp h
  by_cases hea : e = a
  · rw [if_pos hea]
    exact .inl rfl
  · rw [if_neg hea]
    exact .inr ⟨he, hea⟩

theorem mem_splitOn {sep : Char} (h : t ∈ s.splitOn sep) : ∀ c ∈ t, c ∈ s ∧ c ≠ sep := by
  induction s generalizing t with
  | nil =>
    rw [List.splitOn_nil, List.mem_singleton] at h
    rw [h]
    exact fun c hc ↦ absurd hc List.not_mem_nil
  | cons x s ih =>
    rw [List.splitOn_cons_eq_if_modifyHead] at h
    have hrest : ∀ part ∈ s.splitOn sep, ∀ c ∈ part, c ∈ x :: s ∧ c ≠ sep :=
      fun part hpart c hc ↦ ⟨List.mem_cons_of_mem x (ih hpart c hc).1, (ih hpart c hc).2⟩
    split_ifs at h with hsep
    · rcases List.mem_cons.mp h with rfl | h
      · exact fun c hc ↦ absurd hc List.not_mem_nil
      · exact hrest t h
    · cases hparts : s.splitOn sep with
      | nil => exact absurd hparts (List.splitOn_ne_nil sep s)
      | cons part parts =>
        rw [hparts, List.modifyHead_cons] at h
        rw [hparts] at hrest
        rcases List.mem_cons.mp h with rfl | h
        · refine List.forall_mem_cons.mpr ⟨⟨List.mem_cons_self, ?_⟩, ?_⟩
          · simpa using hsep
          · exact hrest part List.mem_cons_self
        · exact hrest t (List.mem_cons_of_mem part h)

theorem pathFileName_some {path : List Char} (h : pathFileName path = some s) :
    s ≠ [] ∧ s ≠ ['.'] ∧ s ≠ ['.', '.'] ∧ ∀ c ∈ s, c ∈ path ∧ c ≠ '/' := by
  rw [pathFileName] at h
  cases hlast : ((path.splitOn '/').filter (fun c ↦ c ≠ [] ∧ c ≠ ['.'])).getLast? with
  | none =>
    rw [hlast] at h
    exact absurd h nofun
  | some component =>
    rw [hlast] at h
    dsimp only at h
    split_ifs at h with hdots
    obtain rfl := Option.some.inj h
    obtain ⟨hpart, hkept⟩ := List.mem_filter.mp (List.mem_of_getLast? hlast)
    obtain ⟨hnil, hdot⟩ := of_decide_eq_true hkept
    exact ⟨hnil, hdot, hdots, mem_splitOn hpart⟩

theorem pathFileName_leaf (h : IsLeaf s) : pathFileName s = some s := by
  have hsplit : s.splitOn '/' = [s] :=
    List.splitOn_eq_singleton_of_beq_eq_false (fun c hc ↦ by simpa using (h.plain c hc).1)
  rw [pathFileName, hsplit, List.filter_cons_of_pos (by simp [h.ne_nil, h.ne_dot])]
  exact if_neg h.ne_dots

theorem sanitizeFilename_of_isLeaf (h : IsLeaf s) :
    sanitizeFilename (String.ofList s) = String.ofList s := by
  rw [sanitizeFilename, String.toList_ofList,
    replaceChar_self (fun c hc ↦ (h.plain c hc).2.1), pathFileName_leaf h]
  dsimp only
  rw [replaceChar_self (fun c hc ↦ (h.plain c hc).2.2)]

theorem isSafeLeaf_of_isLeaf (h : IsLeaf s) : isSafeLeaf (String.ofList s) = true := by
  have hsanitize := sanitizeFilename_of_isLeaf h
  have hne (t : List Char) (ht : s ≠ t) : String.ofList s ≠ String.ofList t :=
    fun heq ↦ ht (by simpa using congrArg String.toList heq)
  have hempty : String.ofList s ≠ "" := hne [] h.ne_nil
  have hdot : String.ofList s ≠ "." := hne ['.'] h.ne_dot
  have hdots : String.ofList s ≠ ".." := hne ['.', '.'] h.ne_dots
  simp [isSafeLeaf, hsanitize, hempty, hdot, hdots]

/-- What is left of a client's name is a leaf, or nothing. -/
theorem sanitizeFilename_leaf (h : sanitizeFilename raw ≠ "") :
    IsLeaf (sanitizeFilename raw).toList := by
  rw [sanitizeFilename] at h ⊢
  cases hname : pathFileName (replaceChar '\\' '/' raw.toList) with
  | none =>
    rw [hname] at h
    exact absurd rfl h
  | some component =>
    obtain ⟨hnil, hdot, hdots, hchars⟩ := pathFileName_some hname
    dsimp only
    rw [String.toList_ofList]
    have hback {t : List Char} (heq : replaceChar '\x00' '_' component = t) (ht : '_' ∉ t) :
        component = t := by
      rw [← heq, replaceChar_self]
      rintro c hc rfl
      refine ht ?_
      rw [← heq]
      exact List.mem_map.mpr ⟨_, hc, if_pos rfl⟩
    refine ⟨fun c hc ↦ ?_, fun heq ↦ hnil (hback heq (by simp)),
      fun heq ↦ hdot (hback heq (by simp)), fun heq ↦ hdots (hback heq (by simp))⟩
    rcases mem_replaceChar hc with rfl | ⟨hc, hzero⟩
    · decide
    · obtain ⟨hpath, hslash⟩ := hchars c hc
      refine ⟨hslash, ?_, hzero⟩
      rcases mem_replaceChar hpath with rfl | ⟨-, hback⟩
      · exact absurd rfl hslash
      · exact hback

end Leaves

section Splitting

variable {d : UnicodeData} {name stem extension : List Char}

theorem rsplitFileAtDot_some (h : rsplitFileAtDot name = some (stem, extension)) :
    name = stem ++ '.' :: extension := by
  simp only [rsplitFileAtDot] at h
  split_ifs at h with hnone
  obtain ⟨hstem, hextension⟩ := Prod.mk.inj (Option.some.inj h)
  have hwhole : name.rdropWhile (fun c ↦ decide (c ≠ '.')) ++
      name.rtakeWhile (fun c ↦ decide (c ≠ '.')) = name := List.rdropWhile_append_rtakeWhile
  have hne : name.rdropWhile (fun c ↦ decide (c ≠ '.')) ≠ [] := by
    intro hnil
    rw [hnil] at hnone
    exact hnone (.inr rfl)
  have hlast := List.rdropWhile_last_not (fun c ↦ decide (c ≠ '.')) name hne
  have hdot : (name.rdropWhile (fun c ↦ decide (c ≠ '.'))).getLast hne = '.' := by
    simpa using hlast
  rw [← List.dropLast_append_getLast hne, hdot, hstem, hextension] at hwhole
  rw [← hwhole]
  simp

/-- The extension that a long name keeps: it leaves room for the placeholder. -/
def KeepsExtension (name stem extension : List Char) : Prop :=
  (∃ e, rsplitFileAtDot name = some (stem, e) ∧ extension = '.' :: e ∧
      encodedLen extension + encodedLen truncatedStem ≤ maxFilenameEncodedBytes) ∨
    stem = name ∧ extension = [] ∧ ∀ s e, rsplitFileAtDot name = some (s, e) →
      maxFilenameEncodedBytes < encodedLen ('.' :: e) + encodedLen truncatedStem

theorem KeepsExtension.room (h : KeepsExtension name stem extension) :
    encodedLen extension + encodedLen truncatedStem ≤ maxFilenameEncodedBytes := by
  rcases h with ⟨e, -, -, hroom⟩ | ⟨-, rfl, -⟩
  · exact hroom
  · rw [encodedLen_nil, encodedLen_truncatedStem]
    decide

theorem KeepsExtension.eq (h : KeepsExtension name stem extension) : name = stem ++ extension := by
  rcases h with ⟨e, hsplit, rfl, -⟩ | ⟨rfl, rfl, -⟩
  · exact rsplitFileAtDot_some hsplit
  · rw [List.append_nil]

theorem keepsExtension_budgetSplit (hname : IsLeaf name) :
    KeepsExtension name (budgetSplit name).1 (budgetSplit name).2 := by
  have hstem : stemAndExtension name = rsplitFileAtDot name := by
    rw [stemAndExtension, pathFileName_leaf hname]
    rfl
  rw [budgetSplit, hstem]
  cases hsplit : rsplitFileAtDot name with
  | none =>
    have hroom : ¬encodedLen [] + encodedLen truncatedStem > maxFilenameEncodedBytes := by
      rw [encodedLen_nil, encodedLen_truncatedStem]
      decide
    dsimp only
    rw [if_neg hroom]
    exact .inr ⟨rfl, rfl, fun s e h ↦ absurd (hsplit.symm.trans h) nofun⟩
  | some parts =>
    obtain ⟨stem, e⟩ := parts
    dsimp only
    split_ifs with hfull
    · refine .inr ⟨rfl, rfl, fun s e' h ↦ ?_⟩
      obtain ⟨rfl, rfl⟩ := Prod.mk.inj (Option.some.inj (hsplit.symm.trans h))
      exact hfull
    · exact .inl ⟨e, hsplit, rfl, Nat.le_of_not_lt hfull⟩

/-- The longest run of whole clusters that a budget admits. -/
def IsLongestRun (d : UnicodeData) (stem : List Char) (budget : ℕ) (run : List Char) : Prop :=
  ∃ kept rest, d.unicode.graphemes stem = kept ++ rest ∧ run = kept.flatten ∧
    encodedLen run ≤ budget ∧ ∀ g ∈ rest.head?, budget < encodedLen (run ++ g)

theorem encodedLen_takeFitting (gs : List (List Char)) {budget used : ℕ} (h : used ≤ budget) :
    used + encodedLen (takeFitting budget encodedLen used gs).flatten ≤ budget ∧
      ∃ rest, gs = takeFitting budget encodedLen used gs ++ rest ∧ ∀ g ∈ rest.head?,
        budget < used + encodedLen ((takeFitting budget encodedLen used gs).flatten ++ g) := by
  induction gs generalizing used with
  | nil =>
    refine ⟨?_, [], rfl, nofun⟩
    rw [takeFitting, List.flatten_nil, encodedLen_nil]
    exact h
  | cons g gs ih =>
    rw [takeFitting]
    split_ifs with hfull
    · refine ⟨by rw [List.flatten_nil, encodedLen_nil]; exact h, g :: gs, rfl, fun e he ↦ ?_⟩
      rw [← Option.some.inj he]
      exact hfull
    · have hfit : used + encodedLen g ≤ budget := by omega
      obtain ⟨hcost, rest, hrest, hnext⟩ := ih hfit
      rw [List.flatten_cons, encodedLen_append, ← Nat.add_assoc]
      refine ⟨hcost, rest, by rw [List.cons_append, ← hrest], fun e he ↦ ?_⟩
      have hmore := hnext e he
      rw [encodedLen_append] at hmore ⊢
      rw [encodedLen_append]
      omega

theorem isLongestRun_truncate (d : UnicodeData) (stem : List Char) (budget : ℕ) :
    IsLongestRun d stem budget (truncateByGraphemes d.unicode stem budget encodedLen) := by
  obtain ⟨hcost, rest, hrest, hnext⟩ :=
    encodedLen_takeFitting (d.unicode.graphemes stem) (Nat.zero_le budget)
  simp only [Nat.zero_add] at hcost hnext
  exact ⟨_, rest, hrest, rfl, hcost, hnext⟩

/-- A leaf as it is stored: whole when it fits, else a run of its clusters and its extension. -/
structure Shortens (d : UnicodeData) (name out : List Char) : Prop where
  whole : encodedLen name ≤ maxFilenameEncodedBytes → out = name
  cut : maxFilenameEncodedBytes < encodedLen name → ∃ stem extension run,
    KeepsExtension name stem extension ∧
      IsLongestRun d stem (maxFilenameEncodedBytes - encodedLen extension) run ∧
        out = orPlaceholder run ++ extension

theorem truncateToBudget_whole (h : encodedLen name ≤ maxFilenameEncodedBytes) :
    truncateToBudget d name = name := by
  rw [truncateToBudget, if_pos h]

theorem truncateToBudget_cut (h : ¬encodedLen name ≤ maxFilenameEncodedBytes) :
    truncateToBudget d name = orPlaceholder (truncateByGraphemes d.unicode (budgetSplit name).1
      (maxFilenameEncodedBytes - encodedLen (budgetSplit name).2) encodedLen) ++
        (budgetSplit name).2 := by
  rw [truncateToBudget, if_neg h]

theorem shortens_truncateToBudget (d : UnicodeData) (hname : IsLeaf name) :
    Shortens d name (truncateToBudget d name) := by
  have hkeeps := keepsExtension_budgetSplit hname
  refine ⟨truncateToBudget_whole, fun hlong ↦ ?_⟩
  have hrun := isLongestRun_truncate d (budgetSplit name).1
    (maxFilenameEncodedBytes - encodedLen (budgetSplit name).2)
  exact ⟨_, _, _, hkeeps, hrun, truncateToBudget_cut (Nat.not_le_of_lt hlong)⟩

theorem isPlainName_mono {s t : List Char} (h : IsPlainName t) (hsub : s ⊆ t) : IsPlainName s :=
  fun c hc ↦ h c (hsub hc)

theorem IsLongestRun.subset {budget : ℕ} {run : List Char} (h : IsLongestRun d stem budget run) :
    run ⊆ stem := by
  obtain ⟨kept, rest, hgraphemes, rfl, -, -⟩ := h
  have hwhole := (segments_segmented (Slug.joins_isLocal (d := d)) stem).2
  rw [← Slug.graphemes_eq, hgraphemes, List.flatten_append] at hwhole
  intro c hc
  rw [← hwhole]
  exact List.mem_append_left _ hc

/-- What a leaf is shortened to is a leaf that fits. -/
theorem Shortens.leaf {out : List Char} (hname : IsLeaf name) (h : Shortens d name out) :
    IsLeaf out ∧ encodedLen out ≤ maxFilenameEncodedBytes := by
  by_cases hfits : encodedLen name ≤ maxFilenameEncodedBytes
  · rw [h.whole hfits]
    exact ⟨hname, hfits⟩
  · obtain ⟨stem, extension, run, hkeeps, hrun, rfl⟩ := h.cut (Nat.lt_of_not_le hfits)
    have hroom := hkeeps.room
    have hplain := hname.plain
    rw [hkeeps.eq] at hplain
    have hextension : IsPlainName extension :=
      isPlainName_mono hplain (fun c hc ↦ List.mem_append_right _ hc)
    have hstem : IsPlainName run :=
      isPlainName_mono hplain (fun c hc ↦ List.mem_append_left _ (hrun.subset hc))
    obtain ⟨-, -, -, -, hcost, -⟩ := hrun
    rw [orPlaceholder]
    split_ifs with hdegenerate
    · refine ⟨⟨fun c hc ↦ ?_, by simp [truncatedStem], by simp [truncatedStem],
        by simp [truncatedStem]⟩, ?_⟩
      · rcases List.mem_append.mp hc with hc | hc
        · have hletters : IsPlainName truncatedStem := by simp [IsPlainName, truncatedStem]
          exact hletters c hc
        · exact hextension c hc
      · rw [encodedLen_append]
        omega
    · obtain ⟨hnil, hdot, hdots⟩ : run ≠ [] ∧ run ≠ ['.'] ∧ run ≠ ['.', '.'] := by
        simpa using hdegenerate
      obtain ⟨c, cs, rfl⟩ := List.exists_cons_of_ne_nil hnil
      refine ⟨⟨fun c hc ↦ ?_, by simp, fun heq ↦ ?_, fun heq ↦ ?_⟩, ?_⟩
      · exact (List.mem_append.mp hc).elim (hstem c) (hextension c)
      · rw [List.cons_append, List.cons.injEq, List.append_eq_nil_iff] at heq
        exact hdot (by rw [heq.1, heq.2.1])
      · cases cs with
        | nil =>
          rw [List.singleton_append, List.cons.injEq] at heq
          exact hdot (by rw [heq.1])
        | cons c' cs =>
          rw [List.cons_append, List.cons_append, List.cons.injEq, List.cons.injEq,
            List.append_eq_nil_iff] at heq
          exact hdots (by rw [heq.1, heq.2.1, heq.2.2.1])
      · rw [encodedLen_append]
        omega

end Splitting

section Intake

variable {d : UnicodeData} {raw : String}

theorem canonicalSpelling_encode {s : String} (hsafe : isSafeLeaf s = true)
    (hfits : len (utf8PercentEncode s) ≤ maxFilenameEncodedBytes) :
    CanonicalSpelling (utf8PercentEncode s) := by
  refine ⟨?_, ?_, hfits⟩
  · rw [percentDecodeLossy_encode]
    exact hsafe
  · rw [percentDecodeLossy_encode]

theorem sanitized_empty (h : sanitizeFilename raw = "") :
    sanitized d raw = .error .notASafeLeaf := by
  have hfits : encodedLen [] ≤ maxFilenameEncodedBytes := by
    rw [encodedLen_nil]
    exact Nat.zero_le _
  have hnil : truncateToBudget d "".toList = [] := truncateToBudget_whole hfits
  rw [sanitized, h, hnil]
  rfl

theorem sanitized_safe {out : List Char}
    (h : truncateToBudget d (sanitizeFilename raw).toList = out)
    (hsafe : isSafeLeaf (String.ofList out) = true) :
    sanitized d raw = .ok (utf8PercentEncode (String.ofList out)) := by
  simp only [sanitized, h, hsafe, if_true]

theorem sanitized_nonempty (h : sanitizeFilename raw ≠ "") :
    ∃ f : Filename, sanitized d raw = .ok f.value ∧ Filename.fromStr f.value = .ok f ∧
      len f.value ≤ maxFilenameEncodedBytes ∧ isSafeLeaf f.decoded = true ∧
        Shortens d (sanitizeFilename raw).toList f.decoded.toList := by
  have hname := sanitizeFilename_leaf h
  obtain ⟨out, hout⟩ : ∃ out, truncateToBudget d (sanitizeFilename raw).toList = out := ⟨_, rfl⟩
  have hshort := shortens_truncateToBudget d hname
  rw [hout] at hshort
  obtain ⟨hleaf, hfits⟩ := hshort.leaf hname
  rw [encodedLen] at hfits
  have hsafe := isSafeLeaf_of_isLeaf hleaf
  obtain ⟨f, hvalue⟩ : ∃ f : Filename, f.value = utf8PercentEncode (String.ofList out) :=
    ⟨⟨_, canonicalSpelling_encode hsafe hfits⟩, rfl⟩
  have hdecoded : f.decoded = String.ofList out := by
    rw [Filename.decoded, hvalue, percentDecodeLossy_encode]
  refine ⟨f, ?_, fromStr_eq_ok_iff.mpr rfl, f.spelling.short, f.spelling.safe, ?_⟩
  · rw [hvalue]
    exact sanitized_safe hout hsafe
  · rw [hdecoded, String.toList_ofList]
    exact hshort

/-- The intake door refuses a name of which nothing is left, and else gives a stored spelling. -/
theorem sanitized_spec (d : UnicodeData) (raw : String) :
    (sanitizeFilename raw = "" → sanitized d raw = .error .notASafeLeaf) ∧
      (sanitizeFilename raw ≠ "" → ∃ f : Filename, sanitized d raw = .ok f.value ∧
        Filename.fromStr f.value = .ok f ∧ len f.value ≤ maxFilenameEncodedBytes ∧
          isSafeLeaf f.decoded = true ∧
            Shortens d (sanitizeFilename raw).toList f.decoded.toList) :=
  ⟨sanitized_empty, sanitized_nonempty⟩

/-- One letter with fifty marks: a single cluster, too long by itself. -/
def markedStem : List Char := 'a' :: List.replicate 50 Slug.fatha

def markedPhoto : List Char := markedStem ++ ['.', 'j', 'p', 'g']

theorem encodedLen_markedStem : encodedLen markedStem = 301 := by
  have hmark : encodedLen [Slug.fatha] = 6 := by
    rw [encodedLen_eq]
    decide
  have hletter : encodedLen ['a'] = 1 := by
    rw [encodedLen_eq]
    decide
  rw [markedStem, ← List.singleton_append, encodedLen_append, encodedLen_replicate, hmark, hletter]

theorem encodedLen_jpg : encodedLen ['.', 'j', 'p', 'g'] = 4 := by
  rw [encodedLen_eq]
  decide

theorem isLeaf_markedPhoto : IsLeaf markedPhoto := by
  refine ⟨fun c hc ↦ ?_, nofun, nofun, nofun⟩
  have hextension : IsPlainName ['.', 'j', 'p', 'g'] := List.forall_iff_forall_mem.mp (by decide)
  have hchars : c = 'a' ∨ c = Slug.fatha ∨ c ∈ ['.', 'j', 'p', 'g'] := by
    rcases List.mem_append.mp hc with hc | hc
    · rcases List.mem_cons.mp hc with rfl | hc
      · exact .inl rfl
      · exact .inr (.inl (List.eq_of_mem_replicate hc))
    · exact .inr (.inr hc)
  rcases hchars with rfl | rfl | hc
  · decide
  · decide
  · exact hextension c hc

theorem graphemes_markedStem : Slug.sampleData.unicode.graphemes markedStem = [markedStem] := by
  decide +kernel

theorem rsplitFileAtDot_markedPhoto :
    rsplitFileAtDot markedPhoto = some (markedStem, ['j', 'p', 'g']) := by
  decide

theorem budgetSplit_markedPhoto :
    (budgetSplit markedPhoto).1 = markedStem ∧
      (budgetSplit markedPhoto).2 = ['.', 'j', 'p', 'g'] := by
  rcases keepsExtension_budgetSplit isLeaf_markedPhoto with ⟨e, hsplit, hextension, -⟩ | ⟨-, -, hfull⟩
  · obtain ⟨hstem, he⟩ :=
      Prod.mk.inj (Option.some.inj (rsplitFileAtDot_markedPhoto.symm.trans hsplit))
    exact ⟨hstem.symm, by rw [hextension, ← he]⟩
  · have hroom := hfull _ _ rsplitFileAtDot_markedPhoto
    rw [encodedLen_jpg, encodedLen_truncatedStem] at hroom
    exact absurd hroom (by decide)

theorem truncateToBudget_markedPhoto :
    truncateToBudget Slug.sampleData markedPhoto = truncatedStem ++ ['.', 'j', 'p', 'g'] := by
  have hlong : ¬encodedLen markedPhoto ≤ maxFilenameEncodedBytes := by
    rw [markedPhoto, encodedLen_append, encodedLen_markedStem, encodedLen_jpg]
    decide
  obtain ⟨hstem, hextension⟩ := budgetSplit_markedPhoto
  have hover : 0 + encodedLen markedStem > maxFilenameEncodedBytes - 4 := by
    rw [encodedLen_markedStem]
    decide
  have hrun : truncateByGraphemes Slug.sampleData.unicode markedStem (maxFilenameEncodedBytes - 4)
      encodedLen = [] := by
    rw [truncateByGraphemes, graphemes_markedStem, takeFitting, if_pos hover, List.flatten_nil]
  rw [truncateToBudget_cut hlong, hstem, hextension, encodedLen_jpg, hrun]
  rfl

theorem encode_uploadJpg :
    utf8PercentEncode (String.ofList (truncatedStem ++ ['.', 'j', 'p', 'g'])) = "upload.jpg" := by
  decide

/-- What is kept of a long name need not begin its stem, though its extension leaves room. -/
theorem sanitized_markedPhoto :
    sanitizeFilename (String.ofList markedPhoto) = String.ofList markedPhoto ∧
      rsplitFileAtDot markedPhoto = some (markedStem, ['j', 'p', 'g']) ∧
        encodedLen ['.', 'j', 'p', 'g'] = 4 ∧
          sanitized Slug.sampleData (String.ofList markedPhoto) = .ok "upload.jpg" ∧
            ∀ stem, stem <+: markedStem →
              (percentDecodeLossy "upload.jpg").toList ≠ stem ++ ['.', 'j', 'p', 'g'] := by
  have hsanitize := sanitizeFilename_of_isLeaf isLeaf_markedPhoto
  refine ⟨hsanitize, rsplitFileAtDot_markedPhoto, encodedLen_jpg, ?_, ?_⟩
  · have hout : truncateToBudget Slug.sampleData
        (sanitizeFilename (String.ofList markedPhoto)).toList =
          truncatedStem ++ ['.', 'j', 'p', 'g'] := by
      rw [hsanitize, String.toList_ofList, truncateToBudget_markedPhoto]
    rw [sanitized_safe hout (by decide), encode_uploadJpg]
  · rintro stem ⟨rest, hrest⟩ heq
    have hdecoded : (percentDecodeLossy "upload.jpg").toList =
        truncatedStem ++ ['.', 'j', 'p', 'g'] := by
      rw [← encode_uploadJpg, percentDecodeLossy_encode, String.toList_ofList]
    rw [← List.append_cancel_right (hdecoded.symm.trans heq), truncatedStem, List.cons_append]
      at hrest
    exact absurd (List.cons.inj hrest).1 (by decide)

end Intake

end Jaunder.Common.Media
