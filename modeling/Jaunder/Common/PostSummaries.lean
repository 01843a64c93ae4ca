import Jaunder.Common.OrgNormalization
import Jaunder.Foundation.ByteOffsets
import Jaunder.Foundation.Trimming

namespace Jaunder.Common.PostSummaries

open Foundation.ByteOffsets
open Foundation.Trimming (Tight)
open Jaunder.Common.Body (PostBody trimStart)
open Jaunder.Common.Org (PostSummary)
open Jaunder.Common.PostNaming (PostTitle isSentenceEnd nonEmptyTrimmedPrefix splitOnce)
open Jaunder.Common.PostText (isWhitespace maxPostSummaryChars postSummary trim trimEnd)

section Model

inductive Panic
  /-- A slice that does not end at a character. -/
  | charBoundary
  | unreachable
deriving DecidableEq

def maxCompactSummaryChars : ℕ := 100

/-- `&s[..end]`. -/
def upTo (s : List Char) (stop : ℕ) : Except Panic (List Char) :=
  match sliceTo stop s with
  | some t => .ok t
  | none => .error .charBoundary

/-- `and_then(|end| non_empty_trimmed_prefix(&hard_cap[..end]))`. -/
def cutPrefix (hardCap : List Char) : Option ℕ → Except Panic (Option (List Char))
  | none => .ok none
  | some stop => do
    let kept ← upTo hardCap stop
    .ok (nonEmptyTrimmedPrefix kept)

/-- The code with its byte offsets; `PostNaming.truncateAtTextBoundary` has none. -/
def truncateAtTextBoundary (input : List Char) (maxScalars : ℕ) : Except Panic (List Char) :=
  if input.length ≤ maxScalars then .ok input
  else do
    let hardCap := input.take maxScalars
    let sentence ← cutPrefix hardCap ((charIndices hardCap).reverse.findSome?
      (at? isSentenceEnd fun idx ch ↦ idx + ch.utf8Size))
    match sentence with
    | some kept => .ok kept
    | none =>
      let word ← cutPrefix hardCap ((charIndices hardCap).reverse.findSome?
        (at? isWhitespace fun idx _ ↦ idx))
      .ok (word.getD hardCap)

def fromTitle (title : PostTitle) : Except Panic (List Char) :=
  truncateAtTextBoundary title.text maxPostSummaryChars

/-- The line that `from_body_line` truncates. -/
def bodyLine (body : PostBody) : List Char :=
  let rest := trimStart body.text
  trimEnd (((splitOnce '\n' rest).map Prod.fst).getD rest)

def fromBodyLine (body : PostBody) : Except Panic (List Char) :=
  truncateAtTextBoundary (bodyLine body) maxCompactSummaryChars

/-- `str::split_whitespace`. -/
def splitWhitespace (s : List Char) : List (List Char) :=
  (s.splitOnP isWhitespace).filter (· ≠ [])

def normalizeSummaryWhitespace (input : List Char) : List Char :=
  List.intercalate [' '] (splitWhitespace input)

def isCloser (c : Char) : Bool := c ∈ ['\'', '"', '’', '”', ')', ']', '\x7d']

/-- The loop over the closing quotes and brackets after the terminator. -/
def closersEnd (terminatorEnd : ℕ) : ℕ → List (ℕ × Char) → ℕ
  | stop, [] => stop
  | stop, (offset, character) :: rest =>
    if isCloser character then
      closersEnd terminatorEnd (terminatorEnd + offset + character.utf8Size) rest
    else stop

def truncateAtFirstSentenceOrWordBoundary (input : List Char) (maxScalars : ℕ) :
    Except Panic (List Char) :=
  let hardCap := input.take maxScalars
  match (charIndices hardCap).findSome? (at? isSentenceEnd fun idx ch ↦ idx + ch.utf8Size) with
  | some terminatorEnd =>
    match sliceFrom terminatorEnd hardCap with
    | none => .error .charBoundary
    | some after => upTo hardCap (closersEnd terminatorEnd terminatorEnd (charIndices after))
  | none =>
    if input.length ≤ maxScalars then .ok input
    else do
      let word ← cutPrefix hardCap ((charIndices hardCap).reverse.findSome?
        (at? isWhitespace fun idx _ ↦ idx))
      .ok (word.getD hardCap)

/-- `let Ok(summary) = text.parse() else { unreachable!(..) }`. -/
def parsed (text : List Char) : Except Panic PostSummary :=
  match PostSummary.fromStr text with
  | some summary => .ok summary
  | none => .error .unreachable

/-- `clean` and `decode` are the sanitizer and the entity decoder. -/
def summarizeRenderedHtml (clean decode : List Char → List Char) (html : List Char) :
    Except Panic (Option PostSummary) :=
  let normalized := normalizeSummaryWhitespace (decode (clean html))
  if normalized = [] then .ok none
  else do
    let text ← truncateAtFirstSentenceOrWordBoundary normalized maxPostSummaryChars
    let summary ← parsed text
    .ok (some summary)

inductive UnpublishedPostLabel
  | slug (slug : List Char)
  | summary (summary : PostSummary)
deriving DecidableEq

/-- The closures of `map_or_else`. -/
def effectiveLabel (slug : List Char) : Option PostSummary → Except Panic UnpublishedPostLabel
  | none => .ok (.slug slug)
  | some summary => do
    let text ← truncateAtFirstSentenceOrWordBoundary (normalizeSummaryWhitespace summary.text)
      maxCompactSummaryChars
    let summary ← parsed text
    .ok (.summary summary)

def compactFallbackLabel (clean decode : List Char → List Char) (summary : Option PostSummary)
    (renderedHtml slug : List Char) : Except Panic UnpublishedPostLabel := do
  let effective ←
    match summary with
    | some summary => .ok (some summary)
    | none => summarizeRenderedHtml clean decode renderedHtml
  effectiveLabel slug effective

example : truncateAtFirstSentenceOrWordBoundary "First?\")] Second.".toList 500 =
    .ok "First?\")]".toList := by decide +kernel

end Model

section Words

variable {α : Type} {p : α → Bool} {s w sep : List α} {ws : List (List α)} {c : α}

theorem mem_splitOnP (hw : w ∈ s.splitOnP p) : ∀ c ∈ w, p c = false := by
  induction s generalizing w with
  | nil =>
    obtain rfl := List.mem_singleton.mp hw
    exact fun c hc ↦ absurd hc List.not_mem_nil
  | cons d s ih =>
    rw [List.splitOnP_cons_eq_if_modifyHead] at hw
    split at hw
    · rcases List.mem_cons.mp hw with rfl | hw
      · exact fun c hc ↦ absurd hc List.not_mem_nil
      · exact ih hw
    · rename_i hd
      obtain ⟨first, rest, hsplit⟩ := List.exists_cons_of_ne_nil (List.splitOnP_ne_nil p s)
      rw [hsplit, List.modifyHead_cons] at hw
      rw [hsplit] at ih
      rcases List.mem_cons.mp hw with rfl | hw
      · exact List.forall_mem_cons.mpr ⟨eq_false_of_ne_true hd, ih List.mem_cons_self⟩
      · exact ih (List.mem_cons_of_mem first hw)

theorem exists_mem_splitOnP (hc : c ∈ s) (hp : p c = false) : ∃ w ∈ s.splitOnP p, c ∈ w := by
  induction s with
  | nil => exact absurd hc List.not_mem_nil
  | cons d s ih =>
    obtain ⟨first, rest, hsplit⟩ := List.exists_cons_of_ne_nil (List.splitOnP_ne_nil p s)
    rw [List.splitOnP_cons_eq_if_modifyHead]
    rcases List.mem_cons.mp hc with rfl | hc
    · rw [hp, if_neg Bool.false_ne_true, hsplit]
      exact ⟨c :: first, List.mem_cons_self, List.mem_cons_self⟩
    · obtain ⟨w, hw, hcw⟩ := ih hc
      split
      · exact ⟨w, List.mem_cons_of_mem _ hw, hcw⟩
      · rw [hsplit] at hw ⊢
        rcases List.mem_cons.mp hw with rfl | hw
        · exact ⟨d :: w, List.mem_cons_self, List.mem_cons_of_mem d hcw⟩
        · exact ⟨w, List.mem_cons_of_mem _ hw, hcw⟩

theorem intercalate_ne_nil (hne : ws ≠ []) (hws : ∀ w ∈ ws, w ≠ []) :
    List.intercalate sep ws ≠ [] := by
  obtain ⟨w, rest, rfl⟩ := List.exists_cons_of_ne_nil hne
  have hw := hws w List.mem_cons_self
  cases rest with
  | nil =>
    rw [List.intercalate_singleton]
    exact hw
  | cons w' rest =>
    rw [List.intercalate_cons_cons]
    exact List.append_ne_nil_of_left_ne_nil (List.append_ne_nil_of_left_ne_nil hw _) _

/-- Words that are joined leave no blank at the ends. -/
theorem tight_intercalate (hws : ∀ w ∈ ws, w ≠ [] ∧ ∀ c ∈ w, p c = false) :
    Tight p (List.intercalate sep ws) := by
  induction ws with
  | nil => exact Foundation.Trimming.tight_of_forall fun c hc ↦ absurd hc List.not_mem_nil
  | cons w rest ih =>
    obtain ⟨⟨hne, hw⟩, hrest⟩ := List.forall_mem_cons.mp hws
    cases rest with
    | nil =>
      rw [List.intercalate_singleton]
      exact Foundation.Trimming.tight_of_forall hw
    | cons w' rest =>
      have hmore : List.intercalate sep (w' :: rest) ≠ [] :=
        intercalate_ne_nil (List.cons_ne_nil _ _) fun w hw ↦ (hrest w hw).1
      rw [List.intercalate_cons_cons]
      refine ⟨fun c hc ↦ ?_, fun c hc ↦ ?_⟩
      · rw [List.append_assoc, List.head?_append_of_ne_nil _ hne] at hc
        exact hw c (List.mem_of_mem_head? hc)
      · rw [List.getLast?_append_of_ne_nil _ hmore] at hc
        exact (ih hrest).last c hc

end Words

section Normalization

variable {s : List Char}

theorem mem_splitWhitespace {w : List Char} (hw : w ∈ splitWhitespace s) :
    w ≠ [] ∧ ∀ c ∈ w, isWhitespace c = false := by
  obtain ⟨hw, hne⟩ := List.mem_filter.mp hw
  exact ⟨of_decide_eq_true hne, mem_splitOnP hw⟩

theorem tight_normalizeSummaryWhitespace (s : List Char) :
    Tight isWhitespace (normalizeSummaryWhitespace s) :=
  tight_intercalate fun _ hw ↦ mem_splitWhitespace hw

theorem normalizeSummaryWhitespace_ne_nil {c : Char} (hc : c ∈ s) (hblank : isWhitespace c = false) :
    normalizeSummaryWhitespace s ≠ [] := by
  obtain ⟨w, hw, hcw⟩ := exists_mem_splitOnP hc hblank
  have hmem : w ∈ splitWhitespace s :=
    List.mem_filter.mpr ⟨hw, decide_eq_true (List.ne_nil_of_mem hcw)⟩
  exact intercalate_ne_nil (List.ne_nil_of_mem hmem) fun w hw ↦ (mem_splitWhitespace hw).1

end Normalization

section Offsets

variable {kind : Char → Bool} {s a b : List Char} {c : Char}

theorem upTo_append (a b : List Char) : upTo (a ++ b) (byteLen a) = .ok a := by
  rw [upTo, sliceTo_append]

theorem upToLast_eq (a : List Char) (hc : kind c = true) (hb : ∀ d ∈ b, kind d = false) :
    PostNaming.upToLast kind (a ++ c :: b) = a ++ [c] := by
  have hblank : Foundation.Trimming.Blank (fun d ↦ !kind d) b := fun d hd ↦
    (Bool.not_eq_true' _).mpr (hb d hd)
  rw [PostNaming.upToLast, ← List.singleton_append, ← List.append_assoc, hblank.rdropWhile,
    List.rdropWhile_concat_neg _ _ _ (by rw [hc]; exact Bool.false_ne_true)]

theorem upToLast_eq_nil (hs : ∀ d ∈ s, kind d = false) : PostNaming.upToLast kind s = [] := by
  rw [PostNaming.upToLast, List.rdropWhile_eq_nil_iff]
  intro d hd
  rw [hs d hd]
  rfl

theorem forall_of_not_exists (h : ¬∃ c ∈ s, kind c = true) : ∀ d ∈ s, kind d = false :=
  fun d hd ↦ eq_false_of_ne_true fun hkind ↦ h ⟨d, hd, hkind⟩

theorem cutPrefix_after (kind : Char → Bool) (s : List Char) :
    cutPrefix s ((charIndices s).reverse.findSome? (at? kind fun idx ch ↦ idx + ch.utf8Size)) =
      .ok (nonEmptyTrimmedPrefix (PostNaming.upToLast kind s)) := by
  by_cases hkind : ∃ c ∈ s, kind c = true
  · obtain ⟨a, c, b, rfl, hc, hb⟩ := exists_last hkind
    have hcut : upTo (a ++ c :: b) (byteLen a + c.utf8Size) = .ok (a ++ [c]) := by
      have h := upTo_append (a ++ [c]) b
      rwa [List.append_assoc, byteLen_append] at h
    rw [findSome?_last a hc hb, upToLast_eq a hc hb, cutPrefix, hcut]
    rfl
  · have hnone := forall_of_not_exists hkind
    rw [charIndices, findSome?_reverse_none hnone, upToLast_eq_nil hnone]
    rfl

theorem cutPrefix_before (kind : Char → Bool) (s : List Char) :
    cutPrefix s ((charIndices s).reverse.findSome? (at? kind fun idx _ ↦ idx)) =
      .ok (nonEmptyTrimmedPrefix (PostNaming.upToLast kind s).dropLast) := by
  by_cases hkind : ∃ c ∈ s, kind c = true
  · obtain ⟨a, c, b, rfl, hc, hb⟩ := exists_last hkind
    rw [findSome?_last a hc hb, upToLast_eq a hc hb, cutPrefix, upTo_append, List.dropLast_concat]
    rfl
  · have hnone := forall_of_not_exists hkind
    rw [charIndices, findSome?_reverse_none hnone, upToLast_eq_nil hnone]
    rfl

/-- No slice of the code panics, and what it returns is what its model on characters does. -/
theorem truncateAtTextBoundary_eq (input : List Char) (maxScalars : ℕ) :
    truncateAtTextBoundary input maxScalars =
      .ok (PostNaming.truncateAtTextBoundary input maxScalars) := by
  rw [truncateAtTextBoundary, PostNaming.truncateAtTextBoundary]
  split
  · rfl
  · dsimp only
    rw [cutPrefix_after]
    change (match nonEmptyTrimmedPrefix _ with | some kept => _ | none => _) = _
    cases nonEmptyTrimmedPrefix (PostNaming.upToLast isSentenceEnd (input.take maxScalars)) with
    | some sentence => rfl
    | none =>
      dsimp only
      rw [cutPrefix_before]
      cases nonEmptyTrimmedPrefix
        (PostNaming.upToLast isWhitespace (input.take maxScalars)).dropLast <;> rfl

/-- The loop stops after the closing quotes and brackets. -/
theorem closersEnd_eq (terminatorEnd i : ℕ) (s : List Char) :
    closersEnd terminatorEnd (terminatorEnd + i) (charIndicesFrom i s) =
      terminatorEnd + i + byteLen (s.takeWhile isCloser) := by
  induction s generalizing i with
  | nil => rfl
  | cons c s ih =>
    rw [charIndicesFrom, closersEnd]
    by_cases hc : isCloser c = true
    · rw [if_pos hc, List.takeWhile_cons_of_pos hc, byteLen_cons, Nat.add_assoc terminatorEnd i, ih]
      omega
    · rw [if_neg hc, List.takeWhile_cons_of_neg hc]
      rfl

end Offsets

section Cuts

variable {limit : ℕ} {source s t kept : List Char}

/-- What a truncation leaves of its source. -/
structure Cut (limit : ℕ) (source t : List Char) : Prop where
  nonempty : t ≠ []
  bounded : t.length ≤ limit
  tight : Tight isWhitespace t
  begins : t <+: source

theorem head?_of_isPrefix {c : Char} (h : t <+: s) (hc : c ∈ t.head?) : c ∈ s.head? := by
  obtain ⟨more, rfl⟩ := h
  cases t with
  | nil => cases hc
  | cons d t => exact hc

theorem tight_trimEnd (h : ∀ c ∈ t.head?, isWhitespace c = false) :
    Tight isWhitespace (trimEnd t) := by
  refine ⟨fun c hc ↦ h c (head?_of_isPrefix (List.rdropWhile_prefix _ _) hc), fun c hc ↦ ?_⟩
  obtain ⟨hne, rfl⟩ := List.mem_getLast?_eq_getLast hc
  exact eq_false_of_ne_true (List.rdropWhile_last_not isWhitespace t hne)

/-- A trimmed prefix of a tight text is tight. -/
theorem tight_nonEmptyTrimmedPrefix (hs : Tight isWhitespace s) (hpre : t <+: s)
    (h : nonEmptyTrimmedPrefix t = some kept) :
    kept ≠ [] ∧ Tight isWhitespace kept ∧ kept <+: t := by
  rw [nonEmptyTrimmedPrefix] at h
  split_ifs at h with hne
  obtain rfl := Option.some.inj h
  refine ⟨hne, tight_trimEnd fun c hc ↦ ?_, List.rdropWhile_prefix _ _⟩
  exact hs.first c (head?_of_isPrefix hpre hc)

theorem Cut.ofStart (hs : Tight isWhitespace source) (hpre : t <+: source.take limit)
    (h : nonEmptyTrimmedPrefix t = some kept) : Cut limit source kept := by
  have hsource := hpre.trans (List.take_prefix limit source)
  obtain ⟨hne, htight, hkept⟩ := tight_nonEmptyTrimmedPrefix hs hsource h
  refine ⟨hne, ?_, htight, hkept.trans hsource⟩
  calc kept.length ≤ t.length := hkept.length_le
    _ ≤ (source.take limit).length := hpre.length_le
    _ ≤ limit := List.length_take_le limit source

theorem Cut.whole (hs : Tight isWhitespace source) (hne : source ≠ [])
    (hlength : source.length ≤ limit) : Cut limit source source :=
  ⟨hne, hlength, hs, List.prefix_rfl⟩

theorem upToLast_isPrefix (kind : Char → Bool) (s : List Char) : PostNaming.upToLast kind s <+: s :=
  List.rdropWhile_prefix _ _

/-- The hard cap is cut where it is because no white space is in it. -/
theorem Cut.hardCap (hs : Tight isWhitespace source) (hne : source ≠ []) (hlimit : 0 < limit)
    (h : nonEmptyTrimmedPrefix (PostNaming.upToLast isWhitespace (source.take limit)).dropLast =
      none) : Cut limit source (source.take limit) := by
  have hnonempty : source.take limit ≠ [] := by
    rw [Ne, List.take_eq_nil_iff, not_or]
    exact ⟨hlimit.ne', hne⟩
  have hpre := List.take_prefix limit source
  refine ⟨hnonempty, List.length_take_le limit source, ?_, hpre⟩
  refine Foundation.Trimming.tight_of_forall (forall_of_not_exists fun hkind ↦ ?_)
  obtain ⟨a, c, b, hcap, hc, hb⟩ := exists_last hkind
  rw [hcap, upToLast_eq a hc hb, List.dropLast_concat, nonEmptyTrimmedPrefix] at h
  split_ifs at h with hblank
  have ha := List.rdropWhile_eq_nil_iff.mp (not_not.mp hblank)
  have hhead : ∃ d ∈ (source.take limit).head?, isWhitespace d = true := by
    rw [hcap]
    cases a with
    | nil => exact ⟨c, rfl, hc⟩
    | cons d a => exact ⟨d, rfl, ha d List.mem_cons_self⟩
  obtain ⟨d, hd, hws⟩ := hhead
  rw [hs.first d (head?_of_isPrefix hpre hd)] at hws
  cases hws

theorem truncateAtTextBoundary_cut (hs : Tight isWhitespace source) (hne : source ≠ [])
    (hlimit : 0 < limit) : ∃ t, truncateAtTextBoundary source limit = .ok t ∧ Cut limit source t := by
  refine ⟨_, truncateAtTextBoundary_eq source limit, ?_⟩
  rw [PostNaming.truncateAtTextBoundary]
  split
  · exact .whole hs hne ‹_›
  · dsimp only
    split
    · exact .ofStart hs (upToLast_isPrefix _ _) ‹_›
    · split
      · exact .ofStart hs ((List.dropLast_prefix _).trans (upToLast_isPrefix _ _)) ‹_›
      · exact .hardCap hs hne hlimit ‹_›

theorem isWhitespace_of_isSentenceEnd {c : Char} (h : isSentenceEnd c = true) :
    isWhitespace c = false := by
  rw [isSentenceEnd, decide_eq_true_eq] at h
  rcases h with rfl | rfl | rfl <;> rfl

theorem isWhitespace_of_isCloser {c : Char} (h : isCloser c = true) : isWhitespace c = false := by
  have hclosers := List.forall_iff_forall_mem.mp
    (show List.Forall (fun c ↦ isWhitespace c = false) ['\'', '"', '’', '”', ')', ']', '\x7d'] by
      decide)
  exact hclosers c (of_decide_eq_true h)

/-- A sentence that ends in its terminator and closing marks. -/
theorem Cut.sentence {a b : List Char} {c : Char} (hs : Tight isWhitespace source)
    (hcap : source.take limit = a ++ c :: b) (hc : isSentenceEnd c = true) :
    Cut limit source (a ++ c :: b.takeWhile isCloser) := by
  have hinner : a ++ c :: b.takeWhile isCloser <+: source.take limit := by
    rw [hcap]
    exact (List.prefix_append_right_inj a).mpr
      (List.cons_prefix_cons.mpr ⟨rfl, List.takeWhile_prefix isCloser⟩)
  have hpre := hinner.trans (List.take_prefix limit source)
  refine ⟨List.append_ne_nil_of_right_ne_nil _ (List.cons_ne_nil _ _), ?_, ⟨?_, ?_⟩, hpre⟩
  · exact hinner.length_le.trans (List.length_take_le limit source)
  · exact fun d hd ↦ hs.first d (head?_of_isPrefix hpre hd)
  · intro d hd
    rw [List.getLast?_append_of_ne_nil _ (List.cons_ne_nil _ _)] at hd
    rcases List.mem_cons.mp (List.mem_of_mem_getLast? hd) with rfl | hd
    · exact isWhitespace_of_isSentenceEnd hc
    · exact isWhitespace_of_isCloser (List.mem_takeWhile_imp hd)

theorem truncateAtFirstSentenceOrWordBoundary_cut (hs : Tight isWhitespace source)
    (hne : source ≠ []) (hlimit : 0 < limit) :
    ∃ t, truncateAtFirstSentenceOrWordBoundary source limit = .ok t ∧ Cut limit source t := by
  rw [truncateAtFirstSentenceOrWordBoundary]
  by_cases hkind : ∃ c ∈ source.take limit, isSentenceEnd c = true
  · obtain ⟨a, c, b, hcap, ha, hc⟩ := exists_first hkind
    have hlen : byteLen a + c.utf8Size = byteLen (a ++ [c]) := by rw [byteLen_append]; rfl
    have hsplit : a ++ c :: b = a ++ [c] ++ b := by rw [List.append_assoc]; rfl
    have hstop : closersEnd (byteLen a + c.utf8Size) (byteLen a + c.utf8Size) (charIndices b) =
        byteLen (a ++ c :: b.takeWhile isCloser) := by
      rw [byteLen_append, byteLen_cons, ← Nat.add_assoc]
      exact closersEnd_eq (byteLen a + c.utf8Size) 0 b
    have hwhole : a ++ c :: b = (a ++ c :: b.takeWhile isCloser) ++ b.dropWhile isCloser := by
      rw [List.append_assoc, List.cons_append, List.takeWhile_append_dropWhile]
    have hafter : sliceFrom (byteLen a + c.utf8Size) (a ++ c :: b) = some b := by
      rw [hlen, hsplit, sliceFrom_append]
    refine ⟨_, ?_, .sentence hs hcap hc⟩
    rw [hcap, findSome?_first ha hc]
    dsimp only
    rw [hafter]
    dsimp only
    rw [hstop]
    nth_rewrite 1 [hwhole]
    exact upTo_append _ _
  · rw [charIndices, findSome?_none (forall_of_not_exists hkind)]
    dsimp only
    split
    · exact ⟨source, rfl, .whole hs hne ‹_›⟩
    · have hword := cutPrefix_before isWhitespace (source.take limit)
      rw [charIndices] at hword
      rw [hword]
      cases hcut : nonEmptyTrimmedPrefix
        (PostNaming.upToLast isWhitespace (source.take limit)).dropLast with
      | some word =>
        exact ⟨word, rfl, .ofStart hs ((List.dropLast_prefix _).trans (upToLast_isPrefix _ _)) hcut⟩
      | none => exact ⟨_, rfl, .hardCap hs hne hlimit hcut⟩

end Cuts

section Sources

variable {s text : List Char}

theorem trim_eq_of_tight (h : Tight isWhitespace s) : trim s = s := h.trimBy_eq

theorem tight_of_nonEmpty (h : PostText.nonEmpty s = some text) :
    Tight isWhitespace text ∧ text ≠ [] := by
  rw [PostText.nonEmpty] at h
  split_ifs at h with hne
  obtain rfl := Option.some.inj h
  exact ⟨Foundation.Trimming.tight_trimBy isWhitespace s, hne⟩

theorem tight_title (title : PostTitle) : Tight isWhitespace title.text ∧ title.text ≠ [] := by
  have hvalid := title.valid
  rw [PostText.postTitle] at hvalid
  split_ifs at hvalid
  exact tight_of_nonEmpty hvalid

theorem tight_summary (summary : PostSummary) :
    Tight isWhitespace summary.text ∧ summary.text ≠ [] := by
  obtain ⟨s, hs⟩ := summary.valid
  obtain ⟨trimmed, htrimmed, hbound⟩ := Option.bind_eq_some_iff.mp hs
  split_ifs at hbound
  obtain rfl := Option.some.inj hbound
  exact tight_of_nonEmpty htrimmed

theorem mem_of_mem_lines {line : List Char} {c : Char}
    (hline : line ∈ Foundation.TextLines.lines s) (hc : c ∈ line) : c ∈ s := by
  induction s generalizing line with
  | nil => exact absurd hline List.not_mem_nil
  | cons d s ih =>
    rw [Foundation.TextLines.lines] at hline
    split_ifs at hline with hfeed hreturn
    · rcases List.mem_cons.mp hline with rfl | hline
      · exact absurd hc List.not_mem_nil
      · exact List.mem_cons_of_mem d (ih hline hc)
    · exact List.mem_cons_of_mem d (ih hline hc)
    · cases hlines : Foundation.TextLines.lines s with
      | nil =>
        rw [hlines] at hline
        obtain rfl := List.mem_singleton.mp hline
        obtain rfl := List.mem_singleton.mp hc
        exact List.mem_cons_self
      | cons first rest =>
        rw [hlines] at hline ih
        rcases List.mem_cons.mp hline with rfl | hline
        · rcases List.mem_cons.mp hc with rfl | hc
          · exact List.mem_cons_self
          · exact List.mem_cons_of_mem d (ih List.mem_cons_self hc)
        · exact List.mem_cons_of_mem d (ih (List.mem_cons_of_mem first hline) hc)

/-- The first line of a body that is not blank. -/
theorem tight_bodyLine (body : PostBody) :
    Tight isWhitespace (bodyLine body) ∧ bodyLine body ≠ [] := by
  have hstart : trimStart body.text ≠ [] := by
    intro hnil
    have hblank := List.dropWhile_eq_nil_iff.mp hnil
    have hall : (Foundation.TextLines.lines body.text).all (fun line ↦ trim line = []) = true := by
      rw [List.all_eq_true]
      intro line hline
      exact decide_eq_true (Foundation.Trimming.trimBy_of_blank fun c hc ↦
        hblank c (mem_of_mem_lines hline hc))
    exact Bool.false_ne_true (body.valid.symm.trans hall)
  obtain ⟨c, rest, hrest⟩ := List.exists_cons_of_ne_nil hstart
  have hc : isWhitespace c = false := by
    have hhead := List.head?_dropWhile_not isWhitespace body.text
    rw [← trimStart, hrest] at hhead
    exact hhead
  have hnewline : (!decide (c = '\n')) = true := by
    rw [Bool.not_eq_true', decide_eq_false_iff_not]
    rintro rfl
    cases hc
  have hline : ∃ more, ((splitOnce '\n' (trimStart body.text)).map Prod.fst).getD
      (trimStart body.text) = c :: more := by
    rw [hrest, splitOnce]
    split
    · rw [List.takeWhile_cons_of_pos (p := fun d ↦ !decide (d = '\n')) hnewline]
      exact ⟨_, rfl⟩
    · exact ⟨rest, rfl⟩
  obtain ⟨more, hmore⟩ := hline
  rw [bodyLine, hmore]
  refine ⟨tight_trimEnd fun d hd ↦ ?_, fun hnil ↦ ?_⟩
  · obtain rfl := Option.mem_some_iff.mp hd
    exact hc
  · have hws := List.rdropWhile_eq_nil_iff.mp hnil c List.mem_cons_self
    rw [hc] at hws
    cases hws

end Sources

section Summaries

variable {limit : ℕ} {source t : List Char} {clean decode : List Char → List Char}

/-- A summary that was made of a text: some first characters of it that are a summary. -/
structure Derived (limit : ℕ) (source t : List Char) : Prop where
  nonempty : t ≠ []
  bounded : t.length ≤ limit
  trimmed : trim t = t
  begins : t <+: source
  accepted : postSummary t = some t

theorem Cut.derived (h : Cut limit source t) (hlimit : limit ≤ maxPostSummaryChars) :
    Derived limit source t := by
  have htrim := trim_eq_of_tight h.tight
  refine ⟨h.nonempty, h.bounded, htrim, h.begins, ?_⟩
  have hnonempty : PostText.nonEmpty t = some t := by
    rw [PostText.nonEmpty, htrim]
    exact if_neg h.nonempty
  rw [postSummary, PostText.boundedNonEmpty, hnonempty]
  exact if_pos (h.bounded.trans hlimit)

theorem parsed_eq (h : postSummary t = some t) :
    ∃ summary, parsed t = .ok summary ∧ summary.text = t := by
  rw [parsed, PostSummary.fromStr]
  split
  · rename_i text htext
    split at htext
    · rename_i text' htext'
      obtain rfl := Option.some.inj htext
      exact ⟨_, rfl, Option.some.inj (htext'.symm.trans h)⟩
    · cases htext
  · rename_i hnone
    split at hnone
    · cases hnone
    · rename_i hfail
      exact absurd (hfail.symm.trans h) nofun

theorem parsed_truncated (hs : Tight isWhitespace source) (hne : source ≠ []) (hpos : 0 < limit)
    (hlimit : limit ≤ maxPostSummaryChars) :
    ∃ summary, (do
      let text ← truncateAtFirstSentenceOrWordBoundary source limit
      parsed text) = .ok summary ∧ Derived limit source summary.text := by
  obtain ⟨t, ht, hcut⟩ := truncateAtFirstSentenceOrWordBoundary_cut hs hne hpos
  have hderived := hcut.derived hlimit
  obtain ⟨summary, hparsed, rfl⟩ := parsed_eq hderived.accepted
  rw [ht]
  exact ⟨summary, hparsed, hderived⟩

theorem fromTitle_derived (title : PostTitle) :
    ∃ t, fromTitle title = .ok t ∧ Derived maxPostSummaryChars title.text t := by
  obtain ⟨htight, hne⟩ := tight_title title
  have hpos : 0 < maxPostSummaryChars := by decide
  obtain ⟨t, ht, hcut⟩ := truncateAtTextBoundary_cut htight hne hpos
  exact ⟨t, ht, hcut.derived le_rfl⟩

theorem fromBodyLine_derived (body : PostBody) :
    ∃ t, fromBodyLine body = .ok t ∧ Derived maxCompactSummaryChars (bodyLine body) t := by
  obtain ⟨htight, hne⟩ := tight_bodyLine body
  have hpos : 0 < maxCompactSummaryChars := by decide
  obtain ⟨t, ht, hcut⟩ := truncateAtTextBoundary_cut htight hne hpos
  exact ⟨t, ht, hcut.derived (by decide)⟩

theorem summarizeRenderedHtml_derived (clean decode : List Char → List Char) (html : List Char) :
    ∃ r, summarizeRenderedHtml clean decode html = .ok r ∧
      ∀ summary ∈ r, Derived maxPostSummaryChars
        (normalizeSummaryWhitespace (decode (clean html))) summary.text := by
  rw [summarizeRenderedHtml]
  split_ifs with hnil
  · exact ⟨none, rfl, nofun⟩
  · have hpos : 0 < maxPostSummaryChars := by decide
    obtain ⟨summary, hsummary, hderived⟩ :=
      parsed_truncated (tight_normalizeSummaryWhitespace _) hnil hpos le_rfl
    refine ⟨some summary, ?_, fun summary' h ↦ ?_⟩
    · rw [← bind_assoc, hsummary]
      rfl
    · obtain rfl := Option.mem_some_iff.mp h
      exact hderived

/-- The label that stands for a post: its slug, or what was made of the effective summary. -/
def LabelOf (effective : Option PostSummary) (slug : List Char) : UnpublishedPostLabel → Prop
  | .slug s => effective = none ∧ s = slug
  | .summary label => ∃ source ∈ effective,
      Derived maxCompactSummaryChars (normalizeSummaryWhitespace source.text) label.text

theorem effectiveLabel_ok (slug : List Char) (effective : Option PostSummary) :
    ∃ label, effectiveLabel slug effective = .ok label ∧ LabelOf effective slug label := by
  cases effective with
  | none => exact ⟨.slug slug, rfl, rfl, rfl⟩
  | some source =>
    obtain ⟨htight, hne⟩ := tight_summary source
    obtain ⟨c, rest, htext⟩ := List.exists_cons_of_ne_nil hne
    have hblank : isWhitespace c = false := htight.first c (by rw [htext]; rfl)
    have hmem : c ∈ source.text := htext ▸ List.mem_cons_self
    have hpos : 0 < maxCompactSummaryChars := by decide
    obtain ⟨label, hlabel, hderived⟩ := parsed_truncated (tight_normalizeSummaryWhitespace _)
      (normalizeSummaryWhitespace_ne_nil hmem hblank) hpos (by decide)
    refine ⟨.summary label, ?_, source, rfl, hderived⟩
    rw [effectiveLabel, ← bind_assoc, hlabel]
    rfl

theorem compactFallbackLabel_derived (clean decode : List Char → List Char)
    (summary : Option PostSummary) (html slug : List Char) :
    ∃ summarized label, summarizeRenderedHtml clean decode html = .ok summarized ∧
      compactFallbackLabel clean decode summary html slug = .ok label ∧
      LabelOf (summary.or summarized) slug label := by
  obtain ⟨summarized, hsummarized, -⟩ := summarizeRenderedHtml_derived clean decode html
  have heffective : compactFallbackLabel clean decode summary html slug =
      effectiveLabel slug (summary.or summarized) := by
    cases summary with
    | some summary => rfl
    | none =>
      change (summarizeRenderedHtml clean decode html >>= effectiveLabel slug) = _
      rw [hsummarized]
      rfl
  obtain ⟨label, hlabel, hof⟩ := effectiveLabel_ok slug (summary.or summarized)
  exact ⟨summarized, label, hsummarized, heffective.trans hlabel, hof⟩

/-- No slice and no `unreachable!` of the derived summaries is reached, and each one is a summary. -/
theorem derived_summaries (clean decode : List Char → List Char) (title : PostTitle)
    (body : PostBody) (summary : Option PostSummary) (html slug : List Char) :
    (∃ t, fromTitle title = .ok t ∧ Derived 500 title.text t) ∧
    (∃ t, fromBodyLine body = .ok t ∧ Derived 100 (bodyLine body) t) ∧
    (∃ summarized label, summarizeRenderedHtml clean decode html = .ok summarized ∧
      (∀ summary ∈ summarized, Derived 500
        (normalizeSummaryWhitespace (decode (clean html))) summary.text) ∧
      compactFallbackLabel clean decode summary html slug = .ok label ∧
      LabelOf (summary.or summarized) slug label) := by
  obtain ⟨summarized, label, hsummarized, hlabel, hof⟩ :=
    compactFallbackLabel_derived clean decode summary html slug
  obtain ⟨r, hr, hderived⟩ := summarizeRenderedHtml_derived clean decode html
  obtain rfl : r = summarized := Except.ok.inj (hr.symm.trans hsummarized)
  exact ⟨fromTitle_derived title, fromBodyLine_derived body, r, label, hr, hderived, hlabel, hof⟩

end Summaries

end Jaunder.Common.PostSummaries
