import Jaunder.Common.Etag
import Jaunder.Server.Conditional
import Mathlib.Data.List.TakeWhile

namespace Jaunder.Server.EntityTagList

open Jaunder.Common.Etag
open Jaunder.Server.Conditional

def Ows (s : List UInt8) : Prop := s.all isOws = true

/-- An entity tag as the grammar has it. -/
structure EntityTag where
  weak : Bool
  inner : List UInt8
  valid : inner.all isEtagc = true

def EntityTag.opaqueTag (tag : EntityTag) : List UInt8 := 0x22 :: tag.inner ++ [0x22]

def EntityTag.text (tag : EntityTag) : List UInt8 :=
  (if tag.weak then [0x57, 0x2f] else []) ++ tag.opaqueTag

/-- The weak comparison reads the opaque tags only. -/
def EntityTag.WeaklyEquals (tag other : EntityTag) : Prop := tag.opaqueTag = other.opaqueTag

inductive Element
  | empty
  | tag (entityTag : EntityTag)

def Element.text : Element → List UInt8
  | .empty => []
  | .tag found => found.text

/-- The comma list of the grammar: optional elements, each between optional white space. -/
inductive Lists : List UInt8 → List Element → Prop
  | one (before after : List UInt8) (element : Element) (hbefore : Ows before)
      (hafter : Ows after) : Lists (before ++ element.text ++ after) [element]
  | cons (before after rest : List UInt8) (element : Element) (elements : List Element)
      (hbefore : Ows before) (hafter : Ows after) (hrest : Lists rest elements) :
      Lists (before ++ element.text ++ after ++ 0x2c :: rest) (element :: elements)

def Wildcard (value : List UInt8) : Prop :=
  ∃ before after, Ows before ∧ Ows after ∧ value = before ++ 0x2a :: after

def Element.isEmpty : Element → Bool
  | .empty => true
  | .tag _ => false

def emptyCount (elements : List Element) : ℕ := (elements.filter Element.isEmpty).length

/-- The grammar of the whole field, with the empty elements that are tolerated. -/
def Accepts (value : List UInt8) (elements : List Element) : Prop :=
  Lists value elements ∧ emptyCount elements ≤ maxIgnoredEmptyElements

/-- The value that stands for several field lines. -/
def combined (values : List (List UInt8)) : List UInt8 := List.intercalate [0x2c, 0x20] values

def readFieldValues (currentEtag : List UInt8) :
    EntityTagCondition → List (List UInt8) → FieldValue
  | condition, [] => .ok condition
  | condition, value :: rest =>
    match parseFieldValue value currentEtag condition with
    | .ok condition => readFieldValues currentEtag condition rest
    | .err => .err
    | .panicked => .panicked

def FieldValue.answer : FieldValue → Option Bool
  | .ok condition => some condition.matches
  | .err => some false
  | .panicked => none

theorem matchFieldValues_eq (currentEtag : List UInt8) (condition : EntityTagCondition)
    (values : List (List UInt8)) :
    matchFieldValues currentEtag condition values =
      FieldValue.answer (readFieldValues currentEtag condition values) := by
  induction values generalizing condition with
  | nil => rfl
  | cons value rest ih =>
    rw [matchFieldValues, readFieldValues]
    cases parseFieldValue value currentEtag condition with
    | ok next => exact ih next
    | err => rfl
    | panicked => rfl

section Suffix

def readOpaque : List UInt8 → Option (List UInt8 × List UInt8)
  | [] => none
  | byte :: rest =>
    if byte = 0x22 then (scanTag rest).map (fun n ↦ (byte :: rest.take n, rest.drop n)) else none

/-- `parse_entity_tag` on what is left of the value, with what is left behind the tag. -/
def readTag (s : List UInt8) : Option (List UInt8 × List UInt8) :=
  readOpaque (if s.take 2 = [0x57, 0x2f] then s.drop 2 else s)

/-- The loop of `parse_field_value` on what is left of the value. -/
def readField (currentEtag : List UInt8) : ℕ → List UInt8 → EntityTagCondition → FieldValue
  | 0, _, _ => .panicked
  | fuel + 1, s, condition =>
    match s.dropWhile isOws with
    | [] => .ofOption condition.emptyElement
    | byte :: rest =>
      if byte = 0x2c then
        match condition.emptyElement with
        | none => .err
        | some condition => readField currentEtag fuel rest condition
      else if byte = 0x2a then
        if rest.dropWhile isOws ≠ [] then .err else .ofOption condition.wildcard
      else
        match readTag (byte :: rest) with
        | none => .err
        | some (opaqueTag, rest) =>
          match condition.entityTag opaqueTag currentEtag with
          | none => .err
          | some condition =>
            match rest.dropWhile isOws with
            | [] => .ok condition
            | byte :: rest =>
              if byte ≠ 0x2c then .err else readField currentEtag fuel rest condition

theorem scanTag_le {s : List UInt8} {n : ℕ} (h : scanTag s = some n) : 0 < n ∧ n ≤ s.length := by
  induction s generalizing n with
  | nil => exact absurd h (by simp [scanTag])
  | cons byte rest ih =>
    rw [scanTag] at h
    split_ifs at h with hquote hetagc
    · obtain rfl : 1 = n := Option.some.inj h
      exact ⟨one_pos, by simp⟩
    · obtain ⟨m, hm, rfl⟩ := Option.map_eq_some_iff.mp h
      have hle := (ih hm).2
      simp only [List.length_cons]
      omega

theorem drop_skipOws (value : List UInt8) (cursor : ℕ) :
    value.drop (skipOws value cursor) = (value.drop cursor).dropWhile isOws := by
  rw [skipOws, ← List.drop_drop]
  generalize value.drop cursor = s
  induction s with
  | nil => rfl
  | cons byte s ih =>
    by_cases hbyte : isOws byte = true
    · rw [List.takeWhile_cons_of_pos hbyte, List.dropWhile_cons_of_pos hbyte, List.length_cons,
        List.drop_succ_cons, ih]
    · rw [List.takeWhile_cons_of_neg hbyte, List.dropWhile_cons_of_neg hbyte]
      rfl

theorem skipOws_le {value : List UInt8} {cursor : ℕ} (h : cursor ≤ value.length) :
    skipOws value cursor ≤ value.length := by
  have hle := (List.takeWhile_sublist isOws (l := value.drop cursor)).length_le
  rw [List.length_drop] at hle
  rw [skipOws]
  omega

theorem drop_eq_nil_iff_eq {value : List UInt8} {cursor : ℕ} (h : cursor ≤ value.length) :
    cursor = value.length ↔ value.drop cursor = [] := by
  rw [List.drop_eq_nil_iff]
  omega

theorem readTag_drop (value : List UInt8) (cursor : ℕ) :
    readTag (value.drop cursor) =
      (parseEntityTag value cursor).map (fun found ↦ (found.1, value.drop found.2)) := by
  rw [readTag, parseEntityTag]
  generalize hstart : (if (value.drop cursor).take 2 = [0x57, 0x2f] then cursor + 2
    else cursor) = start
  have hs : (if (value.drop cursor).take 2 = [0x57, 0x2f] then (value.drop cursor).drop 2
      else value.drop cursor) = value.drop start := by
    rw [← hstart]
    split_ifs
    · rw [List.drop_drop]
    · rfl
  rw [hs]
  cases hdrop : value.drop start with
  | nil =>
    have hget : value[start]? = none := by rw [← List.head?_drop, hdrop, List.head?_nil]
    rw [hget]
    rfl
  | cons byte rest =>
    have hget : value[start]? = some byte := by rw [← List.head?_drop, hdrop, List.head?_cons]
    have htail : value.drop (start + 1) = rest := by rw [← List.tail_drop, hdrop, List.tail_cons]
    rw [readOpaque, hget, htail]
    by_cases hquote : byte = 0x22
    · rw [if_pos hquote, if_pos (by rw [hquote]), Option.map_map]
      congr 1
      funext n
      rw [Function.comp_apply, List.take_succ_cons, ← List.drop_drop, htail]
    · rw [if_neg hquote, if_neg (fun h ↦ hquote (Option.some.inj h))]
      rfl

theorem parseEntityTag_le {value opaqueTag : List UInt8} {cursor next : ℕ}
    (h : parseEntityTag value cursor = some (opaqueTag, next)) :
    cursor < next ∧ next ≤ value.length := by
  rw [parseEntityTag] at h
  generalize hstart : (if (value.drop cursor).take 2 = [0x57, 0x2f] then cursor + 2
    else cursor) = start at h
  have hle : cursor ≤ start := by
    rw [← hstart]
    split_ifs
    · exact Nat.le_add_right cursor 2
    · exact le_refl cursor
  by_cases hquote : value[start]? = some 0x22
  · rw [if_pos hquote] at h
    obtain ⟨n, hn, hpair⟩ := Option.map_eq_some_iff.mp h
    have hscan := (scanTag_le hn).2
    obtain ⟨hlt, -⟩ := List.getElem?_eq_some_iff.mp hquote
    rw [List.length_drop] at hscan
    obtain rfl : start + 1 + n = next := (Prod.mk.inj hpair).2
    omega
  · rw [if_neg hquote] at h
    exact absurd h (by simp)

theorem getElem?_of_drop {value rest : List UInt8} {byte : UInt8} {cursor : ℕ}
    (h : value.drop cursor = byte :: rest) :
    value[cursor]? = some byte ∧ value.drop (cursor + 1) = rest ∧ cursor ≠ value.length ∧
      cursor + 1 ≤ value.length := by
  have hget : value[cursor]? = some byte := by rw [← List.head?_drop, h, List.head?_cons]
  obtain ⟨hlt, -⟩ := List.getElem?_eq_some_iff.mp hget
  have htail : value.drop (cursor + 1) = rest := by rw [← List.tail_drop, h, List.tail_cons]
  exact ⟨hget, htail, Nat.ne_of_lt hlt, hlt⟩

theorem parseFieldValueFrom_eq (value currentEtag : List UInt8) (fuel : ℕ) :
    ∀ (cursor : ℕ) (condition : EntityTagCondition), cursor ≤ value.length →
      parseFieldValueFrom value currentEtag fuel cursor condition =
        readField currentEtag fuel (value.drop cursor) condition := by
  induction fuel with
  | zero => exact fun _ _ _ ↦ rfl
  | succ fuel ih =>
    intro cursor condition hcursor
    rw [parseFieldValueFrom, readField, ← drop_skipOws]
    have hskip := skipOws_le hcursor
    generalize skipOws value cursor = start at hskip ⊢
    cases hdrop : value.drop start with
    | nil => rw [if_pos ((drop_eq_nil_iff_eq hskip).mpr hdrop)]
    | cons byte rest =>
      obtain ⟨hget, htail, hne, hlt⟩ := getElem?_of_drop hdrop
      simp only [if_neg hne, hget]
      by_cases hcomma : byte = 0x2c
      · simp only [if_pos hcomma]
        cases condition.emptyElement with
        | none => rfl
        | some condition => exact (ih (start + 1) condition hlt).trans (by rw [htail])
      by_cases hstar : byte = 0x2a
      · simp only [if_neg hcomma, if_pos hstar]
        have hbehind := skipOws_le hlt
        rw [← htail, ← drop_skipOws]
        simp only [ne_eq, drop_eq_nil_iff_eq hbehind]
      simp only [if_neg hcomma, if_neg hstar]
      rw [← hdrop, readTag_drop]
      cases htag : parseEntityTag value start with
      | none => rfl
      | some found =>
        obtain ⟨opaqueTag, next⟩ := found
        simp only [Option.map_some]
        cases condition.entityTag opaqueTag currentEtag with
        | none => rfl
        | some condition =>
          have hnext := skipOws_le (parseEntityTag_le htag).2
          rw [← drop_skipOws]
          simp only
          generalize skipOws value next = behind at hnext ⊢
          cases hrest : value.drop behind with
          | nil => rw [if_pos ((drop_eq_nil_iff_eq hnext).mpr hrest)]
          | cons byte rest =>
            obtain ⟨hget', htail', hne', hlt'⟩ := getElem?_of_drop hrest
            simp only [if_neg hne', hget']
            split_ifs
            · rfl
            · exact (ih (behind + 1) condition hlt').trans (by rw [htail'])

theorem length_dropWhile_le (s : List UInt8) : (s.dropWhile isOws).length ≤ s.length :=
  (List.dropWhile_sublist isOws).length_le

theorem readTag_length {s opaqueTag rest : List UInt8} (h : readTag s = some (opaqueTag, rest)) :
    rest.length < s.length := by
  have hdrop := readTag_drop s 0
  rw [List.drop_zero, h] at hdrop
  obtain ⟨⟨_, next⟩, hparse, hpair⟩ := Option.map_eq_some_iff.mp hdrop.symm
  obtain ⟨hpos, hle⟩ := parseEntityTag_le hparse
  obtain rfl : s.drop next = rest := (Prod.mk.inj hpair).2
  rw [List.length_drop]
  omega

/-- More fuel than there are bytes left changes nothing. -/
theorem readField_fuel (currentEtag : List UInt8) (fuel : ℕ) :
    ∀ (more : ℕ) (s : List UInt8) (condition : EntityTagCondition),
      s.length < fuel → s.length < more →
      readField currentEtag fuel s condition = readField currentEtag more s condition := by
  induction fuel with
  | zero => exact fun _ _ _ h _ ↦ absurd h (Nat.not_lt_zero _)
  | succ fuel ih =>
    intro more s condition hfuel hmore
    obtain ⟨more, rfl⟩ : ∃ n, more = n + 1 := ⟨more - 1, by omega⟩
    rw [readField, readField]
    have hle := length_dropWhile_le s
    cases hs : s.dropWhile isOws with
    | nil => rfl
    | cons byte rest =>
      rw [hs, List.length_cons] at hle
      simp only
      by_cases hcomma : byte = 0x2c
      · simp only [if_pos hcomma]
        cases condition.emptyElement with
        | none => rfl
        | some condition => exact ih more rest condition (by omega) (by omega)
      by_cases hstar : byte = 0x2a
      · simp only [if_neg hcomma, if_pos hstar]
      simp only [if_neg hcomma, if_neg hstar]
      cases htag : readTag (byte :: rest) with
      | none => rfl
      | some found =>
        obtain ⟨opaqueTag, rest'⟩ := found
        have hlt := readTag_length htag
        rw [List.length_cons] at hlt
        simp only
        cases condition.entityTag opaqueTag currentEtag with
        | none => rfl
        | some condition =>
          have hle' := length_dropWhile_le rest'
          simp only
          cases hrest : rest'.dropWhile isOws with
          | nil => rfl
          | cons byte rest =>
            rw [hrest, List.length_cons] at hle'
            simp only
            split_ifs
            · rfl
            · exact ih more rest condition (by omega) (by omega)

/-- One value, with the fuel that it needs. -/
def readValue (currentEtag s : List UInt8) (condition : EntityTagCondition) : FieldValue :=
  readField currentEtag (s.length + 1) s condition

theorem parseFieldValue_eq (value currentEtag : List UInt8) (condition : EntityTagCondition) :
    parseFieldValue value currentEtag condition = readValue currentEtag value condition := by
  rw [parseFieldValue, parseFieldValueFrom_eq value currentEtag _ 0 condition (Nat.zero_le _),
    List.drop_zero, readValue]

theorem readValue_step (currentEtag s : List UInt8) (condition : EntityTagCondition) :
    readValue currentEtag s condition =
      match s.dropWhile isOws with
      | [] => .ofOption condition.emptyElement
      | byte :: rest =>
        if byte = 0x2c then
          match condition.emptyElement with
          | none => .err
          | some condition => readValue currentEtag rest condition
        else if byte = 0x2a then
          if rest.dropWhile isOws ≠ [] then .err else .ofOption condition.wildcard
        else
          match readTag (byte :: rest) with
          | none => .err
          | some (opaqueTag, rest) =>
            match condition.entityTag opaqueTag currentEtag with
            | none => .err
            | some condition =>
              match rest.dropWhile isOws with
              | [] => .ok condition
              | byte :: rest =>
                if byte ≠ 0x2c then .err else readValue currentEtag rest condition := by
  rw [readValue, readField]
  have hle := length_dropWhile_le s
  cases hs : s.dropWhile isOws with
  | nil => rfl
  | cons byte rest =>
    rw [hs, List.length_cons] at hle
    simp only
    by_cases hcomma : byte = 0x2c
    · simp only [if_pos hcomma]
      cases condition.emptyElement with
      | none => rfl
      | some condition => exact readField_fuel currentEtag _ _ rest condition (by omega) (by omega)
    by_cases hstar : byte = 0x2a
    · simp only [if_neg hcomma, if_pos hstar]
    simp only [if_neg hcomma, if_neg hstar]
    cases htag : readTag (byte :: rest) with
    | none => rfl
    | some found =>
      obtain ⟨opaqueTag, rest'⟩ := found
      have hlt := readTag_length htag
      rw [List.length_cons] at hlt
      simp only
      cases condition.entityTag opaqueTag currentEtag with
      | none => rfl
      | some condition =>
        have hle' := length_dropWhile_le rest'
        simp only
        cases hrest : rest'.dropWhile isOws with
        | nil => rfl
        | cons byte rest =>
          rw [hrest, List.length_cons] at hle'
          simp only
          split_ifs
          · rfl
          · exact readField_fuel currentEtag _ _ rest condition (by omega) (by omega)

end Suffix

section Tags

theorem scanTag_inner {inner : List UInt8} (hinner : inner.all isEtagc = true)
    (rest : List UInt8) : scanTag (inner ++ 0x22 :: rest) = some (inner.length + 1) := by
  induction inner with
  | nil => rfl
  | cons byte inner ih =>
    obtain ⟨hbyte, hinner⟩ := Bool.and_eq_true_iff.mp (List.all_cons ▸ hinner)
    have hquote : byte ≠ 0x22 := by
      rintro rfl
      exact absurd hbyte (by decide)
    rw [List.cons_append, scanTag, if_neg hquote, if_pos hbyte, ih hinner, List.length_cons]
    rfl

theorem exists_of_scanTag {s : List UInt8} {n : ℕ} (h : scanTag s = some n) :
    ∃ inner rest, inner.all isEtagc = true ∧ s = inner ++ 0x22 :: rest ∧ n = inner.length + 1 := by
  induction s generalizing n with
  | nil => exact absurd h (by simp [scanTag])
  | cons byte s ih =>
    rw [scanTag] at h
    split_ifs at h with hquote hetagc
    · exact ⟨[], s, rfl, by rw [hquote, List.nil_append], (Option.some.inj h).symm⟩
    · obtain ⟨m, hm, rfl⟩ := Option.map_eq_some_iff.mp h
      obtain ⟨inner, rest, hinner, rfl, rfl⟩ := ih hm
      exact ⟨byte :: inner, rest, by rw [List.all_cons, hetagc, hinner]; rfl, rfl, rfl⟩

theorem readOpaque_text (tag : EntityTag) (rest : List UInt8) :
    readOpaque (tag.opaqueTag ++ rest) = some (tag.opaqueTag, rest) := by
  have hsplit : tag.inner ++ 0x22 :: rest = (tag.inner ++ [0x22]) ++ rest := by
    rw [List.append_assoc, List.singleton_append]
  have hlength : tag.inner.length + 1 = (tag.inner ++ [0x22]).length := by
    rw [List.length_append, List.length_singleton]
  have hcons : tag.opaqueTag ++ rest = 0x22 :: (tag.inner ++ 0x22 :: rest) := by
    rw [EntityTag.opaqueTag, hsplit, List.cons_append, List.cons_append]
  rw [hcons, readOpaque, if_pos rfl, scanTag_inner tag.valid rest, Option.map_some, hsplit, hlength,
    List.take_left, List.drop_left]
  rfl

theorem readTag_text (tag : EntityTag) (rest : List UInt8) :
    readTag (tag.text ++ rest) = some (tag.opaqueTag, rest) := by
  rw [readTag, EntityTag.text]
  cases tag.weak with
  | false =>
    rw [if_neg (fun h ↦ ?_)]
    · exact readOpaque_text tag rest
    · exact absurd (List.cons.inj h).1 (by decide)
  | true =>
    rw [if_pos rfl]
    exact readOpaque_text tag rest

theorem exists_of_readOpaque {s opaqueTag rest : List UInt8}
    (h : readOpaque s = some (opaqueTag, rest)) :
    ∃ inner, inner.all isEtagc = true ∧ opaqueTag = 0x22 :: inner ++ [0x22] ∧
      s = opaqueTag ++ rest := by
  cases s with
  | nil => exact absurd h (by simp [readOpaque])
  | cons byte s =>
    rw [readOpaque] at h
    split_ifs at h with hquote
    obtain ⟨n, hn, hpair⟩ := Option.map_eq_some_iff.mp h
    obtain ⟨inner, behind, hinner, rfl, rfl⟩ := exists_of_scanTag hn
    have hsplit : inner ++ 0x22 :: behind = (inner ++ [0x22]) ++ behind := by
      rw [List.append_assoc, List.singleton_append]
    have hlength : inner.length + 1 = (inner ++ [0x22]).length := by
      rw [List.length_append, List.length_singleton]
    rw [hsplit, hlength, List.take_left, List.drop_left, hquote] at hpair
    obtain ⟨rfl, rfl⟩ := Prod.mk.inj hpair
    exact ⟨inner, hinner, rfl, by rw [hquote, hsplit, List.cons_append]⟩

theorem exists_of_readTag {s opaqueTag rest : List UInt8}
    (h : readTag s = some (opaqueTag, rest)) :
    ∃ tag : EntityTag, s = tag.text ++ rest ∧ opaqueTag = tag.opaqueTag := by
  rw [readTag] at h
  obtain ⟨inner, hinner, hopaque, hs⟩ := exists_of_readOpaque h
  split_ifs at hs with hweak
  · refine ⟨⟨true, inner, hinner⟩, ?_, hopaque⟩
    rw [← List.take_append_drop 2 s, hweak, hs, hopaque]
    rfl
  · exact ⟨⟨false, inner, hinner⟩, by rw [hs, hopaque]; rfl, hopaque⟩

/-- No byte of a tag is a space. -/
theorem space_not_mem_text (tag : EntityTag) : (0x20 : UInt8) ∉ tag.text := by
  intro h
  rw [EntityTag.text, EntityTag.opaqueTag, List.mem_append] at h
  rcases h with h | h
  · split_ifs at h
    · exact absurd h (by decide)
    · exact absurd h (by simp)
  · rw [List.cons_append, List.mem_cons, List.mem_append] at h
    rcases h with h | h | h
    · exact absurd h (by decide)
    · exact absurd (List.all_eq_true.mp tag.valid _ h) (by decide)
    · exact absurd h (by decide)

theorem readTag_append (s t : List UInt8) :
    readTag (s ++ 0x2c :: 0x20 :: t) =
      (readTag s).map (fun found ↦ (found.1, found.2 ++ 0x2c :: 0x20 :: t)) := by
  cases hs : readTag s with
  | some found =>
    obtain ⟨opaqueTag, rest⟩ := found
    obtain ⟨tag, rfl, rfl⟩ := exists_of_readTag hs
    rw [List.append_assoc, readTag_text]
    rfl
  | none =>
    cases hall : readTag (s ++ 0x2c :: 0x20 :: t) with
    | none => rfl
    | some found =>
      exfalso
      obtain ⟨opaqueTag, rest⟩ := found
      obtain ⟨tag, heq, -⟩ := exists_of_readTag hall
      rcases List.append_eq_append_iff.mp heq with ⟨behind, htext, hrest⟩ | ⟨behind, hs', -⟩
      · -- The tag would have to go on past the comma, and so over the space.
        cases behind with
        | nil =>
          rw [List.append_nil] at htext
          rw [← htext, ← List.append_nil tag.text, readTag_text] at hs
          exact absurd hs (by simp)
        | cons first behind =>
          obtain ⟨rfl, htail⟩ := List.cons.inj hrest
          cases behind with
          | nil =>
            have hlast := congrArg List.getLast? htext
            rw [EntityTag.text, EntityTag.opaqueTag, ← List.append_assoc, List.getLast?_concat,
              List.getLast?_concat] at hlast
            exact absurd (Option.some.inj hlast) (by decide)
          | cons second behind =>
            obtain ⟨rfl, -⟩ := List.cons.inj htail
            refine space_not_mem_text tag ?_
            rw [htext]
            exact List.mem_append_right s (List.mem_cons_of_mem _ List.mem_cons_self)
      · rw [hs', readTag_text] at hs
        exact absurd hs (by simp)

end Tags

section Whitespace

theorem ows_iff {s : List UInt8} : Ows s ↔ s.dropWhile isOws = [] := by
  rw [Ows, List.all_eq_true, List.dropWhile_eq_nil_iff]

theorem dropWhile_ows_append {before : List UInt8} (hbefore : Ows before) (s : List UInt8) :
    (before ++ s).dropWhile isOws = s.dropWhile isOws :=
  List.dropWhile_append_of_pos (List.all_eq_true.mp hbefore)

theorem dropWhile_append_of_ne_nil {s : List UInt8} (h : s.dropWhile isOws ≠ [])
    (t : List UInt8) : (s ++ t).dropWhile isOws = s.dropWhile isOws ++ t := by
  rw [List.dropWhile_append, if_neg (by rwa [List.isEmpty_iff])]

theorem exists_ows_append (s : List UInt8) :
    ∃ before, Ows before ∧ s = before ++ s.dropWhile isOws :=
  ⟨s.takeWhile isOws, List.all_takeWhile, List.takeWhile_append_dropWhile.symm⟩

theorem text_head (tag : EntityTag) (rest : List UInt8) :
    ∃ byte behind, tag.text ++ rest = byte :: behind ∧ isOws byte = false ∧ byte ≠ 0x2c ∧
      byte ≠ 0x2a := by
  rw [EntityTag.text]
  cases tag.weak with
  | false => exact ⟨0x22, _, rfl, by decide, by decide, by decide⟩
  | true => exact ⟨0x57, _, rfl, by decide, by decide, by decide⟩

end Whitespace

section Values

variable (currentEtag : List UInt8)

def Element.apply (condition : EntityTagCondition) : Element → Option EntityTagCondition
  | .empty => condition.emptyElement
  | .tag found => condition.entityTag found.opaqueTag currentEtag

theorem readValue_wildcard {before after : List UInt8} (hbefore : Ows before) (hafter : Ows after)
    (condition : EntityTagCondition) :
    readValue currentEtag (before ++ 0x2a :: after) condition = .ofOption condition.wildcard := by
  rw [readValue_step, dropWhile_ows_append hbefore, List.dropWhile_cons_of_neg (by decide)]
  simp only [ows_iff.mp hafter]
  rfl

theorem readValue_one {before after : List UInt8} (hbefore : Ows before) (hafter : Ows after)
    (element : Element) (condition : EntityTagCondition) :
    readValue currentEtag (before ++ element.text ++ after) condition =
      .ofOption (element.apply currentEtag condition) := by
  rw [readValue_step, List.append_assoc, dropWhile_ows_append hbefore]
  cases element with
  | empty =>
    rw [Element.text, List.nil_append, ows_iff.mp hafter]
    rfl
  | tag found =>
    obtain ⟨byte, behind, htext, hows, hcomma, hstar⟩ := text_head found after
    rw [Element.text, htext, List.dropWhile_cons_of_neg (by rw [hows]; exact Bool.false_ne_true)]
    simp only [if_neg hcomma, if_neg hstar]
    rw [← htext, readTag_text, Element.apply]
    simp only [ows_iff.mp hafter]
    cases condition.entityTag found.opaqueTag currentEtag with
    | none => rfl
    | some next => rfl

theorem readValue_cons {before after : List UInt8} (hbefore : Ows before) (hafter : Ows after)
    (rest : List UInt8) (element : Element) (condition : EntityTagCondition) :
    readValue currentEtag (before ++ element.text ++ after ++ 0x2c :: rest) condition =
      match element.apply currentEtag condition with
      | none => .err
      | some condition => readValue currentEtag rest condition := by
  rw [readValue_step, List.append_assoc, List.append_assoc, dropWhile_ows_append hbefore]
  have hcomma' : (after ++ 0x2c :: rest).dropWhile isOws = 0x2c :: rest := by
    rw [dropWhile_ows_append hafter, List.dropWhile_cons_of_neg (by decide)]
  cases element with
  | empty =>
    rw [Element.text, List.nil_append, hcomma']
    rfl
  | tag found =>
    obtain ⟨byte, behind, htext, hows, hcomma, hstar⟩ := text_head found (after ++ 0x2c :: rest)
    rw [Element.text, htext, List.dropWhile_cons_of_neg (by rw [hows]; exact Bool.false_ne_true)]
    simp only [if_neg hcomma, if_neg hstar]
    rw [← htext, readTag_text, Element.apply]
    simp only [hcomma']
    cases condition.entityTag found.opaqueTag currentEtag with
    | none => rfl
    | some next => rfl

theorem readValue_of_lists {s : List UInt8} {elements : List Element} (h : Lists s elements)
    (condition : EntityTagCondition) :
    readValue currentEtag s condition =
      .ofOption (elements.foldlM (Element.apply currentEtag) condition) := by
  induction h generalizing condition with
  | one before after element hbefore hafter =>
    rw [readValue_one currentEtag hbefore hafter, List.foldlM_cons]
    cases element.apply currentEtag condition with
    | none => rfl
    | some next => rfl
  | cons before after rest element elements hbefore hafter _ ih =>
    rw [readValue_cons currentEtag hbefore hafter, List.foldlM_cons]
    cases element.apply currentEtag condition with
    | none => rfl
    | some next => exact ih next

/-- The condition after an element admits no wildcard. -/
theorem wildcard_of_apply {condition next : EntityTagCondition} {element : Element}
    (h : element.apply currentEtag condition = some next) :
    next.wildcard = none ∧ next.sawWildcard = false := by
  cases element with
  | empty =>
    simp only [Element.apply, EntityTagCondition.emptyElement] at h
    split_ifs at h with hsaw hmany
    obtain rfl := Option.some.inj h
    exact ⟨if_pos (by simp), Bool.eq_false_iff.mpr hsaw⟩
  | tag found =>
    simp only [Element.apply, EntityTagCondition.entityTag] at h
    split_ifs at h with hsaw
    obtain rfl := Option.some.inj h
    exact ⟨if_pos (by simp), Bool.eq_false_iff.mpr hsaw⟩

/-- A value that is not refused is a comma list or a lone wildcard. -/
theorem lists_of_readValue (n : ℕ) : ∀ (s : List UInt8) (condition : EntityTagCondition),
    s.length = n → readValue currentEtag s condition ≠ .err →
    (∃ elements, Lists s elements) ∨ Wildcard s := by
  induction n using Nat.strong_induction_on with
  | _ n ih =>
    intro s condition hn h
    rw [readValue_step] at h
    obtain ⟨before, hbefore, hs⟩ := exists_ows_append s
    have hle := length_dropWhile_le s
    -- What follows an element is a list: no wildcard is read behind one.
    have hrest (element : Element) {next : EntityTagCondition} {rest : List UInt8}
        (happly : element.apply currentEtag condition = some next) (hlt : rest.length < n)
        (h : readValue currentEtag rest next ≠ .err) : ∃ elements, Lists rest elements := by
      rcases ih rest.length hlt rest next rfl h with hlists | ⟨space, after, hspace, hafter, rfl⟩
      · exact hlists
      · rw [readValue_wildcard currentEtag hspace hafter,
          (wildcard_of_apply currentEtag happly).1] at h
        exact absurd rfl h
    cases hdrop : s.dropWhile isOws with
    | nil =>
      rw [hdrop, List.append_nil] at hs
      refine .inl ⟨[.empty], ?_⟩
      have hone := Lists.one before [] .empty hbefore rfl
      rwa [Element.text, List.append_nil, List.append_nil, ← hs] at hone
    | cons byte rest =>
      rw [hdrop] at hs h
      rw [hdrop, List.length_cons] at hle
      simp only at h
      by_cases hcomma : byte = 0x2c
      · rw [if_pos hcomma] at h
        cases helement : condition.emptyElement with
        | none =>
          rw [helement] at h
          exact absurd rfl h
        | some next =>
          rw [helement] at h
          obtain ⟨elements, hlists⟩ := hrest .empty helement (by omega) h
          have hcons := Lists.cons before [] rest .empty elements hbefore rfl hlists
          rw [Element.text, List.append_nil, List.append_nil, ← hcomma, ← hs] at hcons
          exact .inl ⟨_, hcons⟩
      rw [if_neg hcomma] at h
      by_cases hstar : byte = 0x2a
      · rw [if_pos hstar] at h
        by_cases hbehind : rest.dropWhile isOws = []
        · exact .inr ⟨before, rest, hbefore, ows_iff.mpr hbehind, by rw [← hstar, ← hs]⟩
        · rw [if_pos hbehind] at h
          exact absurd rfl h
      rw [if_neg hstar] at h
      cases htag : readTag (byte :: rest) with
      | none =>
        rw [htag] at h
        exact absurd rfl h
      | some found =>
        obtain ⟨opaqueTag, behind⟩ := found
        have hlt := readTag_length htag
        obtain ⟨tag, htext, rfl⟩ := exists_of_readTag htag
        rw [htag] at h
        simp only at h
        cases happly : condition.entityTag tag.opaqueTag currentEtag with
        | none =>
          rw [happly] at h
          exact absurd rfl h
        | some next =>
          rw [happly] at h
          simp only at h
          obtain ⟨space, hspace, hbehind⟩ := exists_ows_append behind
          have hle' := length_dropWhile_le behind
          cases htail : behind.dropWhile isOws with
          | nil =>
            rw [htail, List.append_nil] at hbehind
            have hone := Lists.one before space (.tag tag) hbefore hspace
            rw [Element.text, ← hbehind, List.append_assoc, ← htext, ← hs] at hone
            exact .inl ⟨_, hone⟩
          | cons second rest' =>
            rw [htail] at h hbehind
            rw [htail, List.length_cons] at hle'
            rw [List.length_cons] at hlt
            simp only at h
            by_cases hsecond : second = 0x2c
            · rw [if_neg (not_not_intro hsecond)] at h
              obtain ⟨elements, hlists⟩ := hrest (.tag tag) happly (by omega) h
              have hcons := Lists.cons before space rest' (.tag tag) elements hbefore hspace hlists
              rw [Element.text, List.append_assoc, List.append_assoc, ← hsecond, ← hbehind, ← htext,
                ← hs] at hcons
              exact .inl ⟨_, hcons⟩
            · rw [if_pos hsecond] at h
              exact absurd rfl h

theorem readValue_ows_append {before : List UInt8} (hbefore : Ows before) (s : List UInt8)
    (condition : EntityTagCondition) :
    readValue currentEtag (before ++ s) condition = readValue currentEtag s condition := by
  rw [readValue_step, readValue_step currentEtag s, dropWhile_ows_append hbefore]

theorem readValue_of_sawWildcard {condition : EntityTagCondition}
    (hsaw : condition.sawWildcard = true) (s : List UInt8) :
    readValue currentEtag s condition = .err := by
  have hempty : condition.emptyElement = none := if_pos hsaw
  have hwild : condition.wildcard = none := if_pos (by rw [hsaw]; rfl)
  have htag (opaqueTag : List UInt8) : condition.entityTag opaqueTag currentEtag = none := if_pos hsaw
  rw [readValue_step]
  cases s.dropWhile isOws with
  | nil => simp only [hempty, FieldValue.ofOption]
  | cons byte rest =>
    simp only [hempty, hwild, FieldValue.ofOption, htag]
    split_ifs with hcomma hstar
    · rfl
    · rfl
    · rfl
    · cases readTag (byte :: rest) with
      | none => rfl
      | some found => rfl

/-- Reading a combined value: a comma and a space stand for the end of a field line. -/
theorem readValue_append (n : ℕ) : ∀ (s t : List UInt8) (condition : EntityTagCondition),
    s.length = n →
    readValue currentEtag (s ++ 0x2c :: 0x20 :: t) condition =
      match readValue currentEtag s condition with
      | .ok condition => readValue currentEtag t condition
      | other => other := by
  induction n using Nat.strong_induction_on with
  | _ n ih =>
    intro s t condition hn
    have hspace (condition : EntityTagCondition) :
        readValue currentEtag (0x20 :: t) condition = readValue currentEtag t condition :=
      readValue_ows_append currentEtag (rfl : Ows [0x20]) t condition
    rw [readValue_step, readValue_step currentEtag s]
    have hle := length_dropWhile_le s
    cases hdrop : s.dropWhile isOws with
    | nil =>
      rw [dropWhile_ows_append (ows_iff.mpr hdrop), List.dropWhile_cons_of_neg (by decide)]
      simp only [if_pos]
      cases condition.emptyElement with
      | none => rfl
      | some next => exact hspace next
    | cons byte rest =>
      rw [dropWhile_append_of_ne_nil (by rw [hdrop]; exact List.cons_ne_nil _ _), hdrop,
        List.cons_append]
      rw [hdrop, List.length_cons] at hle
      simp only
      by_cases hcomma : byte = 0x2c
      · simp only [if_pos hcomma]
        cases condition.emptyElement with
        | none => rfl
        | some next => exact ih rest.length (by omega) rest t next rfl
      by_cases hstar : byte = 0x2a
      · simp only [if_neg hcomma, if_pos hstar]
        have hne : (rest ++ 0x2c :: 0x20 :: t).dropWhile isOws ≠ [] := by
          intro h
          have hall := List.dropWhile_eq_nil_iff.mp h 0x2c (by simp)
          exact absurd hall (by decide)
        rw [if_pos hne]
        split_ifs with hbehind
        · rfl
        · cases hwild : condition.wildcard with
          | none => rfl
          | some next =>
            simp only [EntityTagCondition.wildcard] at hwild
            split_ifs at hwild
            obtain rfl := Option.some.inj hwild
            exact (readValue_of_sawWildcard currentEtag rfl t).symm
      simp only [if_neg hcomma, if_neg hstar]
      rw [← List.cons_append, readTag_append]
      cases htag : readTag (byte :: rest) with
      | none => rfl
      | some found =>
        obtain ⟨opaqueTag, behind⟩ := found
        have hlt := readTag_length htag
        rw [List.length_cons] at hlt
        simp only [Option.map_some]
        cases condition.entityTag opaqueTag currentEtag with
        | none => rfl
        | some next =>
          have hle' := length_dropWhile_le behind
          simp only
          cases hrest : behind.dropWhile isOws with
          | nil =>
            rw [dropWhile_ows_append (ows_iff.mpr hrest), List.dropWhile_cons_of_neg (by decide)]
            exact (if_neg (not_not_intro rfl)).trans (hspace next)
          | cons second rest' =>
            rw [dropWhile_append_of_ne_nil (by rw [hrest]; exact List.cons_ne_nil _ _), hrest,
              List.cons_append]
            rw [hrest, List.length_cons] at hle'
            simp only
            split_ifs
            · rfl
            · exact ih rest'.length (by omega) rest' t next rfl

theorem readFieldValues_combined (value : List UInt8) (values : List (List UInt8)) :
    ∀ condition, readFieldValues currentEtag condition (value :: values) =
      readValue currentEtag (combined (value :: values)) condition := by
  induction values generalizing value with
  | nil =>
    intro condition
    rw [readFieldValues, parseFieldValue_eq, combined, List.intercalate_singleton]
    cases readValue currentEtag value condition with
    | ok next => rfl
    | err => rfl
    | panicked => rfl
  | cons second rest ih =>
    intro condition
    have hcombined : combined (value :: second :: rest) =
        value ++ 0x2c :: 0x20 :: combined (second :: rest) := by
      rw [combined, combined, List.intercalate_cons_cons, List.append_assoc]
      rfl
    rw [readFieldValues, parseFieldValue_eq, hcombined,
      readValue_append currentEtag value.length _ _ _ rfl]
    cases readValue currentEtag value condition with
    | ok next => exact ih second next
    | err => rfl
    | panicked => rfl

theorem ofOption_ne_panicked (result : Option EntityTagCondition) :
    FieldValue.ofOption result ≠ .panicked := by
  cases result with
  | none => exact nofun
  | some found => exact nofun

theorem parseFieldValue_ne_panicked (value : List UInt8) (condition : EntityTagCondition) :
    parseFieldValue value currentEtag condition ≠ .panicked := by
  rw [parseFieldValue_eq]
  by_cases herr : readValue currentEtag value condition = .err
  · rw [herr]
    exact nofun
  rcases lists_of_readValue currentEtag value.length value condition rfl herr with
    ⟨elements, hlists⟩ | ⟨before, after, hbefore, hafter, rfl⟩
  · rw [readValue_of_lists currentEtag hlists]
    exact ofOption_ne_panicked _
  · rw [readValue_wildcard currentEtag hbefore hafter]
    exact ofOption_ne_panicked _

/-- The tags of a list, as the loop compares them with the current one. -/
def anyMatches (elements : List Element) : Bool :=
  elements.any (fun element ↦
    match element with
    | .empty => false
    | .tag found => found.opaqueTag == currentEtag)

theorem foldlM_apply (elements : List Element) : ∀ condition : EntityTagCondition,
    condition.sawWildcard = false → condition.ignoredEmptyElements ≤ maxIgnoredEmptyElements →
    (elements.foldlM (Element.apply currentEtag) condition).map EntityTagCondition.matches =
      if condition.ignoredEmptyElements + emptyCount elements ≤ maxIgnoredEmptyElements then
        some (condition.matched || anyMatches currentEtag elements)
      else none := by
  induction elements with
  | nil =>
    intro condition hsaw hle
    rw [if_pos (show condition.ignoredEmptyElements + emptyCount [] ≤ _ from hle), List.foldlM_nil]
    simp [EntityTagCondition.matches, hsaw, anyMatches]
  | cons element elements ih =>
    intro condition hsaw hle
    rw [List.foldlM_cons]
    cases element with
    | empty =>
      have hcount : emptyCount (.empty :: elements) = emptyCount elements + 1 := rfl
      by_cases hmore : condition.ignoredEmptyElements + 1 ≤ maxIgnoredEmptyElements
      · have happly : Element.apply currentEtag condition .empty =
            some { condition with ignoredEmptyElements := condition.ignoredEmptyElements + 1 } := by
          rw [Element.apply, EntityTagCondition.emptyElement,
            if_neg (by rw [hsaw]; exact Bool.false_ne_true), if_pos hmore]
        have hnext := ih
          { condition with ignoredEmptyElements := condition.ignoredEmptyElements + 1 } hsaw hmore
        rw [happly, Option.bind_eq_bind, Option.bind_some, hnext, hcount, ← Nat.add_assoc,
          Nat.add_right_comm]
        rfl
      · have happly : Element.apply currentEtag condition .empty = none := by
          rw [Element.apply, EntityTagCondition.emptyElement,
            if_neg (by rw [hsaw]; exact Bool.false_ne_true), if_neg hmore]
        rw [happly, if_neg (by rw [hcount]; omega)]
        rfl
    | tag found =>
      have hcount : emptyCount (.tag found :: elements) = emptyCount elements := rfl
      have happly : Element.apply currentEtag condition (.tag found) =
          some { condition with
            sawEntityTag := true
            matched := condition.matched || found.opaqueTag == currentEtag } := by
        rw [Element.apply, EntityTagCondition.entityTag,
          if_neg (by rw [hsaw]; exact Bool.false_ne_true)]
      have hnext := ih { condition with
        sawEntityTag := true
        matched := condition.matched || found.opaqueTag == currentEtag } hsaw hle
      rw [happly, Option.bind_eq_bind, Option.bind_some, hnext, hcount, Bool.or_assoc]
      rfl

end Values

section Field

/-- The current tag is strong. -/
def currentTag (etag : ETag) : EntityTag :=
  ⟨false, inner etag.bytes, (inner_of_isValidEtag etag.valid).2⟩

theorem currentTag_opaqueTag (etag : ETag) : (currentTag etag).opaqueTag = etag.bytes :=
  (inner_of_isValidEtag etag.valid).1.symm

def Malformed (value : List UInt8) : Prop := ¬ Wildcard value ∧ ∀ elements, ¬ Lists value elements

theorem anyMatches_iff (etag : ETag) (elements : List Element) :
    anyMatches etag.bytes elements = true ↔
      ∃ tag, .tag tag ∈ elements ∧ tag.WeaklyEquals (currentTag etag) := by
  rw [anyMatches, List.any_eq_true]
  constructor
  · rintro ⟨element, hmem, hmatch⟩
    cases element with
    | empty => exact absurd hmatch Bool.false_ne_true
    | tag found =>
      exact ⟨found, hmem, (beq_iff_eq.mp hmatch).trans (currentTag_opaqueTag etag).symm⟩
  · rintro ⟨found, hmem, hequal⟩
    exact ⟨.tag found, hmem, beq_iff_eq.mpr (hequal.trans (currentTag_opaqueTag etag))⟩

theorem readFieldValues_ne_panicked (currentEtag : List UInt8) (values : List (List UInt8)) :
    ∀ condition, readFieldValues currentEtag condition values ≠ .panicked := by
  induction values with
  | nil => exact fun _ ↦ nofun
  | cons value rest ih =>
    intro condition
    rw [readFieldValues]
    have hne := parseFieldValue_ne_panicked currentEtag value condition
    cases hparse : parseFieldValue value currentEtag condition with
    | ok next => exact ih next
    | err => exact nofun
    | panicked => exact absurd hparse hne

theorem readFieldValues_of_malformed (currentEtag : List UInt8) {values : List (List UInt8)}
    {value : List UInt8} (hmem : value ∈ values) (hmalformed : Malformed value) :
    ∀ condition, readFieldValues currentEtag condition values = .err := by
  induction values with
  | nil => exact absurd hmem List.not_mem_nil
  | cons first rest ih =>
    intro condition
    rw [readFieldValues, parseFieldValue_eq]
    by_cases herr : readValue currentEtag first condition = .err
    · rw [herr]
    have hne := parseFieldValue_ne_panicked currentEtag first condition
    rw [parseFieldValue_eq] at hne
    rcases List.mem_cons.mp hmem with rfl | hrest
    · rcases lists_of_readValue currentEtag value.length value condition rfl herr with
        ⟨elements, hlists⟩ | hwild
      · exact absurd hlists (hmalformed.2 elements)
      · exact absurd hwild hmalformed.1
    · cases hread : readValue currentEtag first condition with
      | ok next => exact ih hrest next
      | err => rfl
      | panicked => exact absurd hread hne

theorem answer_ofOption (result : Option EntityTagCondition) :
    FieldValue.answer (.ofOption result) =
      some ((result.map EntityTagCondition.matches).getD false) := by
  cases result with
  | none => rfl
  | some found => rfl

theorem lists_or_wildcard_of_ok {currentEtag value : List UInt8}
    {condition next : EntityTagCondition}
    (h : readValue currentEtag value condition = .ok next) :
    (∃ elements, Lists value elements) ∨ Wildcard value :=
  lists_of_readValue currentEtag value.length value condition rfl (by rw [h]; exact nofun)

/-- The empty list of values reads as one empty value does. -/
theorem answer_combined (currentEtag : List UInt8) (values : List (List UInt8)) :
    FieldValue.answer (readFieldValues currentEtag .default values) =
        FieldValue.answer (readValue currentEtag (combined values) .default) ∧
      ((∃ condition, readFieldValues currentEtag .default values = .ok condition) ↔
        ∃ condition, readValue currentEtag (combined values) .default = .ok condition) := by
  cases values with
  | nil => exact ⟨rfl, fun _ ↦ ⟨_, rfl⟩, fun _ ↦ ⟨_, rfl⟩⟩
  | cons value rest =>
    rw [readFieldValues_combined]
    exact ⟨rfl, Iff.rfl⟩

theorem readValue_default_ok_iff (currentEtag value : List UInt8) :
    (∃ condition, readValue currentEtag value .default = .ok condition) ↔
      Wildcard value ∨ ∃ elements, Accepts value elements := by
  have hfold (elements : List Element) :=
    foldlM_apply currentEtag elements .default rfl (Nat.zero_le _)
  constructor
  · rintro ⟨condition, h⟩
    rcases lists_or_wildcard_of_ok h with ⟨elements, hlists⟩ | hwild
    · refine .inr ⟨elements, hlists, ?_⟩
      rw [readValue_of_lists currentEtag hlists] at h
      have hmatches := hfold elements
      by_contra hmany
      rw [if_neg (by rwa [EntityTagCondition.default, Nat.zero_add]), Option.map_eq_none_iff]
        at hmatches
      rw [hmatches] at h
      exact absurd h nofun
    · exact .inl hwild
  · rintro (⟨before, after, hbefore, hafter, rfl⟩ | ⟨elements, hlists, hfew⟩)
    · exact ⟨_, readValue_wildcard currentEtag hbefore hafter .default⟩
    · rw [readValue_of_lists currentEtag hlists]
      have hmatches := hfold elements
      rw [if_pos (by rwa [EntityTagCondition.default, Nat.zero_add]), Option.map_eq_some_iff]
        at hmatches
      obtain ⟨condition, hcondition, -⟩ := hmatches
      exact ⟨condition, by rw [hcondition]; rfl⟩

theorem answer_eq_true_iff (etag : ETag) (value : List UInt8) :
    FieldValue.answer (readValue etag.bytes value .default) = some true ↔
      Wildcard value ∨ ∃ elements, Accepts value elements ∧
        ∃ tag, .tag tag ∈ elements ∧ tag.WeaklyEquals (currentTag etag) := by
  have hlisted {elements : List Element} (hlists : Lists value elements) :
      FieldValue.answer (readValue etag.bytes value .default) = some true ↔
        emptyCount elements ≤ maxIgnoredEmptyElements ∧ anyMatches etag.bytes elements = true := by
    rw [readValue_of_lists etag.bytes hlists, answer_ofOption,
      foldlM_apply etag.bytes elements .default rfl (Nat.zero_le _)]
    simp only [EntityTagCondition.default, Nat.zero_add, Bool.false_or]
    split_ifs with hfew
    · simp only [Option.getD_some, Option.some.injEq, hfew, true_and]
    · simp only [Option.getD_none, Option.some.injEq, hfew, false_and, Bool.false_eq_true]
  constructor
  · intro h
    cases hread : readValue etag.bytes value .default with
    | ok condition =>
      rcases lists_or_wildcard_of_ok hread with ⟨elements, hlists⟩ | hwild
      · obtain ⟨hfew, hany⟩ := (hlisted hlists).mp h
        exact .inr ⟨elements, ⟨hlists, hfew⟩, (anyMatches_iff etag elements).mp hany⟩
      · exact .inl hwild
    | err =>
      rw [hread] at h
      exact absurd h (by simp [FieldValue.answer])
    | panicked =>
      rw [hread] at h
      exact absurd h nofun
  · rintro (⟨before, after, hbefore, hafter, rfl⟩ | ⟨elements, ⟨hlists, hfew⟩, htag⟩)
    · rw [readValue_wildcard etag.bytes hbefore hafter]
      rfl
    · exact (hlisted hlists).mpr ⟨hfew, (anyMatches_iff etag elements).mpr htag⟩

/-- `If-None-Match` on any field lines: the lines read as their combination does, what is accepted
is the grammar, the answer is the weak comparison, and every byte string comes to an end. -/
theorem ifNoneMatchMatches_grammar (etag : ETag) (values dates : List (List UInt8)) :
    ifNoneMatchMatches ⟨values, dates⟩ etag.bytes =
        ifNoneMatchMatches ⟨[combined values], dates⟩ etag.bytes ∧
      ((∃ condition, readFieldValues etag.bytes .default values = .ok condition) ↔
        Wildcard (combined values) ∨ ∃ elements, Accepts (combined values) elements) ∧
      (ifNoneMatchMatches ⟨values, dates⟩ etag.bytes = some true ↔
        Wildcard (combined values) ∨ ∃ elements, Accepts (combined values) elements ∧
          ∃ tag, .tag tag ∈ elements ∧ tag.WeaklyEquals (currentTag etag)) ∧
      (readFieldValues etag.bytes .default values = .err →
        ifNoneMatchMatches ⟨values, dates⟩ etag.bytes = some false) ∧
      ((∃ value ∈ values, Malformed value) → readFieldValues etag.bytes .default values = .err) ∧
      ifNoneMatchMatches ⟨values, dates⟩ etag.bytes ≠ none ∧
      (∀ (value currentEtag : List UInt8) (condition : EntityTagCondition),
        parseFieldValue value currentEtag condition ≠ .panicked) ∧
      ∀ (value opaqueTag : List UInt8) (cursor next : ℕ),
        parseEntityTag value cursor = some (opaqueTag, next) →
          cursor < next ∧ next ≤ value.length := by
  obtain ⟨hanswer, hok⟩ := answer_combined etag.bytes values
  have hvalues : ifNoneMatchMatches ⟨values, dates⟩ etag.bytes =
      FieldValue.answer (readFieldValues etag.bytes .default values) := matchFieldValues_eq _ _ _
  refine ⟨?_, hok.trans (readValue_default_ok_iff _ _), ?_, ?_, ?_, ?_, ?_, ?_⟩
  · have hone : combined [combined values] = combined values := List.intercalate_singleton
    rw [hvalues, hanswer, ifNoneMatchMatches, matchFieldValues_eq, (answer_combined _ _).1, hone]
  · rw [hvalues, hanswer]
    exact answer_eq_true_iff etag _
  · intro herr
    rw [hvalues, herr]
    rfl
  · rintro ⟨value, hmem, hmalformed⟩
    exact readFieldValues_of_malformed etag.bytes hmem hmalformed .default
  · rw [hvalues]
    have hne := readFieldValues_ne_panicked etag.bytes values .default
    cases hread : readFieldValues etag.bytes .default values with
    | ok condition => exact nofun
    | err => exact nofun
    | panicked => exact absurd hread hne
  · exact fun value currentEtag condition ↦ parseFieldValue_ne_panicked currentEtag value condition
  · exact fun value opaqueTag cursor next ↦ parseEntityTag_le

end Field

end Jaunder.Server.EntityTagList
