import Jaunder.Common.SlugCharacters

namespace Jaunder.Common.Slug

open Foundation.Segmentation

/-- The loop of `truncate_by_graphemes`: the clusters that it keeps. -/
def takeFitting (budget : ℕ) (cost : List Char → ℕ) : ℕ → List (List Char) → List (List Char)
  | _, [] => []
  | used, g :: gs =>
    if used + cost g > budget then [] else g :: takeFitting budget cost (used + cost g) gs

def truncateByGraphemes (u : Unicode) (s : List Char) (budget : ℕ) (cost : List Char → ℕ) :
    List Char :=
  (takeFitting budget cost 0 (u.graphemes s)).flatten

/-- The loop of `slugify_title`. -/
def slugLoop (u : Unicode) : List Char → Bool → List (List Char) → List Char
  | slug, _, [] => slug
  | slug, previousWasDash, g :: gs =>
    if u.baseIsAlphanumeric g then slugLoop u (slug ++ g) false gs
    else if slug ≠ [] ∧ ¬previousWasDash then slugLoop u (slug ++ ['-']) true gs
    else slugLoop u slug previousWasDash gs

def trimHyphens (s : List Char) : List Char := s.rdropWhile (· = '-')

def slugifyTitle (u : Unicode) (title : List Char) : List Char :=
  let normalized := u.normalize title
  let slug := slugLoop u [] false (u.graphemes normalized)
  let trimmed := trimHyphens slug
  let capped := trimHyphens (truncateByGraphemes u trimmed maxSlugChars List.length)
  if capped = [] then ['p', 'o', 's', 't'] else capped

/-- A cluster that a slug keeps, and whether others were dropped right before it. -/
abbrev Item := Bool × List Char

def itemsFrom (u : Unicode) : Bool → List (List Char) → List Item
  | _, [] => []
  | dropped, g :: gs =>
    if u.baseIsAlphanumeric g then (dropped, g) :: itemsFrom u false gs else itemsFrom u true gs

def Item.text (item : Item) : List Char := if item.1 then '-' :: item.2 else item.2

def itemsText (items : List Item) : List Char := (items.map Item.text).flatten

section Loops

variable {u : Unicode} {gs : List (List Char)} {slug s t : List Char}

theorem slugLoop_eq (u : Unicode) (gs : List (List Char)) (hslug : slug ≠ []) (dropped : Bool) :
    ∃ e, (e = [] ∨ e = ['-']) ∧
      slugLoop u (slug ++ if dropped then ['-'] else []) dropped gs =
        slug ++ itemsText (itemsFrom u dropped gs) ++ e := by
  induction gs generalizing slug dropped with
  | nil =>
    refine ⟨if dropped then ['-'] else [], ?_, ?_⟩
    · cases dropped with
      | true => exact .inr rfl
      | false => exact .inl rfl
    · simp [slugLoop, itemsFrom, itemsText]
  | cons g gs ih =>
    rw [slugLoop, itemsFrom]
    by_cases hbase : u.baseIsAlphanumeric g = true
    · rw [if_pos hbase, if_pos hbase]
      have hmore : slug ++ (if dropped then ['-'] else []) ++ g ≠ [] := by simp [hslug]
      obtain ⟨e, he, hloop⟩ := ih hmore false
      rw [if_neg Bool.false_ne_true, List.append_nil] at hloop
      refine ⟨e, he, hloop.trans ?_⟩
      cases dropped <;> simp [itemsText, Item.text]
    · rw [if_neg hbase, if_neg hbase]
      obtain ⟨e, he, hloop⟩ := ih hslug true
      refine ⟨e, he, ?_⟩
      rw [← hloop]
      cases dropped with
      | false => simp [hslug]
      | true => simp

theorem trimHyphens_append (h : t = [] ∨ t = ['-']) : trimHyphens (s ++ t) = trimHyphens s := by
  rcases h with rfl | rfl
  · rw [List.append_nil]
  · rw [trimHyphens, List.rdropWhile_concat_pos _ _ _ (by simp)]
    rfl

theorem slugLoop_nil : slugLoop u [] false gs =
    slugLoop u [] false (gs.dropWhile (fun g ↦ !u.baseIsAlphanumeric g)) := by
  induction gs with
  | nil => rfl
  | cons g gs ih =>
    by_cases hbase : u.baseIsAlphanumeric g = true
    · rw [List.dropWhile_cons_of_neg (by simp [hbase])]
    · rw [List.dropWhile_cons_of_pos (by simp [hbase]), ← ih, slugLoop, if_neg hbase,
        if_neg (fun h ↦ h.1 rfl)]

/-- What a title keeps, in order. -/
def items (u : Unicode) (gs : List (List Char)) : List Item :=
  itemsFrom u false (gs.dropWhile (fun g ↦ !u.baseIsAlphanumeric g))

theorem trimHyphens_slugLoop :
    trimHyphens (slugLoop u [] false gs) = trimHyphens (itemsText (items u gs)) := by
  rw [slugLoop_nil, items]
  cases hkept : gs.dropWhile (fun g ↦ !u.baseIsAlphanumeric g) with
  | nil => rfl
  | cons g rest =>
    have hbase : u.baseIsAlphanumeric g = true := by
      have hhead := List.head_dropWhile_not (fun g ↦ !u.baseIsAlphanumeric g) (l := gs)
        (by rw [hkept]; simp)
      simpa [hkept] using hhead
    have hne : g ≠ [] := by
      rintro rfl
      exact absurd hbase Bool.false_ne_true
    obtain ⟨e, he, hloop⟩ := slugLoop_eq u rest hne false
    rw [if_neg Bool.false_ne_true, List.append_nil] at hloop
    rw [slugLoop, if_pos hbase, List.nil_append, hloop, trimHyphens_append he, itemsFrom,
      if_pos hbase]
    rfl

end Loops

section Hyphens

variable {d : UnicodeData} {left cur k g : List Char} {c : Char}

theorem joins_hyphen (hd : d.Documented) : d.joins (c :: left) '-' = d.isPrepend c :=
  Foundation.Graphemes.joins_plain_right hd.hyphen.2

theorem joins_behind_hyphen (hd : d.Documented) : d.joins ('-' :: left) c = d.attaches c :=
  Foundation.Graphemes.joins_plain_left hd.hyphen.2

theorem joins_past_hyphen (hd : d.Documented) (hcur : cur ≠ []) :
    d.joins (cur ++ '-' :: left) c = d.joins cur c := by
  have hmap : cur.map d.property ≠ [] := by simpa using hcur
  rw [UnicodeData.joins, UnicodeData.joins, List.map_append, List.map_cons]
  exact Foundation.Graphemes.joins_opaque hd.hyphen.2 hmap

def endsPrepend (d : UnicodeData) (s : List Char) : Bool := s.getLast?.any d.isPrepend

def headAttaches (d : UnicodeData) (s : List Char) : Bool := s.head?.any d.attaches

theorem joins_reverse_hyphen (hd : d.Documented) (hcur : cur ≠ []) :
    d.joins cur.reverse '-' = endsPrepend d cur := by
  obtain ⟨init, c, rfl⟩ := (List.eq_nil_or_concat cur).resolve_left hcur
  rw [List.concat_eq_append, List.reverse_append, List.reverse_singleton, List.singleton_append,
    joins_hyphen hd, endsPrepend, List.getLast?_concat]
  rfl

/-- What follows a hyphen in a cluster of its own is joined as it was without the hyphen. -/
theorem joined_behind_hyphen (hd : d.Documented) {s : List Char} (hcur : cur ≠ [])
    (h : Joined d.joins cur s) : Joined d.joins (cur ++ '-' :: left) s := by
  induction s generalizing cur with
  | nil => trivial
  | cons c s ih =>
    refine ⟨(joins_past_hyphen hd hcur).trans h.1, ?_⟩
    rw [← List.cons_append]
    exact ih (by simp) h.2

/-- A hyphen takes along the cluster behind it when its first character attaches. -/
theorem joined_hyphen_cons (hd : d.Documented) (hk : IsSegment d.joins k)
    (hattaches : headAttaches d k = true) : Joined d.joins ('-' :: left) k := by
  obtain ⟨first, rest, rfl, hrest⟩ := hk
  refine ⟨(joins_behind_hyphen hd).trans hattaches, ?_⟩
  exact joined_behind_hyphen hd (List.cons_ne_nil first []) hrest

theorem breaks_behind_hyphen (hd : d.Documented) {x : List Char} (hk : k ≠ []) :
    Breaks d.joins (x ++ '-' :: k) g ↔ Breaks d.joins k g := by
  have hreverse : (x ++ '-' :: k).reverse = k.reverse ++ '-' :: x.reverse := by simp
  unfold Breaks
  simp only [hreverse, joins_past_hyphen hd (List.reverse_ne_nil_iff.mpr hk)]

/-- A cluster whose first character attaches binds nothing that would not join anyway. -/
theorem not_prepend_of_attaches (hk : IsSegment d.joins k) (hattaches : headAttaches d k = true) :
    ∀ c ∈ k, d.isPrepend c = false := by
  refine hk.forall (P := fun c ↦ d.isPrepend c = false) (fun c hc ↦ ?_)
    (fun p left c hleft _ hjoins ↦ ?_)
  · rw [headAttaches, hc, Option.any_some, UnicodeData.attaches] at hattaches
    refine decide_eq_false (fun hprepend ↦ ?_)
    rw [hprepend] at hattaches
    exact absurd hattaches Bool.false_ne_true
  · refine decide_eq_false (fun hprepend ↦ ?_)
    have hp := Foundation.Graphemes.joins_prepend hjoins hprepend
    exact absurd hp (of_decide_eq_false (hleft p List.mem_cons_self))

theorem endsPrepend_of_attaches (hk : IsSegment d.joins k) (hattaches : headAttaches d k = true) :
    endsPrepend d k = false := by
  obtain ⟨init, c, rfl⟩ := (List.eq_nil_or_concat k).resolve_left hk.ne_nil
  rw [List.concat_eq_append] at hk hattaches ⊢
  rw [endsPrepend, List.getLast?_concat, Option.any_some]
  exact not_prepend_of_attaches hk hattaches c (by simp)

theorem getLast?_of_attaches (hd : d.Documented) (hk : IsSegment d.joins k)
    (hattaches : headAttaches d k = true) : k.getLast? ≠ some '-' := by
  intro hlast
  obtain ⟨init, rfl⟩ := List.getLast?_eq_some_iff.mp hlast
  by_cases hinit : init = []
  · rw [hinit, headAttaches, List.nil_append, List.head?_cons, Option.any_some,
      UnicodeData.attaches, hd.hyphen.2.breakClass] at hattaches
    exact absurd hattaches Bool.false_ne_true
  · have hjoined := (hk.joined hinit).1
    rw [joins_reverse_hyphen hd hinit] at hjoined
    have hsegment := hk.cut hinit
    rw [headAttaches, List.head?_append_of_ne_nil _ hinit] at hattaches
    exact absurd ((endsPrepend_of_attaches hsegment hattaches).symm.trans hjoined)
      Bool.false_ne_true

end Hyphens

section Arranged

variable {d : UnicodeData}

structure IsKept (d : UnicodeData) (k : List Char) : Prop where
  segment : IsSegment d.joins k
  base : d.unicode.baseIsAlphanumeric k = true

/-- Clusters behind a kept one as the normalized title has them. -/
def Arranged (d : UnicodeData) : List Char → List Item → Prop
  | _, [] => True
  | k, (dropped, h) :: rest =>
    IsKept d h ∧ (dropped = false → Breaks d.joins k h) ∧ Arranged d h rest

theorem arranged_itemsFrom {gs : List (List Char)} (hgs : Segmented d.joins gs) {dropped : Bool}
    {k : List Char} (hk : dropped = false → ∀ g ∈ gs.head?, Breaks d.joins k g) :
    Arranged d k (itemsFrom d.unicode dropped gs) := by
  induction gs generalizing dropped k with
  | nil => trivial
  | cons g gs ih =>
    obtain ⟨hg, hsegment⟩ := List.forall_mem_cons.mp hgs.segment
    have hrest : Segmented d.joins gs := ⟨hsegment, hgs.breaks.tail⟩
    rw [itemsFrom]
    split_ifs with hbase
    · refine ⟨⟨hg, hbase⟩, fun hdropped ↦ hk hdropped g rfl, ih hrest (fun _ h hh ↦ ?_)⟩
      exact List.isChain_cons.mp hgs.breaks |>.1 h hh
    · exact ih hrest (fun h ↦ absurd h nofun)

/-- The clusters of a slug text that begins with one. -/
def clustersOf (d : UnicodeData) : List Char → List Item → List (List Char)
  | cur, [] => [cur]
  | cur, (false, k) :: rest => cur :: clustersOf d k rest
  | cur, (true, k) :: rest =>
    if endsPrepend d cur then
      if headAttaches d k then clustersOf d (cur ++ '-' :: k) rest
      else (cur ++ ['-']) :: clustersOf d k rest
    else if headAttaches d k then cur :: clustersOf d ('-' :: k) rest
    else cur :: ['-'] :: clustersOf d k rest

theorem clustersOf_head (cur : List Char) (hcur : cur ≠ []) (rest : List Item) :
    ∃ g gs, clustersOf d cur rest = g :: gs ∧ g.head? = cur.head? := by
  induction rest generalizing cur with
  | nil => exact ⟨cur, [], rfl, rfl⟩
  | cons item rest ih =>
    rcases item with ⟨_ | _, k⟩
    · exact ⟨cur, _, rfl, rfl⟩
    · rw [clustersOf]
      split_ifs
      · obtain ⟨g, gs, hclusters, hhead⟩ := ih (cur ++ '-' :: k) (by simp)
        exact ⟨g, gs, hclusters, hhead.trans (List.head?_append_of_ne_nil _ hcur)⟩
      · exact ⟨cur ++ ['-'], _, rfl, List.head?_append_of_ne_nil _ hcur⟩
      · exact ⟨cur, _, rfl, rfl⟩
      · exact ⟨cur, _, rfl, rfl⟩

theorem segmented_cons {g h k : List Char} {gs : List (List Char)} (hg : IsSegment d.joins g)
    (hrest : Segmented d.joins (h :: gs)) (hhead : h.head? = k.head?)
    (hbreak : Breaks d.joins g k) : Segmented d.joins (g :: h :: gs) := by
  refine ⟨List.forall_mem_cons.mpr ⟨hg, hrest.segment⟩, ?_⟩
  refine List.isChain_cons_cons.mpr ⟨fun c hc ↦ hbreak c ?_, hrest.breaks⟩
  rwa [← hhead]

/-- The kept cluster at the end of the current one. -/
def EndsIn (cur k : List Char) : Prop := cur = k ∨ ∃ x, cur = x ++ '-' :: k

variable {cur k : List Char} {rest : List Item}

theorem EndsIn.breaks_iff (hd : d.Documented) (h : EndsIn cur k) (hk : k ≠ []) (g : List Char) :
    Breaks d.joins cur g ↔ Breaks d.joins k g := by
  rcases h with rfl | ⟨x, rfl⟩
  · rfl
  · exact breaks_behind_hyphen hd hk

theorem EndsIn.endsPrepend_eq (h : EndsIn cur k) (hk : k ≠ []) :
    endsPrepend d cur = endsPrepend d k := by
  rcases h with rfl | ⟨x, rfl⟩
  · rfl
  · rw [endsPrepend, List.getLast?_append_of_ne_nil _ (by simp), List.getLast?_cons_of_ne_nil hk]
    rfl

theorem segmented_clustersOf (hd : d.Documented) (hcur : IsSegment d.joins cur)
    (hends : EndsIn cur k) (hk : k ≠ []) (hrest : Arranged d k rest) :
    Segmented d.joins (clustersOf d cur rest) ∧
      (clustersOf d cur rest).flatten = cur ++ itemsText rest := by
  induction rest generalizing cur k with
  | nil =>
    refine ⟨⟨List.forall_mem_singleton.mpr hcur, List.isChain_singleton _⟩, ?_⟩
    simp [clustersOf, itemsText]
  | cons item rest ih =>
    obtain ⟨dropped, h⟩ := item
    obtain ⟨hkept, hbreaks, hmore⟩ := hrest
    have hne := hkept.segment.ne_nil
    have hcurne := hcur.ne_nil
    obtain ⟨hnext, hnextText⟩ := ih hkept.segment (.inl rfl) hne hmore
    have hjoins := joins_reverse_hyphen hd hcurne
    have hlonely : headAttaches d h = false → ∀ x, Breaks d.joins (x ++ ['-']) h := by
      intro hattaches x c hc
      rw [headAttaches, hc] at hattaches
      rw [List.reverse_append]
      exact (joins_behind_hyphen hd).trans hattaches
    cases dropped with
    | false =>
      obtain ⟨g, gs, hclusters, hhead⟩ := clustersOf_head (d := d) h hne rest
      rw [clustersOf]
      rw [hclusters] at hnext hnextText ⊢
      refine ⟨segmented_cons hcur hnext hhead ((hends.breaks_iff hd hk h).mpr (hbreaks rfl)), ?_⟩
      rw [List.flatten_cons, hnextText]
      simp [itemsText, Item.text]
    | true =>
      rw [clustersOf]
      split_ifs with hprepend hattaches hattaches
      · have htaken : Joined d.joins cur.reverse ('-' :: h) :=
          ⟨hjoins.trans hprepend, joined_hyphen_cons hd hkept.segment hattaches⟩
        obtain ⟨hscan, htext⟩ := ih (hcur.append htaken) (.inr ⟨cur, rfl⟩) hne hmore
        refine ⟨hscan, htext.trans ?_⟩
        simp [itemsText, Item.text]
      · obtain ⟨g, gs, hclusters, hhead⟩ := clustersOf_head (d := d) h hne rest
        have hhyphen : IsSegment d.joins (cur ++ ['-']) :=
          hcur.append ⟨hjoins.trans hprepend, trivial⟩
        rw [hclusters] at hnext hnextText ⊢
        refine ⟨segmented_cons hhyphen hnext hhead (hlonely (by simpa using hattaches) cur), ?_⟩
        rw [List.flatten_cons, hnextText]
        simp [itemsText, Item.text]
      · have hhooked : IsSegment d.joins ('-' :: h) :=
          isSegment_singleton.append (s := ['-']) (joined_hyphen_cons hd hkept.segment hattaches)
        obtain ⟨hscan, htext⟩ := ih hhooked (.inr ⟨[], rfl⟩) hne hmore
        obtain ⟨g, gs, hclusters, hhead⟩ := clustersOf_head (d := d) ('-' :: h) (by simp) rest
        rw [hclusters] at hscan htext ⊢
        refine ⟨segmented_cons hcur hscan hhead (fun c hc ↦ ?_), ?_⟩
        · rw [← Option.some.inj hc, hjoins]
          simpa using hprepend
        · rw [List.flatten_cons, htext]
          simp [itemsText, Item.text]
      · obtain ⟨g, gs, hclusters, hhead⟩ := clustersOf_head (d := d) h hne rest
        rw [hclusters] at hnext hnextText ⊢
        have hhyphen : Segmented d.joins (['-'] :: g :: gs) :=
          segmented_cons isSegment_singleton hnext hhead (hlonely (by simpa using hattaches) [])
        refine ⟨segmented_cons (k := ['-']) hcur hhyphen rfl (fun c hc ↦ ?_), ?_⟩
        · rw [← Option.some.inj hc, hjoins]
          simpa using hprepend
        · rw [List.flatten_cons, List.flatten_cons, hnextText]
          simp [itemsText, Item.text]

theorem graphemes_itemsText (hd : d.Documented) (hk : IsKept d k) (hrest : Arranged d k rest) :
    d.unicode.graphemes (k ++ itemsText rest) = clustersOf d k rest := by
  obtain ⟨hscan, htext⟩ :=
    segmented_clustersOf hd hk.segment (.inl rfl) hk.segment.ne_nil hrest
  rw [graphemes_eq, ← htext]
  exact segments_flatten joins_isLocal hscan.segment hscan.breaks

end Arranged

section Fitting

variable {d : UnicodeData}

/-- No hyphen takes a kept cluster along in the part of the text that is not cut off. -/
def ClearFrom (d : UnicodeData) : ℕ → List Char → List Item → Prop
  | _, _, [] => True
  | used, last, (dropped, k) :: rest =>
    (dropped = true → headAttaches d k = true → endsPrepend d last = false →
        maxSlugChars < used + 1 + k.length) ∧
      ClearFrom d (used + (Item.text (dropped, k)).length) k rest

def Clear (d : UnicodeData) : List Item → Prop
  | [] => True
  | (_, k) :: rest => ClearFrom d k.length k rest

variable {used : ℕ} {last cur k : List Char} {rest : List Item} {gs : List (List Char)}

theorem clearFrom_of_full (h : maxSlugChars < used) : ClearFrom d used last rest := by
  induction rest generalizing used last with
  | nil => trivial
  | cons item rest ih =>
    obtain ⟨dropped, k⟩ := item
    exact ⟨fun _ _ _ ↦ by omega, ih (by omega)⟩

theorem takeFitting_begins (gs : List (List Char)) (budget : ℕ) (cost : List Char → ℕ)
    (used : ℕ) :
    takeFitting budget cost used gs <+: gs := by
  induction gs generalizing used with
  | nil => exact List.prefix_rfl
  | cons g gs ih =>
    rw [takeFitting]
    split_ifs
    · exact List.nil_prefix
    · exact (List.prefix_cons_inj g).mpr (ih _)

theorem truncateByGraphemes_begins {s : List Char} (budget : ℕ) (cost : List Char → ℕ) :
    truncateByGraphemes d.unicode s budget cost <+: s := by
  obtain ⟨-, hflatten⟩ := segments_segmented (joins_isLocal (d := d)) s
  obtain ⟨more, hmore⟩ := takeFitting_begins (d.unicode.graphemes s) budget cost 0
  have hwhole : (d.unicode.graphemes s).flatten = s := by
    rw [graphemes_eq, hflatten]
  rw [← hmore, List.flatten_append] at hwhole
  exact ⟨more.flatten, hwhole⟩

theorem length_takeFitting (gs : List (List Char)) (budget : ℕ) (h : used ≤ budget) :
    used + (takeFitting budget List.length used gs).flatten.length ≤ budget := by
  induction gs generalizing used with
  | nil => simpa [takeFitting] using h
  | cons g gs ih =>
    rw [takeFitting]
    split_ifs with hfull
    · simpa using h
    · have hfit : used + g.length ≤ budget := by omega
      have hrest := ih hfit
      rw [List.flatten_cons, List.length_append]
      omega

abbrev AllGood (d : UnicodeData) (gs : List (List Char)) : Prop := ∀ g ∈ gs, d.unicode.Good g

theorem allGood_cons {g : List Char} :
    AllGood d (takeFitting maxSlugChars List.length used (g :: gs)) ↔
      (used + g.length ≤ maxSlugChars → d.unicode.Good g ∧
        AllGood d (takeFitting maxSlugChars List.length (used + g.length) gs)) := by
  rw [takeFitting]
  split_ifs with hfull
  · exact iff_of_true (fun g hg ↦ absurd hg List.not_mem_nil) (fun h ↦ by omega)
  · rw [AllGood, List.forall_mem_cons]
    exact ⟨fun h _ ↦ h, fun h ↦ h (by omega)⟩

theorem allGood_emit {g : List Char} (hg : d.unicode.Good g) :
    AllGood d (takeFitting maxSlugChars List.length used (g :: gs)) ↔
      (used + g.length ≤ maxSlugChars →
        AllGood d (takeFitting maxSlugChars List.length (used + g.length) gs)) := by
  rw [allGood_cons]
  exact ⟨fun h hfit ↦ (h hfit).2, fun h hfit ↦ ⟨hg, h hfit⟩⟩

theorem clearFrom_of_fit {n : ℕ} (h : used ≤ maxSlugChars → ClearFrom d (used + n) last rest) :
    ClearFrom d (used + n) last rest := by
  by_cases hfit : used ≤ maxSlugChars
  · exact h hfit
  · exact clearFrom_of_full (by omega)

/-- A cluster that a hyphen begins. -/
theorem not_good_hooked (hk : k ≠ []) (hd : d.Documented) : ¬d.unicode.Good ('-' :: k) := by
  rintro (hdash | hbase)
  · exact hk (List.cons.inj hdash).2
  · have halnum : d.isAlphanumeric '-' = true := hbase
    exact absurd (hd.hyphen.1.symm.trans halnum) Bool.false_ne_true

theorem hooked_emits (rest : List Item) (hprepend : endsPrepend d cur = false) :
    ∃ more, clustersOf d cur rest = cur :: more := by
  cases rest with
  | nil => exact ⟨[], rfl⟩
  | cons item rest =>
    rcases item with ⟨_ | _, k⟩
    · exact ⟨_, rfl⟩
    · rw [clustersOf, if_neg (by simp [hprepend])]
      split_ifs
      · exact ⟨_, rfl⟩
      · exact ⟨_, rfl⟩

theorem allGood_hooked_iff (hd : d.Documented) (hk : IsSegment d.joins k)
    (hattaches : headAttaches d k = true) :
    AllGood d (takeFitting maxSlugChars List.length used (clustersOf d ('-' :: k) rest)) ↔
      maxSlugChars < used + 1 + k.length := by
  have hends : EndsIn ('-' :: k) k := .inr ⟨[], rfl⟩
  have hprepend : endsPrepend d ('-' :: k) = false :=
    (hends.endsPrepend_eq hk.ne_nil).trans (endsPrepend_of_attaches hk hattaches)
  obtain ⟨more, hmore⟩ := hooked_emits rest hprepend
  have hlength : ('-' :: k).length = k.length + 1 := rfl
  rw [hmore]
  rw [allGood_cons]
  constructor
  · intro h
    by_contra hfit
    exact not_good_hooked hk.ne_nil hd (h (by omega)).1
  · intro hfull hfit
    omega

theorem allGood_iff_clearFrom (used : ℕ) (hd : d.Documented) (hends : EndsIn cur k) (hk : k ≠ [])
    (hbase : d.unicode.baseIsAlphanumeric cur = true) (hrest : Arranged d k rest) :
    AllGood d (takeFitting maxSlugChars List.length used (clustersOf d cur rest)) ↔
      ClearFrom d (used + cur.length) k rest := by
  induction rest generalizing used cur k with
  | nil =>
    refine iff_of_true (fun g hg ↦ ?_) trivial
    have hin := (takeFitting_begins _ maxSlugChars List.length used).subset hg
    rw [clustersOf, List.mem_singleton] at hin
    rw [hin]
    exact .inr hbase
  | cons item rest ih =>
    obtain ⟨dropped, h⟩ := item
    obtain ⟨hkept, -, hmore⟩ := hrest
    have hne := hkept.segment.ne_nil
    have hself : EndsIn h h := .inl rfl
    have hnext (used : ℕ) := ih used hself hne hkept.base hmore
    have hsame := hends.endsPrepend_eq (d := d) hk
    have happended (t : List Char) : d.unicode.baseIsAlphanumeric (cur ++ t) = true := by
      have hcurne : cur ≠ [] := by
        rintro rfl
        exact absurd hbase Bool.false_ne_true
      rw [Unicode.baseIsAlphanumeric, List.head?_append_of_ne_nil _ hcurne]
      exact hbase
    cases dropped with
    | false =>
      rw [clustersOf, allGood_emit (.inr hbase), hnext]
      refine ⟨fun hclear ↦ ⟨fun h ↦ absurd h Bool.false_ne_true, clearFrom_of_fit hclear⟩,
        fun hclear _ ↦ hclear.2⟩
    | true =>
      have hlength : (Item.text (true, h)).length = h.length + 1 := rfl
      rw [clustersOf, hsame, ClearFrom, hlength]
      split_ifs with hprepend hattaches hattaches
      · -- the hyphen and the cluster behind it are drawn into the current cluster
        have hends' : EndsIn (cur ++ '-' :: h) h := .inr ⟨cur, rfl⟩
        have htaken := ih used hends' hne (happended _) hmore
        rw [List.length_append, List.length_cons, ← Nat.add_assoc] at htaken
        rw [htaken]
        refine ⟨fun hclear ↦ ⟨fun _ _ hfree ↦ ?_, hclear⟩, And.right⟩
        exact absurd (hfree.symm.trans hprepend) Bool.false_ne_true
      · have hhyphen : used + (cur ++ ['-']).length + h.length =
            used + cur.length + (h.length + 1) := by
          rw [List.length_append, List.length_singleton]
          omega
        rw [allGood_emit (.inr (happended ['-'])), hnext, hhyphen]
        refine ⟨fun hclear ↦ ⟨fun _ hhead ↦ absurd hhead hattaches, ?_⟩, fun hclear _ ↦ hclear.2⟩
        rw [← hhyphen] at hclear ⊢
        exact clearFrom_of_fit hclear
      · rw [allGood_emit (.inr hbase), allGood_hooked_iff hd hkept.segment hattaches]
        constructor
        · intro hfull
          have hlong : maxSlugChars < used + cur.length + 1 + h.length := by
            by_cases hfit : used + cur.length ≤ maxSlugChars
            · exact hfull hfit
            · omega
          exact ⟨fun _ _ _ ↦ hlong, clearFrom_of_full (by omega)⟩
        · intro hclear _
          exact hclear.1 rfl hattaches (by simpa using hprepend)
      · have hhyphen : used + cur.length + ['-'].length + h.length =
            used + cur.length + (h.length + 1) := by
          rw [List.length_singleton]
          omega
        rw [allGood_emit (.inr hbase), allGood_emit (.inl rfl), hnext, hhyphen]
        constructor
        · intro hclear
          refine ⟨fun _ hhead ↦ absurd hhead hattaches, clearFrom_of_fit (fun hfit ↦ ?_)⟩
          rw [← hhyphen] at hclear ⊢
          exact clearFrom_of_fit (hclear hfit)
        · exact fun hclear _ _ ↦ hclear.2

end Fitting

section Trimmed

variable {d : UnicodeData} {s t k : List Char} {rest : List Item}

theorem trimHyphens_append_of_ne (h : trimHyphens t ≠ []) :
    trimHyphens (s ++ t) = s ++ trimHyphens t := by
  have hdrop : t.reverse.dropWhile (· = '-') ≠ [] := fun hnil ↦ h (by
    rw [trimHyphens, List.rdropWhile, hnil]
    rfl)
  rw [trimHyphens, trimHyphens, List.rdropWhile, List.rdropWhile, List.reverse_append,
    List.dropWhile_append]
  rw [if_neg (by simpa using hdrop), List.reverse_append, List.reverse_reverse]

theorem trimHyphens_self (hs : s.getLast? ≠ some '-') : trimHyphens s = s := by
  rcases List.eq_nil_or_concat s with rfl | ⟨init, c, rfl⟩
  · rfl
  · rw [List.concat_eq_append] at hs ⊢
    rw [List.getLast?_concat] at hs
    rw [trimHyphens, List.rdropWhile_concat_neg _ _ _ (by simpa using hs)]

theorem trimHyphens_begins : trimHyphens s <+: s := List.rdropWhile_prefix _ _

/-- A text that does not end with a hyphen stays when what follows it is trimmed. -/
theorem begins_trimHyphens (hs : s.getLast? ≠ some '-') : s <+: trimHyphens (s ++ t) := by
  by_cases ht : trimHyphens t = []
  · have hall : ∀ c ∈ t, c = '-' := by
      intro c hc
      have hdrop := List.rdropWhile_eq_nil_iff.mp ht c hc
      simpa using hdrop
    have hcut : trimHyphens (s ++ t) = trimHyphens s := by
      rw [List.eq_replicate_of_mem hall]
      induction t.length with
      | zero => simp
      | succ n ih =>
        rw [List.replicate_succ', ← List.append_assoc, trimHyphens_append (.inr rfl), ih]
    rw [hcut, trimHyphens_self hs]
  · rw [trimHyphens_append_of_ne ht]
    exact List.prefix_append _ _

theorem isKept_trim (hd : d.Documented) (hk : IsKept d k) :
    IsKept d (trimHyphens k) ∧ (trimHyphens k).head? = k.head? := by
  obtain ⟨first, cs, rfl, hrest⟩ := hk.segment
  have hfirst : first ≠ '-' := by
    rintro rfl
    have halnum : d.isAlphanumeric '-' = true := hk.base
    exact absurd (hd.hyphen.1.symm.trans halnum) Bool.false_ne_true
  have hstays : [first] <+: trimHyphens ([first] ++ cs) :=
    begins_trimHyphens (by simpa using hfirst)
  obtain ⟨more, hmore⟩ := hstays
  obtain ⟨cut, hcut⟩ := trimHyphens_begins (s := first :: cs)
  have htrim : trimHyphens (first :: cs) = first :: more := hmore.symm
  rw [htrim] at hcut ⊢
  refine ⟨⟨?_, hk.base⟩, rfl⟩
  have hsegment := hk.segment
  rw [← hcut] at hsegment
  exact hsegment.cut (by simp)

/-- The text loses its hyphens in the last of the kept clusters. -/
theorem trim_items (hd : d.Documented) (hk : IsKept d k) (hrest : Arranged d k rest) :
    ∃ k' rest', trimHyphens (k ++ itemsText rest) = k' ++ itemsText rest' ∧ IsKept d k' ∧
      k'.head? = k.head? ∧ Arranged d k' rest' ∧ (headAttaches d k = true → k' = k) ∧
        ∀ used, ClearFrom d (used + k'.length) k' rest' ↔ ClearFrom d (used + k.length) k rest := by
  induction rest generalizing k with
  | nil =>
    obtain ⟨hkept, hhead⟩ := isKept_trim hd hk
    refine ⟨trimHyphens k, [], by simp [itemsText], hkept, hhead, trivial, fun hattaches ↦ ?_,
      fun _ ↦ Iff.rfl⟩
    exact trimHyphens_self (getLast?_of_attaches hd hk.segment hattaches)
  | cons item rest ih =>
    obtain ⟨dropped, h⟩ := item
    obtain ⟨hkept, hbreaks, hmore⟩ := hrest
    obtain ⟨h', rest', htext, hkept', hhead, harranged, hsame, hclear⟩ := ih hkept hmore
    have htrimmed : trimHyphens (h ++ itemsText rest) ≠ [] := by
      rw [htext]
      simp [hkept'.segment.ne_nil]
    have hattaches : headAttaches d h' = headAttaches d h := by
      rw [headAttaches, headAttaches, hhead]
    refine ⟨k, (dropped, h') :: rest', ?_, hk, rfl, ⟨hkept', fun hdropped c hc ↦ ?_, harranged⟩,
      fun _ ↦ rfl, fun used ↦ ?_⟩
    · have hsplit (h : List Char) (rest : List Item) : k ++ itemsText ((dropped, h) :: rest) =
          (k ++ if dropped then ['-'] else []) ++ (h ++ itemsText rest) := by
        cases dropped <;> simp [itemsText, Item.text]
      rw [hsplit, hsplit, trimHyphens_append_of_ne htrimmed, htext]
    · exact hbreaks hdropped c (hhead ▸ hc)
    · have hlength (h : List Char) : (Item.text (dropped, h)).length =
          (if dropped then 1 else 0) + h.length := by
        cases dropped with
        | true => exact Nat.add_comm _ _
        | false => exact (Nat.zero_add _).symm
      rw [ClearFrom, ClearFrom, hlength, hlength, ← Nat.add_assoc, ← Nat.add_assoc, hclear,
        hattaches]
      refine and_congr_left (fun _ ↦ imp_congr_right (fun _ ↦ imp_congr_right (fun hhooked ↦ ?_)))
      rw [hsame hhooked]

end Trimmed

section Reparse

variable {d : UnicodeData} {s k title : List Char} {rest : List Item} {gs : List (List Char)}

/-- Kept runs of a normal text with hyphens between them are normal. -/
theorem normal_itemsText (gs : List (List Char)) (hd : d.Documented) (dropped : Bool)
    (hs : d.normalize (s ++ if dropped then [] else gs.flatten) = s ++ if dropped then [] else gs.flatten)
    (hgs : d.normalize gs.flatten = gs.flatten) :
    d.normalize (s ++ itemsText (itemsFrom d.unicode dropped gs)) =
      s ++ itemsText (itemsFrom d.unicode dropped gs) := by
  induction gs generalizing s dropped with
  | nil => simpa [itemsFrom, itemsText] using hs
  | cons g gs ih =>
    have hsNormal : d.normalize s = s :=
      hd.normal_infix _ s hs (List.prefix_append s _).isInfix
    have hrest : d.normalize gs.flatten = gs.flatten :=
      hd.normal_infix _ _ hgs (by rw [List.flatten_cons]; exact (List.suffix_append g _).isInfix)
    rw [itemsFrom]
    split_ifs with hbase
    · cases dropped with
      | false =>
        have hmore := ih (s := s ++ g) false (by simpa using hs) hrest
        simpa [itemsText, Item.text] using hmore
      | true =>
        have hmore := ih (s := g) false (by simpa using hgs) hrest
        have hjoined := hd.normal_hyphen s _ hsNormal hmore
        simpa [itemsText, Item.text] using hjoined
    · exact ih true (by simpa using hsNormal) hrest

theorem isSlug_post (hd : d.Documented) : IsSlug d.unicode ['p', 'o', 's', 't'] := by
  have hletters : ∀ c ∈ ['p', 'o', 's', 't'], c.isDigit ∨ c.isLower := by
    intro c hc
    fin_cases hc <;> decide
  have hgood (c : Char) (hc : c ∈ ['p', 'o', 's', 't']) := hd.ascii c (hletters c hc)
  have hplain (p c : Char) (left : List Char) (hp : p ∈ ['p', 'o', 's', 't'])
      (hc : c ∈ ['p', 'o', 's', 't']) : d.joins (p :: left) c = false := by
    have hjoins : d.joins (p :: left) c = d.attaches c :=
      Foundation.Graphemes.joins_plain_left (hgood p hp).2
    rw [hjoins, UnicodeData.attaches, (hgood c hc).2.breakClass]
    rfl
  refine isSlug_iff.mpr ⟨hd.normal_ascii _ hletters, by decide, (hgood 'p' (by simp)).1,
    goodFrom_iff.mpr ?_⟩
  rw [segments_cons, segmentsFrom_break (by simp) (hplain _ _ _ (by simp) (by simp)),
    segmentsFrom_break (by simp) (hplain _ _ _ (by simp) (by simp)),
    segmentsFrom_break (by simp) (hplain _ _ _ (by simp) (by simp))]
  intro g hg
  have hletter : ∃ c ∈ ['p', 'o', 's', 't'], g = [c] := by
    fin_cases hg <;> simp
  obtain ⟨c, hc, rfl⟩ := hletter
  exact .inr (hgood c hc).1

/-- A cluster that a slug refuses does not end with a hyphen. -/
theorem good_or_last (hd : d.Documented) {cur : List Char}
    (hcur : d.unicode.baseIsAlphanumeric cur = true ∨
      cur.getLast? ≠ some '-' ∧ endsPrepend d cur = false) (hrest : Arranged d k rest) :
    ∀ g ∈ clustersOf d cur rest, d.unicode.Good g ∨ g.getLast? ≠ some '-' := by
  have hfirst : d.unicode.Good cur ∨ cur.getLast? ≠ some '-' := hcur.imp .inr And.left
  induction rest generalizing cur k with
  | nil => exact List.forall_mem_singleton.mpr hfirst
  | cons item rest ih =>
    obtain ⟨dropped, h⟩ := item
    obtain ⟨hkept, -, hmore⟩ := hrest
    have hgood : d.unicode.Good h ∨ h.getLast? ≠ some '-' := .inl (.inr hkept.base)
    have hnext := ih (.inl hkept.base) hmore hgood
    cases dropped with
    | false => exact List.forall_mem_cons.mpr ⟨hfirst, hnext⟩
    | true =>
      rw [clustersOf]
      split_ifs with hprepend hattaches hattaches
      · have hbase := hcur.resolve_right
          (fun hfree ↦ absurd (hfree.2.symm.trans hprepend) Bool.false_ne_true)
        have happended : d.unicode.baseIsAlphanumeric (cur ++ '-' :: h) = true := by
          have hne : cur ≠ [] := by
            rintro rfl
            exact absurd hbase Bool.false_ne_true
          rw [Unicode.baseIsAlphanumeric, List.head?_append_of_ne_nil _ hne]
          exact hbase
        exact ih (.inl happended) hmore (.inl (.inr happended))
      · have hbase := hcur.resolve_right
          (fun hfree ↦ absurd (hfree.2.symm.trans hprepend) Bool.false_ne_true)
        refine List.forall_mem_cons.mpr ⟨.inl (.inr ?_), hnext⟩
        have hne : cur ≠ [] := by
          rintro rfl
          exact absurd hbase Bool.false_ne_true
        rw [Unicode.baseIsAlphanumeric, List.head?_append_of_ne_nil _ hne]
        exact hbase
      · have hends : EndsIn ('-' :: h) h := .inr ⟨[], rfl⟩
        have hlast : ('-' :: h).getLast? ≠ some '-' := by
          rw [List.getLast?_cons_of_ne_nil hkept.segment.ne_nil]
          exact getLast?_of_attaches hd hkept.segment hattaches
        have hfree := (hends.endsPrepend_eq hkept.segment.ne_nil).trans
          (endsPrepend_of_attaches hkept.segment hattaches)
        exact List.forall_mem_cons.mpr ⟨hfirst, ih (.inr ⟨hlast, hfree⟩) hmore (.inr hlast)⟩
      · exact List.forall_mem_cons.mpr ⟨hfirst, List.forall_mem_cons.mpr ⟨.inl (.inl rfl), hnext⟩⟩

/-- The clusters of a text whose last hyphens are trimmed are good when they all are. -/
theorem goodFrom_trim_iff (hgs : Segmented d.joins gs)
    (hlast : ∀ g ∈ gs, d.unicode.Good g ∨ g.getLast? ≠ some '-') :
    d.unicode.GoodFrom [] [] (trimHyphens gs.flatten) ↔ AllGood d gs := by
  constructor
  · intro hgood g hg
    by_contra hbad
    obtain ⟨before, after, rfl⟩ := List.append_of_mem hg
    have hsame : before ++ g :: after = before ++ [g] ++ after := by simp
    rw [hsame] at hgs hgood
    have hbegun : Segmented d.joins (before ++ [g]) :=
      ⟨fun h hh ↦ hgs.segment h (List.mem_append_left _ hh), hgs.breaks.left_of_append⟩
    have hne := (hbegun.segment g (by simp)).ne_nil
    have hends : (before ++ [g]).flatten.getLast? ≠ some '-' := by
      rw [List.flatten_append, List.flatten_singleton, List.getLast?_append_of_ne_nil _ hne]
      exact (hlast g hg).resolve_left hbad
    obtain ⟨more, hmore⟩ := begins_trimHyphens (t := after.flatten) hends
    rw [List.flatten_append, ← hmore] at hgood
    have hcut := goodFrom_iff.mp (goodFrom_left hgood)
    rw [segments_flatten joins_isLocal hbegun.segment hbegun.breaks] at hcut
    exact hbad (hcut g (by simp))
  · intro hall
    obtain ⟨more, hmore⟩ := trimHyphens_begins (s := gs.flatten)
    have hwhole : d.unicode.GoodFrom [] [] gs.flatten := by
      rw [goodFrom_iff, segments_flatten joins_isLocal hgs.segment hgs.breaks]
      exact hall
    rw [← hmore] at hwhole
    exact goodFrom_left hwhole

/-- What is left of a slug text is parsed back exactly when no hyphen takes a cluster along. -/
theorem isSlug_capped_iff (hd : d.Documented) (hk : IsKept d k) (hrest : Arranged d k rest)
    (hnormal : d.normalize (k ++ itemsText rest) = k ++ itemsText rest)
    {capped : List Char} (hcapped : capped = trimHyphens (truncateByGraphemes d.unicode
      (trimHyphens (k ++ itemsText rest)) maxSlugChars List.length)) :
    IsSlug d.unicode (if capped = [] then ['p', 'o', 's', 't'] else capped) ↔
      ClearFrom d k.length k rest := by
  obtain ⟨k', rest', htext, hk', -, hrest', -, hclear⟩ := trim_items hd hk hrest
  obtain ⟨hscan, hflatten⟩ :=
    segmented_clustersOf hd hk'.segment (.inl rfl) hk'.segment.ne_nil hrest'
  have hgood := allGood_iff_clearFrom 0 hd (.inl rfl) hk'.segment.ne_nil hk'.base hrest'
  have hclear := hclear 0
  simp only [Nat.zero_add] at hgood hclear
  have htaken := takeFitting_begins (clustersOf d k' rest') maxSlugChars List.length 0
  have hlength := length_takeFitting (clustersOf d k' rest') maxSlugChars (Nat.zero_le _)
  have hcut : capped <+: k' ++ itemsText rest' := by
    rw [hcapped, htext]
    exact trimHyphens_begins.trans (truncateByGraphemes_begins _ _)
  rw [truncateByGraphemes, htext, graphemes_itemsText hd hk' hrest'] at hcapped
  rw [← hclear, ← hgood]
  set taken := takeFitting maxSlugChars List.length 0 (clustersOf d k' rest') with htakenDef
  have htakenScan : Segmented d.joins taken := by
    obtain ⟨more, hmore⟩ := htaken
    rw [← hmore] at hscan
    exact ⟨fun g hg ↦ hscan.segment g (List.mem_append_left _ hg), hscan.breaks.left_of_append⟩
  have htrim := goodFrom_trim_iff htakenScan (fun g hg ↦
    good_or_last hd (.inl hk'.base) hrest' g (htaken.subset hg))
  rw [← hcapped] at htrim
  split_ifs with hempty
  · refine iff_of_true (isSlug_post hd) (htrim.mp ?_)
    rw [hempty]
    exact fun g hg ↦ absurd hg List.not_mem_nil
  · rw [isSlug_iff, ← htrim]
    refine ⟨fun h ↦ h.2.2.2, fun h ↦ ⟨?_, ?_, ?_, h⟩⟩
    · refine hd.normal_infix _ _ hnormal (hcut.isInfix.trans ?_)
      rw [← htext]
      exact trimHyphens_begins.isInfix
    · have hshort : capped.length ≤ taken.flatten.length := by
        rw [hcapped]
        exact trimHyphens_begins.length_le
      omega
    · obtain ⟨more, hmore⟩ := hcut
      have hbase := hk'.base
      have hhead : (capped ++ more).head? = (k' ++ itemsText rest').head? := by rw [hmore]
      rw [List.head?_append_of_ne_nil _ hempty,
        List.head?_append_of_ne_nil _ hk'.segment.ne_nil] at hhead
      rw [hhead]
      exact hbase

theorem segmented_suffix {gs' : List (List Char)} (hgs : Segmented d.joins gs)
    (h : gs' <:+ gs) : Segmented d.joins gs' := by
  obtain ⟨dropped, rfl⟩ := h
  exact ⟨fun g hg ↦ hgs.segment g (List.mem_append_right _ hg), hgs.breaks.right_of_append⟩

/-- The text that a title is turned into before it is cut. -/
def slugText (d : UnicodeData) (title : List Char) : List Char :=
  itemsText (items d.unicode (d.unicode.graphemes (d.normalize title)))

theorem slugifyTitle_eq : slugifyTitle d.unicode title =
    let capped := trimHyphens (truncateByGraphemes d.unicode (trimHyphens (slugText d title))
      maxSlugChars List.length)
    if capped = [] then ['p', 'o', 's', 't'] else capped := by
  rw [slugText, ← trimHyphens_slugLoop]
  rfl

theorem normal_slugText (title : List Char) (hd : d.Documented) :
    d.normalize (slugText d title) = slugText d title := by
  obtain ⟨-, hflatten⟩ := segments_segmented (joins_isLocal (d := d)) (d.normalize title)
  rw [slugText, graphemes_eq, items]
  set gs := segments d.joins (d.normalize title)
  have hsuffix := List.dropWhile_suffix (fun g ↦ !d.unicode.baseIsAlphanumeric g) (l := gs)
  set kept := gs.dropWhile (fun g ↦ !d.unicode.baseIsAlphanumeric g)
  have hnormal : d.normalize kept.flatten = kept.flatten := by
    refine hd.normal_infix _ _ (normalize_normalize hd (s := title)) ?_
    obtain ⟨dropped, hdropped⟩ := hsuffix
    rw [← hflatten, ← hdropped, List.flatten_append]
    exact (List.suffix_append _ _).isInfix
  have htext := normal_itemsText (s := []) kept hd false (by simpa using hnormal) hnormal
  simpa using htext

theorem slugifyTitle_normal (hd : d.Documented) :
    d.normalize (slugifyTitle d.unicode title) = slugifyTitle d.unicode title := by
  rw [slugifyTitle_eq]
  dsimp only
  split_ifs with hempty
  · exact (isSlug_iff.mp (isSlug_post hd)).1
  · refine hd.normal_infix _ _ (normal_slugText title hd) (List.IsPrefix.isInfix ?_)
    exact (trimHyphens_begins.trans (truncateByGraphemes_begins _ _)).trans trimHyphens_begins

theorem slugifyTitle_isSlug_iff (hd : d.Documented) :
    IsSlug d.unicode (slugifyTitle d.unicode title) ↔
      Clear d (items d.unicode (d.unicode.graphemes (d.normalize title))) := by
  have htext := normal_slugText title hd
  have hscan := (segments_segmented (joins_isLocal (d := d)) (d.normalize title)).1
  rw [slugText, graphemes_eq] at htext
  rw [slugifyTitle_eq, slugText, graphemes_eq]
  rw [items] at htext ⊢
  set gs := segments d.joins (d.normalize title)
  have hsuffix := List.dropWhile_suffix (fun g ↦ !d.unicode.baseIsAlphanumeric g) (l := gs)
  cases hkept : gs.dropWhile (fun g ↦ !d.unicode.baseIsAlphanumeric g) with
  | nil => exact iff_of_true (isSlug_post hd) trivial
  | cons g rest =>
    rw [hkept] at hsuffix htext
    have hscan' := segmented_suffix hscan hsuffix
    have hbase : d.unicode.baseIsAlphanumeric g = true := by
      have hhead := List.head_dropWhile_not (fun g ↦ !d.unicode.baseIsAlphanumeric g) (l := gs)
        (by rw [hkept]; simp)
      simpa [hkept] using hhead
    have hk : IsKept d g := ⟨hscan'.segment g List.mem_cons_self, hbase⟩
    have hrest : Segmented d.joins rest := segmented_suffix hscan' (List.suffix_cons g rest)
    have harranged : Arranged d g (itemsFrom d.unicode false rest) :=
      arranged_itemsFrom hrest (fun _ h hh ↦ (List.isChain_cons.mp hscan'.breaks).1 h hh)
    have hitems : itemsText (itemsFrom d.unicode false (g :: rest)) =
        g ++ itemsText (itemsFrom d.unicode false rest) := by
      rw [itemsFrom, if_pos hbase]
      rfl
    rw [hitems] at htext ⊢
    rw [itemsFrom, if_pos hbase, Clear]
    exact isSlug_capped_iff hd hk harranged htext rfl

end Reparse

end Jaunder.Common.Slug
