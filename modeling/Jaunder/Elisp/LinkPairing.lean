import Jaunder.Elisp.OrgLinks

namespace Jaunder.Elisp.OrgLinks

section Splicing

variable {text : List Char} {pairs : List (OrgLink × List Char)}

/-- The links stand one after the other in a text. -/
structure Ordered (length : ℕ) (links : List OrgLink) : Prop where
  apart : links.Pairwise (fun l l' ↦ l.stop ≤ l'.start)
  inside : ∀ l ∈ links, l.start ≤ l.stop ∧ l.stop ≤ length ∧
    ∀ start stop, l.contents = some (start, stop) → stop ≤ l.stop

/-- The text from a place on, with other texts in the places of some links. -/
def splice (text : List Char) : ℕ → List (OrgLink × List Char) → List Char
  | place, [] => text.drop place
  | place, (link, url) :: pairs =>
    let description := link.contents.map (fun (start, stop) ↦ substring start stop text)
    substring place link.start text ++ bracketLink description url ++ splice text link.stop pairs

theorem Ordered.sublist {length : ℕ} {links links' : List OrgLink} (h : Ordered length links)
    (hsub : links'.Sublist links) : Ordered length links' where
  apart := h.apart.sublist hsub
  inside l hl := h.inside l (hsub.subset hl)

theorem Ordered.tail {length : ℕ} {link : OrgLink} {links : List OrgLink}
    (h : Ordered length (link :: links)) : Ordered length links :=
  h.sublist (List.sublist_cons_self link links)

theorem take_append_substring {place start : ℕ} (h : place ≤ start) :
    text.take place ++ substring place start text = text.take start := by
  rw [substring, List.drop_take, ← List.take_add, Nat.add_sub_cancel' h]

theorem substring_take {start stop length : ℕ} (h : stop ≤ length) (rest : List Char)
    (hlength : length ≤ text.length) :
    substring start stop (text.take length ++ rest) = substring start stop text := by
  rw [substring, substring, List.take_append_of_le_length (by rw [List.length_take]; omega),
    List.take_take, Nat.min_eq_left h]

/-- Rewriting from the last link to the first leaves the text in between as it is. -/
theorem foldl_rewriteLink (h : Ordered text.length (pairs.map Prod.fst)) {place : ℕ}
    (hplace : ∀ l ∈ pairs.map Prod.fst, place ≤ l.start) :
    pairs.reverse.foldl rewriteLink text = text.take place ++ splice text place pairs := by
  induction pairs generalizing place with
  | nil => rw [splice, List.take_append_drop]; rfl
  | cons pair pairs ih =>
    obtain ⟨link, url⟩ := pair
    obtain ⟨hspan, hlength, hcontents⟩ := h.inside link List.mem_cons_self
    have hfirst := hplace link List.mem_cons_self
    have hrest := ih h.tail (fun l hl ↦ List.rel_of_pairwise_cons h.apart hl)
    rw [List.reverse_cons, List.foldl_append, hrest, splice]
    change (text.take link.stop ++ splice text link.stop pairs).take link.start ++
      bracketLink (link.contents.map (fun (start, stop) ↦
        substring start stop (text.take link.stop ++ splice text link.stop pairs))) url ++
      (text.take link.stop ++ splice text link.stop pairs).drop link.stop = _
    have htake : (text.take link.stop ++ splice text link.stop pairs).take link.start =
        text.take link.start := by
      rw [List.take_append_of_le_length (by rw [List.length_take]; omega), List.take_take,
        Nat.min_eq_left hspan]
    have hdrop : (text.take link.stop ++ splice text link.stop pairs).drop link.stop =
        splice text link.stop pairs := by
      rw [List.drop_append_of_le_length (by rw [List.length_take]; omega), List.drop_take,
        Nat.sub_self, List.take_zero, List.nil_append]
    have hdescription : link.contents.map (fun (start, stop) ↦
        substring start stop (text.take link.stop ++ splice text link.stop pairs)) =
        link.contents.map (fun (start, stop) ↦ substring start stop text) := by
      cases hlink : link.contents with
      | none => rfl
      | some contents =>
        obtain ⟨start, stop⟩ := contents
        exact congrArg some (substring_take (hcontents start stop hlink) _ hlength)
    rw [htake, hdrop, hdescription, ← List.append_assoc, ← List.append_assoc,
      take_append_substring hfirst]

theorem foldl_rewriteLink_eq_splice (h : Ordered text.length (pairs.map Prod.fst)) :
    pairs.reverse.foldl rewriteLink text = splice text 0 pairs :=
  foldl_rewriteLink h (fun _ _ ↦ Nat.zero_le _)

end Splicing

section Lists

variable {α β : Type} {R : α → β → Prop} {as : List α} {bs : List β} {i : ℕ} {a : α} {b : β}

theorem forall₂_getElem? (h : List.Forall₂ R as bs) (ha : as[i]? = some a) (hb : bs[i]? = some b) :
    R a b := by
  induction h generalizing i with
  | nil => cases ha
  | cons hab _ ih =>
    cases i with
    | zero =>
      cases ha
      cases hb
      exact hab
    | succ i => exact ih ha hb

theorem forall₂_of_getElem? (hlength : as.length = bs.length)
    (h : ∀ (i : ℕ) a b, as[i]? = some a → bs[i]? = some b → R a b) : List.Forall₂ R as bs := by
  induction as generalizing bs with
  | nil =>
    obtain rfl := List.length_eq_zero_iff.mp hlength.symm
    exact .nil
  | cons a as ih =>
    cases bs with
    | nil => cases hlength
    | cons b bs =>
      refine .cons (h 0 a b rfl rfl) (ih (Nat.succ.inj hlength) (fun i a b ha hb ↦ ?_))
      exact h (i + 1) a b ha hb

theorem mapM_eq_some {f : α → Option β} (h : as.mapM f = some bs) :
    as.map f = bs.map some := by
  induction as generalizing bs with
  | nil =>
    cases h
    rfl
  | cons a as ih =>
    rw [List.mapM_cons] at h
    obtain ⟨b, hb, h⟩ := Option.bind_eq_some_iff.mp h
    obtain ⟨bs', hbs', h⟩ := Option.bind_eq_some_iff.mp h
    cases h
    rw [List.map_cons, List.map_cons, hb, ih hbs']

end Lists

section Pairing

variable {links : List OrgLink} {rs rs' : List LinkRecord} {p : LinkRecord → Bool}
  {url : LinkRecord → Option (List Char)} {urls : List (List Char)}

/-- The links that get an address, each with its own. -/
def edits (links : List OrgLink) (urls : List (Option (List Char))) : List (OrgLink × List Char) :=
  (links.zip urls).filterMap (fun (link, url) ↦ url.map (link, ·))

/-- The address of a record of a kind. -/
def ownUrl (p : LinkRecord → Bool) (url : LinkRecord → Option (List Char)) (record : LinkRecord) :
    Option (List Char) :=
  if p record then url record else none

/-- When both readings select the same links, a link is paired with the address of its own record. -/
theorem zip_selected_eq_edits (hlength : links.length = rs.length)
    (h : List.Forall₂ (fun r r' ↦ p r = p r') rs rs')
    (hurls : (rs.filter p).map url = urls.map some) :
    (((links.zip rs').filter (fun pair ↦ p pair.2)).map Prod.fst).zip urls =
      edits links (rs.map (ownUrl p url)) := by
  induction h generalizing links urls with
  | nil =>
    obtain rfl := List.length_eq_zero_iff.mp hlength
    rfl
  | @cons r r' rs rs' hr _ ih =>
    cases links with
    | nil => cases hlength
    | cons link links =>
      have hlength' := Nat.succ.inj hlength
      by_cases hp : p r = true
      · have hp' : p r' = true := hr ▸ hp
        rw [List.filter_cons_of_pos hp] at hurls
        cases urls with
        | nil => cases hurls
        | cons u urls =>
          obtain ⟨hu, hurls⟩ := List.cons.inj hurls
          have hown : ownUrl p url r = some u := (if_pos hp).trans hu
          rw [List.zip_cons_cons, List.filter_cons_of_pos (a := (link, r')) hp', List.map_cons,
            List.zip_cons_cons, ih hlength' hurls, List.map_cons, hown]
          rfl
      · have hp' : ¬p r' = true := hr ▸ hp
        rw [List.filter_cons_of_neg hp] at hurls
        have hown : ownUrl p url r = none := if_neg hp
        rw [List.zip_cons_cons, List.filter_cons_of_neg (a := (link, r')) hp', ih hlength' hurls,
          List.map_cons, hown]
        rfl

theorem map_fst_edits_sublist (links : List OrgLink) (urls : List (Option (List Char))) :
    ((edits links urls).map Prod.fst).Sublist links := by
  induction links generalizing urls with
  | nil => exact List.Sublist.refl []
  | cons link links ih =>
    cases urls with
    | nil => exact List.nil_sublist _
    | cons url urls =>
      cases url with
      | none => exact (ih urls).cons link
      | some url => exact (ih urls).cons_cons link

/-- The places of the links of a kind, with the files that they name. -/
def picked (p : LinkRecord → Bool) (rs : List LinkRecord) : List (ℕ × Option (List Char)) :=
  (List.range rs.length).filterMap
    (fun i ↦ rs[i]?.bind (fun r ↦ if p r then some (i, r.file) else none))

/-- Both readings of a link select it alike and then name the same file. -/
def Alike (p : LinkRecord → Bool) (r r' : LinkRecord) : Prop :=
  p r = p r' ∧ (p r = true → r.file = r'.file)

theorem mem_picked {i : ℕ} {file : Option (List Char)} :
    (i, file) ∈ picked p rs ↔ ∃ r, rs[i]? = some r ∧ p r = true ∧ r.file = file := by
  unfold picked
  rw [List.mem_filterMap]
  constructor
  · rintro ⟨j, -, h⟩
    obtain ⟨r, hr, h⟩ := Option.bind_eq_some_iff.mp h
    split_ifs at h with hp
    obtain ⟨rfl, rfl⟩ := Prod.mk.inj (Option.some.inj h)
    exact ⟨r, hr, hp, rfl⟩
  · rintro ⟨r, hr, hp, rfl⟩
    refine ⟨i, List.mem_range.mpr (List.getElem?_eq_some_iff.mp hr).1, ?_⟩
    rw [hr, Option.bind_some, if_pos hp]

theorem picked_eq_iff (hlength : rs.length = rs'.length) :
    picked p rs = picked p rs' ↔ List.Forall₂ (Alike p) rs rs' := by
  constructor
  · intro h
    refine forall₂_of_getElem? hlength (fun i r r' hr hr' ↦ ?_)
    have hforward (hp : p r = true) : p r' = true ∧ r.file = r'.file := by
      have hmem : (i, r.file) ∈ picked p rs' := h ▸ mem_picked.mpr ⟨r, hr, hp, rfl⟩
      obtain ⟨r'', hr'', hp'', hfile⟩ := mem_picked.mp hmem
      obtain rfl := Option.some.inj (hr'.symm.trans hr'')
      exact ⟨hp'', hfile.symm⟩
    have hbackward (hp : p r' = true) : p r = true := by
      have hmem : (i, r'.file) ∈ picked p rs := h ▸ mem_picked.mpr ⟨r', hr', hp, rfl⟩
      obtain ⟨r'', hr'', hp'', -⟩ := mem_picked.mp hmem
      obtain rfl := Option.some.inj (hr.symm.trans hr'')
      exact hp''
    exact ⟨Bool.eq_iff_iff.mpr ⟨fun hp ↦ (hforward hp).1, hbackward⟩, fun hp ↦ (hforward hp).2⟩
  · intro h
    unfold picked
    rw [hlength]
    refine List.filterMap_congr (fun i hi ↦ ?_)
    have hi' := List.mem_range.mp hi
    have hr := List.getElem?_eq_getElem (hlength.symm ▸ hi' : i < rs.length)
    have hr' := List.getElem?_eq_getElem hi'
    have halike := forall₂_getElem? h hr hr'
    rw [hr, hr', Option.bind_some, Option.bind_some]
    by_cases hp : p rs[i] = true
    · rw [if_pos hp, if_pos (halike.1 ▸ hp), halike.2 hp]
    · rw [if_neg hp, if_neg (halike.1 ▸ hp)]

end Pairing

end Jaunder.Elisp.OrgLinks
