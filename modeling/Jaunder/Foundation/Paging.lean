import Mathlib.Data.List.Sort
import Mathlib.Tactic

namespace Foundation.Paging

variable {Row Cursor Size : Type}

/-- One answer of a paged listing. -/
structure Page (Row Cursor : Type) where
  rows : List Row
  next : Option Cursor

/-- The page of an over-fetched row set: the extra row only says that there are more. -/
def Page.ofFetched (n : ℕ) (cursor : Row → Cursor) (fetched : List Row) : Page Row Cursor where
  rows := fetched.take n
  next := if n < fetched.length then (fetched.take n).getLast?.map cursor else none

/-- The pages that a client reads who follows the next cursors. Every request may ask for a page
of another size. -/
inductive Walk (request : Size → Option Cursor → Option (Page Row Cursor)) :
    (ℕ → Size) → Option Cursor → List (Page Row Cursor) → Prop
  | last {sizes : ℕ → Size} {cursor : Option Cursor} {page : Page Row Cursor}
      (answer : request (sizes 0) cursor = some page) (stop : page.next = none) :
      Walk request sizes cursor [page]
  | more {sizes : ℕ → Size} {cursor : Option Cursor} {page : Page Row Cursor} {c : Cursor}
      {pages : List (Page Row Cursor)} (answer : request (sizes 0) cursor = some page)
      (continues : page.next = some c) (rest : Walk request (fun i ↦ sizes (i + 1)) (some c) pages) :
      Walk request sizes cursor (page :: pages)

/-- A next cursor is returned exactly when a further row exists. -/
def Announced (pages : List (Page Row Cursor)) : Prop :=
  ∀ before page after, pages = before ++ page :: after →
    (page.next.isSome ↔ after.flatMap Page.rows ≠ [])

/-- Whatever the page sizes, following the cursors from the first page ends and reads the listing,
each row once and in its order. -/
def Complete (request : Size → Option Cursor → Option (Page Row Cursor)) (listing : List Row) :
    Prop :=
  ∀ sizes : ℕ → Size, ∃ pages, Walk request sizes none pages ∧
    pages.flatMap Page.rows = listing ∧ Announced pages

theorem Walk.unique {request : Size → Option Cursor → Option (Page Row Cursor)} {sizes : ℕ → Size}
    {cursor : Option Cursor} {pages pages' : List (Page Row Cursor)}
    (h : Walk request sizes cursor pages) (h' : Walk request sizes cursor pages') :
    pages = pages' := by
  induction h generalizing pages' with
  | last answer stop =>
    cases h' with
    | last answer' _ =>
      rw [Option.some_inj.mp (answer.symm.trans answer')]
    | more answer' continues' _ =>
      rw [Option.some_inj.mp (answer.symm.trans answer'), continues'] at stop
      cases stop
  | more answer continues _ ih =>
    cases h' with
    | last answer' stop' =>
      rw [Option.some_inj.mp (answer.symm.trans answer'), stop'] at continues
      cases continues
    | more answer' continues' rest' =>
      obtain rfl := Option.some_inj.mp (answer.symm.trans answer')
      obtain rfl := Option.some_inj.mp (continues.symm.trans continues')
      rw [ih rest']

theorem Walk.forall_rows {request : Size → Option Cursor → Option (Page Row Cursor)} {P : Row → Prop}
    (hrequest : ∀ n cursor page, request n cursor = some page → ∀ r ∈ page.rows, P r)
    {sizes : ℕ → Size} {cursor : Option Cursor} {pages : List (Page Row Cursor)}
    (h : Walk request sizes cursor pages) : ∀ r ∈ pages.flatMap Page.rows, P r := by
  induction h with
  | last answer _ =>
    rw [List.flatMap_singleton]
    exact hrequest _ _ _ answer
  | more answer _ _ ih =>
    intro r hr
    rw [List.flatMap_cons, List.mem_append] at hr
    rcases hr with hr | hr
    · exact hrequest _ _ _ answer r hr
    · exact ih r hr

theorem announced_singleton {page : Page Row Cursor} (h : page.next = none) :
    Announced [page] := by
  intro before p after heq
  cases before with
  | nil =>
    obtain ⟨rfl, rfl⟩ := List.cons.inj heq
    simp [h]
  | cons q before => simp at heq

theorem Announced.cons {page : Page Row Cursor} {pages : List (Page Row Cursor)}
    (hpages : Announced pages) (hpage : page.next.isSome ↔ pages.flatMap Page.rows ≠ []) :
    Announced (page :: pages) := by
  intro before p after heq
  cases before with
  | nil =>
    obtain ⟨rfl, rfl⟩ := List.cons.inj heq
    exact hpage
  | cons q before =>
    obtain ⟨-, rfl⟩ := List.cons.inj heq
    exact hpages before p after rfl

/-- A keyset query: the matching rows, the columns that it orders by, and the values that the
cursor of a row is compared as, which need not be the columns of that row. -/
structure Keyset (Row Cursor Key : Type) [LinearOrder Key] where
  rows : List Row
  key : Row → Key
  cursor : Row → Cursor
  bound : Cursor → Key
  nodup : (rows.map key).Nodup

namespace Keyset

variable {Key : Type} [LinearOrder Key] (k : Keyset Row Cursor Key)

def ordered (rows : List Row) : List Row := rows.insertionSort (fun r s ↦ k.key r ≤ k.key s)

def listing : List Row := k.ordered k.rows

def isAfter (cursor : Option Cursor) (r : Row) : Bool := cursor.all (fun c ↦ k.bound c < k.key r)

def page (n : ℕ) (cursor : Option Cursor) : Page Row Cursor :=
  Page.ofFetched n k.cursor ((k.ordered (k.rows.filter (k.isAfter cursor))).take (n + 1))

/-- The cursor of every row that has rows behind it separates just these from the others. -/
def Cuts : Prop :=
  ∀ r ∈ k.rows, (∃ s ∈ k.rows, k.key r < k.key s) →
    ∀ s ∈ k.rows, k.bound (k.cursor r) < k.key s ↔ k.key r < k.key s

/-- The requests are answered by the query: the first one and those that follow a cursor. -/
structure Answers (size : Size → ℕ) (request : Size → Option Cursor → Option (Page Row Cursor)) :
    Prop where
  first : ∀ n, request n none = some (k.page (size n) none)
  follow : ∀ n, ∀ r ∈ k.rows, request n (some (k.cursor r)) =
    some (k.page (size n) (some (k.cursor r)))

theorem ordered_pairwise (rows : List Row) :
    (k.ordered rows).Pairwise (fun r s ↦ k.key r ≤ k.key s) := by
  have htotal : Std.Total (fun r s ↦ k.key r ≤ k.key s) := ⟨fun r s ↦ le_total _ _⟩
  have htrans : IsTrans Row (fun r s ↦ k.key r ≤ k.key s) := ⟨fun _ _ _ h h' ↦ h.trans h'⟩
  exact List.pairwise_insertionSort _ rows

theorem mem_listing {r : Row} : r ∈ k.listing ↔ r ∈ k.rows := List.mem_insertionSort _

theorem listing_perm : k.listing.Perm k.rows := List.perm_insertionSort _ _

theorem key_inj {r s : Row} (hr : r ∈ k.rows) (hs : s ∈ k.rows) (h : k.key r = k.key s) : r = s :=
  List.inj_on_of_nodup_map k.nodup hr hs h

theorem listing_nodup : k.listing.Nodup :=
  k.listing_perm.nodup_iff.mpr (List.Nodup.of_map _ k.nodup)

theorem listing_pairwise : k.listing.Pairwise (fun r s ↦ k.key r < k.key s) := by
  have hle := k.ordered_pairwise k.rows
  have hne := k.listing_nodup
  refine (List.Pairwise.and_mem.mp (hle.and hne)).imp ?_
  rintro r s ⟨hr, hs, hle, hne⟩
  refine lt_of_le_of_ne hle (fun heq ↦ hne ?_)
  exact k.key_inj (k.mem_listing.mp hr) (k.mem_listing.mp hs) heq

/-- Rows in the order of the query are the sorted rows. -/
theorem eq_ordered {sorted rows : List Row} (hperm : sorted.Perm rows) (hrows : ∀ r ∈ rows, r ∈ k.rows)
    (hsorted : sorted.Pairwise (fun r s ↦ k.key r ≤ k.key s)) : sorted = k.ordered rows := by
  have hperm' : sorted.Perm (k.ordered rows) := hperm.trans (List.perm_insertionSort _ _).symm
  refine hperm'.eq_of_pairwise (fun r s hr hs hle hle' ↦ ?_) hsorted (k.ordered_pairwise rows)
  have hs' := hrows s ((List.mem_insertionSort _).mp hs)
  exact k.key_inj (hrows r (hperm.subset hr)) hs' (le_antisymm hle hle')

theorem ordered_filter (p : Row → Bool) : k.ordered (k.rows.filter p) = k.listing.filter p :=
  (k.eq_ordered (k.listing_perm.filter p) (fun _ hr ↦ List.mem_of_mem_filter hr)
    ((k.ordered_pairwise k.rows).filter p)).symm

theorem page_eq (n : ℕ) (cursor : Option Cursor) : k.page n cursor =
    Page.ofFetched n k.cursor ((k.listing.filter (k.isAfter cursor)).take (n + 1)) := by
  rw [page, ordered_filter]

theorem page_first (n : ℕ) :
    k.page n none = Page.ofFetched n k.cursor (k.listing.take (n + 1)) := by
  rw [page_eq, List.filter_eq_self.mpr]
  intro r _
  rfl

/-- The rows behind a place of the listing are those with a greater key. -/
theorem filter_behind {before behind : List Row} {r : Row}
    (hlisting : k.listing = before ++ r :: behind) :
    k.listing.filter (fun s ↦ k.key r < k.key s) = behind := by
  have hsorted := k.listing_pairwise
  rw [hlisting, List.pairwise_append, List.pairwise_cons] at hsorted
  obtain ⟨-, ⟨hbehind, -⟩, hbefore⟩ := hsorted
  rw [hlisting, List.filter_append, List.filter_cons_of_neg (by simp)]
  have hnone : before.filter (fun s ↦ k.key r < k.key s) = [] := by
    refine List.filter_eq_nil_iff.mpr (fun s hs ↦ ?_)
    simpa using (hbefore s hs r List.mem_cons_self).le
  have hall : behind.filter (fun s ↦ k.key r < k.key s) = behind :=
    List.filter_eq_self.mpr (fun s hs ↦ decide_eq_true (hbehind s hs))
  rw [hnone, hall, List.nil_append]

/-- The cursor of a row is followed by the rest of the listing behind that row. -/
def CutsAfter (r : Row) (behind : List Row) : Prop :=
  k.listing.filter (k.isAfter (some (k.cursor r))) = behind

theorem cutsAfter_iff {before behind : List Row} {r : Row}
    (hlisting : k.listing = before ++ r :: behind) : k.CutsAfter r behind ↔
      ∀ s ∈ k.rows, k.bound (k.cursor r) < k.key s ↔ k.key r < k.key s := by
  rw [CutsAfter, ← k.filter_behind hlisting]
  refine ⟨fun heq s hs ↦ ?_, fun h ↦ List.filter_congr (fun s hs ↦ ?_)⟩
  · have hmem := congrArg (s ∈ ·) heq
    simpa [List.mem_filter, k.mem_listing, hs, isAfter] using hmem
  · exact decide_eq_decide.mpr (h s (k.mem_listing.mp hs))

theorem exists_behind_iff {before behind : List Row} {r : Row}
    (hlisting : k.listing = before ++ r :: behind) :
    (∃ s ∈ k.rows, k.key r < k.key s) ↔ behind ≠ [] := by
  rw [← k.filter_behind hlisting, ne_eq, List.filter_eq_nil_iff]
  simp only [k.mem_listing, decide_eq_true_eq, not_forall, not_not, exists_prop]

theorem cuts_iff : k.Cuts ↔ ∀ before r behind, k.listing = before ++ r :: behind →
    behind ≠ [] → k.CutsAfter r behind := by
  constructor
  · intro hcuts before r behind hlisting hbehind
    have hr : r ∈ k.rows := by
      rw [← k.mem_listing, hlisting]
      exact List.mem_append_right _ List.mem_cons_self
    exact (k.cutsAfter_iff hlisting).mpr (hcuts r hr ((k.exists_behind_iff hlisting).mpr hbehind))
  · intro hcuts r hr hexists
    obtain ⟨before, behind, hlisting⟩ := List.append_of_mem (k.mem_listing.mpr hr)
    have hbehind := (k.exists_behind_iff hlisting).mp hexists
    exact (k.cutsAfter_iff hlisting).mp (hcuts before r behind hlisting hbehind)

theorem filter_suffix {rows : List Row} {p : Row → Bool}
    (h : rows.Pairwise (fun r s ↦ p r → p s)) : rows.filter p <:+ rows := by
  induction rows with
  | nil => exact List.suffix_rfl
  | cons r rows ih =>
    rw [List.pairwise_cons] at h
    by_cases hr : p r
    · have hall : rows.filter p = rows := List.filter_eq_self.mpr (fun s hs ↦ h.1 s hs hr)
      rw [List.filter_cons_of_pos hr, hall]
    · rw [List.filter_cons_of_neg hr]
      exact (ih h.2).trans (List.suffix_cons r rows)

/-- A cursor that leads to the next row leads to all the rows behind that one too. -/
theorem cutsAfter_of_head {before behind : List Row} {r : Row}
    (hlisting : k.listing = before ++ r :: behind) (hbehind : behind ≠ [])
    (hhead : (k.listing.filter (k.isAfter (some (k.cursor r)))).head? = behind.head?) :
    k.CutsAfter r behind := by
  obtain ⟨next, tail, rfl⟩ := List.exists_cons_of_ne_nil hbehind
  obtain ⟨tail', hfilter⟩ := List.head?_eq_some_iff.mp hhead
  have hmono : k.listing.Pairwise (fun r' s ↦
      k.isAfter (some (k.cursor r)) r' → k.isAfter (some (k.cursor r)) s) := by
    refine k.listing_pairwise.imp (fun hlt hafter ↦ ?_)
    simp only [isAfter, Option.all_some, decide_eq_true_eq] at hafter ⊢
    exact hafter.trans hlt
  obtain ⟨before', hplace'⟩ := filter_suffix hmono
  rw [hfilter] at hplace'
  have hplace : k.listing = (before ++ [r]) ++ next :: tail := by
    rw [hlisting, List.append_assoc]
    rfl
  rw [CutsAfter, hfilter, ← k.filter_behind hplace'.symm, k.filter_behind hplace]

/-- The first row that a walk reads with pages of one row is the first fetched row. -/
theorem head?_of_walk {request : Size → Option Cursor → Option (Page Row Cursor)}
    {sizes : ℕ → Size} {cursor : Option Cursor} {pages : List (Page Row Cursor)}
    {cursorOf : Row → Cursor} {fetched : List Row}
    (hanswer : request (sizes 0) cursor = some (Page.ofFetched 1 cursorOf (fetched.take 2)))
    (hwalk : Walk request sizes cursor pages) (hrows : pages.flatMap Page.rows ≠ []) :
    fetched.head? = (pages.flatMap Page.rows).head? := by
  cases fetched with
  | nil =>
    cases hwalk with
    | last answer stop =>
      rw [hanswer, Option.some_inj] at answer
      rw [← answer] at hrows
      exact absurd rfl hrows
    | more answer continues _ =>
      rw [hanswer, Option.some_inj] at answer
      rw [← answer] at continues
      cases continues
  | cons r fetched =>
    cases hwalk with
    | last answer _ =>
      rw [hanswer, Option.some_inj] at answer
      rw [← answer]
      rfl
    | more answer _ _ =>
      rw [hanswer, Option.some_inj] at answer
      rw [← answer]
      rfl

section Requests

variable {size : Size → ℕ} {request : Size → Option Cursor → Option (Page Row Cursor)}

theorem walk_last {rest : List Row} {cursor : Option Cursor} {sizes : ℕ → Size}
    (hshort : rest.length ≤ size (sizes 0))
    (hrequest : request (sizes 0) cursor =
      some (Page.ofFetched (size (sizes 0)) k.cursor (rest.take (size (sizes 0) + 1)))) :
    ∃ pages, Walk request sizes cursor pages ∧ pages.flatMap Page.rows = rest ∧
      Announced pages := by
  have hfetched : rest.take (size (sizes 0) + 1) = rest := List.take_of_length_le (by omega)
  have hpage : Page.ofFetched (size (sizes 0)) k.cursor (rest.take (size (sizes 0) + 1)) =
      ⟨rest, none⟩ := by
    rw [hfetched, Page.ofFetched, if_neg (by omega), List.take_of_length_le hshort]
  rw [hpage] at hrequest
  exact ⟨[⟨rest, none⟩], .last hrequest rfl, List.flatMap_singleton .., announced_singleton rfl⟩

/-- From any place of the listing the walk reads the rest of it. -/
theorem walk_of_cuts (hcuts : k.Cuts) (hsize : ∀ n, 0 < size n) (hanswers : k.Answers size request)
    (bound : ℕ) : ∀ (rest before : List Row) (cursor : Option Cursor) (sizes : ℕ → Size),
      rest.length ≤ bound → k.listing = before ++ rest →
      (∀ n, request n cursor = some (Page.ofFetched (size n) k.cursor (rest.take (size n + 1)))) →
      ∃ pages, Walk request sizes cursor pages ∧ pages.flatMap Page.rows = rest ∧
        Announced pages := by
  rw [cuts_iff] at hcuts
  induction bound with
  | zero =>
    intro rest before cursor sizes hbound hlisting hrequest
    exact k.walk_last (by omega) (hrequest _)
  | succ bound ih =>
    intro rest before cursor sizes hbound hlisting hrequest
    have hpos := hsize (sizes 0)
    by_cases hmore : size (sizes 0) < rest.length
    · -- The page ends at a row with rows behind it, so the next request resumes right there.
      obtain ⟨r, hr⟩ : ∃ r, (rest.take (size (sizes 0))).getLast? = some r := by
        rw [← Option.isSome_iff_exists, List.getLast?_isSome]
        exact List.ne_nil_of_length_pos (by rw [List.length_take]; omega)
      obtain ⟨shown, hshown⟩ := List.getLast?_eq_some_iff.mp hr
      have hrest : rest = shown ++ r :: rest.drop (size (sizes 0)) := by
        conv_lhs => rw [← List.take_append_drop (size (sizes 0)) rest, hshown]
        rw [List.append_assoc, List.singleton_append]
      have hplace : k.listing = (before ++ shown) ++ r :: rest.drop (size (sizes 0)) := by
        rw [hlisting, List.append_assoc, ← hrest]
      have hbehind : rest.drop (size (sizes 0)) ≠ [] :=
        List.ne_nil_of_length_pos (by rw [List.length_drop]; omega)
      have hcut := hcuts _ r _ hplace hbehind
      have hrow : r ∈ k.rows := by
        rw [← k.mem_listing, hplace]
        exact List.mem_append_right _ List.mem_cons_self
      have htake : (rest.take (size (sizes 0) + 1)).take (size (sizes 0)) =
          rest.take (size (sizes 0)) := by
        rw [List.take_take, Nat.min_eq_left (Nat.le_succ _)]
      have hnext : (Page.ofFetched (size (sizes 0)) k.cursor
          (rest.take (size (sizes 0) + 1))).next = some (k.cursor r) := by
        rw [Page.ofFetched, htake, if_pos (by rw [List.length_take]; omega), hr, Option.map_some]
      obtain ⟨pages, hwalk, hrows, hannounced⟩ :=
        ih (rest.drop (size (sizes 0))) ((before ++ shown) ++ [r]) (some (k.cursor r))
          (fun i ↦ sizes (i + 1)) (by rw [List.length_drop]; omega)
          (by rw [hplace, List.append_assoc (before ++ shown), List.singleton_append])
          (fun n ↦ by rw [hanswers.follow n r hrow, page_eq, hcut])
      refine ⟨_ :: pages, .more (hrequest _) hnext hwalk, ?_, hannounced.cons ?_⟩
      · rw [List.flatMap_cons, hrows, Page.ofFetched, htake, List.take_append_drop]
      · rw [hnext, hrows]
        exact iff_of_true rfl hbehind
    · exact k.walk_last (not_lt.mp hmore) (hrequest _)

/-- The cursor that a page of one row ends with has to lead to the next row. -/
theorem cuts_of_walk {one : Size} (hone : size one = 1) (hanswers : k.Answers size request) :
    ∀ (rest before : List Row) (cursor : Option Cursor) (pages : List (Page Row Cursor)),
      k.listing = before ++ rest →
      (∀ n, request n cursor = some (Page.ofFetched (size n) k.cursor (rest.take (size n + 1)))) →
      Walk request (fun _ ↦ one) cursor pages → pages.flatMap Page.rows = rest →
      ∀ shown r behind, rest = shown ++ r :: behind → behind ≠ [] → k.CutsAfter r behind := by
  intro rest
  induction rest with
  | nil =>
    intro before cursor pages hlisting hrequest hwalk hrows shown r behind hsplit
    simp at hsplit
  | cons row rest ih =>
    intro before cursor pages hlisting hrequest hwalk hrows shown r behind hsplit hbehind
    have hrest : rest ≠ [] := by
      rintro rfl
      cases shown with
      | nil => exact hbehind (List.cons.inj hsplit).2.symm
      | cons x shown => simp at hsplit
    have hpage : request one cursor = some ⟨[row], some (k.cursor row)⟩ := by
      obtain ⟨next, tail, rfl⟩ := List.exists_cons_of_ne_nil hrest
      rw [hrequest one, hone]
      rfl
    have hrow : row ∈ k.rows := by
      rw [← k.mem_listing, hlisting]
      exact List.mem_append_right _ List.mem_cons_self
    cases hwalk with
    | last answer stop =>
      rw [hpage, Option.some_inj] at answer
      rw [← answer] at stop
      cases stop
    | more answer continues hwalk' =>
      rw [hpage, Option.some_inj] at answer
      subst answer
      obtain rfl := Option.some_inj.mp continues
      obtain ⟨-, hrows'⟩ := List.cons.inj hrows
      have hcut : k.CutsAfter row rest := by
        have hanswer := hanswers.follow one row hrow
        rw [page_eq, hone] at hanswer
        have hhead := head?_of_walk hanswer hwalk' (fun hnil ↦ hrest (hrows'.symm.trans hnil))
        refine k.cutsAfter_of_head hlisting hrest ?_
        rw [hhead]
        exact congrArg List.head? hrows'
      cases shown with
      | nil =>
        obtain ⟨rfl, rfl⟩ := List.cons.inj hsplit
        exact hcut
      | cons x shown =>
        obtain ⟨rfl, htail⟩ := List.cons.inj hsplit
        refine ih (before ++ [row]) _ _ (by rw [hlisting, List.append_assoc]; rfl) ?_ hwalk' hrows'
          shown r behind htail hbehind
        intro n
        rw [hanswers.follow n row hrow, page_eq, hcut]

/-- A keyset listing pages completely at all page sizes exactly when its cursors cut it. -/
theorem complete_iff (hsize : ∀ n, 0 < size n) {one : Size} (hone : size one = 1)
    (hanswers : k.Answers size request) : Complete request k.listing ↔ k.Cuts := by
  have hfirst : ∀ n, request n none =
      some (Page.ofFetched (size n) k.cursor (k.listing.take (size n + 1))) := by
    intro n
    rw [hanswers.first, page_first]
  constructor
  · intro hcomplete
    obtain ⟨pages, hwalk, hrows, -⟩ := hcomplete (fun _ ↦ one)
    rw [cuts_iff]
    exact k.cuts_of_walk hone hanswers k.listing [] none pages rfl hfirst hwalk hrows
  · intro hcuts sizes
    exact k.walk_of_cuts hcuts hsize hanswers k.listing.length k.listing [] none sizes le_rfl rfl
      hfirst

end Requests

theorem cuts_of_bound (h : ∀ r ∈ k.rows, k.bound (k.cursor r) = k.key r) : k.Cuts := by
  intro r hr _ s _
  rw [h r hr]

end Keyset

end Foundation.Paging
