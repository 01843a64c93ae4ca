import Mathlib.Data.List.Basic
import Mathlib.Data.List.Chain
import Mathlib.Data.List.Infix
import Mathlib.Tactic

namespace Foundation.Segmentation

variable {α : Type*}

section Segments

variable (joins : List α → α → Bool)

/-- The segments of a text whose current one goes on while the next element joins. The text in front
is read from its end. -/
def segmentsFrom [DecidableEq α] (left current : List α) : List α → List (List α)
  | [] => if current = [] then [] else [current]
  | c :: cs =>
    if current ≠ [] ∧ joins left c = false then current :: segmentsFrom (c :: left) [c] cs
    else segmentsFrom (c :: left) (current ++ [c]) cs

def segments [DecidableEq α] (s : List α) : List (List α) := segmentsFrom joins [] [] s

/-- Whether a segment goes on is decided inside of it. -/
def Local : Prop :=
  ∀ before first cur c, joins before first = false →
    joins (cur ++ first :: before) c = joins (cur ++ [first]) c

def Joined : List α → List α → Prop
  | _, [] => True
  | left, c :: cs => joins left c = true ∧ Joined (c :: left) cs

/-- A text that is one segment. -/
def IsSegment (g : List α) : Prop := ∃ first rest, g = first :: rest ∧ Joined joins [first] rest

/-- The second text begins a segment behind the first. -/
def Breaks (g h : List α) : Prop := ∀ c ∈ h.head?, joins g.reverse c = false

end Segments

section Joined

variable {joins : List α → α → Bool} {left s t g : List α} {c : α}

theorem joined_append :
    Joined joins left (s ++ t) ↔ Joined joins left s ∧ Joined joins (s.reverse ++ left) t := by
  induction s generalizing left with
  | nil => simp [Joined]
  | cons c s ih =>
    rw [List.cons_append, Joined, Joined, ih, List.reverse_cons, List.append_assoc,
      List.singleton_append, and_assoc]

theorem IsSegment.ne_nil (h : IsSegment joins g) : g ≠ [] := by
  obtain ⟨first, rest, rfl, -⟩ := h
  exact List.cons_ne_nil first rest

theorem isSegment_singleton : IsSegment joins [c] := ⟨c, [], rfl, trivial⟩

theorem IsSegment.append (hs : IsSegment joins s) (ht : Joined joins s.reverse t) :
    IsSegment joins (s ++ t) := by
  obtain ⟨first, rest, rfl, hrest⟩ := hs
  refine ⟨first, rest ++ t, rfl, joined_append.mpr ⟨hrest, ?_⟩⟩
  rwa [List.reverse_cons] at ht

/-- A segment that is cut is a segment. -/
theorem IsSegment.cut (h : IsSegment joins (s ++ t)) (hs : s ≠ []) : IsSegment joins s := by
  obtain ⟨first, rest, heq, hrest⟩ := h
  obtain ⟨c, cs, rfl⟩ := List.exists_cons_of_ne_nil hs
  rw [List.cons_append] at heq
  obtain ⟨rfl, rfl⟩ := List.cons.inj heq
  exact ⟨c, cs, rfl, (joined_append.mp hrest).1⟩

theorem IsSegment.joined (h : IsSegment joins (s ++ t)) (hs : s ≠ []) :
    Joined joins s.reverse t := by
  obtain ⟨first, rest, heq, hrest⟩ := h
  obtain ⟨c, cs, rfl⟩ := List.exists_cons_of_ne_nil hs
  rw [List.cons_append] at heq
  obtain ⟨rfl, rfl⟩ := List.cons.inj heq
  rw [List.reverse_cons]
  exact (joined_append.mp hrest).2

/-- What holds of every element of a text when the elements that join inherit it. -/
theorem IsSegment.forall {P : α → Prop} (h : IsSegment joins g) (hfirst : ∀ c ∈ g.head?, P c)
    (hstep : ∀ p left c, (∀ x ∈ p :: left, P x) → [p, c] <:+: g →
      joins (p :: left) c = true → P c) : ∀ c ∈ g, P c := by
  obtain ⟨first, rest, rfl, hrest⟩ := h
  have hall : ∀ (p : α) (left done todo : List α), first :: rest = done ++ p :: todo →
      (∀ x ∈ p :: left, P x) → Joined joins (p :: left) todo → ∀ c ∈ todo, P c := by
    intro p left done todo hsplit hleft htodo
    induction todo generalizing p left done with
    | nil => exact fun c hc ↦ absurd hc List.not_mem_nil
    | cons c todo ih =>
      have hc : P c := hstep p left c hleft ⟨done, todo, by rw [hsplit]; simp⟩ htodo.1
      have hmore : ∀ x ∈ c :: p :: left, P x := List.forall_mem_cons.mpr ⟨hc, hleft⟩
      have htail := ih c (p :: left) (done ++ [p]) (by rw [hsplit]; simp) hmore htodo.2
      exact List.forall_mem_cons.mpr ⟨hc, htail⟩
  have hhead : P first := hfirst first rfl
  refine List.forall_mem_cons.mpr ⟨hhead, hall first [] [] rest rfl ?_ hrest⟩
  exact List.forall_mem_singleton.mpr hhead

end Joined

section Segmentation

variable [DecidableEq α] {joins : List α → α → Bool} {left before current s t g : List α} {c : α}

theorem segmentsFrom_break (hcurrent : current ≠ []) (h : joins left c = false) :
    segmentsFrom joins left current (c :: s) =
      current :: segmentsFrom joins (c :: left) [c] s := by
  rw [segmentsFrom, if_pos ⟨hcurrent, h⟩]

theorem segmentsFrom_join (h : joins left c = true) :
    segmentsFrom joins left current (c :: s) =
      segmentsFrom joins (c :: left) (current ++ [c]) s := by
  rw [segmentsFrom, if_neg (fun hbreak ↦ by rw [h] at hbreak; exact absurd hbreak.2 nofun)]

theorem segments_cons : segments joins (c :: s) = segmentsFrom joins [c] [c] s := by
  rw [segments, segmentsFrom, if_neg (fun h ↦ h.1 rfl)]
  rfl

theorem segmentsFrom_joined (current : List α) (h : Joined joins left s) :
    segmentsFrom joins left current (s ++ t) =
      segmentsFrom joins (s.reverse ++ left) (current ++ s) t := by
  induction s generalizing left current with
  | nil => simp
  | cons c s ih =>
    rw [List.cons_append, segmentsFrom_join h.1, ih _ h.2]
    simp

theorem IsSegment.segments (h : IsSegment joins g) : segments joins g = [g] := by
  obtain ⟨first, rest, rfl, hrest⟩ := h
  have hscan := segmentsFrom_joined [first] (t := []) hrest
  rw [List.append_nil] at hscan
  rw [segments_cons, hscan, segmentsFrom, if_neg (by simp)]
  rfl

theorem segmentsFrom_head (joins : List α → α → Bool) (left : List α)
    (h : current.head? = some c) :
    ∃ first rest, segmentsFrom joins left current s = first :: rest ∧ first.head? = some c := by
  have hne : current ≠ [] := by
    rintro rfl
    exact absurd h nofun
  induction s generalizing left current with
  | nil => exact ⟨current, [], by rw [segmentsFrom, if_neg hne], h⟩
  | cons d s ih =>
    unfold segmentsFrom
    split_ifs with hbreak
    · exact ⟨current, _, rfl, h⟩
    · exact ih _ (by rw [List.head?_append, h]; rfl) (by simp)

/-- Nothing in front of a segment matters for what follows it. -/
theorem segmentsFrom_local (hlocal : Local joins) (hcurrent : current ≠ [])
    (hbreak : ∀ c ∈ current.head?, joins before c = false) :
    segmentsFrom joins (current.reverse ++ before) current s =
      segmentsFrom joins current.reverse current s := by
  induction s generalizing current before with
  | nil => rfl
  | cons c s ih =>
    obtain ⟨first, rest, rfl⟩ := List.exists_cons_of_ne_nil hcurrent
    have hsame : joins ((first :: rest).reverse ++ before) c = joins (first :: rest).reverse c := by
      rw [List.reverse_cons, List.append_assoc, List.singleton_append]
      exact hlocal before first rest.reverse c (hbreak first rfl)
    cases hc : joins (first :: rest).reverse c with
    | true =>
      rw [segmentsFrom_join (hsame.trans hc), segmentsFrom_join hc]
      have hmore : first :: rest ++ [c] ≠ [] := by simp
      have hnext := ih hmore hbreak
      rw [List.reverse_append] at hnext
      exact hnext
    | false =>
      rw [segmentsFrom_break (by simp) (hsame.trans hc), segmentsFrom_break (by simp) hc]
      have hone (before : List α) (h : joins before c = false) :
          segmentsFrom joins (c :: before) [c] s = segmentsFrom joins [c] [c] s :=
        ih (List.cons_ne_nil c []) (fun d hd ↦ by rwa [← Option.some.inj hd])
      rw [hone _ (hsame.trans hc), hone _ hc]

theorem segmentsFrom_append (h : joins (s.reverse ++ left) c = false)
    (hne : current ++ s ≠ []) :
    segmentsFrom joins left current (s ++ c :: t) =
      segmentsFrom joins left current s ++ segmentsFrom joins (c :: (s.reverse ++ left)) [c] t := by
  induction s generalizing left current with
  | nil =>
    rw [List.append_nil] at hne
    rw [List.reverse_nil, List.nil_append] at h ⊢
    rw [List.nil_append, segmentsFrom_break hne h, segmentsFrom, if_neg hne]
    rfl
  | cons d s ih =>
    have hsame : (d :: s).reverse ++ left = s.reverse ++ d :: left := by simp
    rw [hsame] at h ⊢
    rw [List.cons_append, segmentsFrom, segmentsFrom]
    split_ifs with hbreak
    · rw [ih h (by simp)]
      rfl
    · exact ih h (by simp)

theorem segments_append (hlocal : Local joins) (hs : s ≠ []) (h : joins s.reverse c = false) :
    segments joins (s ++ c :: t) = segments joins s ++ segments joins (c :: t) := by
  have hbreak : ∀ d ∈ [c].head?, joins s.reverse d = false :=
    fun d hd ↦ by rwa [← Option.some.inj hd]
  have hrest := segmentsFrom_local (s := t) hlocal (List.cons_ne_nil c []) hbreak
  rw [List.reverse_singleton, List.singleton_append] at hrest
  have hend : joins (s.reverse ++ []) c = false := by rwa [List.append_nil]
  have hne : [] ++ s ≠ [] := by rwa [List.nil_append]
  have hsplit := segmentsFrom_append (t := t) hend hne
  rw [segments, hsplit, List.append_nil, hrest, segments_cons]
  rfl

/-- A division into segments with a break behind each is the one that the rule gives. -/
theorem segments_flatten (hlocal : Local joins) {gs : List (List α)}
    (hgs : ∀ g ∈ gs, IsSegment joins g) (hbreaks : gs.IsChain (Breaks joins)) :
    segments joins gs.flatten = gs := by
  induction gs with
  | nil => rfl
  | cons g gs ih =>
    obtain ⟨hg, hrest⟩ := List.forall_mem_cons.mp hgs
    cases gs with
    | nil => rw [List.flatten_cons, List.flatten_nil, List.append_nil, hg.segments]
    | cons h gs =>
      obtain ⟨hfirst, hchain⟩ := List.isChain_cons_cons.mp hbreaks
      obtain ⟨c, cs, rfl, -⟩ := hrest h List.mem_cons_self
      have hsplit := segments_append (t := cs ++ gs.flatten) hlocal hg.ne_nil (hfirst c rfl)
      rw [List.flatten_cons, List.flatten_cons, List.cons_append, hsplit, hg.segments,
        ← List.cons_append, ← List.flatten_cons, ih hrest hchain]
      rfl

/-- What the rule gives: segments with a break behind each. -/
structure Segmented (joins : List α → α → Bool) (gs : List (List α)) : Prop where
  segment : ∀ g ∈ gs, IsSegment joins g
  breaks : gs.IsChain (Breaks joins)

theorem segmentsFrom_segmented (hlocal : Local joins) (h : IsSegment joins current) :
    Segmented joins (segmentsFrom joins current.reverse current s) ∧
      (segmentsFrom joins current.reverse current s).flatten = current ++ s := by
  induction s generalizing current with
  | nil =>
    rw [segmentsFrom, if_neg h.ne_nil]
    exact ⟨⟨List.forall_mem_singleton.mpr h, List.isChain_singleton _⟩, by simp⟩
  | cons c s ih =>
    cases hc : joins current.reverse c with
    | true =>
      have hmore : IsSegment joins (current ++ [c]) := h.append ⟨hc, trivial⟩
      have hscan := ih hmore
      rw [List.reverse_append, List.append_assoc] at hscan
      rw [segmentsFrom_join hc]
      exact hscan
    | false =>
      have hbreak : ∀ d ∈ [c].head?, joins current.reverse d = false :=
        fun d hd ↦ by rwa [← Option.some.inj hd]
      have hrest := segmentsFrom_local (s := s) hlocal (List.cons_ne_nil c []) hbreak
      rw [List.reverse_singleton, List.singleton_append] at hrest
      obtain ⟨hscan, hflatten⟩ := ih (isSegment_singleton (c := c))
      obtain ⟨first, rest, hsegments, hfirst⟩ :=
        segmentsFrom_head (s := s) joins [c] (List.head?_cons (a := c) (l := []))
      rw [List.reverse_singleton] at hscan hflatten
      rw [segmentsFrom_break h.ne_nil hc, hrest]
      refine ⟨⟨List.forall_mem_cons.mpr ⟨h, hscan.segment⟩, ?_⟩, ?_⟩
      · have hchain := hscan.breaks
        rw [hsegments] at hchain ⊢
        refine List.isChain_cons_cons.mpr ⟨fun d hd ↦ ?_, hchain⟩
        rw [hfirst] at hd
        rwa [← Option.some.inj hd]
      · rw [List.flatten_cons, hflatten]
        rfl

theorem segments_segmented (hlocal : Local joins) (s : List α) :
    Segmented joins (segments joins s) ∧ (segments joins s).flatten = s := by
  cases s with
  | nil => exact ⟨⟨fun g hg ↦ absurd hg List.not_mem_nil, .nil⟩, rfl⟩
  | cons c s =>
    rw [segments_cons]
    exact segmentsFrom_segmented (s := s) hlocal (isSegment_singleton (c := c))

end Segmentation

end Foundation.Segmentation
