import Mathlib.Data.List.DropRight
import Mathlib.Data.List.TakeWhile
import Mathlib.Tactic

namespace Foundation.TextLines

abbrev Line := List Char

/-- The lines of a text: a line feed ends one, and takes a carriage return before it with it. -/
def lines : List Char → List Line
  | [] => []
  | c :: s =>
    if c = '\n' then [] :: lines s
    else if c = '\r' ∧ s.head? = some '\n' then lines s
    else
      match lines s with
      | [] => [[c]]
      | line :: rest => (c :: line) :: rest

/-- The pieces of a text between its line feeds. -/
def segments : List Char → List Line
  | [] => [[]]
  | c :: s =>
    if c = '\n' then [] :: segments s
    else
      match segments s with
      | [] => [[c]]
      | line :: rest => (c :: line) :: rest

def joinLines : List Line → List Char
  | [] => []
  | [line] => line
  | line :: next :: rest => line ++ '\n' :: joinLines (next :: rest)

def unlines (ls : List Line) : List Char := ls.flatMap (· ++ ['\n'])

/-- A line without the carriage return that would belong to its line feed. -/
def chomp (line : Line) : Line := if line.getLast? = some '\r' then line.dropLast else line

/-- The lines have no line feed in them. -/
def Plain (ls : List Line) : Prop := ∀ line ∈ ls, '\n' ∉ line

section Splitting

variable {line : Line} {ls rest : List Line} {s : List Char}

theorem Plain.head (h : Plain (line :: rest)) : '\n' ∉ line := h line List.mem_cons_self

theorem Plain.tail (h : Plain (line :: rest)) : Plain rest :=
  fun l hl ↦ h l (List.mem_cons_of_mem line hl)

theorem chomp_eq_or (line : Line) : chomp line = line ∨ line = chomp line ++ ['\r'] := by
  rw [chomp]
  split_ifs with hlast
  · exact .inr (List.dropLast_append_getLast? _ hlast).symm
  · exact .inl rfl

theorem chomp_cons {c : Char} (h : line ≠ []) : chomp (c :: line) = c :: chomp line := by
  rw [chomp, chomp, List.getLast?_cons, List.getLast?_eq_some_getLast h]
  simp only [Option.getD_some]
  split_ifs
  · exact List.dropLast_cons_of_ne_nil h
  · rfl

theorem chomp_singleton (c : Char) : chomp [c] = if c = '\r' then [] else [c] := by
  rw [chomp, List.getLast?_singleton]
  simp only [Option.some.injEq]
  rfl

theorem not_mem_chomp (h : '\n' ∉ line) : '\n' ∉ chomp line := by
  rw [chomp]
  split_ifs
  · exact fun hmem ↦ h (List.mem_of_mem_dropLast hmem)
  · exact h

/-- The first line of a text that goes on behind a line feed. -/
theorem lines_append (h : '\n' ∉ line) (s : List Char) :
    lines (line ++ '\n' :: s) = chomp line :: lines s := by
  induction line with
  | nil => rw [List.nil_append, lines, if_pos rfl]; rfl
  | cons c line ih =>
    have hc : c ≠ '\n' := fun heq ↦ h (heq ▸ List.mem_cons_self)
    have hline := ih (fun hmem ↦ h (List.mem_cons_of_mem c hmem))
    rw [List.cons_append, lines, if_neg hc, hline]
    cases line with
    | nil =>
      rw [chomp_singleton, List.nil_append, List.head?_cons]
      simp only [and_true]
      split_ifs
      · rfl
      · rfl
    | cons d line =>
      have hd : (d :: line ++ '\n' :: s).head? ≠ some '\n' := by
        rw [List.cons_append, List.head?_cons]
        intro heq
        exact h (Option.some.inj heq ▸ List.mem_cons_of_mem c List.mem_cons_self)
      rw [if_neg (fun hboth ↦ hd hboth.2), chomp_cons (List.cons_ne_nil d line)]

theorem lines_plain (h : '\n' ∉ line) : lines line = if line = [] then [] else [line] := by
  induction line with
  | nil => rfl
  | cons c line ih =>
    have hc : c ≠ '\n' := fun heq ↦ h (heq ▸ List.mem_cons_self)
    have hhead : line.head? ≠ some '\n' :=
      fun heq ↦ h (List.mem_cons_of_mem c (List.mem_of_mem_head? heq))
    rw [lines, if_neg hc, if_neg (fun hboth ↦ hhead hboth.2),
      ih (fun hmem ↦ h (List.mem_cons_of_mem c hmem)), if_neg (List.cons_ne_nil c line)]
    split_ifs with hnil
    · rw [hnil]
    · rfl

theorem lines_unlines (h : Plain ls) : lines (unlines ls) = ls.map chomp := by
  induction ls with
  | nil => rfl
  | cons line rest ih =>
    rw [unlines, List.flatMap_cons, List.append_assoc, List.singleton_append,
      lines_append h.head, ← unlines, ih h.tail, List.map_cons]

theorem segments_ne_nil (s : List Char) : segments s ≠ [] := by
  cases s with
  | nil => exact List.cons_ne_nil _ _
  | cons c s =>
    rw [segments]
    split_ifs
    · exact List.cons_ne_nil _ _
    · cases segments s with
      | nil => exact List.cons_ne_nil _ _
      | cons line rest => exact List.cons_ne_nil _ _

theorem plain_segments (s : List Char) : Plain (segments s) := by
  induction s with
  | nil =>
    intro line hline
    rw [List.mem_singleton.mp hline]
    exact List.not_mem_nil
  | cons c s ih =>
    rw [segments]
    split_ifs with hc
    · intro line hline
      rcases List.mem_cons.mp hline with rfl | hline
      · exact List.not_mem_nil
      · exact ih line hline
    · cases hs : segments s with
      | nil => exact absurd hs (segments_ne_nil s)
      | cons first rest =>
        rw [hs] at ih
        intro line hline
        rcases List.mem_cons.mp hline with rfl | hline
        · intro hmem
          rcases List.mem_cons.mp hmem with heq | hmem
          · exact hc heq.symm
          · exact ih.head hmem
        · exact ih.tail line hline

theorem joinLines_cons (line : Line) (h : ls ≠ []) :
    joinLines (line :: ls) = line ++ '\n' :: joinLines ls := by
  cases ls with
  | nil => exact absurd rfl h
  | cons next rest => rfl

theorem joinLines_segments (s : List Char) : joinLines (segments s) = s := by
  induction s with
  | nil => rfl
  | cons c s ih =>
    rw [segments]
    split_ifs with hc
    · rw [joinLines_cons [] (segments_ne_nil s), ih, hc, List.nil_append]
    · cases hs : segments s with
      | nil => exact absurd hs (segments_ne_nil s)
      | cons line rest =>
        rw [hs] at ih
        cases rest with
        | nil => rw [← ih]; rfl
        | cons next rest => rw [← ih]; rfl

/-- The lines of a text are its pieces without their carriage returns, and without an empty last
piece. -/
theorem lines_joinLines (h : Plain ls) (hne : ls ≠ []) :
    lines (joinLines ls) = ls.dropLast.map chomp ++ lines (ls.getLast hne) := by
  induction ls with
  | nil => exact absurd rfl hne
  | cons line rest ih =>
    cases rest with
    | nil => rfl
    | cons next rest =>
      rw [joinLines_cons line (List.cons_ne_nil next rest), lines_append h.head,
        ih h.tail (List.cons_ne_nil next rest)]
      rfl

theorem plain_lines (s : List Char) : Plain (lines s) := by
  rw [← joinLines_segments s, lines_joinLines (plain_segments s) (segments_ne_nil s)]
  intro line hline
  rcases List.mem_append.mp hline with hmap | hlast
  · obtain ⟨piece, hpiece, rfl⟩ := List.mem_map.mp hmap
    exact not_mem_chomp (plain_segments s piece (List.mem_of_mem_dropLast hpiece))
  · have hplain := plain_segments s _ (List.getLast_mem (segments_ne_nil s))
    rw [lines_plain hplain] at hlast
    split_ifs at hlast
    · exact absurd hlast List.not_mem_nil
    · rwa [List.mem_singleton.mp hlast]

theorem unlines_eq_joinLines (ls : List Line) : unlines ls = joinLines (ls ++ [[]]) := by
  induction ls with
  | nil => rfl
  | cons line rest ih =>
    rw [List.cons_append, joinLines_cons line (by simp), ← ih, unlines, List.flatMap_cons,
      List.append_assoc, List.singleton_append]
    rfl

theorem unlines_eq_concat (hne : ls ≠ []) : unlines ls = joinLines ls ++ ['\n'] := by
  induction ls with
  | nil => exact absurd rfl hne
  | cons line rest ih =>
    rw [unlines, List.flatMap_cons, List.append_assoc, List.singleton_append, ← unlines]
    cases rest with
    | nil => rfl
    | cons next rest =>
      rw [ih (List.cons_ne_nil next rest), joinLines_cons line (List.cons_ne_nil next rest),
        List.append_assoc, List.cons_append]

theorem segments_append (h : '\n' ∉ line) (s : List Char) :
    segments (line ++ '\n' :: s) = line :: segments s := by
  induction line with
  | nil => rw [List.nil_append, segments, if_pos rfl]
  | cons c line ih =>
    have hc : c ≠ '\n' := fun heq ↦ h (heq ▸ List.mem_cons_self)
    rw [List.cons_append, segments, if_neg hc, ih (fun hmem ↦ h (List.mem_cons_of_mem c hmem))]

theorem segments_unlines (h : Plain ls) : segments (unlines ls) = ls ++ [[]] := by
  induction ls with
  | nil => rfl
  | cons line rest ih =>
    rw [unlines, List.flatMap_cons, List.append_assoc, List.singleton_append,
      segments_append h.head, ← unlines, ih h.tail, List.cons_append]

theorem unlines_inj {ls' : List Line} (h : Plain ls) (h' : Plain ls') :
    unlines ls = unlines ls' ↔ ls = ls' := by
  refine ⟨fun heq ↦ ?_, congrArg unlines⟩
  have hsegments := congrArg segments heq
  rw [segments_unlines h, segments_unlines h'] at hsegments
  exact List.append_cancel_right hsegments

theorem chomp_eq_self_iff : chomp line = line ↔ line.getLast? ≠ some '\r' := by
  rw [chomp]
  split_ifs with hlast
  · refine ⟨fun h ↦ ?_, fun h ↦ absurd hlast h⟩
    have hne : line ≠ [] := by
      rintro rfl
      exact absurd hlast nofun
    have hlength := congrArg List.length h
    rw [List.length_dropLast] at hlength
    have hpos := List.length_pos_of_ne_nil hne
    omega
  · exact ⟨fun _ ↦ hlast, fun _ ↦ rfl⟩

/-- No line ends with a carriage return. -/
def NoReturns (ls : List Line) : Prop := ∀ line ∈ ls, line.getLast? ≠ some '\r'

theorem map_chomp_of_noReturns (h : NoReturns ls) : ls.map chomp = ls := by
  conv_rhs => rw [← List.map_id ls]
  exact List.map_congr_left (fun line hline ↦ chomp_eq_self_iff.mpr (h line hline))

end Splitting

section Whitespace

variable (ws : Char → Bool)

def trimEnd (s : List Char) : List Char := s.rdropWhile ws

def Blank (s : List Char) : Prop := s.all ws = true

instance (s : List Char) : Decidable (Blank ws s) := inferInstanceAs (Decidable (_ = _))

/-- The lines up to the last one that is not blank, which loses the white space at its end. -/
def settle : List Line → List Line
  | [] => []
  | line :: rest =>
    if ∀ l ∈ rest, Blank ws l then (if Blank ws line then [] else [trimEnd ws line])
    else chomp line :: settle rest

variable {ws} {s t : List Char} {line : Line} {ls : List Line}

theorem trimEnd_of_blank (h : Blank ws s) : trimEnd ws s = [] :=
  List.rdropWhile_eq_nil_iff.mpr (List.all_eq_true.mp h)

theorem trimEnd_append_of_blank (h : Blank ws t) (s : List Char) :
    trimEnd ws (s ++ t) = trimEnd ws s := by
  induction t using List.reverseRecOn with
  | nil => rw [List.append_nil]
  | append_singleton t c ih =>
    have hall := List.all_eq_true.mp h
    rw [← List.append_assoc, trimEnd, List.rdropWhile_concat_pos _ _ _ (hall c (by simp))]
    exact ih (List.all_eq_true.mpr (fun d hd ↦ hall d (List.mem_append_left _ hd)))

theorem trimEnd_append_of_not_blank (h : ¬ Blank ws t) (s : List Char) :
    trimEnd ws (s ++ t) = s ++ trimEnd ws t := by
  induction t using List.reverseRecOn with
  | nil => exact absurd rfl h
  | append_singleton t c ih =>
    rw [← List.append_assoc]
    by_cases hc : ws c = true
    · rw [trimEnd, trimEnd, List.rdropWhile_concat_pos _ _ _ hc, List.rdropWhile_concat_pos _ _ _ hc]
      refine ih (fun hblank ↦ h ?_)
      rw [Blank, List.all_append, hblank]
      simpa using hc
    · rw [trimEnd, trimEnd, List.rdropWhile_concat_neg _ _ _ hc, List.rdropWhile_concat_neg _ _ _ hc,
        List.append_assoc]

/-- What the trimmed end is made of. -/
theorem exists_trimEnd_append (ws : Char → Bool) (s : List Char) : ∃ t, Blank ws t ∧ s = trimEnd ws s ++ t := by
  induction s using List.reverseRecOn with
  | nil => exact ⟨[], rfl, rfl⟩
  | append_singleton s c ih =>
    by_cases hc : ws c = true
    · obtain ⟨t, ht, hs⟩ := ih
      refine ⟨t ++ [c], ?_, ?_⟩
      · rw [Blank, List.all_append, ht]
        simpa using hc
      · rw [trimEnd, List.rdropWhile_concat_pos _ _ _ hc, ← List.append_assoc]
        exact congrArg (· ++ [c]) hs
    · refine ⟨[], rfl, ?_⟩
      rw [trimEnd, List.rdropWhile_concat_neg _ _ _ hc, List.append_nil]

theorem blank_joinLines (hnl : ws '\n' = true) : Blank ws (joinLines ls) ↔ ∀ l ∈ ls, Blank ws l := by
  induction ls with
  | nil => exact ⟨fun _ _ h ↦ absurd h List.not_mem_nil, fun _ ↦ rfl⟩
  | cons line rest ih =>
    cases rest with
    | nil => simp [joinLines]
    | cons next rest =>
      rw [joinLines_cons line (List.cons_ne_nil next rest), List.forall_mem_cons, ← ih, Blank,
        List.all_append, List.all_cons, hnl, Bool.true_and, Bool.and_eq_true]
      rfl

/-- The lines of a text without the white space at its end. -/
theorem lines_trimEnd (hnl : ws '\n' = true) (h : Plain ls) :
    lines (trimEnd ws (joinLines ls)) = settle ws ls := by
  induction ls with
  | nil => rfl
  | cons line rest ih =>
    rw [settle]
    have hlast : lines (trimEnd ws line) = if Blank ws line then [] else [trimEnd ws line] := by
      obtain ⟨t, ht, hline⟩ := exists_trimEnd_append ws line
      have hplain : '\n' ∉ trimEnd ws line := by
        intro hmem
        refine h.head ?_
        rw [hline]
        exact List.mem_append_left t hmem
      rw [lines_plain hplain]
      have hiff : trimEnd ws line = [] ↔ Blank ws line :=
        List.rdropWhile_eq_nil_iff.trans List.all_eq_true.symm
      simp only [hiff]
    cases rest with
    | nil =>
      rw [if_pos (fun _ hl ↦ absurd hl List.not_mem_nil)]
      exact hlast
    | cons next rest =>
      have hne : next :: rest ≠ [] := List.cons_ne_nil next rest
      rw [joinLines_cons line hne]
      split_ifs with hall hblank
      · have htail : Blank ws ('\n' :: joinLines (next :: rest)) := by
          rw [Blank, List.all_cons, hnl, (blank_joinLines hnl).mpr hall]
          rfl
        rw [trimEnd_append_of_blank htail, hlast, if_pos hblank]
      · have htail : Blank ws ('\n' :: joinLines (next :: rest)) := by
          rw [Blank, List.all_cons, hnl, (blank_joinLines hnl).mpr hall]
          rfl
        rw [trimEnd_append_of_blank htail, hlast, if_neg hblank]
      · have htail : ¬ Blank ws (joinLines (next :: rest)) :=
          fun hblank ↦ hall ((blank_joinLines hnl).mp hblank)
        rw [← List.singleton_append, ← List.append_assoc, trimEnd_append_of_not_blank htail,
          List.append_assoc, List.singleton_append, lines_append h.head, ih h.tail]

theorem plain_settle (ws : Char → Bool) (h : Plain ls) : Plain (settle ws ls) := by
  induction ls with
  | nil => exact h
  | cons line rest ih =>
    rw [settle]
    split_ifs
    · exact fun _ hl ↦ absurd hl List.not_mem_nil
    · intro l hl
      rw [List.mem_singleton.mp hl]
      obtain ⟨t, -, hline⟩ := exists_trimEnd_append ws line
      exact fun hmem ↦ h.head (by rw [hline]; exact List.mem_append_left t hmem)
    · intro l hl
      rcases List.mem_cons.mp hl with rfl | hl
      · exact not_mem_chomp h.head
      · exact ih h.tail l hl

theorem settle_append_blank (hline : Blank ws line) (ls : List Line) :
    settle ws (ls ++ [line]) = settle ws ls := by
  induction ls with
  | nil =>
    simp only [List.nil_append, settle, List.not_mem_nil, false_imp_iff, implies_true, if_pos, hline]
  | cons first rest ih =>
    have hiff : (∀ l ∈ rest ++ [line], Blank ws l) ↔ ∀ l ∈ rest, Blank ws l := by
      simp only [List.mem_append, List.mem_singleton, or_imp, forall_and, forall_eq, hline, and_true]
    rw [List.cons_append, settle, settle, ih]
    simp only [hiff]

theorem blank_trimEnd : Blank ws (trimEnd ws s) ↔ Blank ws s := by
  refine ⟨fun h ↦ ?_, fun h ↦ ?_⟩
  · obtain ⟨t, ht, hs⟩ := exists_trimEnd_append ws s
    rw [hs, Blank, List.all_append, h, ht]
    rfl
  · rw [trimEnd_of_blank h]
    rfl

theorem blank_chomp (hcr : ws '\r' = true) : Blank ws (chomp line) ↔ Blank ws line := by
  rcases chomp_eq_or line with h | h
  · rw [h]
  · conv_rhs => rw [h, Blank, List.all_append, List.all_cons, hcr]
    rw [Bool.true_and, List.all_nil, Bool.and_true, Blank]

theorem trimEnd_trimEnd (s : List Char) : trimEnd ws (trimEnd ws s) = trimEnd ws s :=
  List.rdropWhile_idempotent ws s

theorem not_return_trimEnd (hcr : ws '\r' = true) (s : List Char) :
    (trimEnd ws s).getLast? ≠ some '\r' := by
  intro h
  have hne : trimEnd ws s ≠ [] := by
    intro hnil
    rw [hnil] at h
    exact absurd h nofun
  have hlast := List.rdropWhile_last_not ws s hne
  rw [List.getLast?_eq_some_getLast hne] at h
  exact hlast ((congrArg ws (Option.some.inj h)).trans hcr)

theorem settle_eq_nil_iff :
    settle ws ls = [] ↔ ∀ l ∈ ls, Blank ws l := by
  cases ls with
  | nil => exact ⟨fun _ _ h ↦ absurd h List.not_mem_nil, fun _ ↦ rfl⟩
  | cons line rest =>
    rw [settle, List.forall_mem_cons]
    split_ifs with hall hblank
    · exact ⟨fun _ ↦ ⟨hblank, hall⟩, fun _ ↦ rfl⟩
    · exact ⟨fun h ↦ h.elim, fun h ↦ absurd h.1 hblank⟩
    · exact ⟨fun h ↦ h.elim, fun h ↦ absurd h.2 hall⟩

theorem blank_settle_iff (hcr : ws '\r' = true) :
    (∀ l ∈ settle ws ls, Blank ws l) ↔ ∀ l ∈ ls, Blank ws l := by
  induction ls with
  | nil => exact Iff.rfl
  | cons line rest ih =>
    rw [settle]
    split_ifs with hall hblank
    · exact ⟨fun _ ↦ List.forall_mem_cons.mpr ⟨hblank, hall⟩, fun _ _ hl ↦
        absurd hl List.not_mem_nil⟩
    · rw [List.forall_mem_cons, List.forall_mem_cons, blank_trimEnd, and_iff_left hall]
      exact and_iff_left (fun _ hl ↦ absurd hl List.not_mem_nil)
    · rw [List.forall_mem_cons, List.forall_mem_cons, ih, blank_chomp hcr]

/-- What holds of every line that has a line behind it that is not blank. -/
def Inner (ws : Char → Bool) (P : Line → Prop) (ls : List Line) : Prop :=
  ∀ before line after, ls = before ++ line :: after → (∃ l ∈ after, ¬ Blank ws l) → P line

theorem inner_cons {P : Line → Prop} :
    Inner ws P (line :: ls) ↔ ((∃ l ∈ ls, ¬ Blank ws l) → P line) ∧ Inner ws P ls := by
  constructor
  · intro h
    refine ⟨h [] line ls rfl, fun before l after hls ↦ ?_⟩
    exact h (line :: before) l after (by rw [hls, List.cons_append])
  · rintro ⟨hhead, htail⟩ before l after hls
    cases before with
    | nil =>
      obtain ⟨rfl, rfl⟩ := List.cons.inj hls
      exact hhead
    | cons first before => exact htail before l after (List.cons.inj hls).2

theorem inner_nil {P : Line → Prop} : Inner ws P [] := by
  intro before line after h
  exact absurd h (by simp)

theorem inner_concat {P : Line → Prop} {line' : Line} (h : Blank ws line ↔ Blank ws line') :
    Inner ws P (ls ++ [line]) ↔ Inner ws P (ls ++ [line']) := by
  induction ls with
  | nil => simp [inner_cons, inner_nil]
  | cons first rest ih =>
    have hiff : (∃ l ∈ rest ++ [line], ¬ Blank ws l) ↔ ∃ l ∈ rest ++ [line'], ¬ Blank ws l := by
      simp only [List.mem_append, List.mem_singleton, or_and_right, exists_or, exists_eq_left, h]
    rw [List.cons_append, List.cons_append, inner_cons, inner_cons, ih, hiff]

theorem inner_concat_blank {P : Line → Prop} (h : Blank ws line) :
    Inner ws P (ls ++ [line]) ↔ Inner ws P ls := by
  induction ls with
  | nil => simp [inner_cons, inner_nil]
  | cons first rest ih =>
    have hiff : (∃ l ∈ rest ++ [line], ¬ Blank ws l) ↔ ∃ l ∈ rest, ¬ Blank ws l := by
      simp only [List.mem_append, List.mem_singleton, or_and_right, exists_or, exists_eq_left, h,
        not_true_eq_false, or_false]
    rw [List.cons_append, inner_cons, inner_cons, ih, hiff]

theorem noReturns_settle (hcr : ws '\r' = true) :
    NoReturns (settle ws ls) ↔ Inner ws (fun l ↦ (chomp l).getLast? ≠ some '\r') ls := by
  induction ls with
  | nil => exact ⟨fun _ ↦ inner_nil, fun _ _ h ↦ absurd h List.not_mem_nil⟩
  | cons line rest ih =>
    rw [settle, inner_cons, ← ih]
    by_cases hall : ∀ l ∈ rest, Blank ws l
    · rw [if_pos hall, settle_eq_nil_iff.mpr hall]
      refine ⟨fun _ ↦ ⟨fun ⟨l, hl, hnot⟩ ↦ absurd (hall l hl) hnot, fun _ h ↦
        absurd h List.not_mem_nil⟩, fun _ ↦ ?_⟩
      split_ifs
      · exact fun _ h ↦ absurd h List.not_mem_nil
      · intro l hl
        rw [List.mem_singleton.mp hl]
        exact not_return_trimEnd hcr line
    · rw [if_neg hall, NoReturns, List.forall_mem_cons]
      push Not at hall
      rw [forall_prop_of_true hall]
      rfl

/-- Settled lines stay as they are just when none of them ends with a carriage return. -/
theorem settle_settle_iff (hcr : ws '\r' = true) :
    settle ws (settle ws ls) = settle ws ls ↔ NoReturns (settle ws ls) := by
  induction ls with
  | nil => exact ⟨fun _ _ h ↦ absurd h List.not_mem_nil, fun _ ↦ rfl⟩
  | cons line rest ih =>
    rw [settle]
    by_cases hall : ∀ l ∈ rest, Blank ws l
    · rw [if_pos hall]
      split_ifs with hblank
      · exact ⟨fun _ _ h ↦ absurd h List.not_mem_nil, fun _ ↦ rfl⟩
      · refine ⟨fun _ l hl ↦ ?_, fun _ ↦ ?_⟩
        · rw [List.mem_singleton.mp hl]
          exact not_return_trimEnd hcr line
        · rw [settle, if_pos (fun _ hl ↦ absurd hl List.not_mem_nil),
            if_neg (fun h ↦ hblank (blank_trimEnd.mp h)), trimEnd_trimEnd]
    · rw [if_neg hall, settle, if_neg (fun h ↦ hall ((blank_settle_iff hcr).mp h)), List.cons.injEq,
        ih, chomp_eq_self_iff, NoReturns, NoReturns, List.forall_mem_cons]

theorem settle_dropWhile (hcr : ws '\r' = true) (ls : List Line) :
    (settle ws ls).dropWhile (fun l ↦ Blank ws l) =
      settle ws (ls.dropWhile (fun l ↦ Blank ws l)) := by
  induction ls with
  | nil => rfl
  | cons line rest ih =>
    rw [List.dropWhile_cons]
    by_cases hblank : Blank ws line
    · rw [if_pos (decide_eq_true hblank), ← ih, settle]
      split_ifs with hall
      · rw [settle_eq_nil_iff.mpr hall]
      · rw [List.dropWhile_cons, if_pos (decide_eq_true ((blank_chomp hcr).mpr hblank))]
    · rw [if_neg (by simpa using hblank), settle, if_neg hblank]
      split_ifs with hall
      · rw [List.dropWhile_cons, if_neg (by simpa [blank_trimEnd] using hblank)]
      · rw [List.dropWhile_cons, if_neg (by simpa [blank_chomp hcr] using hblank)]

theorem length_settle_le (ws : Char → Bool) (ls : List Line) : (settle ws ls).length ≤ ls.length := by
  induction ls with
  | nil => exact le_refl 0
  | cons line rest ih =>
    rw [settle]
    split_ifs
    · exact Nat.zero_le _
    · exact Nat.succ_le_succ (Nat.zero_le _)
    · exact Nat.succ_le_succ ih

/-- The last line, if there is one, is one that settling ends with. -/
def Ended (ws : Char → Bool) (ls : List Line) : Prop :=
  ∀ line ∈ ls.getLast?, ¬Blank ws line ∧ line.getLast? ≠ some '\r'

theorem ended_settle (hcr : ws '\r' = true) (ls : List Line) : Ended ws (settle ws ls) := by
  induction ls with
  | nil => exact fun _ h ↦ absurd h nofun
  | cons line rest ih =>
    rw [settle]
    split_ifs with hall hblank
    · exact fun _ h ↦ absurd h nofun
    · intro l hl
      obtain rfl : trimEnd ws line = l := Option.some.inj hl
      exact ⟨fun h ↦ hblank (blank_trimEnd.mp h), not_return_trimEnd hcr line⟩
    · intro l hl
      have hne : settle ws rest ≠ [] := fun hnil ↦ hall (settle_eq_nil_iff.mp hnil)
      rw [List.getLast?_cons, List.getLast?_eq_some_getLast hne] at hl
      exact ih l (by rwa [List.getLast?_eq_some_getLast hne])

theorem lines_joinLines_of_ended (h : Plain ls) (hended : Ended ws ls) :
    lines (joinLines ls) = ls.map chomp := by
  by_cases hne : ls = []
  · rw [hne]
    rfl
  · obtain ⟨hblank, hreturn⟩ := hended _ (List.getLast?_eq_some_getLast hne)
    have hnil : ls.getLast hne ≠ [] := by
      intro hnil
      rw [hnil] at hblank
      exact hblank rfl
    rw [lines_joinLines h hne, lines_plain (h _ (List.getLast_mem hne)), if_neg hnil]
    conv_rhs => rw [← List.dropLast_append_getLast hne, List.map_append, List.map_singleton,
      chomp_eq_self_iff.mpr hreturn]

end Whitespace

end Foundation.TextLines
