import Mathlib.Data.List.DropRight
import Mathlib.Tactic

namespace Foundation.Trimming

variable {α : Type} (p : α → Bool)

/-- Every letter is one to be trimmed. -/
def Blank (s : List α) : Prop := ∀ c ∈ s, p c = true

/-- The word without the letters to be trimmed at its ends. -/
def trimBy (s : List α) : List α := (s.dropWhile p).rdropWhile p

/-- Neither end is a letter to be trimmed. -/
structure Tight (s : List α) : Prop where
  first : ∀ c ∈ s.head?, p c = false
  last : ∀ c ∈ s.getLast?, p c = false

/-- At most one letter is trimmed at the left end. -/
def trimLeftOnce : List α → List α
  | [] => []
  | c :: s => if p c then s else c :: s

/-- At most one letter is trimmed at the right end. -/
def trimRightOnce (s : List α) : List α :=
  match s.getLast? with
  | none => []
  | some c => if p c then s.dropLast else s

def trimOnce (s : List α) : List α := trimLeftOnce p (trimRightOnce p s)

/-- The word with a mark in the place of each run; the flag tells that a run has begun. -/
def replaceFrom (mark : α) : Bool → List α → List α
  | _, [] => []
  | inRun, c :: s =>
    if p c then if inRun then replaceFrom mark true s else mark :: replaceFrom mark true s
    else c :: replaceFrom mark false s

def replaceRuns (mark : α) (s : List α) : List α := replaceFrom p mark false s

variable {p} {a b s t : List α} {c mark : α} {inRun : Bool}

section Trim

theorem blank_nil : Blank p ([] : List α) := fun _ h ↦ absurd h List.not_mem_nil

theorem blank_append : Blank p (a ++ b) ↔ Blank p a ∧ Blank p b := List.forall_mem_append

theorem Blank.dropWhile (h : Blank p a) (s : List α) : (a ++ s).dropWhile p = s.dropWhile p :=
  List.dropWhile_append_of_pos h

theorem Blank.rdropWhile (h : Blank p b) (s : List α) : (s ++ b).rdropWhile p = s.rdropWhile p := by
  have hreverse : Blank p b.reverse := fun c hc ↦ h c (List.mem_reverse.mp hc)
  rw [List.rdropWhile, List.reverse_append, hreverse.dropWhile, ← List.rdropWhile]

theorem trimBy_of_blank (h : Blank p s) : trimBy p s = [] := by
  rw [trimBy, List.dropWhile_eq_nil_iff.mpr h]
  rfl

theorem trimBy_append (h : Blank p b) (s : List α) : trimBy p (s ++ b) = trimBy p s := by
  by_cases hs : Blank p s
  · rw [trimBy_of_blank hs, trimBy_of_blank (blank_append.mpr ⟨hs, h⟩)]
  · have hne : (s.dropWhile p).isEmpty = false := by
      rw [List.isEmpty_eq_false_iff]
      exact fun hnil ↦ hs (List.dropWhile_eq_nil_iff.mp hnil)
    rw [trimBy, List.dropWhile_append, hne, if_neg Bool.false_ne_true, h.rdropWhile, ← trimBy]

/-- What is to be trimmed may be added at the ends. -/
theorem trimBy_flanked (ha : Blank p a) (hb : Blank p b) (s : List α) :
    trimBy p (a ++ s ++ b) = trimBy p s := by
  rw [trimBy_append hb, trimBy, ha.dropWhile, ← trimBy]

theorem exists_flanks (p : α → Bool) (s : List α) :
    ∃ a b, s = a ++ trimBy p s ++ b ∧ Blank p a ∧ Blank p b := by
  refine ⟨s.takeWhile p, (s.dropWhile p).rtakeWhile p, ?_, fun c hc ↦ List.mem_takeWhile_imp hc,
    fun c hc ↦ ?_⟩
  · rw [List.append_assoc, trimBy, List.rdropWhile_append_rtakeWhile,
      List.takeWhile_append_dropWhile]
  · exact List.mem_rtakeWhile_imp hc

theorem tight_trimBy (p : α → Bool) (s : List α) : Tight p (trimBy p s) where
  first := by
    intro c hc
    obtain ⟨rest, hrest⟩ := List.rdropWhile_prefix p (s.dropWhile p)
    have hhead : c ∈ (s.dropWhile p).head? := by
      rw [← hrest, List.head?_append, ← trimBy, Option.mem_def.mp hc]
      rfl
    have hnot := List.head?_dropWhile_not p s
    rw [Option.mem_def.mp hhead] at hnot
    exact hnot
  last := by
    intro c hc
    obtain ⟨hne, rfl⟩ := List.mem_getLast?_eq_getLast hc
    exact eq_false_of_ne_true (List.rdropWhile_last_not p _ hne)

theorem Tight.trimBy_eq (h : Tight p s) : trimBy p s = s := by
  have hstart : s.dropWhile p = s := by
    cases s with
    | nil => rfl
    | cons c s => exact List.dropWhile_cons_of_neg (by rw [h.first c rfl]; exact Bool.false_ne_true)
  rw [trimBy, hstart, List.rdropWhile_eq_self_iff]
  intro hne
  rw [h.last _ (List.getLast?_eq_some_getLast hne)]
  exact Bool.false_ne_true

theorem tight_of_forall (h : ∀ c ∈ s, p c = false) : Tight p s where
  first c hc := h c (List.mem_of_mem_head? hc)
  last c hc := h c (List.mem_of_mem_getLast? hc)

theorem Tight.ne_blank (h : Tight p s) (hs : s ≠ []) : ¬ Blank p s := by
  intro hblank
  obtain ⟨c, rest, rfl⟩ := List.exists_cons_of_ne_nil hs
  have hfirst := h.first c rfl
  rw [hblank c List.mem_cons_self] at hfirst
  cases hfirst

theorem trimBy_eq_nil_iff : trimBy p s = [] ↔ Blank p s := by
  refine ⟨fun h ↦ ?_, trimBy_of_blank⟩
  obtain ⟨a, b, hs, ha, hb⟩ := exists_flanks p s
  rw [hs, h, List.append_nil]
  exact blank_append.mpr ⟨ha, hb⟩

theorem mem_of_mem_trimBy (h : c ∈ trimBy p s) : c ∈ s :=
  (List.dropWhile_suffix p).subset ((List.rdropWhile_prefix p _).subset h)

/-- Only what is to be trimmed is lost. -/
theorem mem_trimBy (h : c ∈ s) (hc : p c = false) : c ∈ trimBy p s := by
  obtain ⟨a, b, hs, ha, hb⟩ := exists_flanks p s
  rw [hs, List.mem_append, List.mem_append] at h
  rcases h with (h | h) | h
  · rw [ha c h] at hc
    cases hc
  · exact h
  · rw [hb c h] at hc
    cases hc

theorem trimBy_infix (p : α → Bool) (s : List α) : trimBy p s <:+: s := by
  obtain ⟨a, b, hs, -, -⟩ := exists_flanks p s
  exact ⟨a, b, hs.symm⟩

end Trim

section Once

theorem trimLeftOnce_cases (p : α → Bool) (s : List α) :
    trimLeftOnce p s = s ∨ ∃ c, p c = true ∧ s = c :: trimLeftOnce p s := by
  cases s with
  | nil => exact .inl rfl
  | cons c s =>
    by_cases hc : p c = true
    · exact .inr ⟨c, hc, by rw [trimLeftOnce, if_pos hc]⟩
    · exact .inl (by rw [trimLeftOnce, if_neg hc])

theorem trimRightOnce_cases (p : α → Bool) (s : List α) :
    trimRightOnce p s = s ∨ ∃ c, p c = true ∧ s = trimRightOnce p s ++ [c] := by
  cases hlast : s.getLast? with
  | none =>
    rw [List.getLast?_eq_none_iff] at hlast
    subst hlast
    exact .inl rfl
  | some c =>
    by_cases hc : p c = true
    · refine .inr ⟨c, hc, ?_⟩
      rw [trimRightOnce, hlast]
      simp only [if_pos hc]
      exact (List.dropLast_append_getLast? c hlast).symm
    · refine .inl ?_
      rw [trimRightOnce, hlast]
      simp only [if_neg hc]

/-- One round takes nothing but what is to be trimmed. -/
theorem exists_flanks_trimOnce (p : α → Bool) (s : List α) :
    ∃ a b, s = a ++ trimOnce p s ++ b ∧ Blank p a ∧ Blank p b := by
  have hright : ∃ b, s = trimRightOnce p s ++ b ∧ Blank p b := by
    rcases trimRightOnce_cases p s with hsame | ⟨c, hc, hs⟩
    · exact ⟨[], by rw [hsame, List.append_nil], blank_nil⟩
    · exact ⟨[c], hs, fun d hd ↦ List.mem_singleton.mp hd ▸ hc⟩
  have hleft : ∃ a, trimRightOnce p s = a ++ trimOnce p s ∧ Blank p a := by
    rcases trimLeftOnce_cases p (trimRightOnce p s) with hsame | ⟨c, hc, hs⟩
    · exact ⟨[], by rw [trimOnce, hsame, List.nil_append], blank_nil⟩
    · exact ⟨[c], hs, fun d hd ↦ List.mem_singleton.mp hd ▸ hc⟩
  obtain ⟨b, hb, hblank⟩ := hright
  obtain ⟨a, ha, hblank'⟩ := hleft
  exact ⟨a, b, by rw [← ha, ← hb], hblank', hblank⟩

theorem trimBy_trimOnce (p : α → Bool) (s : List α) : trimBy p (trimOnce p s) = trimBy p s := by
  obtain ⟨a, b, hs, ha, hb⟩ := exists_flanks_trimOnce p s
  conv_rhs => rw [hs, trimBy_flanked ha hb]

theorem Tight.trimOnce_eq (h : Tight p s) : trimOnce p s = s := by
  have hright : trimRightOnce p s = s := by
    rcases trimRightOnce_cases p s with hsame | ⟨c, hc, hs⟩
    · exact hsame
    · have hlast : c ∈ s.getLast? := by rw [hs]; exact List.getLast?_concat
      rw [h.last c hlast] at hc
      cases hc
  rw [trimOnce, hright]
  rcases trimLeftOnce_cases p s with hsame | ⟨c, hc, hs⟩
  · exact hsame
  · have hfirst : c ∈ s.head? := by rw [hs]; rfl
    rw [h.first c hfirst] at hc
    cases hc

end Once

section Runs

theorem replaceFrom_true (p : α → Bool) (mark : α) (s : List α) :
    replaceFrom p mark false s = replaceFrom p mark true s ∨
      replaceFrom p mark false s = mark :: replaceFrom p mark true s := by
  cases s with
  | nil => exact .inl rfl
  | cons c s =>
    by_cases hc : p c = true
    · exact .inr (by rw [replaceFrom, replaceFrom, if_pos hc, if_pos hc]; rfl)
    · exact .inl (by rw [replaceFrom, replaceFrom, if_neg hc, if_neg hc])

/-- A run in front leaves at most its mark. -/
theorem replaceFrom_append_left (ha : Blank p a) (inRun : Bool) (s : List α) :
    ∃ m, (∀ c ∈ m, c = mark) ∧
      replaceFrom p mark inRun (a ++ s) = m ++ replaceFrom p mark true s ∨
        replaceFrom p mark inRun (a ++ s) = replaceFrom p mark inRun s := by
  induction a generalizing inRun with
  | nil => exact ⟨[], .inr rfl⟩
  | cons d a ih =>
    have hd : p d = true := ha d List.mem_cons_self
    have htail : Blank p a := fun c hc ↦ ha c (List.mem_cons_of_mem d hc)
    obtain ⟨m, hm⟩ := ih htail true
    have hrest : ∃ m, (∀ c ∈ m, c = mark) ∧
        replaceFrom p mark true (a ++ s) = m ++ replaceFrom p mark true s := by
      rcases hm with ⟨hmarks, heq⟩ | heq
      · exact ⟨m, hmarks, heq⟩
      · exact ⟨[], fun _ h ↦ absurd h List.not_mem_nil, heq⟩
    obtain ⟨m, hmarks, heq⟩ := hrest
    cases inRun with
    | true =>
      refine ⟨m, .inl ⟨hmarks, ?_⟩⟩
      rw [List.cons_append, replaceFrom, if_pos hd, if_pos rfl, heq]
    | false =>
      refine ⟨mark :: m, .inl ⟨List.forall_mem_cons.mpr ⟨rfl, hmarks⟩, ?_⟩⟩
      rw [List.cons_append, replaceFrom, if_pos hd, if_neg Bool.false_ne_true, heq]
      rfl

/-- A run at the end leaves at most its mark. -/
theorem replaceFrom_append_right (hb : Blank p b) (inRun : Bool) (s : List α) :
    ∃ m, (∀ c ∈ m, c = mark) ∧
      replaceFrom p mark inRun (s ++ b) = replaceFrom p mark inRun s ++ m := by
  induction s generalizing inRun with
  | nil =>
    obtain ⟨m, hm⟩ := @replaceFrom_append_left α p b mark hb inRun []
    rw [List.append_nil] at hm
    rcases hm with ⟨hmarks, heq⟩ | heq
    · exact ⟨m, hmarks, by rw [List.nil_append, heq, replaceFrom, List.append_nil]; rfl⟩
    · exact ⟨[], fun _ h ↦ absurd h List.not_mem_nil, by rw [List.nil_append, heq]; rfl⟩
  | cons d s ih =>
    rw [List.cons_append, replaceFrom, replaceFrom]
    by_cases hd : p d = true
    · obtain ⟨m, hmarks, heq⟩ := ih true
      refine ⟨m, hmarks, ?_⟩
      cases inRun with
      | true => rw [if_pos hd, if_pos hd, if_pos rfl, if_pos rfl, heq]
      | false =>
        rw [if_pos hd, if_pos hd, if_neg Bool.false_ne_true, if_neg Bool.false_ne_true, heq]
        rfl
    · obtain ⟨m, hmarks, heq⟩ := ih false
      exact ⟨m, hmarks, by rw [if_neg hd, if_neg hd, heq]; rfl⟩

/-- Runs at the ends leave nothing behind once the marks are trimmed. -/
theorem trimBy_replaceRuns_flanked {q : α → Bool} (hmark : q mark = true) (ha : Blank p a)
    (hb : Blank p b) (s : List α) :
    trimBy q (replaceRuns p mark (a ++ s ++ b)) = trimBy q (replaceRuns p mark s) := by
  have hmarks {m : List α} (h : ∀ c ∈ m, c = mark) : Blank q m := fun c hc ↦ h c hc ▸ hmark
  obtain ⟨m, hm, heq⟩ := @replaceFrom_append_right α p b mark hb false (a ++ s)
  rw [replaceRuns, heq, trimBy_append (hmarks hm), replaceRuns]
  obtain ⟨m', hm'⟩ := @replaceFrom_append_left α p a mark ha false s
  rcases hm' with ⟨hm', heq'⟩ | heq'
  · have hfront : trimBy q (m' ++ replaceFrom p mark true s) = trimBy q (replaceFrom p mark true s) := by
      rw [trimBy, (hmarks hm').dropWhile, ← trimBy]
    rw [heq', hfront]
    rcases replaceFrom_true p mark s with hsame | hmore
    · rw [hsame]
    · have hone : Blank q [mark] := hmarks fun c hc ↦ List.mem_singleton.mp hc
      rw [hmore, ← List.singleton_append, trimBy, trimBy, hone.dropWhile]
  · rw [heq']

theorem mem_replaceFrom (h : c ∈ s) (hc : p c = false) : c ∈ replaceFrom p mark inRun s := by
  induction s generalizing inRun with
  | nil => exact absurd h List.not_mem_nil
  | cons d s ih =>
    rw [replaceFrom]
    rcases List.mem_cons.mp h with rfl | h
    · rw [if_neg (by rw [hc]; exact Bool.false_ne_true)]
      exact List.mem_cons_self
    · split
      · split
        · exact ih h
        · exact List.mem_cons_of_mem _ (ih h)
      · exact List.mem_cons_of_mem _ (ih h)

theorem mem_of_mem_replaceFrom (h : c ∈ replaceFrom p mark inRun s) :
    c = mark ∨ c ∈ s ∧ p c = false := by
  induction s generalizing inRun with
  | nil => exact absurd h List.not_mem_nil
  | cons d s ih =>
    have hlater {f : Bool} (h : c ∈ replaceFrom p mark f s) : c = mark ∨ c ∈ d :: s ∧ p c = false :=
      (ih h).imp_right fun h ↦ ⟨List.mem_cons_of_mem d h.1, h.2⟩
    rw [replaceFrom] at h
    split at h
    · split at h
      · exact hlater h
      · rcases List.mem_cons.mp h with rfl | h
        · exact .inl rfl
        · exact hlater h
    · rename_i hd
      rcases List.mem_cons.mp h with rfl | h
      · exact .inr ⟨List.mem_cons_self, eq_false_of_ne_true hd⟩
      · exact hlater h

/-- Letters outside the runs stay as they are. -/
theorem replaceFrom_append_keep (ha : ∀ c ∈ a, p c = false) (hrun : a ≠ [] ∨ inRun = false)
    (s : List α) : replaceFrom p mark inRun (a ++ s) = a ++ replaceFrom p mark false s := by
  induction a generalizing inRun with
  | nil =>
    rcases hrun with hne | rfl
    · exact absurd rfl hne
    · rfl
  | cons d a ih =>
    have hd : p d = false := ha d List.mem_cons_self
    rw [List.cons_append, replaceFrom, if_neg (by rw [hd]; exact Bool.false_ne_true),
      ih (fun c hc ↦ ha c (List.mem_cons_of_mem d hc)) (.inr rfl)]
    rfl

theorem replaceFrom_keep_append (hb : ∀ c ∈ b, p c = false) (s : List α) :
    replaceFrom p mark inRun (s ++ b) = replaceFrom p mark inRun s ++ b := by
  induction s generalizing inRun with
  | nil =>
    cases b with
    | nil => rfl
    | cons d b =>
      have hkeep := @replaceFrom_append_keep α p (d :: b) mark inRun hb
        (.inl (List.cons_ne_nil d b)) []
      rw [List.append_nil] at hkeep
      rw [List.nil_append, hkeep]
      exact List.append_nil _
  | cons d s ih =>
    rw [List.cons_append, replaceFrom, replaceFrom]
    split
    · split
      · exact ih
      · rw [ih, List.cons_append]
    · rw [ih, List.cons_append]

theorem replaceRuns_head (h : c ∈ (replaceRuns p mark s).head?) :
    c ∈ s.head? ∧ p c = false ∨ c = mark ∧ ∃ d ∈ s.head?, p d = true := by
  cases s with
  | nil => cases h
  | cons d s =>
    rw [replaceRuns, replaceFrom] at h
    by_cases hd : p d = true
    · rw [if_pos hd, if_neg Bool.false_ne_true, List.head?_cons, Option.mem_some_iff] at h
      exact .inr ⟨h.symm, d, rfl, hd⟩
    · rw [if_neg hd, List.head?_cons, Option.mem_some_iff] at h
      exact .inl ⟨congrArg some h, h ▸ eq_false_of_ne_true hd⟩

theorem replaceFrom_eq_nil (h : replaceFrom p mark inRun s = []) :
    Blank p s ∧ (inRun = false → s = []) := by
  induction s generalizing inRun with
  | nil => exact ⟨blank_nil, fun _ ↦ rfl⟩
  | cons d s ih =>
    rw [replaceFrom] at h
    by_cases hd : p d = true
    · rw [if_pos hd] at h
      cases inRun with
      | true => exact ⟨List.forall_mem_cons.mpr ⟨hd, (ih h).1⟩, fun h ↦ absurd h (Bool.noConfusion)⟩
      | false => cases h
    · rw [if_neg hd] at h
      cases h

/-- The last letter stays, or it ends a run. -/
theorem replaceFrom_last (h : c ∈ (replaceFrom p mark inRun s).getLast?) :
    c ∈ s.getLast? ∧ p c = false ∨ c = mark ∧ ∃ d ∈ s.getLast?, p d = true := by
  induction s generalizing inRun with
  | nil => cases h
  | cons d s ih =>
    have hlater {f : Bool} (h : c ∈ (replaceFrom p mark f s).getLast?) :
        c ∈ (d :: s).getLast? ∧ p c = false ∨ c = mark ∧ ∃ e ∈ (d :: s).getLast?, p e = true := by
      cases s with
      | nil => cases h
      | cons e s => exact ih h
    rw [replaceFrom] at h
    by_cases hd : p d = true
    · rw [if_pos hd] at h
      cases inRun with
      | true => exact hlater h
      | false =>
        rw [if_neg Bool.false_ne_true] at h
        cases hrest : replaceFrom p mark true s with
        | nil =>
          rw [hrest, List.getLast?_singleton, Option.mem_some_iff] at h
          have hblank : Blank p (d :: s) := List.forall_mem_cons.mpr ⟨hd, (replaceFrom_eq_nil hrest).1⟩
          have hlast := List.getLast?_eq_some_getLast (List.cons_ne_nil d s)
          exact .inr ⟨h.symm, _, hlast, hblank _ (List.getLast_mem _)⟩
        | cons e rest =>
          rw [hrest, List.getLast?_cons_cons, ← hrest] at h
          exact hlater h
    · rw [if_neg hd] at h
      cases hrest : replaceFrom p mark false s with
      | nil =>
        rw [hrest, List.getLast?_singleton, Option.mem_some_iff] at h
        rw [(replaceFrom_eq_nil hrest).2 rfl, ← h]
        exact .inl ⟨rfl, eq_false_of_ne_true hd⟩
      | cons e rest =>
        rw [hrest, List.getLast?_cons_cons, ← hrest] at h
        exact hlater h

/-- No run is longer than one letter. -/
def Lone (p : α → Bool) (s : List α) : Prop := s.IsChain fun c d ↦ ¬(p c = true ∧ p d = true)

theorem Lone.of_infix (h : Lone p t) (hs : s <:+: t) : Lone p s := List.IsChain.infix h hs

theorem lone_cons : Lone p (c :: s) ↔ (∀ d ∈ s.head?, ¬(p c = true ∧ p d = true)) ∧ Lone p s :=
  List.isChain_cons

theorem replaceFrom_head (hd : c ∈ (replaceFrom p mark true s).head?) : p c = false := by
  induction s with
  | nil => cases hd
  | cons d s ih =>
    rw [replaceFrom] at hd
    by_cases hp : p d = true
    · rw [if_pos hp, if_pos rfl] at hd
      exact ih hd
    · rw [if_neg hp, List.head?_cons, Option.mem_some_iff] at hd
      rw [← hd]
      exact eq_false_of_ne_true hp

/-- No two marks stand together. -/
theorem lone_replaceFrom : Lone p (replaceFrom p mark inRun s) := by
  induction s generalizing inRun with
  | nil => exact List.isChain_nil
  | cons d s ih =>
    rw [replaceFrom]
    by_cases hp : p d = true
    · rw [if_pos hp]
      split
      · exact ih
      · refine lone_cons.mpr ⟨fun c hc hboth ↦ ?_, ih⟩
        rw [replaceFrom_head hc] at hboth
        cases hboth.2
    · rw [if_neg hp]
      exact lone_cons.mpr ⟨fun c _ hboth ↦ hp hboth.1, ih⟩

/-- Marks that stand alone are replaced by themselves. -/
theorem Lone.replaceFrom_eq (h : Lone p s) (hmark : ∀ c ∈ s, p c = true → c = mark)
    (hrun : inRun = true → ∀ c ∈ s.head?, p c = false) : replaceFrom p mark inRun s = s := by
  induction s generalizing inRun with
  | nil => rfl
  | cons d s ih =>
    obtain ⟨hhead, htail⟩ := lone_cons.mp h
    have hmark' : ∀ c ∈ s, p c = true → c = mark := fun c hc ↦ hmark c (List.mem_cons_of_mem d hc)
    rw [replaceFrom]
    by_cases hp : p d = true
    · have hfresh : ¬inRun = true := by
        intro hin
        rw [hrun hin d rfl] at hp
        cases hp
      rw [if_pos hp, if_neg hfresh, ih htail hmark' fun _ c hc ↦ ?_, hmark d List.mem_cons_self hp]
      exact eq_false_of_ne_true fun hc' ↦ hhead c hc ⟨hp, hc'⟩
    · rw [if_neg hp, ih htail hmark' fun h ↦ absurd h Bool.false_ne_true]

end Runs

end Foundation.Trimming
