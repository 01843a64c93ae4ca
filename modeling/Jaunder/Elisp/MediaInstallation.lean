import Jaunder.Elisp.StagedMedia

namespace Jaunder.Elisp.StagedMedia

open Foundation.Procedures Foundation.SharedFiles

section Records

variable (s : Surroundings) (root : Path)

/-- A Local Media Copy whose content has the hash that its path names. -/
def GoodCopy (path : Path) (entry : Entry) : Prop :=
  ∃ hash leaf bytes, path = localCopy root hash leaf ∧ entry = .file bytes ∧ s.sha256 bytes = hash

/-- Seen as a regular file, not a symbolic link, whose content has the hash. -/
def SawCopy (log : List Event) (path : Path) (hash : List Char) : Prop :=
  .saw path (.symlink false) ∈ log ∧ .saw path (.regular true) ∈ log ∧
    ∃ bytes, .saw path (.content bytes) ∈ log ∧ s.sha256 bytes = hash

/-- Seen, or put where there was nothing. -/
def CopyVerified (log : List Event) (path : Path) (hash : List Char) : Prop :=
  SawCopy s log path hash ∨
    ∃ bytes, .put .copy path none (some (.file bytes)) ∈ log ∧ s.sha256 bytes = hash

/-- No temporary has a content. -/
def Idle (w : World) : Prop :=
  ∃ t, Holding (GoodCopy s root) t w ∧ ∀ p bytes, t p ≠ some (some bytes)

variable {s} {log log' : List Event} {path : Path} {hash : List Char} {w w' : World}

theorem SawCopy.mono (h : log ⊆ log') (hsaw : SawCopy s log path hash) : SawCopy s log' path hash := by
  obtain ⟨hsymlink, hregular, bytes, hbytes, hhash⟩ := hsaw
  exact ⟨h hsymlink, h hregular, bytes, h hbytes, hhash⟩

theorem CopyVerified.mono (h : log ⊆ log') (hverified : CopyVerified s log path hash) :
    CopyVerified s log' path hash := by
  rcases hverified with hsaw | ⟨bytes, hput, hhash⟩
  · exact .inl (hsaw.mono h)
  · exact .inr ⟨bytes, h hput, hhash⟩

theorem Grows.subset (h : Grows w w') : w.log ⊆ w'.log := List.IsSuffix.subset h

end Records

section Conditions

variable {r : World → World → Prop} {P : World → Prop} {p q : Step Bool} {M : World → Prop}
  {Q R : Bool → World → Prop} {E : Signal → World → Prop}

theorem both_spec [Std.Refl r] [IsTrans World r] (hp : Triple r P p R E)
    (hq : Triple r (R true) q Q E) (hno : ∀ w, R false w → Q false w) : Triple r P (both p q) Q E := by
  refine hp.bind (fun answer ↦ ?_)
  cases answer with
  | true => exact hq
  | false => exact Triple.pure hno

theorem negated_spec [Std.Refl r] [IsTrans World r] (hp : Triple r P p (fun answer ↦ Q (!answer)) E) :
    Triple r P (negated p) Q E :=
  hp.bind (fun _ ↦ Triple.pure (fun _ h ↦ h))

end Conditions

section Keeping

variable {s : Surroundings} {root : Path} {α β : Type} {p q : Step α} {f : α → Step β}

/-- A step that leaves the temporaries as they are. -/
def Keeps (s : Surroundings) (root : Path) (p : Step α) : Prop :=
  ∀ t, Triple Grows (Holding (GoodCopy s root) t) p (fun _ ↦ Holding (GoodCopy s root) t)
    (fun _ ↦ Holding (GoodCopy s root) t)

theorem Keeps.bind (h : Keeps s root p) (hf : ∀ a, Keeps s root (f a)) : Keeps s root (p >>= f) :=
  fun t ↦ (h t).bind (fun a ↦ hf a t)

theorem Keeps.ite {c : Prop} [Decidable c] (hp : Keeps s root p) (hq : Keeps s root q) :
    Keeps s root (if c then p else q) :=
  fun t ↦ Triple.ite (fun _ ↦ hp t) (fun _ ↦ hq t)

theorem keeps_pure (a : α) : Keeps s root (pure a) := fun _ ↦ Triple.pure (fun _ h ↦ h)

theorem keeps_complain (message : String) (argument : List Char) :
    Keeps s root (complain message argument) :=
  fun _ ↦ Triple.signal (fun _ h ↦ h)

theorem keeps_ask (hc : Considerate s.toOthers) (test : FileSystem → Bool) (path : Path)
    (fact : Bool → Fact) : Keeps s root (ask s.toOthers test path fact) :=
  fun _ ↦ ((ask_spec hc _ _ path test fact).along (fun _ _ h ↦ h.grows)).mono (fun _ h ↦ h)
    (fun _ _ h ↦ h.1) (fun _ _ h ↦ h.elim)

theorem keeps_insistOn (condition : Bool) (message : String) (argument : List Char) :
    Keeps s root (insistOn condition message argument) :=
  Keeps.ite (keeps_pure ()) (keeps_complain message argument)

theorem keeps_insist {test : Step Bool} (h : Keeps s root test) (message : String)
    (argument : List Char) : Keeps s root (insist test message argument) :=
  h.bind (fun _ ↦ Keeps.ite (keeps_pure ()) (keeps_complain message argument))

theorem keeps_makeDirectory (hc : Considerate s.toOthers) (directory : Path) :
    Keeps s root (makeDirectory s.toOthers directory) :=
  fun _ ↦ makeDirectory_spec hc

theorem keeps_ensureDirectory (root : Path) (hc : Considerate s.toOthers) (directory : Path) :
    Keeps s root (ensureDirectory s directory) := by
  have hask (test : FileSystem → Bool) (fact : Bool → Fact) :
      Keeps s root (ask s.toOthers test directory fact) := keeps_ask hc test directory fact
  refine Keeps.bind ?_ (fun _ ↦ keeps_insist (hask _ _) _ _)
  refine (hask _ _).bind (fun _ ↦ Keeps.ite (keeps_complain _ _) ?_)
  exact (hask _ _).bind (fun _ ↦ Keeps.ite (keeps_insist (hask _ _) _ _) (keeps_makeDirectory hc _))

variable {t : Temporaries} {hash leaf : List Char}

theorem fallbackPath_spec :
    Triple Grows (Holding (GoodCopy s root) t) (fallbackPath root hash leaf)
      (fun path w ↦ Holding (GoodCopy s root) t w ∧ path = localCopy root hash leaf)
      (fun _ ↦ Holding (GoodCopy s root) t) := by
  refine (keeps_insistOn _ _ _ t).bind (fun _ ↦ (keeps_insistOn _ _ _ t).bind (fun _ ↦ ?_))
  exact Triple.pure (fun _ h ↦ ⟨h, rfl⟩)

theorem targetPath_spec (hc : Considerate s.toOthers) :
    Triple Grows (Holding (GoodCopy s root) t) (targetPath s root hash leaf)
      (fun path w ↦ Holding (GoodCopy s root) t w ∧ path = localCopy root hash leaf)
      (fun _ ↦ Holding (GoodCopy s root) t) := by
  refine fallbackPath_spec.bind (fun path ↦ ?_)
  refine Triple.of_forall (fun w hw ↦ ?_)
  obtain ⟨hw, rfl⟩ := hw
  refine Triple.mono (P := Holding (GoodCopy s root) t) ?_ (fun w' h ↦ h ▸ hw) (fun _ _ h ↦ h)
    (fun _ _ h ↦ h)
  have hensure (directory : Path) := keeps_ensureDirectory root hc directory t
  exact (hensure _).bind (fun _ ↦ (hensure _).bind (fun _ ↦ (hensure _).bind (fun _ ↦
    Triple.pure (fun _ h ↦ ⟨h, rfl⟩))))

end Keeping

section Verification

variable {s : Surroundings} {root path : Path} {t : Temporaries} {hash : List Char} {content : Bytes}

theorem fileSha256_spec (hc : Considerate s.toOthers) (root path : Path) (t : Temporaries) :
    Triple Looks (Holding (GoodCopy s root) t) (fileSha256 s path)
      (fun hash w ↦ Holding (GoodCopy s root) t w ∧ ∃ bytes, .saw path (.content bytes) ∈ recent w.log ∧
        s.sha256 bytes = hash ∧ w.fs.object path = some (.regular bytes))
      (fun _ ↦ Holding (GoodCopy s root) t) := by
  refine (insertFileContentsLiterally_spec hc).bind (fun bytes ↦ Triple.pure (fun w h ↦ ?_))
  obtain ⟨hw, hobject, hsaw⟩ := h
  exact ⟨hw, bytes, hsaw, rfl, hobject⟩

/-- A file that is verified is a copy of the hash, and a temporary that is verified has the content. -/
theorem verifiedFileP_spec (hc : Considerate s.toOthers) (root path : Path) (hash : List Char)
    (t : Temporaries) :
    Triple Looks (Holding (GoodCopy s root) t) (verifiedFileP s path hash)
      (fun answer w ↦ Holding (GoodCopy s root) t w ∧ (answer = true → SawCopy s w.log path hash ∧
        ∀ bytes, t path = some (some bytes) → s.sha256 bytes = hash))
      (fun _ ↦ Holding (GoodCopy s root) t) := by
  have hask := ask_spec hc (GoodCopy s root) t path
  refine both_spec (R := fun answer w ↦ Holding (GoodCopy s root) t w ∧
    (answer = true → .saw path (.symlink false) ∈ w.log)) ?_ ?_ ?_
  · refine negated_spec ((hask _ .symlink).mono (fun _ h ↦ h) (fun answer w h ↦ ⟨h.1, fun hno ↦ ?_⟩)
      (fun _ _ h ↦ h.elim))
    rw [Bool.not_eq_true'] at hno
    have hsaw := recent_subset _ h.2.2
    rwa [hno] at hsaw
  · refine both_spec (R := fun answer w ↦ (Holding (GoodCopy s root) t w ∧
      (answer = true → .saw path (.regular true) ∈ w.log)) ∧ .saw path (.symlink false) ∈ w.log) ?_ ?_ ?_
    · refine Triple.mono (((hask _ .regular).frame (F := fun w ↦ .saw path (.symlink false) ∈ w.log)
        (fun _ _ h hmem ↦ h.grows.subset hmem))) (fun w h ↦ ⟨h.1, h.2 rfl⟩) (fun answer w h ↦ ?_)
        (fun _ _ h ↦ h.1.elim)
      obtain ⟨⟨hw, -, hsaw⟩, hsymlink⟩ := h
      refine ⟨⟨hw, fun hyes ↦ ?_⟩, hsymlink⟩
      rw [hyes] at hsaw
      exact recent_subset _ hsaw
    · have hread := (fileSha256_spec hc root path t).frame
        (F := fun w ↦ .saw path (.symlink false) ∈ w.log ∧ .saw path (.regular true) ∈ w.log)
        (fun _ _ h hmem ↦ ⟨h.grows.subset hmem.1, h.grows.subset hmem.2⟩)
      refine (Triple.mono hread (fun w h ↦ ⟨h.1.1, h.2, h.1.2 rfl⟩) (fun _ _ h ↦ h)
        (fun _ _ h ↦ h.1)).bind (fun found ↦ Triple.pure (fun w h ↦ ?_))
      obtain ⟨⟨hw, bytes, hsaw, hhash, hobject⟩, hsymlink, hregular⟩ := h
      refine ⟨hw, fun hyes ↦ ⟨⟨hsymlink, hregular, bytes, recent_subset _ hsaw, ?_⟩, fun content hp ↦ ?_⟩⟩
      · exact hhash.trans (of_decide_eq_true hyes)
      · rw [← hw.content_eq hp hobject]
        exact hhash.trans (of_decide_eq_true hyes)
    · exact fun w h ↦ ⟨h.1.1, fun hyes ↦ absurd hyes Bool.false_ne_true⟩
  · exact fun w h ↦ ⟨h.1, fun hyes ↦ absurd hyes Bool.false_ne_true⟩

theorem insist_spec {P : World → Prop} {test : Step Bool} {Q : Bool → World → Prop}
    {E : Signal → World → Prop} (h : Triple Looks P test Q E) (hno : ∀ e w, Q false w → E e w)
    (message : String) (argument : List Char) :
    Triple Looks P (insist test message argument) (fun _ ↦ Q true) E := by
  refine h.bind (fun answer ↦ ?_)
  cases answer with
  | true => exact Triple.pure (fun _ h ↦ h)
  | false => exact Triple.signal (fun _ h ↦ hno _ _ h)

theorem requireExistingCopy_spec (hc : Considerate s.toOthers) (root path : Path) (hash : List Char)
    (t : Temporaries) :
    Triple Looks (Holding (GoodCopy s root) t) (requireExistingCopy s path hash)
      (fun _ w ↦ Holding (GoodCopy s root) t w ∧ SawCopy s w.log path hash)
      (fun _ ↦ Holding (GoodCopy s root) t) :=
  (insist_spec (verifiedFileP_spec hc root path hash t) (fun _ _ h ↦ h.1) _ _).mono (fun _ h ↦ h)
    (fun _ _ h ↦ ⟨h.1, (h.2 rfl).1⟩) (fun _ _ h ↦ h)

end Verification

section Downloads

variable {s : Surroundings} {root path : Path} {t : Temporaries} {hash url instanceId : List Char}
  {old : Bytes}

theorem keeps_plz (hc : Considerate s.toOthers) (url : List Char) : Keeps s root (plz s url) :=
  fun _ w hw ↦ ⟨grows_settle w, fun _ _ ↦ hw.settle hc, fun _ _ ↦ hw.settle hc⟩

theorem mediaGet_spec (hc : Considerate s.toOthers) (root : Path) (url : List Char)
    (hold : t path = some (some old)) :
    Triple Grows (Holding (GoodCopy s root) t) (mediaGet s url path)
      (fun _ w ↦ ∃ content, Holding (GoodCopy s root) (Function.update t path (some (some content))) w)
      (fun _ w ↦ ∃ content, Holding (GoodCopy s root) (Function.update t path (some (some content))) w) := by
  have hsame (w : World) (hw : Holding (GoodCopy s root) t w) :
      ∃ content, Holding (GoodCopy s root) (Function.update t path (some (some content))) w := by
    refine ⟨old, ?_⟩
    rwa [← hold, Function.update_eq_self]
  have hask (test : FileSystem → Bool) (fact : Bool → Fact) :
      Keeps s root (ask s.toOthers test path fact) := keeps_ask hc test path fact
  have hregular : Keeps s root (both (fileExistsP s.toOthers path)
      (both (negated (fileSymlinkP s.toOthers path)) (fileRegularP s.toOthers path))) :=
    (hask _ _).bind (fun _ ↦ Keeps.ite
      (((hask _ _).bind (fun _ ↦ keeps_pure _)).bind (fun _ ↦ Keeps.ite (hask _ _) (keeps_pure _)))
      (keeps_pure _))
  refine ((keeps_insist hregular _ _ t).mono (fun _ h ↦ h) (fun _ _ h ↦ h) (fun _ w ↦ hsame w)).bind
    (fun _ ↦ ?_)
  refine ((keeps_plz hc url t).mono (fun _ h ↦ h) (fun _ _ h ↦ h) (fun _ w ↦ hsame w)).bind
    (fun response ↦ ?_)
  refine ((writeRegion_spec hc _ _ hold).mono (fun _ h ↦ h)
    (S := fun _ w ↦ ∃ content, Holding (GoodCopy s root) (Function.update t path (some (some content))) w)
    (fun _ w h ↦ ⟨response.body, h⟩) (fun _ _ h ↦ h)).bind (fun _ ↦ Triple.pure (fun _ h ↦ h))

theorem validateResponse_spec (hc : Considerate s.toOthers) (hold : t path = some (some old))
    (response : ℕ × List (List Char × List Char)) :
    Triple Grows (Holding (GoodCopy s root) t) (validateResponse s response instanceId hash path)
      (fun _ w ↦ Holding (GoodCopy s root) t w ∧ s.sha256 old = hash)
      (fun _ ↦ Holding (GoodCopy s root) t) := by
  refine (keeps_insistOn _ _ _ t).bind (fun _ ↦ (keeps_insistOn _ _ _ t).bind (fun _ ↦
    (keeps_insistOn _ _ _ t).bind (fun _ ↦ ?_)))
  have hread := (fileSha256_spec hc root path t).bind (R := fun answer w ↦
    Holding (GoodCopy s root) t w ∧ (answer = true → s.sha256 old = hash))
    (f := fun found ↦ pure (decide (found = hash))) (fun found ↦ Triple.pure (fun w h ↦ ?_))
  · refine ((insist_spec hread (fun _ _ h ↦ h.1) _ _).mono (fun _ h ↦ h) (fun _ _ h ↦ ⟨h.1, h.2 rfl⟩)
      (fun _ _ h ↦ h)).along (fun _ _ h ↦ h.grows)
  · obtain ⟨hw, bytes, -, hhash, hobject⟩ := h
    refine ⟨hw, fun hyes ↦ ?_⟩
    rw [← hw.content_eq hold hobject, hhash, of_decide_eq_true hyes]

theorem cleanTemporary_spec (hc : Considerate s.toOthers) {content : Option Bytes}
    (hp : t path = some content) :
    Triple Grows (Holding (GoodCopy s root) t) (cleanTemporary s path)
      (fun _ ↦ Holding (GoodCopy s root) (Function.update t path (some none))) (fun _ _ ↦ False) := by
  have hgone (w : World) (hw : Holding (GoodCopy s root) t w) (hnone : content = none) :
      Holding (GoodCopy s root) (Function.update t path (some none)) w := by
    rwa [← hnone, ← hp, Function.update_eq_self]
  intro w hw
  have hasked := ask_spec hc (GoodCopy s root) t path
    (fun fs ↦ (fs.object path).isSome) .present w hw
  refine Triple.bind (P := (· = w))
    (Q := fun answer w ↦ Holding (GoodCopy s root) t w ∧ (answer = false → content = none)) ?_ ?_ w rfl
  · rintro _ rfl
    refine ⟨hasked.moves.grows, fun answer hanswer ↦ ?_, fun e he ↦ (by cases he)⟩
    obtain ⟨hw', hfound, -⟩ := hasked.returns answer hanswer
    refine ⟨hw', fun hno ↦ ?_⟩
    cases content with
    | none => rfl
    | some bytes =>
      rw [hno, FileSystem.object, hw'.entry hp] at hfound
      cases hfound
  · intro answer
    refine Triple.ite (fun hyes ↦ ?_) (fun hno ↦ Triple.pure (fun w' h ↦ hgone w' h.1 (h.2 ?_)))
    · refine Triple.handle (((deleteFile_spec hc hp).mono (fun _ h ↦ h.1) (fun _ _ h ↦ h)
        (fun _ _ h ↦ h))) (fun _ ↦ Triple.pure (fun w' h ↦ hgone w' h.1 h.2))
    · rwa [Bool.not_eq_true] at hno

/-- A temporary that is given up leaves the others as they were. -/
theorem idle_of_update {p : Path} {content : Option (Option Bytes)} {w : World}
    (hidle : ∀ p bytes, t p ≠ some (some bytes))
    (h : Holding (GoodCopy s root) (Function.update (Function.update t p content) p (some none)) w) :
    Idle s root w := by
  refine ⟨_, h, fun q bytes hq ↦ ?_⟩
  rw [Function.update_idem] at hq
  by_cases hqp : q = p
  · rw [hqp, Function.update_self] at hq
    cases hq
  · rw [Function.update_of_ne hqp] at hq
    exact hidle q bytes hq

theorem readTemporary_spec (hc : Considerate s.toOthers) (hold : t path = some (some old)) :
    Triple Grows (Holding (GoodCopy s root) t) (insertFileContentsLiterally s.toOthers path)
      (fun bytes w ↦ Holding (GoodCopy s root) t w ∧ bytes = old) (fun _ ↦ Holding (GoodCopy s root) t) :=
  ((insertFileContentsLiterally_spec hc).mono (fun _ h ↦ h)
    (fun _ _ h ↦ ⟨h.1, h.1.content_eq hold h.2.1⟩) (fun _ _ h ↦ h)).along (fun _ _ h ↦ h.grows)

theorem fetchVerifiedBytes_spec (hc : Considerate s.toOthers) :
    Triple Grows (Idle s root) (fetchVerifiedBytes s url instanceId hash)
      (fun bytes w ↦ Idle s root w ∧ s.sha256 bytes = hash) (fun _ ↦ Idle s root) := by
  refine Triple.of_exists (fun t ↦ Triple.of_and (fun hidle ↦ ?_))
  refine ((makeTempFile_spec hc s.temporaryFileDirectory "jaunder-media-".toList).mono (fun _ h ↦ h)
    (fun _ _ h ↦ h.1) (fun _ w h ↦ ⟨t, h, hidle⟩)).bind (fun p ↦ ?_)
  let holds (content : Bytes) := Holding (GoodCopy s root) (Function.update t p (some (some content)))
  have hself (content : Bytes) : Function.update t p (some (some content)) p = some (some content) :=
    Function.update_self p _ t
  refine Triple.withCleanup
    (B := fun bytes w ↦ ∃ content, holds content w ∧ s.sha256 bytes = hash)
    (F := fun _ w ↦ ∃ content, holds content w) ?_
    (fun bytes ↦ Triple.of_exists (fun content ↦ Triple.of_and (fun hbytes ↦ ?_)))
    (fun e ↦ Triple.of_exists (fun content ↦ ?_))
  · have hget := mediaGet_spec hc root url (hself [])
    simp only [Function.update_idem] at hget
    refine hget.bind (fun response ↦ Triple.of_exists (fun content ↦ ?_))
    refine ((validateResponse_spec hc (hself content) response).mono (fun _ h ↦ h) (fun _ _ h ↦ h)
      (fun _ w h ↦ ⟨content, h⟩)).bind (fun _ ↦ Triple.of_and (fun hhash ↦ ?_))
    refine (readTemporary_spec hc (hself content)).mono (fun _ h ↦ h) (fun bytes w h ↦ ?_)
      (fun _ w h ↦ ⟨content, h⟩)
    exact ⟨content, h.1, h.2 ▸ hhash⟩
  · exact (cleanTemporary_spec hc (hself content)).mono (fun _ h ↦ h)
      (fun _ _ h ↦ ⟨idle_of_update hidle h, hbytes⟩) (fun _ _ h ↦ h.elim)
  · exact (cleanTemporary_spec hc (hself content)).mono (fun _ h ↦ h)
      (fun _ _ h ↦ idle_of_update hidle h) (fun _ _ h ↦ h.elim)

end Downloads

section Installation

variable {s : Surroundings} {root : Path} {t : Temporaries} {copies : List Copy}

/-- The temporaries with a content are those of the copies. -/
structure Pending (t : Temporaries) (copies : List Copy) : Prop where
  held : ∀ copy ∈ copies, t copy.temporary ≠ none
  all : ∀ p bytes, t p = some (some bytes) → ∃ copy ∈ copies, copy.temporary = p

/-- Each copy has a temporary of its own with the content that its path names. -/
structure Ready (s : Surroundings) (root : Path) (t : Temporaries) (copies : List Copy) : Prop where
  distinct : (copies.map Copy.temporary).Nodup
  target : ∀ copy ∈ copies, copy.target = localCopy root copy.hash copy.leaf
  verified : ∀ copy ∈ copies, ∃ bytes, t copy.temporary = some (some bytes) ∧ s.sha256 bytes = copy.hash

theorem Pending.add (h : Pending t copies) (copy : Copy) (content : Bytes) :
    Pending (Function.update t copy.temporary (some (some content))) (copy :: copies) where
  held other hother := by
    by_cases hp : other.temporary = copy.temporary
    · rw [hp, Function.update_self]
      exact Option.some_ne_none _
    · rw [Function.update_of_ne hp]
      rcases List.mem_cons.mp hother with rfl | hother
      · exact absurd rfl hp
      · exact h.held other hother
  all p bytes hbytes := by
    by_cases hp : p = copy.temporary
    · exact ⟨copy, List.mem_cons_self, hp.symm⟩
    · rw [Function.update_of_ne hp] at hbytes
      obtain ⟨other, hother, hsame⟩ := h.all p bytes hbytes
      exact ⟨other, List.mem_cons_of_mem copy hother, hsame⟩

/-- A temporary of the copies may lose its content. -/
theorem Pending.give (h : Pending t copies) (p : Path) :
    Pending (Function.update t p (some none)) copies where
  held other hother := by
    by_cases hsame : other.temporary = p
    · rw [hsame, Function.update_self]
      exact Option.some_ne_none _
    · rw [Function.update_of_ne hsame]
      exact h.held other hother
  all q bytes hbytes := by
    by_cases hsame : q = p
    · rw [hsame, Function.update_self] at hbytes
      cases hbytes
    · rw [Function.update_of_ne hsame] at hbytes
      exact h.all q bytes hbytes

theorem Pending.tail {copy : Copy} (h : Pending t (copy :: copies)) :
    Pending (Function.update t copy.temporary (some none)) copies where
  held other hother := (h.give copy.temporary).held other (List.mem_cons_of_mem copy hother)
  all p bytes hbytes := by
    have hne : p ≠ copy.temporary := by
      rintro rfl
      rw [Function.update_self] at hbytes
      cases hbytes
    rw [Function.update_of_ne hne] at hbytes
    obtain ⟨other, hother, hsame⟩ := h.all p bytes hbytes
    rcases List.mem_cons.mp hother with rfl | hother
    · exact absurd hsame.symm hne
    · exact ⟨other, hother, hsame⟩

theorem Ready.add (h : Ready s root t copies) (copy : Copy) {content : Bytes}
    (hnew : ∀ bytes, t copy.temporary ≠ some (some bytes))
    (htarget : copy.target = localCopy root copy.hash copy.leaf) (hhash : s.sha256 content = copy.hash) :
    Ready s root (Function.update t copy.temporary (some (some content))) (copy :: copies) := by
  have hne : ∀ other ∈ copies, other.temporary ≠ copy.temporary := by
    intro other hother hsame
    obtain ⟨bytes, hbytes, -⟩ := h.verified other hother
    exact hnew bytes (hsame ▸ hbytes)
  refine ⟨?_, List.forall_mem_cons.mpr ⟨htarget, h.target⟩, List.forall_mem_cons.mpr ⟨?_, ?_⟩⟩
  · rw [List.map_cons, List.nodup_cons]
    refine ⟨fun hmem ↦ ?_, h.distinct⟩
    obtain ⟨other, hother, hsame⟩ := List.mem_map.mp hmem
    exact hne other hother hsame
  · exact ⟨content, Function.update_self _ _ _, hhash⟩
  · intro other hother
    rw [Function.update_of_ne (hne other hother)]
    exact h.verified other hother

theorem Ready.tail {copy : Copy} (h : Ready s root t (copy :: copies)) : Ready s root t copies where
  distinct := (List.nodup_cons.mp h.distinct).2
  target := (List.forall_mem_cons.mp h.target).2
  verified := (List.forall_mem_cons.mp h.verified).2

theorem Ready.give {copy : Copy} (h : Ready s root t (copy :: copies)) :
    Ready s root (Function.update t copy.temporary (some none)) copies where
  distinct := h.tail.distinct
  target := h.tail.target
  verified other hother := by
    have hne : other.temporary ≠ copy.temporary := fun hsame ↦
      (List.nodup_cons.mp h.distinct).1 (hsame ▸ List.mem_map_of_mem hother)
    rw [Function.update_of_ne hne]
    exact h.tail.verified other hother

/-- Whatever happens from here, the cleanup finds every temporary. -/
def Tidy (s : Surroundings) (root : Path) (w : List Copy × World) : Prop :=
  ∃ t, Holding (GoodCopy s root) t w.2 ∧ Pending t w.1

theorem Tidy.of_local {w : List Copy × World} (h : Tidy s root (copies, w.2)) (hlocal : w.1 = copies) :
    Tidy s root w := by
  obtain ⟨local_, w⟩ := w
  obtain rfl : local_ = copies := hlocal
  exact h

/-- A fallback that waits, stands at its place or has a copy. -/
def Handled (s : Surroundings) (root : Path) (fallbacks rest : List Fallback) (copies : List Copy)
    (w : World) : Prop :=
  ∀ fallback ∈ fallbacks, fallback ∈ rest ∨
    SawCopy s w.log (localCopy root fallback.hash fallback.leaf) fallback.hash ∨
    ∃ copy ∈ copies, copy.hash = fallback.hash ∧ copy.leaf = fallback.leaf

def StagedCopies (s : Surroundings) (root : Path) (fallbacks rest : List Fallback)
    (w : List Copy × World) : Prop :=
  ∃ t, (Holding (GoodCopy s root) t w.2 ∧ Handled s root fallbacks rest w.1 w.2) ∧ Pending t w.1 ∧
    Ready s root t w.1

theorem Handled.mono {fallbacks rest : List Fallback} {w w' : World} (hgrows : Grows w w')
    (h : Handled s root fallbacks rest copies w) : Handled s root fallbacks rest copies w' := by
  intro fallback hmem
  rcases h fallback hmem with hrest | hsaw | hcopy
  · exact .inl hrest
  · exact .inr (.inl (hsaw.mono hgrows.subset))
  · exact .inr (.inr hcopy)

theorem lifted_spec {α : Type} {p : Step α} {P : World → Prop} {Q : α → World → Prop}
    {E : Signal → World → Prop} (h : Triple Grows P p Q E) (hE : ∀ e w, E e w → Tidy s root (copies, w)) :
    Triple (OnState Grows) (fun w ↦ w.1 = copies ∧ P w.2)
      (Procedure.lift p : Procedure (List Copy × World) Signal α)
      (fun a w ↦ w.1 = copies ∧ Q a w.2) (fun _ ↦ Tidy s root) := by
  refine (h.lift copies).mono (fun _ h ↦ h) (fun _ _ h ↦ h) (fun e w h ↦ ?_)
  obtain ⟨rfl, h⟩ := h
  exact hE e _ h

theorem of_local {α : Type} {r : List Copy × World → List Copy × World → Prop}
    {p : Procedure (List Copy × World) Signal α} {P : List Copy × World → Prop}
    {Q : α → List Copy × World → Prop} {E : Signal → List Copy × World → Prop}
    (h : ∀ copies, Triple r (fun w ↦ w.1 = copies ∧ P (copies, w.2)) p Q E) : Triple r P p Q E :=
  fun w hw ↦ h w.1 w ⟨rfl, hw⟩

variable {fallbacks rest : List Fallback} {fallback : Fallback}

theorem Handled.saw {w : World} (h : Handled s root fallbacks (fallback :: rest) copies w)
    (hsaw : SawCopy s w.log (localCopy root fallback.hash fallback.leaf) fallback.hash) :
    Handled s root fallbacks rest copies w := by
  intro other hmem
  rcases h other hmem with hrest | hdone
  · rcases List.mem_cons.mp hrest with rfl | hrest
    · exact .inr (.inl hsaw)
    · exact .inl hrest
  · exact .inr hdone

theorem Handled.copied {w : World} (h : Handled s root fallbacks (fallback :: rest) copies w)
    {copy : Copy} (hhash : copy.hash = fallback.hash) (hleaf : copy.leaf = fallback.leaf) :
    Handled s root fallbacks rest (copy :: copies) w := by
  intro other hmem
  rcases h other hmem with hrest | hsaw | ⟨earlier, hearlier, hsame⟩
  · rcases List.mem_cons.mp hrest with rfl | hrest
    · exact .inr (.inr ⟨copy, List.mem_cons_self, hhash, hleaf⟩)
    · exact .inl hrest
  · exact .inr (.inl hsaw)
  · exact .inr (.inr ⟨earlier, List.mem_cons_of_mem copy hearlier, hsame⟩)

/-- What a step does to the temporaries, next to the fallbacks that are handled. -/
theorem framed {α : Type} {p : Step α} {P : World → Prop} {Q : α → World → Prop}
    {E : Signal → World → Prop} (h : Triple Grows P p Q E) :
    Triple Grows (fun w ↦ P w ∧ Handled s root fallbacks rest copies w) p
      (fun a w ↦ Q a w ∧ Handled s root fallbacks rest copies w) E :=
  (h.frame (fun _ _ hgrows hdone ↦ hdone.mono hgrows)).mono (fun _ h ↦ h) (fun _ _ h ↦ h)
    (fun _ _ h ↦ h.1)

/-- A new copy gets a temporary, its bytes and its verification. -/
theorem stageCopy_spec (hc : Considerate s.toOthers) (hpending : Pending t copies)
    (hready : Ready s root t copies) :
    Triple (OnState Grows)
      (fun w : List Copy × World ↦ w.1 = copies ∧ Holding (GoodCopy s root) t w.2 ∧
        Handled s root fallbacks (fallback :: rest) copies w.2)
      (do
        let temporary ← Procedure.lift (temporaryPath s (localCopy root fallback.hash fallback.leaf))
        Procedure.modify (⟨temporary, localCopy root fallback.hash fallback.leaf, fallback.hash,
          fallback.leaf⟩ :: ·)
        Procedure.lift (writeRegion s.toOthers fallback.bytes temporary)
        Procedure.lift (insist (verifiedFileP s temporary fallback.hash)
          "jaunder pull media: staged bytes disagree with URL hash" []))
      (fun _ ↦ StagedCopies s root fallbacks rest) (fun _ ↦ Tidy s root) := by
  refine (lifted_spec (framed (makeTempFile_spec hc _ _)) (fun _ w h ↦ ⟨t, h, hpending⟩)).bind
    (fun temporary ↦ ?_)
  let copy : Copy := ⟨temporary, localCopy root fallback.hash fallback.leaf, fallback.hash, fallback.leaf⟩
  let holds (content : Bytes) := Holding (GoodCopy s root) (Function.update t temporary (some (some content)))
  have hself (content : Bytes) :
      Function.update t temporary (some (some content)) temporary = some (some content) :=
    Function.update_self temporary _ t
  refine (Triple.modify (Q := fun w ↦ w.1 = copy :: copies ∧ (holds [] w.2 ∧
    Handled s root fallbacks rest (copy :: copies) w.2) ∧ ∀ bytes, t temporary ≠ some (some bytes))
    (fun w h ↦ ?_)).bind (fun _ ↦ ?_)
  · obtain ⟨hlocal, ⟨hw, hnew⟩, hdone⟩ := h
    exact ⟨congrArg (copy :: ·) hlocal, ⟨hw, hdone.copied rfl rfl⟩, hnew⟩
  refine Triple.mono (P := fun w ↦ (w.1 = copy :: copies ∧ holds [] w.2 ∧
    Handled s root fallbacks rest (copy :: copies) w.2) ∧ ∀ bytes, t temporary ≠ some (some bytes))
    (Triple.of_and (fun hnew ↦ ?_)) (fun w h ↦ ⟨⟨h.1, h.2.1⟩, h.2.2⟩) (fun _ _ h ↦ h) (fun _ _ h ↦ h)
  have hwrite := writeRegion_spec hc (GoodCopy s root) fallback.bytes (hself [])
  simp only [Function.update_idem] at hwrite
  refine (lifted_spec (framed hwrite) (fun _ w h ↦ ?_)).bind (fun _ ↦ ?_)
  · obtain ⟨content, hw⟩ := h
    exact ⟨_, hw, hpending.add copy content⟩
  have hverify := insist_spec (verifiedFileP_spec hc root temporary fallback.hash
    (Function.update t temporary (some (some fallback.bytes))))
    (fun _ _ h ↦ h.1) "jaunder pull media: staged bytes disagree with URL hash" []
  refine (lifted_spec (framed (hverify.along (fun _ _ h ↦ h.grows))) (fun _ w h ↦ ?_)).mono
    (fun _ h ↦ h) (fun _ w h ↦ ?_) (fun _ _ h ↦ h)
  · exact ⟨_, h, hpending.add copy fallback.bytes⟩
  · obtain ⟨hlocal, ⟨hw, hverified⟩, hdone⟩ := h
    obtain ⟨local_, w⟩ := w
    obtain rfl : local_ = copy :: copies := hlocal
    exact ⟨_, ⟨hw, hdone⟩, hpending.add copy fallback.bytes,
      hready.add copy hnew rfl ((hverified rfl).2 _ (hself fallback.bytes))⟩

theorem stageFallback_spec (hc : Considerate s.toOthers) :
    Triple (OnState Grows) (StagedCopies s root fallbacks (fallback :: rest)) (stageFallback s root fallback)
      (fun _ ↦ StagedCopies s root fallbacks rest) (fun _ ↦ Tidy s root) := by
  refine of_local (fun copies ↦ ?_)
  refine Triple.mono (P := fun w ↦ ∃ t, (w.1 = copies ∧ Holding (GoodCopy s root) t w.2 ∧
    Handled s root fallbacks (fallback :: rest) copies w.2) ∧ Pending t copies ∧ Ready s root t copies)
    (Triple.of_exists (fun t ↦ Triple.of_and (fun h ↦ ?_))) (fun w h ↦ ?_) (fun _ _ h ↦ h) (fun _ _ h ↦ h)
  · obtain ⟨hpending, hready⟩ := h
    have htidy (e : Signal) (w : World) (hw : Holding (GoodCopy s root) t w) : Tidy s root (copies, w) :=
      ⟨t, hw, hpending⟩
    unfold stageFallback
    dsimp only
    refine ((lifted_spec (framed (targetPath_spec hc)) htidy).mono (fun _ h ↦ h)
      (S := fun target w ↦ (w.1 = copies ∧ Holding (GoodCopy s root) t w.2 ∧
        Handled s root fallbacks (fallback :: rest) copies w.2) ∧
        target = localCopy root fallback.hash fallback.leaf)
      (fun _ _ h ↦ ⟨⟨h.1, h.2.1.1, h.2.2⟩, h.2.1.2⟩) (fun _ _ h ↦ h)).bind
      (fun target ↦ Triple.of_and (fun htarget ↦ ?_))
    subst htarget
    refine (lifted_spec (framed (keeps_insistOn _ _ _ t)) htidy).bind (fun _ ↦ ?_)
    have hask (test : FileSystem → Bool) (path : Path) (fact : Bool → Fact) :
        Keeps s root (ask s.toOthers test path fact) := keeps_ask hc test path fact
    have hfound : Keeps s root (either
        (fileExistsP s.toOthers (localCopy root fallback.hash fallback.leaf))
        (fileSymlinkP s.toOthers (localCopy root fallback.hash fallback.leaf))) :=
      (hask _ _ _).bind (fun _ ↦ Keeps.ite (keeps_pure _) (hask _ _ _))
    refine (lifted_spec (framed (hfound t)) htidy).bind (fun found ↦ Triple.ite (fun _ ↦ ?_) (fun _ ↦ ?_))
    · refine (lifted_spec (framed ((requireExistingCopy_spec hc _ _ _ _).along (fun _ _ h ↦ h.grows))) htidy).mono
        (fun _ h ↦ h) (fun _ w h ↦ ?_) (fun _ _ h ↦ h)
      obtain ⟨rfl, ⟨hw, hsaw⟩, hdone⟩ := h
      exact ⟨t, ⟨hw, hdone.saw hsaw⟩, hpending, hready⟩
    · exact stageCopy_spec hc hpending hready
  · obtain ⟨hlocal, t, hw, hrest⟩ := h
    exact ⟨t, ⟨hlocal, hw⟩, hrest⟩

/-- The copies that do not wait any more stand at their places. -/
def Installed (s : Surroundings) (copies rest : List Copy) (w : World) : Prop :=
  ∀ copy ∈ copies, copy ∈ rest ∨ CopyVerified s w.log copy.target copy.hash

theorem Installed.mono {rest : List Copy} {w w' : World} (hgrows : Grows w w')
    (h : Installed s copies rest w) : Installed s copies rest w' := by
  intro copy hmem
  exact (h copy hmem).imp_right (CopyVerified.mono hgrows.subset)

theorem Installed.next {rest : List Copy} {copy : Copy} {w : World}
    (h : Installed s copies (copy :: rest) w) (hverified : CopyVerified s w.log copy.target copy.hash) :
    Installed s copies rest w := by
  intro other hmem
  rcases h other hmem with hrest | hdone
  · rcases List.mem_cons.mp hrest with rfl | hrest
    · exact .inr hverified
    · exact .inl hrest
  · exact .inr hdone

def InstalledCopies (s : Surroundings) (root : Path) (copies rest : List Copy) (w : World) : Prop :=
  ∃ t, (Holding (GoodCopy s root) t w ∧ Installed s copies rest w) ∧ Pending t copies ∧ Ready s root t rest

theorem installCopy_spec (hc : Considerate s.toOthers) {copy : Copy} {rest : List Copy} :
    Triple Grows (InstalledCopies s root copies (copy :: rest)) (installCopy s root copy)
      (fun _ ↦ InstalledCopies s root copies rest) (fun _ w ↦ Tidy s root (copies, w)) := by
  refine Triple.of_exists (fun t ↦ Triple.of_and (fun h ↦ ?_))
  obtain ⟨hpending, hready⟩ := h
  obtain ⟨bytes, hbytes, hhash⟩ := hready.verified copy List.mem_cons_self
  have htarget := hready.target copy List.mem_cons_self
  have htidy (w : World) (hw : Holding (GoodCopy s root) t w) : Tidy s root (copies, w) :=
    ⟨t, hw, hpending⟩
  have hframe {α : Type} {p : Step α} {P : World → Prop} {Q : α → World → Prop}
      {E : Signal → World → Prop} (h : Triple Grows P p Q E) (hE : ∀ e w, E e w → Tidy s root (copies, w)) :
      Triple Grows (fun w ↦ P w ∧ Installed s copies (copy :: rest) w) p
        (fun a w ↦ Q a w ∧ Installed s copies (copy :: rest) w) (fun _ w ↦ Tidy s root (copies, w)) :=
    (h.frame (fun _ _ hgrows hdone ↦ hdone.mono hgrows)).mono (fun _ h ↦ h) (fun _ _ h ↦ h)
      (fun e w h ↦ hE e w h.1)
  have hexisting : Triple Grows
      (fun w ↦ Holding (GoodCopy s root) t w ∧ Installed s copies (copy :: rest) w)
      (requireExistingCopy s copy.target copy.hash) (fun _ ↦ InstalledCopies s root copies rest)
      (fun _ w ↦ Tidy s root (copies, w)) := by
    refine (hframe ((requireExistingCopy_spec hc _ _ _ _).along (fun _ _ h ↦ h.grows))
      (fun _ w hw ↦ htidy w hw)).mono (fun _ h ↦ h) (fun _ w h ↦ ?_) (fun _ _ h ↦ h)
    obtain ⟨⟨hw, hsaw⟩, hdone⟩ := h
    exact ⟨t, ⟨hw, hdone.next (.inl hsaw)⟩, hpending, hready.tail⟩
  refine (hframe ((targetPath_spec hc).mono (fun _ h ↦ h) (fun _ _ h ↦ h.1) (fun _ _ h ↦ h))
    (fun _ w hw ↦ htidy w hw)).bind (fun target ↦ ?_)
  refine (hframe (keeps_insistOn _ _ _ t) (fun _ w hw ↦ htidy w hw)).bind (fun _ ↦ ?_)
  have hrename := renameFile_spec hc (GoodCopy s root) copy.target hbytes
    ⟨copy.hash, copy.leaf, bytes, htarget, rfl, hhash⟩
  refine Triple.handle ((hrename.frame (F := Installed s copies (copy :: rest))
    (fun _ _ hgrows hdone ↦ hdone.mono hgrows)).mono (fun _ h ↦ h) (fun _ w h ↦ ?_) (fun _ _ h ↦ h))
    (fun e ↦ ?_)
  · obtain ⟨⟨hw, hput⟩, hdone⟩ := h
    exact ⟨_, ⟨hw, hdone.next (.inr ⟨bytes, hput, hhash⟩)⟩,
      hpending.give copy.temporary, hready.give⟩
  · cases e with
    | fileAlreadyExists => exact hexisting
    | fileError =>
      have hfound : Keeps s root (either (fileExistsP s.toOthers copy.target)
          (fileSymlinkP s.toOthers copy.target)) :=
        (keeps_ask hc _ _ _).bind (fun _ ↦ Keeps.ite (keeps_pure _) (keeps_ask hc _ _ _))
      refine (hframe (hfound t) (fun _ w hw ↦ htidy w hw)).bind
        (fun _ ↦ Triple.ite (fun _ ↦ hexisting) (fun _ ↦ ?_))
      exact Triple.signal (fun w h ↦ htidy w h.1)
    | error message => exact Triple.signal (fun w h ↦ htidy w h.1)

theorem cleanup_spec (hc : Considerate s.toOthers) :
    Triple Grows (fun w ↦ Tidy s root (copies, w))
      (Procedure.forEach (fun copy ↦ cleanTemporary s copy.temporary) copies) (fun _ ↦ Idle s root)
      (fun _ _ ↦ False) := by
  refine (Triple.forEach (I := fun rest w ↦ ∃ t, Holding (GoodCopy s root) t w ∧ Pending t rest)
    (fun copy rest _ ↦ Triple.of_exists (fun t ↦ Triple.of_and (fun hpending ↦ ?_)))).mono
    (fun _ h ↦ h) (fun _ w h ↦ ?_) (fun _ _ h ↦ h)
  · obtain ⟨content, hcontent⟩ := Option.ne_none_iff_exists'.mp (hpending.held copy List.mem_cons_self)
    exact (cleanTemporary_spec hc hcontent).mono (fun _ h ↦ h) (fun _ w hw ↦ ⟨_, hw, hpending.tail⟩)
      (fun _ _ h ↦ h)
  · obtain ⟨t, hw, hpending⟩ := h
    refine ⟨t, hw, fun p bytes hbytes ↦ ?_⟩
    obtain ⟨copy, hcopy, -⟩ := hpending.all p bytes hbytes
    exact absurd hcopy List.not_mem_nil

/-- Every fallback of the stage has a Local Media Copy. -/
def Covered (s : Surroundings) (root : Path) (fallbacks : List Fallback) (w : World) : Prop :=
  ∀ fallback ∈ fallbacks, CopyVerified s w.log (localCopy root fallback.hash fallback.leaf) fallback.hash

theorem Covered.mono {w w' : World} (hgrows : Grows w w') (h : Covered s root fallbacks w) :
    Covered s root fallbacks w' :=
  fun fallback hmem ↦ (h fallback hmem).mono hgrows.subset

theorem Ready.reverse (h : Ready s root t copies) : Ready s root t copies.reverse where
  distinct := by
    rw [List.map_reverse, List.nodup_reverse]
    exact h.distinct
  target copy hmem := h.target copy (List.mem_reverse.mp hmem)
  verified copy hmem := h.verified copy (List.mem_reverse.mp hmem)

/-- Every copy is installed, in the order of its staging. -/
theorem installCopies_spec (hc : Considerate s.toOthers) :
    Triple Grows (InstalledCopies s root copies copies.reverse)
      (Procedure.forEach (installCopy s root) copies.reverse)
      (fun _ w ↦ Tidy s root (copies, w) ∧ Installed s copies [] w)
      (fun _ w ↦ Tidy s root (copies, w)) := by
  refine (Triple.forEach (I := fun rest w ↦ InstalledCopies s root copies rest w)
    (fun copy rest _ ↦ installCopy_spec hc)).mono (fun _ h ↦ h) (fun _ w h ↦ ?_) (fun _ _ h ↦ h)
  obtain ⟨t, ⟨hw, hdone⟩, hpending, -⟩ := h
  exact ⟨⟨t, hw, hpending⟩, hdone⟩

/-- What is handled and what is installed is all there is. -/
theorem covered_of_installed {w w' : World} (hgrows : Grows w w')
    (hhandled : Handled s root fallbacks [] copies w) (hinstalled : Installed s copies [] w')
    (htarget : ∀ copy ∈ copies, copy.target = localCopy root copy.hash copy.leaf) :
    Covered s root fallbacks w' := by
  intro fallback hmem
  rcases hhandled fallback hmem with hrest | hsaw | ⟨copy, hcopy, hhash, hleaf⟩
  · exact absurd hrest List.not_mem_nil
  · exact .inl (hsaw.mono hgrows.subset)
  · rcases hinstalled copy hcopy with hrest | hverified
    · exact absurd hrest List.not_mem_nil
    · rwa [htarget copy hcopy, hhash, hleaf] at hverified

theorem stageFallbacks_spec (hc : Considerate s.toOthers) :
    Triple (OnState Grows) (fun w ↦ w.1 = [] ∧ Idle s root w.2)
      (Procedure.forEach (stageFallback s root) fallbacks)
      (fun _ ↦ StagedCopies s root fallbacks []) (fun _ ↦ Tidy s root) := by
  refine (Triple.forEach (I := fun rest w ↦ StagedCopies s root fallbacks rest w)
    (fun fallback rest _ ↦ stageFallback_spec hc)).mono (fun w h ↦ ?_) (fun _ _ h ↦ h) (fun _ _ h ↦ h)
  obtain ⟨hnone, t, hw, hidle⟩ := h
  refine ⟨t, ⟨hw, fun fallback hmem ↦ .inl hmem⟩, ?_, ?_⟩
  · rw [hnone]
    exact ⟨fun _ hmem ↦ absurd hmem List.not_mem_nil, fun p bytes h ↦ absurd h (hidle p bytes)⟩
  · rw [hnone]
    exact ⟨List.nodup_nil, fun _ hmem ↦ absurd hmem List.not_mem_nil,
      fun _ hmem ↦ absurd hmem List.not_mem_nil⟩

/-- A run of the installation leaves no temporary behind, and one that returns has every copy. -/
theorem finalizeStaged_spec (hc : Considerate s.toOthers) (staged : Staged) :
    Triple Grows (Idle s root) (finalizeStaged s root staged)
      (fun _ w ↦ Idle s root w ∧ Covered s root staged.fallbacks w) (fun _ ↦ Idle s root) := by
  refine Triple.unwindProtect (B := fun _ w ↦ Tidy s root w ∧ Covered s root staged.fallbacks w.2)
    (F := fun _ ↦ Tidy s root) ?_ (fun _ copies ↦ ?_) (fun e copies ↦ ?_)
  · refine (stageFallbacks_spec hc).bind (fun _ ↦ Triple.get.bind (fun copies ↦ ?_))
    refine Triple.mono (P := fun w ↦ ∃ w₀, w.1 = copies ∧ StagedCopies s root staged.fallbacks [] (copies, w₀) ∧
      w.2 = w₀) (Triple.of_exists (fun w₀ ↦ ?_)) (fun w h ↦ ?_) (fun _ _ h ↦ h) (fun _ _ h ↦ h)
    · intro w hw
      obtain ⟨hlocal, ⟨t, ⟨hw₀, hhandled⟩, hpending, hready⟩, hworld⟩ := hw
      have hstart : InstalledCopies s root copies copies.reverse w₀ :=
        ⟨t, ⟨hw₀, fun copy hmem ↦ .inl (List.mem_reverse.mpr hmem)⟩, hpending, hready.reverse⟩
      have hinstall := (installCopies_spec hc).lift copies w ⟨hlocal, hworld ▸ hstart⟩
      refine ⟨hinstall.moves, fun u hu ↦ ?_, fun e he ↦ ?_⟩
      · obtain ⟨hlocal', htidy, hinstalled⟩ := hinstall.returns u hu
        exact ⟨htidy.of_local hlocal', covered_of_installed (hworld ▸ hinstall.moves) hhandled hinstalled hready.target⟩
      · obtain ⟨hlocal', htidy⟩ := hinstall.signals e he
        exact htidy.of_local hlocal'
    · obtain ⟨rfl, h⟩ := h
      exact ⟨w.2, rfl, h, rfl⟩
  · exact ((cleanup_spec hc).frame (fun _ _ hgrows hcovered ↦ Covered.mono hgrows hcovered)).mono
      (fun _ h ↦ h) (fun _ _ h ↦ h) (fun _ _ h ↦ h.1.elim)
  · exact (cleanup_spec hc).mono (fun _ h ↦ h) (fun _ _ h ↦ h) (fun _ _ h ↦ h.elim)

end Installation

end Jaunder.Elisp.StagedMedia
