import Mathlib.Order.Defs.Unbundled
import Mathlib.Tactic

namespace Foundation.Procedures

variable {σ ε α β ℓ : Type}

/-- A procedure over a state. It returns a value or signals, and leaves a state in both cases. -/
def Procedure (σ ε α : Type) : Type := σ → Except ε α × σ

namespace Procedure

def bind (p : Procedure σ ε α) (f : α → Procedure σ ε β) : Procedure σ ε β := fun s ↦
  match p s with
  | (.ok a, s') => f a s'
  | (.error e, s') => (.error e, s')

instance : Monad (Procedure σ ε) where
  pure a s := (.ok a, s)
  bind := bind

def signal (e : ε) : Procedure σ ε α := fun s ↦ (.error e, s)

/-- A signal of the procedure goes to the handler. -/
def handle (p : Procedure σ ε α) (handler : ε → Procedure σ ε α) : Procedure σ ε α := fun s ↦
  match p s with
  | (.ok a, s') => (.ok a, s')
  | (.error e, s') => handler e s'

/-- A procedure of the outer state where there is a local variable as well. -/
def lift (p : Procedure σ ε α) : Procedure (ℓ × σ) ε α := fun (l, s) ↦
  let (result, s') := p s
  (result, (l, s'))

def get : Procedure (ℓ × σ) ε ℓ := fun s ↦ (.ok s.1, s)

def modify (f : ℓ → ℓ) : Procedure (ℓ × σ) ε Unit := fun (l, s) ↦ (.ok (), (f l, s))

/-- A body with a local variable. The cleanup finds the variable as the body has left it, also after
a signal, and gives way to the outcome of the body. -/
def unwindProtect (l : ℓ) (body : Procedure (ℓ × σ) ε α) (cleanup : ℓ → Procedure σ ε Unit) :
    Procedure σ ε α := fun s ↦
  let (result, (l', s')) := body (l, s)
  match cleanup l' s' with
  | (.ok (), s'') => (result, s'')
  | (.error e, s'') => (.error e, s'')

def withCleanup (body : Procedure σ ε α) (cleanup : Procedure σ ε Unit) : Procedure σ ε α :=
  unwindProtect () (lift body) (fun _ ↦ cleanup)

def forEach (f : α → Procedure σ ε Unit) : List α → Procedure σ ε Unit
  | [] => pure ()
  | a :: as => do
    f a
    forEach f as

end Procedure

open Procedure

/-- From a state of `P` a procedure moves along `r`. It ends in `Q` with its value or in `E` with its
signal. -/
structure EndsAt (r : σ → σ → Prop) (Q : α → σ → Prop) (E : ε → σ → Prop) (s : σ)
    (outcome : Except ε α × σ) : Prop where
  moves : r s outcome.2
  returns : ∀ a, outcome.1 = .ok a → Q a outcome.2
  signals : ∀ e, outcome.1 = .error e → E e outcome.2

def Triple (r : σ → σ → Prop) (P : σ → Prop) (p : Procedure σ ε α) (Q : α → σ → Prop)
    (E : ε → σ → Prop) : Prop := ∀ s, P s → EndsAt r Q E s (p s)

/-- The moves of the outer state where there is a local variable. -/
def OnState (r : σ → σ → Prop) (s s' : ℓ × σ) : Prop := r s.2 s'.2

instance {r : σ → σ → Prop} [Std.Refl r] :
    Std.Refl (OnState r : ℓ × σ → ℓ × σ → Prop) := ⟨fun s ↦ refl s.2⟩

instance {r : σ → σ → Prop} [IsTrans σ r] : IsTrans (ℓ × σ) (OnState r) where
  trans s s' s'' h h' := IsTrans.trans (r := r) s.2 s'.2 s''.2 h h'

namespace Triple

variable {r r' : σ → σ → Prop} {P P' : σ → Prop} {p : Procedure σ ε α} {f : α → Procedure σ ε β}
  {Q S : α → σ → Prop} {R : β → σ → Prop} {E E' : ε → σ → Prop}

theorem mono (h : Triple r P p Q E) (hP : ∀ s, P' s → P s) (hQ : ∀ a s, Q a s → S a s)
    (hE : ∀ e s, E e s → E' e s) : Triple r P' p S E' := by
  intro s hs
  have h := h s (hP s hs)
  exact ⟨h.moves, fun a ha ↦ hQ a _ (h.returns a ha), fun e he ↦ hE e _ (h.signals e he)⟩

theorem along (h : Triple r P p Q E) (hr : ∀ s s', r s s' → r' s s') : Triple r' P p Q E := by
  intro s hs
  have h := h s hs
  exact ⟨hr _ _ h.moves, h.returns, h.signals⟩

/-- What the moves of a procedure preserve holds after it. -/
theorem frame (h : Triple r P p Q E) {F : σ → Prop} (hF : ∀ s s', r s s' → F s → F s') :
    Triple r (fun s ↦ P s ∧ F s) p (fun a s ↦ Q a s ∧ F s) (fun e s ↦ E e s ∧ F s) := by
  intro s hs
  have h := h s hs.1
  have hF' := hF _ _ h.moves hs.2
  exact ⟨h.moves, fun a ha ↦ ⟨h.returns a ha, hF'⟩, fun e he ↦ ⟨h.signals e he, hF'⟩⟩

/-- The state in front of a procedure may be named. -/
theorem of_forall (h : ∀ s, P s → Triple r (· = s) p Q E) : Triple r P p Q E :=
  fun s hs ↦ h s hs s rfl

theorem of_exists {ι : Type} {P : ι → σ → Prop} (h : ∀ i, Triple r (P i) p Q E) :
    Triple r (fun s ↦ ∃ i, P i s) p Q E := by
  rintro s ⟨i, hs⟩
  exact h i s hs

theorem of_and {c : Prop} (h : c → Triple r P p Q E) : Triple r (fun s ↦ P s ∧ c) p Q E :=
  fun s hs ↦ h hs.2 s hs.1

theorem pure [Std.Refl r] {a : α} (h : ∀ s, P s → Q a s) :
    Triple r P (pure a : Procedure σ ε α) Q E := by
  intro s hs
  refine ⟨refl s, fun b hb ↦ ?_, fun e he ↦ by cases he⟩
  cases hb
  exact h s hs

theorem signal [Std.Refl r] {e : ε} (h : ∀ s, P s → E e s) :
    Triple r P (Procedure.signal e : Procedure σ ε α) Q E := by
  intro s hs
  refine ⟨refl s, fun b hb ↦ (by cases hb), fun e' he ↦ ?_⟩
  cases he
  exact h s hs

theorem bind [IsTrans σ r] (h : Triple r P p Q E) (hf : ∀ a, Triple r (Q a) (f a) R E) :
    Triple r P (p >>= f) R E := by
  intro s hs
  have h := h s hs
  change EndsAt r R E s (Procedure.bind p f s)
  unfold Procedure.bind
  cases hp : p s with
  | mk result s' =>
    rw [hp] at h
    cases result with
    | error e => exact ⟨h.moves, fun b hb ↦ (by cases hb),
        fun e' he ↦ (by cases he; exact h.signals _ rfl)⟩
    | ok a =>
      have hrest := hf a s' (h.returns a rfl)
      exact ⟨IsTrans.trans _ _ _ h.moves hrest.moves, hrest.returns, hrest.signals⟩

theorem handle [IsTrans σ r] {handler : ε → Procedure σ ε α} (h : Triple r P p Q E)
    (hhandler : ∀ e, Triple r (E e) (handler e) Q E') : Triple r P (p.handle handler) Q E' := by
  intro s hs
  have h := h s hs
  unfold Procedure.handle
  cases hp : p s with
  | mk result s' =>
    rw [hp] at h
    cases result with
    | ok a => exact ⟨h.moves, h.returns, fun e he ↦ (by cases he)⟩
    | error e =>
      have hrest := hhandler e s' (h.signals e rfl)
      exact ⟨IsTrans.trans _ _ _ h.moves hrest.moves, hrest.returns, hrest.signals⟩

theorem lift (h : Triple r P p Q E) (l : ℓ) :
    Triple (OnState r) (fun s ↦ s.1 = l ∧ P s.2)
      (Procedure.lift p : Procedure (ℓ × σ) ε α) (fun a s ↦ s.1 = l ∧ Q a s.2)
      (fun e s ↦ s.1 = l ∧ E e s.2) := by
  rintro ⟨_, s⟩ ⟨rfl, hs⟩
  have h := h s hs
  exact ⟨h.moves, fun a ha ↦ ⟨rfl, h.returns a ha⟩, fun e he ↦ ⟨rfl, h.signals e he⟩⟩

theorem get [Std.Refl r] {P : ℓ × σ → Prop} {E : ε → ℓ × σ → Prop} :
    Triple (OnState r) P Procedure.get (fun l s ↦ l = s.1 ∧ P s) E := by
  intro s hs
  refine ⟨refl s.2, fun l hl ↦ ?_, fun e he ↦ (by cases he)⟩
  cases hl
  exact ⟨rfl, hs⟩

theorem modify [Std.Refl r] {P Q : ℓ × σ → Prop} {E : ε → ℓ × σ → Prop} {f : ℓ → ℓ}
    (h : ∀ s, P s → Q (f s.1, s.2)) :
    Triple (OnState r) P (Procedure.modify f) (fun _ ↦ Q) E := by
  intro s hs
  refine ⟨refl s.2, fun u _ ↦ ?_, fun e he ↦ (by cases he)⟩
  exact h s hs

theorem ite {c : Prop} [Decidable c] {q : Procedure σ ε α}
    (hp : c → Triple r P p Q E) (hq : ¬c → Triple r P q Q E) :
    Triple r P (if c then p else q) Q E := by
  split
  · exact hp ‹_›
  · exact hq ‹_›

/-- The cleanup holds of what the body leaves, whichever way it ends. -/
theorem unwindProtect [IsTrans σ r] {l : ℓ} {body : Procedure (ℓ × σ) ε α}
    {cleanup : ℓ → Procedure σ ε Unit} {B : α → ℓ × σ → Prop} {F : ε → ℓ × σ → Prop}
    (hbody : Triple (OnState r) (fun s ↦ s.1 = l ∧ P s.2) body B F)
    (hreturned : ∀ a l', Triple r (fun s ↦ B a (l', s)) (cleanup l') (fun _ ↦ Q a) E)
    (hsignalled : ∀ e l', Triple r (fun s ↦ F e (l', s)) (cleanup l') (fun _ ↦ E e) E) :
    Triple r P (Procedure.unwindProtect l body cleanup) Q E := by
  intro s hs
  have hbody := hbody (l, s) ⟨rfl, hs⟩
  unfold Procedure.unwindProtect
  rcases hrun : body (l, s) with ⟨result, l', s'⟩
  rw [hrun] at hbody
  dsimp only
  cases result with
  | ok a =>
    have hclean := hreturned a l' s' (hbody.returns a rfl)
    have hmoves : r s (cleanup l' s').2 := IsTrans.trans _ _ _ hbody.moves hclean.moves
    cases hc : cleanup l' s' with
    | mk cleaned s'' =>
      rw [hc] at hclean hmoves
      cases cleaned with
      | ok u =>
        exact ⟨hmoves, fun b hb ↦ (by cases hb; exact hclean.returns _ rfl), fun e he ↦ by cases he⟩
      | error e =>
        exact ⟨hmoves, fun b hb ↦ (by cases hb), fun e he ↦ (by cases he; exact hclean.signals _ rfl)⟩
  | error e =>
    have hclean := hsignalled e l' s' (hbody.signals e rfl)
    have hmoves : r s (cleanup l' s').2 := IsTrans.trans _ _ _ hbody.moves hclean.moves
    cases hc : cleanup l' s' with
    | mk cleaned s'' =>
      rw [hc] at hclean hmoves
      cases cleaned with
      | ok u =>
        exact ⟨hmoves, fun b hb ↦ (by cases hb), fun e he ↦ (by cases he; exact hclean.returns _ rfl)⟩
      | error e =>
        exact ⟨hmoves, fun b hb ↦ (by cases hb), fun e he ↦ (by cases he; exact hclean.signals _ rfl)⟩

theorem withCleanup [IsTrans σ r] {cleanup : Procedure σ ε Unit}
    {B : α → σ → Prop} {F : ε → σ → Prop} (hbody : Triple r P p B F)
    (hreturned : ∀ a, Triple r (B a) cleanup (fun _ ↦ Q a) E)
    (hsignalled : ∀ e, Triple r (F e) cleanup (fun _ ↦ E e) E) :
    Triple r P (Procedure.withCleanup p cleanup) Q E :=
  unwindProtect (hbody.lift ()) (fun a _ ↦ (hreturned a).mono (fun _ h ↦ h.2) (fun _ _ h ↦ h) (fun _ _ h ↦ h))
    (fun e _ ↦ (hsignalled e).mono (fun _ h ↦ h.2) (fun _ _ h ↦ h) (fun _ _ h ↦ h))

/-- The rule for a loop: each round takes the condition for the rest of the list one step on. -/
theorem forEach [Std.Refl r] [IsTrans σ r] {I : List α → σ → Prop} {g : α → Procedure σ ε Unit}
    {as : List α} (h : ∀ a rest, (a :: rest) <:+ as →
      Triple r (I (a :: rest)) (g a) (fun _ ↦ I rest) E) :
    Triple r (I as) (Procedure.forEach g as) (fun _ ↦ I []) E := by
  induction as with
  | nil => exact pure (fun _ hs ↦ hs)
  | cons a as ih =>
    refine bind (h a as List.suffix_rfl) (fun _ ↦ ih (fun b rest hrest ↦ h b rest ?_))
    exact hrest.trans (List.suffix_cons a as)

end Triple

end Foundation.Procedures
