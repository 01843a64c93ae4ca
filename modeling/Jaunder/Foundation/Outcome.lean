import Mathlib.Tactic

namespace Foundation.Outcome

variable {ε δ α β : Type}

/-- Go on only when the condition holds. -/
def require (P : Prop) [Decidable P] (e : ε) : Except ε Unit := if P then .ok () else .error e

def orError (o : Option α) (e : ε) : Except ε α := o.elim (.error e) .ok

theorem bind_eq_ok {x : Except ε α} {f : α → Except ε β} {b : β} :
    (x >>= f) = .ok b ↔ ∃ a, x = .ok a ∧ f a = .ok b := by
  cases x with
  | error e =>
    constructor
    · rintro ⟨⟩
    · rintro ⟨a, ⟨⟩, -⟩
  | ok a => exact ⟨fun h ↦ ⟨a, rfl, h⟩, fun ⟨a', ha, h⟩ ↦ Except.ok.inj ha ▸ h⟩

theorem bind_eq_error {x : Except ε α} {f : α → Except ε β} {e : ε} :
    (x >>= f) = .error e ↔ x = .error e ∨ ∃ a, x = .ok a ∧ f a = .error e := by
  cases x with
  | error e' =>
    constructor
    · intro h
      exact .inl (congrArg Except.error (Except.error.inj h))
    · rintro (h | ⟨a, ⟨⟩, -⟩)
      exact congrArg Except.error (Except.error.inj h)
  | ok a =>
    constructor
    · exact fun h ↦ .inr ⟨a, rfl, h⟩
    · rintro (h | ⟨a', ha, h⟩)
      · cases h
      · rw [Except.ok.inj ha]
        exact h

@[simp] theorem ok_bind (a : α) (f : α → Except ε β) : (Except.ok a >>= f) = f a := rfl

@[simp] theorem error_bind (e : ε) (f : α → Except ε β) : (Except.error e >>= f) = .error e := rfl

theorem pure_eq_ok {a b : α} : (pure a : Except ε α) = .ok b ↔ a = b :=
  ⟨Except.ok.inj, congrArg Except.ok⟩

theorem require_eq_ok {P : Prop} [Decidable P] {e : ε} {u : Unit} :
    require P e = .ok u ↔ P := by
  unfold require
  split_ifs with h
  · exact ⟨fun _ ↦ h, fun _ ↦ rfl⟩
  · exact ⟨fun hok ↦ (by cases hok), fun hP ↦ absurd hP h⟩

theorem require_eq_error {P : Prop} [Decidable P] {e e' : ε} :
    require P e = .error e' ↔ ¬P ∧ e = e' := by
  unfold require
  split_ifs with h
  · exact ⟨fun herror ↦ (by cases herror), fun hnot ↦ absurd h hnot.1⟩
  · exact ⟨fun herror ↦ ⟨h, Except.error.inj herror⟩, fun heq ↦ congrArg Except.error heq.2⟩

theorem require_pos {P : Prop} [Decidable P] {e : ε} (h : P) : require P e = .ok () := if_pos h

theorem require_neg {P : Prop} [Decidable P] {e : ε} (h : ¬P) : require P e = .error e := if_neg h

@[simp] theorem orError_some (a : α) (e : ε) : orError (some a) e = .ok a := rfl

@[simp] theorem orError_none (e : ε) : orError (none : Option α) e = .error e := rfl

theorem orError_eq_ok {o : Option α} {e : ε} {a : α} : orError o e = .ok a ↔ o = some a := by
  cases o with
  | none => exact ⟨fun h ↦ (by cases h), fun h ↦ (by cases h)⟩
  | some b => exact ⟨fun h ↦ congrArg some (Except.ok.inj h), fun h ↦ congrArg Except.ok (Option.some.inj h)⟩

theorem mapError_eq_ok {x : Except ε α} {f : ε → δ} {a : α} :
    x.mapError f = .ok a ↔ x = .ok a := by
  cases x with
  | error e => exact ⟨fun h ↦ (by cases h), fun h ↦ (by cases h)⟩
  | ok b => exact ⟨fun h ↦ congrArg Except.ok (Except.ok.inj h), fun h ↦ congrArg Except.ok (Except.ok.inj h)⟩

theorem map_eq_ok {x : Except ε α} {f : α → β} {b : β} :
    x.map f = .ok b ↔ ∃ a, x = .ok a ∧ f a = b := by
  cases x with
  | error e => exact ⟨fun h ↦ (by cases h), fun ⟨_, h, _⟩ ↦ (by cases h)⟩
  | ok a =>
    constructor
    · exact fun h ↦ ⟨a, rfl, Except.ok.inj h⟩
    · rintro ⟨a', ha, rfl⟩
      rw [Except.ok.inj ha]
      rfl

theorem map_bind {γ : Type} (x : Except ε α) (f : α → Except ε β) (g : β → γ) :
    (x >>= f).map g = x >>= fun a ↦ (f a).map g := by
  cases x <;> rfl

theorem bind_map {γ : Type} (x : Except ε α) (f : α → β) (g : β → Except ε γ) :
    (x.map f >>= g) = x >>= fun a ↦ g (f a) := by
  cases x <;> rfl

/-- What a fallible map returns comes from its inputs. -/
theorem mapM_eq_ok {f : α → Except ε β} {as : List α} {bs : List β} (h : as.mapM f = .ok bs) :
    ∀ b ∈ bs, ∃ a ∈ as, f a = .ok b := by
  induction as generalizing bs with
  | nil =>
    obtain rfl := pure_eq_ok.mp h
    intro b hb
    cases hb
  | cons a as ih =>
    rw [List.mapM_cons] at h
    obtain ⟨b', hb', h⟩ := bind_eq_ok.mp h
    obtain ⟨bs', hbs', h⟩ := bind_eq_ok.mp h
    obtain rfl := pure_eq_ok.mp h
    intro b hb
    rcases List.mem_cons.mp hb with rfl | hb
    · exact ⟨a, List.mem_cons_self, hb'⟩
    · obtain ⟨a', ha', hf⟩ := ih hbs' b hb
      exact ⟨a', List.mem_cons_of_mem _ ha', hf⟩

theorem exists_mapM_eq_ok {f : α → Except ε β} {as : List α} (h : ∀ a ∈ as, ∃ b, f a = .ok b) :
    ∃ bs, as.mapM f = .ok bs ∧ List.Forall₂ (fun a b ↦ f a = .ok b) as bs := by
  induction as with
  | nil => exact ⟨[], rfl, .nil⟩
  | cons a as ih =>
    obtain ⟨b, hb⟩ := h a List.mem_cons_self
    obtain ⟨bs, hbs, hall⟩ := ih (fun a ha ↦ h a (List.mem_cons_of_mem _ ha))
    refine ⟨b :: bs, ?_, .cons hb hall⟩
    rw [List.mapM_cons, hb, ok_bind, hbs, ok_bind]
    rfl

theorem mapError_eq_error {x : Except ε α} {f : ε → δ} {e : δ} :
    x.mapError f = .error e ↔ ∃ e', x = .error e' ∧ f e' = e := by
  cases x with
  | error e' =>
    constructor
    · intro h
      exact ⟨e', rfl, Except.error.inj h⟩
    · rintro ⟨e'', he, rfl⟩
      rw [Except.error.inj he]
      rfl
  | ok b => exact ⟨fun h ↦ (by cases h), fun ⟨_, h, _⟩ ↦ (by cases h)⟩

/-- Every error of a computation has the property. -/
def ErrorsIn (P : ε → Prop) (x : Except ε α) : Prop := ∀ e, x = .error e → P e

section ErrorsIn

variable {P : ε → Prop} {e : ε}

theorem errorsIn_ok (a : α) : ErrorsIn P (.ok a) := fun _ h ↦ (by cases h)

theorem errorsIn_pure (a : α) : ErrorsIn P (pure a) := errorsIn_ok a

theorem errorsIn_error (h : P e) : ErrorsIn P (.error e : Except ε α) :=
  fun _ he ↦ Except.error.inj he ▸ h

theorem errorsIn_require {C : Prop} [Decidable C] (h : P e) : ErrorsIn P (require C e) := by
  unfold require
  split_ifs
  · exact errorsIn_ok ()
  · exact errorsIn_error h

theorem errorsIn_orError {o : Option α} (h : P e) : ErrorsIn P (orError o e) := by
  cases o with
  | none => exact errorsIn_error h
  | some a => exact errorsIn_ok a

theorem ErrorsIn.bind {x : Except ε α} {f : α → Except ε β} (hx : ErrorsIn P x)
    (hf : ∀ a, x = .ok a → ErrorsIn P (f a)) : ErrorsIn P (x >>= f) := by
  intro e he
  rcases bind_eq_error.mp he with h | ⟨a, ha, h⟩
  · exact hx e h
  · exact hf a ha e h

theorem ErrorsIn.mapError {Q : δ → Prop} {x : Except ε α} {f : ε → δ}
    (h : ErrorsIn (fun e ↦ Q (f e)) x) : ErrorsIn Q (x.mapError f) := by
  intro e he
  obtain ⟨e', hx, rfl⟩ := mapError_eq_error.mp he
  exact h e' hx

theorem ErrorsIn.map {x : Except ε α} {f : α → β} (h : ErrorsIn P x) : ErrorsIn P (x.map f) := by
  cases x with
  | error e => exact errorsIn_error (h e rfl)
  | ok a => exact errorsIn_ok (f a)

theorem errorsIn_mapM {f : α → Except ε β} {as : List α} (h : ∀ a ∈ as, ErrorsIn P (f a)) :
    ErrorsIn P (as.mapM f) := by
  induction as with
  | nil => exact errorsIn_pure []
  | cons a as ih =>
    rw [List.mapM_cons]
    refine (h a List.mem_cons_self).bind (fun b _ ↦ ?_)
    refine (ih (fun a ha ↦ h a (List.mem_cons_of_mem _ ha))).bind (fun bs _ ↦ ?_)
    exact errorsIn_pure (b :: bs)

end ErrorsIn

end Foundation.Outcome
