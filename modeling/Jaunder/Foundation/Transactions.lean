import Jaunder.Foundation.Locks
import Jaunder.Foundation.Run

namespace Foundation.Transactions

open Foundation.Locks Foundation.Run

/-- What the next statement of a flight comes to: it waits, it has gone on, it has taken a lock, or
its transaction has ended with a change of the tables, which gives its locks back. -/
inductive Outcome (φ κ χ : Type)
  | wait
  | goto (flight : φ)
  | acquire (lock : κ) (flight : φ)
  | finish (change : χ) (flight : φ)

/-- Flights that read the committed tables with each statement and change them when they end. -/
structure System (τ φ κ χ α : Type) where
  next : τ → φ → α → Outcome φ κ χ
  apply : τ → χ → τ
  held : φ → List κ

structure World (τ φ κ : Type) where
  tables : τ
  locks : Holders κ ℕ
  flights : ℕ → φ

variable {τ φ κ χ α : Type} [DecidableEq κ]

def step (S : System τ φ κ χ α) (w : World τ φ κ) (e : ℕ × α) : World τ φ κ :=
  match S.next w.tables (w.flights e.1) e.2 with
  | .wait => w
  | .goto flight => { w with flights := Function.update w.flights e.1 flight }
  | .acquire lock flight =>
    match acquire w.locks e.1 lock with
    | none => w
    | some locks => { w with locks, flights := Function.update w.flights e.1 flight }
  | .finish change flight =>
    ⟨S.apply w.tables change, release w.locks e.1, Function.update w.flights e.1 flight⟩

/-- The locks that the flights count on are theirs. -/
def Owns (S : System τ φ κ χ α) (w : World τ φ κ) : Prop :=
  ∀ i, ∀ k ∈ S.held (w.flights i), w.locks k = some i

/-- What the tables satisfy, what a flight knows about them, and the locks without which a change is
not made. A change leaves alone what the flights know that hold none of its locks. -/
structure Discipline (S : System τ φ κ χ α) (Inv : τ → Prop) (Knows : τ → φ → Prop)
    (guards : χ → List κ) : Prop where
  goto : ∀ {t f a f'}, Inv t → Knows t f → S.next t f a = .goto f' →
    Knows t f' ∧ S.held f' ⊆ S.held f
  acquire : ∀ {t f a k f'}, Inv t → Knows t f → S.next t f a = .acquire k f' →
    Knows t f' ∧ S.held f' ⊆ k :: S.held f
  finish : ∀ {t f a c f'}, Inv t → Knows t f → S.next t f a = .finish c f' →
    Inv (S.apply t c) ∧ Knows (S.apply t c) f' ∧ S.held f' = [] ∧ guards c ⊆ S.held f
  frame : ∀ {t f a c f' g}, Inv t → Knows t f → S.next t f a = .finish c f' → Knows t g →
    (∀ k ∈ guards c, k ∉ S.held g) → Knows (S.apply t c) g

structure Sound (S : System τ φ κ χ α) (Inv : τ → Prop) (Knows : τ → φ → Prop)
    (w : World τ φ κ) : Prop where
  tables : Inv w.tables
  knows : ∀ i, Knows w.tables (w.flights i)
  owns : Owns S w

variable {S : System τ φ κ χ α} {Inv : τ → Prop} {Knows : τ → φ → Prop} {guards : χ → List κ}
  {w : World τ φ κ} {e : ℕ × α} {R : τ → τ → Prop}

/-- A step leaves the world alone, moves one flight, lets it take a lock, or ends its transaction. -/
theorem step_cases (S : System τ φ κ χ α) (w : World τ φ κ) (e : ℕ × α) : step S w e = w ∨
    (∃ f, S.next w.tables (w.flights e.1) e.2 = .goto f ∧
      step S w e = { w with flights := Function.update w.flights e.1 f }) ∨
    (∃ k f locks, S.next w.tables (w.flights e.1) e.2 = .acquire k f ∧
      acquire w.locks e.1 k = some locks ∧
      step S w e = { w with locks, flights := Function.update w.flights e.1 f }) ∨
    ∃ c f, S.next w.tables (w.flights e.1) e.2 = .finish c f ∧ step S w e =
      ⟨S.apply w.tables c, release w.locks e.1, Function.update w.flights e.1 f⟩ := by
  unfold step
  cases hnext : S.next w.tables (w.flights e.1) e.2 with
  | wait => exact .inl rfl
  | goto f => exact .inr (.inl ⟨f, rfl, rfl⟩)
  | acquire k f =>
    dsimp only
    cases hlocks : acquire w.locks e.1 k with
    | none => exact .inl rfl
    | some locks => exact .inr (.inr (.inl ⟨k, f, locks, rfl, hlocks, rfl⟩))
  | finish c f => exact .inr (.inr (.inr ⟨c, f, rfl, rfl⟩))

omit [DecidableEq κ] in
/-- No two flights count on one lock. -/
theorem Owns.disjoint (h : Owns S w) {i j : ℕ} (hne : j ≠ i) {k : κ}
    (hk : k ∈ S.held (w.flights i)) : k ∉ S.held (w.flights j) := by
  intro hk'
  have heq := (h j k hk').symm.trans (h i k hk)
  exact hne (Option.some.inj heq)

theorem Sound.step (h : Sound S Inv Knows w) (hS : Discipline S Inv Knows guards) (e : ℕ × α) :
    Sound S Inv Knows (step S w e) := by
  have hupdate {v : World τ φ κ} {f : φ} (hflights : v.flights = Function.update w.flights e.1 f)
      (htables : Inv v.tables) (hknows : Knows v.tables f)
      (hothers : ∀ i ≠ e.1, Knows v.tables (w.flights i))
      (hlocks : ∀ k ∈ S.held f, v.locks k = some e.1)
      (hkept : ∀ i ≠ e.1, ∀ k ∈ S.held (w.flights i), v.locks k = some i) :
      Sound S Inv Knows v := by
    refine ⟨htables, ?_, ?_⟩
    · rw [hflights]
      exact (Function.forall_update_iff _ fun _ f ↦ Knows v.tables f).mpr ⟨hknows, hothers⟩
    · rw [Owns, hflights]
      exact (Function.forall_update_iff _ fun i f ↦ ∀ k ∈ S.held f, v.locks k = some i).mpr
        ⟨hlocks, hkept⟩
  rcases step_cases S w e with hsame | ⟨f, hnext, hstep⟩ | ⟨k, f, locks, hnext, hlocks, hstep⟩ |
    ⟨c, f, hnext, hstep⟩
  · rwa [hsame]
  · obtain ⟨hknows, hheld⟩ := hS.goto h.tables (h.knows e.1) hnext
    rw [hstep]
    exact hupdate rfl h.tables hknows (fun i _ ↦ h.knows i) (fun k hk ↦ h.owns e.1 k (hheld hk))
      (fun i _ ↦ h.owns i)
  · obtain ⟨hknows, hheld⟩ := hS.acquire h.tables (h.knows e.1) hnext
    rw [hstep]
    refine hupdate rfl h.tables hknows (fun i _ ↦ h.knows i) (fun k' hk ↦ ?_)
      (fun i _ k' hk ↦ acquire_of_held hlocks (h.owns i k' hk))
    rcases List.mem_cons.mp (hheld hk) with rfl | hk
    · exact acquire_self hlocks
    · exact acquire_of_held hlocks (h.owns e.1 k' hk)
  · obtain ⟨htables, hknows, hnone, hguards⟩ := hS.finish h.tables (h.knows e.1) hnext
    rw [hstep]
    refine hupdate rfl htables hknows (fun i hne ↦ ?_) (fun k hk ↦ ?_)
      (fun i hne k hk ↦ release_of_held hne (h.owns i k hk))
    · exact hS.frame h.tables (h.knows e.1) hnext (h.knows i)
        (fun k hk ↦ h.owns.disjoint hne (hguards hk))
    · rw [hnone] at hk
      exact absurd hk List.not_mem_nil

theorem sound_run (hS : Discipline S Inv Knows guards) (h : Sound S Inv Knows w)
    (events : List (ℕ × α)) : Sound S Inv Knows (run (step S) w events) :=
  run_preserves (fun _ e hw _ ↦ hw.step hS e) h (along_true w events)

/-- What every change keeps up with, every run keeps up with. -/
theorem rel_run (hS : Discipline S Inv Knows guards) (h : Sound S Inv Knows w)
    (hrefl : ∀ t, R t t) (htrans : ∀ {s t u}, R s t → R t u → R s u)
    (hfinish : ∀ {t f a c f'}, Inv t → Knows t f → S.next t f a = .finish c f' → R t (S.apply t c))
    (events : List (ℕ × α)) : R w.tables (run (step S) w events).tables := by
  have hstep : ∀ v e, Sound S Inv Knows v ∧ R w.tables v.tables → True →
      Sound S Inv Knows (Transactions.step S v e) ∧ R w.tables (Transactions.step S v e).tables := by
    rintro v e ⟨hv, hR⟩ -
    refine ⟨hv.step hS e, ?_⟩
    rcases step_cases S v e with hsame | ⟨f, -, hstep⟩ | ⟨k, f, locks, -, -, hstep⟩ |
      ⟨c, f, hnext, hstep⟩
    · rwa [hsame]
    · rwa [hstep]
    · rwa [hstep]
    · rw [hstep]
      exact htrans hR (hfinish hv.tables (hv.knows e.1) hnext)
  exact (run_preserves hstep ⟨h, hrefl w.tables⟩ (along_true w events)).2

end Foundation.Transactions
