import Mathlib.Data.List.Nodup
import Mathlib.Order.Basic
import Mathlib.Tactic

namespace Foundation.OneTime

/-- A secret that its holder may present once and before it expires; `serial` counts the issues of
its table. -/
structure Secret (κ α τ : Type) where
  serial : ℕ
  key : κ
  subject : α
  createdAt : τ
  expiresAt : τ
  usedAt : Option τ

structure Consumption (τ : Type) where
  serial : ℕ
  usedAt : τ
  expiresAt : τ

/-- The stored secrets, how many have been issued, and the consumptions so far. -/
structure Table (κ α τ : Type) where
  rows : List (Secret κ α τ)
  issued : ℕ
  consumed : List (Consumption τ)

variable {κ α τ : Type} [LinearOrder τ]

def Secret.claimable (now : τ) (s : Secret κ α τ) : Bool := s.usedAt.isNone ∧ now < s.expiresAt

namespace Table

def empty : Table κ α τ := ⟨[], 0, []⟩

/-- The key is the primary key. -/
def insert [DecidableEq κ] (t : Table κ α τ) (key : κ) (subject : α) (createdAt expiresAt : τ) :
    Option (Table κ α τ) :=
  if t.rows.any (fun s ↦ s.key = key) then none
  else some { t with
    rows := t.rows ++ [⟨t.issued, key, subject, createdAt, expiresAt, none⟩]
    issued := t.issued + 1 }

/-- The conditional update: the row of the key, when nobody has used it and it has not expired. -/
def claim [DecidableEq κ] (t : Table κ α τ) (key : κ) (now : τ) (f : α → α) :
    Option (Secret κ α τ × Table κ α τ) :=
  (t.rows.find? (fun s ↦ s.key = key ∧ s.claimable now)).map (fun s ↦ (s, { t with
    rows := t.rows.map (fun s' ↦ if s'.key = key ∧ s'.claimable now then
      { s' with subject := f s'.subject, usedAt := some now } else s')
    consumed := t.consumed ++ [⟨s.serial, now, s.expiresAt⟩] }))

/-- Rows that expire at their creation. -/
def expire (t : Table κ α τ) (p : Secret κ α τ → Bool) : Table κ α τ :=
  { t with rows := t.rows.map (fun s ↦ if p s then { s with expiresAt := s.createdAt } else s) }

def delete (t : Table κ α τ) (p : Secret κ α τ → Bool) : Table κ α τ :=
  { t with rows := t.rows.filter (fun s ↦ ¬p s) }

/-- Every secret is consumed once at most, and in time. -/
structure Sound (t : Table κ α τ) : Prop where
  keys : (t.rows.map Secret.key).Nodup
  serials : (t.rows.map Secret.serial).Nodup
  issued_lt : ∀ s ∈ t.rows, s.serial < t.issued
  consumed_lt : ∀ c ∈ t.consumed, c.serial < t.issued
  used : ∀ c ∈ t.consumed, ∀ s ∈ t.rows, s.serial = c.serial → s.usedAt.isSome
  once : (t.consumed.map Consumption.serial).Nodup
  inTime : ∀ c ∈ t.consumed, c.usedAt < c.expiresAt

variable {t t' : Table κ α τ} {s s' : Secret κ α τ} {key : κ} {now : τ} {f : α → α}

theorem sound_empty : Sound (empty : Table κ α τ) :=
  ⟨List.nodup_nil, List.nodup_nil, nofun, nofun, nofun, List.nodup_nil, nofun⟩

omit [LinearOrder τ] in
theorem insert_eq_some [DecidableEq κ] {subject : α} {createdAt expiresAt : τ}
    (h : t.insert key subject createdAt expiresAt = some t') :
    key ∉ t.rows.map Secret.key ∧ t' = { t with
      rows := t.rows ++ [⟨t.issued, key, subject, createdAt, expiresAt, none⟩]
      issued := t.issued + 1 } := by
  unfold insert at h
  split_ifs at h with htaken
  refine ⟨fun hmem ↦ htaken ?_, (Option.some.inj h).symm⟩
  obtain ⟨s, hs, hkey⟩ := List.mem_map.mp hmem
  exact List.any_eq_true.mpr ⟨s, hs, decide_eq_true hkey⟩

theorem Sound.insert [DecidableEq κ] {subject : α} {createdAt expiresAt : τ} (h : t.Sound)
    (hinsert : t.insert key subject createdAt expiresAt = some t') : t'.Sound := by
  obtain ⟨hfree, rfl⟩ := insert_eq_some hinsert
  refine ⟨?_, ?_, fun s hs ↦ ?_, fun c hc ↦ (h.consumed_lt c hc).trans (Nat.lt_succ_self _),
    fun c hc s hs hserial ↦ ?_, h.once, h.inTime⟩
  · rw [List.map_append, List.map_singleton, List.nodup_append]
    refine ⟨h.keys, List.nodup_singleton _, fun k hk k' hk' ↦ ?_⟩
    rw [List.mem_singleton.mp hk']
    rintro rfl
    exact hfree hk
  · rw [List.map_append, List.map_singleton, List.nodup_append]
    refine ⟨h.serials, List.nodup_singleton _, fun n hn n' hn' ↦ ?_⟩
    obtain ⟨s, hs, rfl⟩ := List.mem_map.mp hn
    rw [List.mem_singleton.mp hn']
    exact (h.issued_lt s hs).ne
  · rcases List.mem_append.mp hs with hs | hs
    · exact (h.issued_lt s hs).trans (Nat.lt_succ_self _)
    · rw [List.mem_singleton.mp hs]
      exact Nat.lt_succ_self _
  · rcases List.mem_append.mp hs with hs | hs
    · exact h.used c hc s hs hserial
    · rw [List.mem_singleton.mp hs] at hserial
      exact absurd hserial (h.consumed_lt c hc).ne'

theorem claim_eq_some [DecidableEq κ] (h : t.claim key now f = some (s, t')) :
    s ∈ t.rows ∧ s.key = key ∧ s.claimable now = true ∧ t' = { t with
      rows := t.rows.map (fun s' ↦ if s'.key = key ∧ s'.claimable now then
        { s' with subject := f s'.subject, usedAt := some now } else s')
      consumed := t.consumed ++ [⟨s.serial, now, s.expiresAt⟩] } := by
  obtain ⟨s₀, hfind, heq⟩ := Option.map_eq_some_iff.mp h
  obtain ⟨rfl, rfl⟩ := Prod.mk.inj heq
  have hp := List.find?_some hfind
  obtain ⟨hkey, hclaimable⟩ := of_decide_eq_true hp
  exact ⟨List.mem_of_find?_eq_some hfind, hkey, hclaimable, rfl⟩

theorem Sound.claim [DecidableEq κ] (h : t.Sound) (hclaim : t.claim key now f = some (s, t')) : t'.Sound := by
  obtain ⟨hs, hkey, hclaimable, rfl⟩ := claim_eq_some hclaim
  obtain ⟨hunused, hexpiry⟩ := of_decide_eq_true hclaimable
  have hfresh : s.serial ∉ t.consumed.map Consumption.serial := by
    intro hmem
    obtain ⟨c, hc, hserial⟩ := List.mem_map.mp hmem
    have hused := h.used c hc s hs hserial.symm
    exact Option.isSome_iff_ne_none.mp hused (Option.isNone_iff_eq_none.mp hunused)
  refine ⟨?_, ?_, fun s' hs' ↦ ?_, fun c hc ↦ ?_, fun c hc s' hs' hserial ↦ ?_, ?_, fun c hc ↦ ?_⟩
  · rw [List.map_map, List.map_congr_left (g := Secret.key)]
    · exact h.keys
    · intro s' _
      dsimp only [Function.comp_apply]
      split_ifs <;> rfl
  · rw [List.map_map, List.map_congr_left (g := Secret.serial)]
    · exact h.serials
    · intro s' _
      dsimp only [Function.comp_apply]
      split_ifs <;> rfl
  · obtain ⟨s₀, hs₀, rfl⟩ := List.mem_map.mp hs'
    have hlt := h.issued_lt s₀ hs₀
    split_ifs <;> exact hlt
  · rcases List.mem_append.mp hc with hc | hc
    · exact h.consumed_lt c hc
    · rw [List.mem_singleton.mp hc]
      exact h.issued_lt s hs
  · obtain ⟨s₀, hs₀, rfl⟩ := List.mem_map.mp hs'
    split_ifs at hserial ⊢ with hmatch
    · rfl
    · rcases List.mem_append.mp hc with hc | hc
      · exact h.used c hc s₀ hs₀ hserial
      · rw [List.mem_singleton.mp hc] at hserial
        obtain rfl := List.inj_on_of_nodup_map h.serials hs₀ hs hserial
        exact absurd ⟨hkey, hclaimable⟩ hmatch
  · rw [List.map_append, List.map_singleton, List.nodup_append]
    refine ⟨h.once, List.nodup_singleton _, fun n hn n' hn' ↦ ?_⟩
    rw [List.mem_singleton.mp hn']
    rintro rfl
    exact hfresh hn
  · rcases List.mem_append.mp hc with hc | hc
    · exact h.inTime c hc
    · rw [List.mem_singleton.mp hc]
      exact hexpiry

theorem Sound.expire (h : t.Sound) (p : Secret κ α τ → Bool) : (t.expire p).Sound := by
  refine ⟨?_, ?_, fun s hs ↦ ?_, h.consumed_lt, fun c hc s hs hserial ↦ ?_, h.once, h.inTime⟩
  · unfold Table.expire
    rw [List.map_map, List.map_congr_left (g := Secret.key)]
    · exact h.keys
    · intro s' _
      dsimp only [Function.comp_apply]
      split_ifs <;> rfl
  · unfold Table.expire
    rw [List.map_map, List.map_congr_left (g := Secret.serial)]
    · exact h.serials
    · intro s' _
      dsimp only [Function.comp_apply]
      split_ifs <;> rfl
  · obtain ⟨s₀, hs₀, rfl⟩ := List.mem_map.mp hs
    have hlt := h.issued_lt s₀ hs₀
    split_ifs <;> exact hlt
  · obtain ⟨s₀, hs₀, rfl⟩ := List.mem_map.mp hs
    have hused := h.used c hc s₀ hs₀
    split_ifs at hserial ⊢ <;> exact hused hserial

theorem Sound.delete (h : t.Sound) (p : Secret κ α τ → Bool) : (t.delete p).Sound := by
  have hsub : (t.delete p).rows.Sublist t.rows := List.filter_sublist
  exact ⟨h.keys.sublist (hsub.map _), h.serials.sublist (hsub.map _),
    fun s hs ↦ h.issued_lt s (hsub.subset hs), h.consumed_lt,
    fun c hc s hs ↦ h.used c hc s (hsub.subset hs), h.once, h.inTime⟩

/-- What is claimable after a claim has been there before. -/
theorem mem_of_claimable [DecidableEq κ] {now' : τ} (h : t.claim key now f = some (s, t'))
    (hs' : s' ∈ t'.rows) (hclaimable : s'.claimable now' = true) : s' ∈ t.rows := by
  obtain ⟨-, -, -, rfl⟩ := claim_eq_some h
  obtain ⟨s₀, hs₀, rfl⟩ := List.mem_map.mp hs'
  split_ifs at hclaimable ⊢ with hmatch
  · obtain ⟨hunused, -⟩ := of_decide_eq_true hclaimable
    cases hunused
  · exact hs₀

end Table

theorem claimable_iff {now : τ} {s : Secret κ α τ} :
    s.claimable now = true ↔ s.usedAt = none ∧ now < s.expiresAt := by
  rw [Secret.claimable, decide_eq_true_iff, Option.isNone_iff_eq_none]

end Foundation.OneTime
