import Mathlib.Data.List.Forall2
import Mathlib.Tactic

namespace Foundation.SelfDelimiting

variable {α β γ κ κ' : Type}

/-- Whatever follows it, the word written for a value determines the key of that value and the
place where the word ends. -/
def Delimits (enc : α → List β) (key : α → κ) : Prop :=
  ∀ ⦃x y : α⦄ ⦃u v : List β⦄, enc x ++ u = enc y ++ v → key x = key y ∧ u = v

theorem Delimits.key_eq {enc : α → List β} {key : α → κ} (h : Delimits enc key) {x y : α}
    (he : enc x = enc y) : key x = key y :=
  (h (u := []) (v := []) (by rw [he])).1

theorem Delimits.comp {enc : α → List β} {key : α → κ} (h : Delimits enc key) (f : γ → α) :
    Delimits (fun x ↦ enc (f x)) (fun x ↦ key (f x)) :=
  fun _ _ _ _ he ↦ h he

theorem Delimits.map_key {enc : α → List β} {key : α → κ} (h : Delimits enc key) (g : κ → κ') :
    Delimits enc (fun x ↦ g (key x)) :=
  fun _ _ _ _ he ↦ ⟨congrArg g (h he).1, (h he).2⟩

theorem Delimits.of_key {enc : α → List β} {key : α → κ} (h : Delimits enc key) {key' : α → κ'}
    (hk : ∀ x y, key x = key y → key' x = key' y) : Delimits enc key' :=
  fun _ _ _ _ he ↦ ⟨hk _ _ (h he).1, (h he).2⟩

/-- Two delimited words written one after the other delimit both keys. -/
theorem Delimits.append {a b : α → List β} {ka : α → κ} {kb : α → κ'} (ha : Delimits a ka)
    (hb : Delimits b kb) : Delimits (fun x ↦ a x ++ b x) (fun x ↦ (ka x, kb x)) := by
  intro x y u v he
  simp only [List.append_assoc] at he
  obtain ⟨hka, hrest⟩ := ha he
  obtain ⟨hkb, huv⟩ := hb hrest
  exact ⟨Prod.ext hka hkb, huv⟩

theorem delimits_const (w : List β) : Delimits (fun _ : α ↦ w) (fun _ ↦ ()) :=
  fun _ _ _ _ he ↦ ⟨rfl, List.append_cancel_left he⟩

theorem delimits_of_length {enc : α → List β} {n : ℕ} (hlen : ∀ x, (enc x).length = n) :
    Delimits enc enc :=
  fun x y _ _ he ↦ List.append_inj he ((hlen x).trans (hlen y).symm)

/-- The bodies of two lists of one length, written one after the other, delimit the keys of all
their elements. -/
theorem Delimits.flatMap {enc : α → List β} {key : α → κ} (h : Delimits enc key) {xs ys : List α}
    (hlen : xs.length = ys.length) {u v : List β}
    (he : xs.flatMap enc ++ u = ys.flatMap enc ++ v) : xs.map key = ys.map key ∧ u = v := by
  induction xs generalizing ys with
  | nil =>
    cases ys with
    | nil => exact ⟨rfl, by simpa using he⟩
    | cons y ys => simp at hlen
  | cons x xs ih =>
    cases ys with
    | nil => simp at hlen
    | cons y ys =>
      simp only [List.flatMap_cons, List.append_assoc] at he
      obtain ⟨hkey, htail⟩ := h he
      obtain ⟨hkeys, huv⟩ := ih (Nat.succ.inj hlen) htail
      exact ⟨by rw [List.map_cons, List.map_cons, hkey, hkeys], huv⟩

/-- A count written in front of the bodies of a list delimits the keys of all its elements. -/
theorem Delimits.counted {enc : α → List β} {key : α → κ} (h : Delimits enc key)
    {count : ℕ → List β} {bound : ℕ} (hcount : ∀ {m n : ℕ} {u v : List β}, m < bound → n < bound →
      count m ++ u = count n ++ v → m = n ∧ u = v)
    {xs ys : List α} (hx : xs.length < bound) (hy : ys.length < bound) {u v : List β}
    (he : count xs.length ++ xs.flatMap enc ++ u = count ys.length ++ ys.flatMap enc ++ v) :
    xs.map key = ys.map key ∧ u = v := by
  simp only [List.append_assoc] at he
  obtain ⟨hlen, hrest⟩ := hcount hx hy he
  exact h.flatMap hlen hrest

theorem flatMap_eq_of_map_key_eq {enc : α → List β} {key : α → κ}
    (h : ∀ x y, key x = key y → enc x = enc y) {xs ys : List α}
    (he : xs.map key = ys.map key) : xs.flatMap enc = ys.flatMap enc := by
  induction xs generalizing ys with
  | nil => rw [List.map_eq_nil_iff.mp he.symm]
  | cons x xs ih =>
    cases ys with
    | nil => simp at he
    | cons y ys =>
      simp only [List.map_cons, List.cons.injEq] at he
      rw [List.flatMap_cons, List.flatMap_cons, h x y he.1, ih he.2]

/-- A one-element tag in front of an optional body tells the two cases apart. -/
theorem Delimits.optional {enc : α → List β} {key : α → κ} (h : Delimits enc key) {none' some' : β}
    (htag : none' ≠ some') :
    Delimits (fun o : Option α ↦ o.elim [none'] (fun x ↦ some' :: enc x))
      (fun o ↦ o.map key) := by
  intro o p u v he
  cases o with
  | none =>
    cases p with
    | none => exact ⟨rfl, List.append_cancel_left he⟩
    | some y => exact absurd (List.cons.inj he).1 htag
  | some x =>
    cases p with
    | none => exact absurd (List.cons.inj he).1 htag.symm
    | some y =>
      obtain ⟨hkey, huv⟩ := h (List.cons.inj he).2
      exact ⟨congrArg some hkey, huv⟩

/-- The last `w` base-256 digits of a number, the most significant one first. -/
def beBytes : ℕ → ℕ → List UInt8
  | 0, _ => []
  | w + 1, n => beBytes w (n / 256) ++ [UInt8.ofNat n]

@[simp] theorem beBytes_length (w n : ℕ) : (beBytes w n).length = w := by
  induction w generalizing n with
  | zero => rfl
  | succ w ih => rw [beBytes, List.length_append, ih, List.length_singleton]

theorem uint8_ofNat_inj {m n : ℕ} (h : UInt8.ofNat m = UInt8.ofNat n) : m % 256 = n % 256 := by
  simpa using congrArg UInt8.toNat h

theorem beBytes_inj {w m n : ℕ} (hm : m < 256 ^ w) (hn : n < 256 ^ w)
    (h : beBytes w m = beBytes w n) : m = n := by
  induction w generalizing m n with
  | zero => omega
  | succ w ih =>
    obtain ⟨hhigh, hlow⟩ := List.append_inj' h rfl
    rw [pow_succ] at hm hn
    have hdiv : m / 256 = n / 256 := ih (by omega) (by omega) hhigh
    have hmod := uint8_ofNat_inj (List.cons.inj hlow).1
    omega

theorem beBytes_append_inj {w m n : ℕ} {u v : List UInt8} (hm : m < 256 ^ w) (hn : n < 256 ^ w)
    (h : beBytes w m ++ u = beBytes w n ++ v) : m = n ∧ u = v := by
  obtain ⟨hw, huv⟩ := List.append_inj h (by simp)
  exact ⟨beBytes_inj hm hn hw, huv⟩

/-- A byte string behind its own length, in `w` bytes. -/
def lengthPrefixed (w : ℕ) (bytes : List UInt8) : List UInt8 := beBytes w bytes.length ++ bytes

theorem delimits_lengthPrefixed {w : ℕ} {enc : α → List UInt8}
    (hfits : ∀ x, (enc x).length < 256 ^ w) : Delimits (fun x ↦ lengthPrefixed w (enc x)) enc := by
  intro x y u v he
  simp only [lengthPrefixed, List.append_assoc] at he
  obtain ⟨hlen, hrest⟩ := beBytes_append_inj (hfits x) (hfits y) he
  exact List.append_inj hrest hlen

end Foundation.SelfDelimiting
