import Mathlib.Data.Char
import Mathlib.Data.List.Lex
import Mathlib.Tactic

namespace Foundation.Decimal

variable {α : Type} [LinearOrder α]

theorem append_lt_append {a b : List α} (hlen : a.length = b.length) (h : a < b) (u v : List α) :
    a ++ u < b ++ v := by
  induction a generalizing b with
  | nil =>
    obtain rfl := List.length_eq_zero_iff.mp hlen.symm
    exact absurd h (lt_irrefl _)
  | cons x a ih =>
    cases b with
    | nil => simp at hlen
    | cons y b =>
      rw [List.cons_append, List.cons_append, List.cons_lt_cons_iff]
      rcases List.cons_lt_cons_iff.mp h with hxy | ⟨rfl, hab⟩
      · exact .inl hxy
      · exact .inr ⟨rfl, ih (Nat.succ.inj hlen) hab⟩

def digitChar (n : ℕ) : Char := Char.ofNat (48 + n)

/-- The last `w` decimal digits of a number. -/
def digits : ℕ → ℕ → List Char
  | 0, _ => []
  | w + 1, n => digits w (n / 10) ++ [digitChar (n % 10)]

@[simp] theorem digits_length (w n : ℕ) : (digits w n).length = w := by
  induction w generalizing n with
  | zero => rfl
  | succ w ih => rw [digits, List.length_append, ih, List.length_singleton]

theorem digitChar_lt {m n : ℕ} (h : m < n) (hn : n < 10) : digitChar m < digitChar n := by
  have hall : ∀ n < 10, ∀ m < n, digitChar m < digitChar n := by decide
  exact hall n hn m h

theorem zero_le_digitChar (n : ℕ) (hn : n < 10) : '0' ≤ digitChar n := by
  revert n
  decide

theorem digits_lt {w m n : ℕ} (h : m < n) (hn : n < 10 ^ w) : digits w m < digits w n := by
  induction w generalizing m n with
  | zero => omega
  | succ w ih =>
    rw [pow_succ] at hn
    rcases (Nat.div_le_div_right h.le : m / 10 ≤ n / 10).lt_or_eq with hlt | heq
    · exact append_lt_append (by simp) (ih hlt (by omega)) _ _
    · rw [digits, digits, heq]
      have hdigit : digitChar (m % 10) < digitChar (n % 10) := digitChar_lt (by omega) (by omega)
      exact List.append_left_lt (List.cons_lt_cons_iff.mpr (.inl hdigit))

/-- Fields of fixed width compare like their numbers, and then by what follows. -/
theorem digits_append_lt {w m n : ℕ} {u v : List Char} (hn : n < 10 ^ w)
    (h : m < n ∨ m = n ∧ u < v) : digits w m ++ u < digits w n ++ v := by
  rcases h with hlt | ⟨rfl, huv⟩
  · exact append_lt_append (by simp) (digits_lt hlt hn) u v
  · exact List.append_left_lt huv

theorem digits_add (w k n : ℕ) : digits (w + k) n = digits w (n / 10 ^ k) ++ digits k (n % 10 ^ k) := by
  induction k generalizing n with
  | zero => simp [digits]
  | succ k ih =>
    rw [← Nat.add_assoc, digits, ih, digits, ← List.append_assoc]
    have hdiv : n / 10 / 10 ^ k = n / 10 ^ (k + 1) := by rw [Nat.div_div_eq_div_mul, pow_succ']
    have hmod : n % 10 ^ (k + 1) / 10 = n / 10 % 10 ^ k := by rw [pow_succ', Nat.mod_mul_right_div_self]
    have hlast : n % 10 ^ (k + 1) % 10 = n % 10 := by
      rw [pow_succ', Nat.mod_mul_right_mod]
    rw [hdiv, hmod, hlast]

theorem stop_lt_digits {stop : Char} (hstop : stop < '0') {k n : ℕ} (hk : 0 < k) (t u : List Char) :
    stop :: t < digits k n ++ u := by
  obtain ⟨k, rfl⟩ : ∃ j, k = 1 + j := ⟨k - 1, by omega⟩
  rw [digits_add, List.append_assoc]
  have hhead : digits 1 (n / 10 ^ k) = [digitChar (n / 10 ^ k % 10)] := rfl
  rw [hhead, List.singleton_append, List.cons_lt_cons_iff]
  exact .inl (hstop.trans_le (zero_le_digitChar _ (Nat.mod_lt _ (by decide))))

/-- Fractions of different precision compare like their values when a character below the digits
ends them. -/
theorem fraction_lt_of_shorter {stop : Char} (hstop : stop < '0') {w k q r : ℕ} (hk : 0 < k)
    (h : q * 10 ^ k < r) (hr : r < 10 ^ (w + k)) (t u : List Char) :
    digits w q ++ stop :: t < digits (w + k) r ++ u := by
  have hpos : 0 < 10 ^ k := Nat.pow_pos (by decide)
  have hq : q ≤ r / 10 ^ k := (Nat.le_div_iff_mul_le hpos).mpr h.le
  have hbound : r / 10 ^ k < 10 ^ w := by
    rw [Nat.div_lt_iff_lt_mul hpos, ← pow_add]
    exact hr
  rw [digits_add, List.append_assoc]
  refine digits_append_lt hbound ?_
  rcases hq.lt_or_eq with hlt | heq
  · exact .inl hlt
  · exact .inr ⟨heq, stop_lt_digits hstop hk t u⟩

theorem fraction_lt_of_longer {w k q r : ℕ} (h : r < q * 10 ^ k) (hq : q < 10 ^ w)
    (u v : List Char) : digits (w + k) r ++ u < digits w q ++ v := by
  have hpos : 0 < 10 ^ k := Nat.pow_pos (by decide)
  rw [digits_add, List.append_assoc]
  exact digits_append_lt hq (.inl ((Nat.div_lt_iff_lt_mul hpos).mpr h))

/-- The first `w` of the `p` decimal places that `n` counts, behind a point. -/
def fraction (p w n : ℕ) : List Char := if w = 0 then [] else '.' :: digits w (n / 10 ^ (p - w))

theorem fraction_lt {stop : Char} (hstop : stop < '.') {p w₁ w₂ m n : ℕ} (hw₁ : w₁ ≤ p)
    (hw₂ : w₂ ≤ p) (hd₁ : 10 ^ (p - w₁) ∣ m) (hd₂ : 10 ^ (p - w₂) ∣ n) (h : m < n)
    (hn : n < 10 ^ p) (t : List Char) :
    fraction p w₁ m ++ stop :: t < fraction p w₂ n ++ stop :: t := by
  have hdigit : stop < '0' := hstop.trans (by decide)
  have hw₂0 : w₂ ≠ 0 := by
    rintro rfl
    exact absurd (Nat.le_of_dvd (by omega) hd₂) (by simpa using hn)
  obtain ⟨q, rfl⟩ := hd₁
  obtain ⟨r, rfl⟩ := hd₂
  have hpos₁ : 0 < 10 ^ (p - w₁) := Nat.pow_pos (by decide)
  have hpos₂ : 0 < 10 ^ (p - w₂) := Nat.pow_pos (by decide)
  have hr : r < 10 ^ w₂ := by
    have hsplit : 10 ^ p = 10 ^ (p - w₂) * 10 ^ w₂ := by rw [← pow_add]; congr 1; omega
    exact Nat.lt_of_mul_lt_mul_left (hsplit ▸ hn)
  have hq : q < 10 ^ w₁ := by
    have hsplit : 10 ^ p = 10 ^ (p - w₁) * 10 ^ w₁ := by rw [← pow_add]; congr 1; omega
    exact Nat.lt_of_mul_lt_mul_left (hsplit ▸ h.trans hn)
  rw [fraction, fraction, if_neg hw₂0]
  rw [Nat.mul_div_cancel_left r hpos₂]
  by_cases hw₁0 : w₁ = 0
  · rw [if_pos hw₁0, List.nil_append, List.cons_append, List.cons_lt_cons_iff]
    exact .inl hstop
  rw [if_neg hw₁0, Nat.mul_div_cancel_left q hpos₁, List.cons_append, List.cons_append,
    List.cons_lt_cons_iff]
  refine .inr ⟨rfl, ?_⟩
  rcases lt_trichotomy w₁ w₂ with hlt | rfl | hgt
  · obtain ⟨k, rfl⟩ : ∃ k, w₂ = w₁ + k := ⟨w₂ - w₁, by omega⟩
    have hsplit : p - w₁ = (p - (w₁ + k)) + k := by omega
    refine fraction_lt_of_shorter hdigit (by omega) ?_ hr t _
    rw [hsplit, pow_add, Nat.mul_assoc] at h
    rw [Nat.mul_comm]
    exact Nat.lt_of_mul_lt_mul_left h
  · exact digits_append_lt hr (.inl (Nat.lt_of_mul_lt_mul_left h))
  · obtain ⟨k, rfl⟩ : ∃ k, w₁ = w₂ + k := ⟨w₁ - w₂, by omega⟩
    have hsplit : p - w₂ = (p - (w₂ + k)) + k := by omega
    refine fraction_lt_of_longer ?_ hr _ _
    rw [hsplit, pow_add, Nat.mul_assoc] at h
    rw [Nat.mul_comm]
    exact Nat.lt_of_mul_lt_mul_left h

end Foundation.Decimal
