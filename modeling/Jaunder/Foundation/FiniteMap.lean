import Mathlib.Data.List.Sort
import Mathlib.Tactic

namespace Foundation.FiniteMap

/-- A finite map as the list of its entries in the order of their keys. -/
@[ext]
structure OrderedMap (κ α : Type) [LinearOrder κ] where
  entries : List (κ × α)
  ordered : entries.Pairwise (fun a b ↦ a.1 < b.1)

variable {κ α : Type} [LinearOrder κ]

def OrderedMap.empty : OrderedMap κ α := ⟨[], .nil⟩

def OrderedMap.get? (m : OrderedMap κ α) (k : κ) : Option α :=
  (m.entries.find? (fun e ↦ e.1 = k)).map Prod.snd

def insertEntry (k : κ) (a : α) : List (κ × α) → List (κ × α)
  | [] => [(k, a)]
  | e :: entries =>
    if k < e.1 then (k, a) :: e :: entries
    else if k = e.1 then (k, a) :: entries
    else e :: insertEntry k a entries

theorem mem_insertEntry {k : κ} {a : α} {entries : List (κ × α)} {e : κ × α}
    (hordered : entries.Pairwise (fun a b ↦ a.1 < b.1)) :
    e ∈ insertEntry k a entries ↔ e = (k, a) ∨ e.1 ≠ k ∧ e ∈ entries := by
  induction entries with
  | nil => simp [insertEntry]
  | cons d entries ih =>
    obtain ⟨hd, hrest⟩ := List.pairwise_cons.mp hordered
    have hlater {x : κ} (hx : x ≤ d.1) (h : e ∈ entries) : e.1 ≠ x :=
      (hx.trans_lt (hd e h)).ne'
    rw [insertEntry]
    split_ifs with hlt heq
    · have hall : e ∈ d :: entries → e.1 ≠ k := by
        intro h
        rcases List.mem_cons.mp h with rfl | h
        · exact hlt.ne'
        · exact hlater hlt.le h
      rw [List.mem_cons]
      exact or_congr_right ⟨fun h ↦ ⟨hall h, h⟩, And.right⟩
    · subst heq
      rw [List.mem_cons, List.mem_cons]
      refine or_congr_right ⟨fun h ↦ ⟨hlater le_rfl h, .inr h⟩, ?_⟩
      rintro ⟨hne, rfl | h⟩
      · exact absurd rfl hne
      · exact h
    · rw [List.mem_cons, List.mem_cons, ih hrest]
      constructor
      · rintro (rfl | rfl | ⟨hne, h⟩)
        · exact .inr ⟨Ne.symm heq, .inl rfl⟩
        · exact .inl rfl
        · exact .inr ⟨hne, .inr h⟩
      · rintro (rfl | ⟨hne, rfl | h⟩)
        · exact .inr (.inl rfl)
        · exact .inl rfl
        · exact .inr (.inr ⟨hne, h⟩)

theorem ordered_insertEntry {k : κ} {a : α} {entries : List (κ × α)}
    (hordered : entries.Pairwise (fun a b ↦ a.1 < b.1)) :
    (insertEntry k a entries).Pairwise (fun a b ↦ a.1 < b.1) := by
  induction entries with
  | nil => exact List.pairwise_singleton _ _
  | cons d entries ih =>
    obtain ⟨hd, hrest⟩ := List.pairwise_cons.mp hordered
    rw [insertEntry]
    split_ifs with hlt heq
    · refine List.pairwise_cons.mpr ⟨fun e he ↦ ?_, hordered⟩
      rcases List.mem_cons.mp he with rfl | he
      · exact hlt
      · exact hlt.trans (hd e he)
    · subst heq
      exact List.pairwise_cons.mpr ⟨hd, hrest⟩
    · refine List.pairwise_cons.mpr ⟨fun e he ↦ ?_, ih hrest⟩
      rcases (mem_insertEntry hrest).mp he with rfl | ⟨-, he⟩
      · exact lt_of_le_of_ne (not_lt.mp hlt) (Ne.symm heq)
      · exact hd e he

def OrderedMap.insert (m : OrderedMap κ α) (k : κ) (a : α) : OrderedMap κ α :=
  ⟨insertEntry k a m.entries, ordered_insertEntry m.ordered⟩

def OrderedMap.erase (m : OrderedMap κ α) (k : κ) : OrderedMap κ α :=
  ⟨m.entries.filter (fun e ↦ e.1 ≠ k), m.ordered.filter _⟩

/-- The entries inserted one after the other. -/
def OrderedMap.ofList (entries : List (κ × α)) : OrderedMap κ α :=
  entries.foldl (fun m e ↦ m.insert e.1 e.2) .empty

variable {m m' : OrderedMap κ α} {k : κ} {a : α} {entries entries' : List (κ × α)}

theorem OrderedMap.eq_of_mem_iff (h : ∀ e, e ∈ m.entries ↔ e ∈ m'.entries) : m = m' := by
  have hnodup (m : OrderedMap κ α) : m.entries.Nodup :=
    m.ordered.imp fun hlt heq ↦ absurd (congrArg Prod.fst heq) hlt.ne
  have hperm := (List.perm_ext_iff_of_nodup (hnodup m) (hnodup m')).mpr h
  refine OrderedMap.ext (List.Perm.eq_of_pairwise (fun a b _ _ hab hba ↦ ?_) m.ordered m'.ordered hperm)
  exact absurd hab hba.asymm

/-- What is inserted under distinct keys is what the map holds. -/
theorem OrderedMap.mem_ofList (h : (entries.map Prod.fst).Nodup) (e : κ × α) :
    e ∈ (OrderedMap.ofList entries).entries ↔ e ∈ entries := by
  have hfold : ∀ m : OrderedMap κ α, (∀ d ∈ m.entries, d.1 ∉ entries.map Prod.fst) →
      (e ∈ (entries.foldl (fun m e ↦ m.insert e.1 e.2) m).entries ↔ e ∈ m.entries ∨ e ∈ entries) := by
    induction entries with
    | nil => exact fun m _ ↦ ⟨.inl, fun h ↦ h.resolve_right List.not_mem_nil⟩
    | cons d entries ih =>
      intro m hm
      obtain ⟨hd, hrest⟩ := List.nodup_cons.mp h
      have hfresh : ∀ c ∈ m.entries, c.1 ≠ d.1 ∧ c.1 ∉ entries.map Prod.fst := fun c hc ↦
        ⟨fun heq ↦ hm c hc (heq ▸ List.mem_cons_self), fun hmem ↦
          hm c hc (List.mem_cons_of_mem _ hmem)⟩
      have hinserted (c : κ × α) : c ∈ (m.insert d.1 d.2).entries ↔ c = d ∨ c ∈ m.entries :=
        (mem_insertEntry m.ordered).trans
          (or_congr_right ⟨And.right, fun hc ↦ ⟨(hfresh c hc).1, hc⟩⟩)
      have hapart : ∀ c ∈ (m.insert d.1 d.2).entries, c.1 ∉ entries.map Prod.fst := by
        intro c hc
        rcases (hinserted c).mp hc with rfl | hc
        · exact hd
        · exact (hfresh c hc).2
      rw [List.foldl_cons, ih hrest _ hapart, hinserted, List.mem_cons]
      tauto
  exact (hfold .empty fun d hd ↦ absurd hd List.not_mem_nil).trans
    ⟨fun h ↦ h.resolve_left List.not_mem_nil, .inr⟩

/-- The order in which entries are inserted does not matter. -/
theorem OrderedMap.ofList_perm (hperm : entries.Perm entries') (h : (entries.map Prod.fst).Nodup) :
    OrderedMap.ofList entries = OrderedMap.ofList entries' := by
  refine eq_of_mem_iff fun e ↦ ?_
  rw [mem_ofList h, mem_ofList ((hperm.map Prod.fst).nodup_iff.mp h)]
  exact hperm.mem_iff

end Foundation.FiniteMap
