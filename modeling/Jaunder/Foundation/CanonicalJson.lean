import Jaunder.Foundation.Json
import Mathlib.Data.List.Sort

namespace Foundation.CanonicalJson

open Foundation.Json

variable (le : String → String → Prop) [DecidableRel le]

def sortFields (fields : List (String × Value)) : List (String × Value) :=
  fields.insertionSort (fun a b ↦ le a.1 b.1)

mutual

/-- The members of every object in the order of their names. -/
def canonical : Value → Value
  | .null => .null
  | .bool b => .bool b
  | .num n => .num n
  | .str s => .str s
  | .arr elements => .arr (canonicalElements elements)
  | .obj fields => .obj (sortFields le (canonicalFields fields))

def canonicalElements : List Value → List Value
  | [] => []
  | v :: elements => canonical v :: canonicalElements elements

def canonicalFields : List (String × Value) → List (String × Value)
  | [] => []
  | (key, v) :: fields => (key, canonical v) :: canonicalFields fields

end

variable {le} {fields fields' : List (String × Value)} {key : String}

theorem canonicalElements_eq_map (elements : List Value) :
    canonicalElements le elements = elements.map (canonical le) := by
  induction elements with
  | nil => rfl
  | cons v elements ih => rw [canonicalElements, ih, List.map_cons]

theorem canonicalFields_eq_map (fields : List (String × Value)) :
    canonicalFields le fields = fields.map (fun f ↦ (f.1, canonical le f.2)) := by
  induction fields with
  | nil => rfl
  | cons f fields ih => rw [canonicalFields, ih, List.map_cons]

theorem sortFields_perm (fields : List (String × Value)) : (sortFields le fields).Perm fields :=
  List.perm_insertionSort _ fields

theorem canonicalFields_sortFields (fields : List (String × Value)) :
    canonicalFields le (sortFields le fields) = sortFields le (canonicalFields le fields) := by
  rw [canonicalFields_eq_map, canonicalFields_eq_map, sortFields, sortFields]
  exact List.map_insertionSort (fun a b : String × Value ↦ le a.1 b.1)
    (fun a b : String × Value ↦ le a.1 b.1) _ fields fun _ _ _ _ ↦ Iff.rfl

theorem sortFields_sortFields [Std.Total le] [IsTrans String le] (fields : List (String × Value)) :
    sortFields le (sortFields le fields) = sortFields le fields := by
  have htotal : Std.Total (fun a b : String × Value ↦ le a.1 b.1) :=
    ⟨fun a b ↦ Std.Total.total a.1 b.1⟩
  have htrans : IsTrans (String × Value) (fun a b ↦ le a.1 b.1) :=
    ⟨fun _ _ _ ↦ IsTrans.trans _ _ _⟩
  exact (List.pairwise_insertionSort _ fields).insertionSort_eq

mutual

/-- A canonical value is canonical already. -/
theorem canonical_canonical [Std.Total le] [IsTrans String le] :
    ∀ v : Value, canonical le (canonical le v) = canonical le v
  | .null => rfl
  | .bool _ => rfl
  | .num _ => rfl
  | .str _ => rfl
  | .arr elements => by
    rw [canonical, canonical, canonicalElements_canonicalElements elements]
  | .obj fields => by
    rw [canonical, canonical, canonicalFields_sortFields,
      canonicalFields_canonicalFields fields, sortFields_sortFields]

theorem canonicalElements_canonicalElements [Std.Total le] [IsTrans String le] :
    ∀ elements : List Value,
      canonicalElements le (canonicalElements le elements) = canonicalElements le elements
  | [] => rfl
  | v :: elements => by
    rw [canonicalElements, canonicalElements, canonical_canonical v,
      canonicalElements_canonicalElements elements]

theorem canonicalFields_canonicalFields [Std.Total le] [IsTrans String le] :
    ∀ fields : List (String × Value),
      canonicalFields le (canonicalFields le fields) = canonicalFields le fields
  | [] => rfl
  | (key, v) :: fields => by
    rw [canonicalFields, canonicalFields, canonical_canonical v,
      canonicalFields_canonicalFields fields]

end

section Members

theorem lookup_eq_some_iff (h : (fields.map Prod.fst).Nodup) {v : Value} :
    fields.lookup key = some v ↔ (key, v) ∈ fields := by
  induction fields with
  | nil => exact ⟨fun h ↦ (nomatch h), fun h ↦ absurd h List.not_mem_nil⟩
  | cons f fields ih =>
    obtain ⟨hf, hrest⟩ := List.nodup_cons.mp h
    obtain ⟨name, w⟩ := f
    rw [List.lookup_cons, List.mem_cons]
    by_cases hname : key = name
    · subst hname
      simp only [beq_self_eq_true]
      constructor
      · intro heq
        exact .inl (Prod.ext rfl (Option.some.inj heq).symm)
      · rintro (heq | hmem)
        · rw [(Prod.mk.inj heq).2]
        · exact absurd (List.mem_map_of_mem (f := Prod.fst) hmem) hf
    · simp only [beq_eq_false_iff_ne.mpr hname]
      rw [ih hrest]
      exact ⟨.inr, fun h ↦ h.resolve_left fun heq ↦ hname (Prod.mk.inj heq).1⟩

theorem lookup_perm (hperm : fields.Perm fields') (h : (fields.map Prod.fst).Nodup) :
    fields.lookup key = fields'.lookup key := by
  refine Option.ext fun v ↦ ?_
  rw [lookup_eq_some_iff h, lookup_eq_some_iff ((hperm.map Prod.fst).nodup_iff.mp h)]
  exact hperm.mem_iff

theorem keys_canonicalFields (fields : List (String × Value)) :
    (canonicalFields le fields).map Prod.fst = fields.map Prod.fst := by
  rw [canonicalFields_eq_map, List.map_map]
  rfl

theorem lookup_canonicalFields (fields : List (String × Value)) (key : String) :
    (canonicalFields le fields).lookup key = (fields.lookup key).map (canonical le) := by
  induction fields with
  | nil => rfl
  | cons f fields ih =>
    obtain ⟨name, v⟩ := f
    rw [canonicalFields, List.lookup_cons, List.lookup_cons, ih]
    cases key == name <;> rfl

/-- The members of a canonical object are the canonical members. -/
theorem lookup_sortFields (h : (fields.map Prod.fst).Nodup) (key : String) :
    (sortFields le (canonicalFields le fields)).lookup key =
      (fields.lookup key).map (canonical le) := by
  have hnodup : ((sortFields le (canonicalFields le fields)).map Prod.fst).Nodup := by
    rw [((sortFields_perm _).map Prod.fst).nodup_iff, keys_canonicalFields]
    exact h
  rw [lookup_perm (sortFields_perm _) hnodup, lookup_canonicalFields]

end Members

end Foundation.CanonicalJson
