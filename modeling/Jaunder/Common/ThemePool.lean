import Jaunder.Foundation.Outcome
import Jaunder.Host.ThemePackage
import Mathlib.Data.List.Lex
import Mathlib.Data.List.Sort

namespace Jaunder.Common.ThemePool

open Foundation.Outcome Foundation.SelfDelimiting
open Jaunder.Common.Hash Jaunder.Common.Owned
open Jaunder.Host.ThemePackage

inductive ThemePoolEntry
  | package (path : Text)
  | media (source : Text) (digest : ContentHash) (filename : Text)
deriving DecidableEq

def ThemePoolEntry.canonicalEncoding : ThemePoolEntry → List UInt8
  | .package path => 0 :: lengthPrefixed 8 path.bytes
  | .media source digest filename =>
    1 :: (lengthPrefixed 8 source.bytes ++ digestBytes digest ++ lengthPrefixed 8 filename.bytes)

/-- The order of byte strings. -/
def bytesLe (a b : List UInt8) : Prop := a.map UInt8.toNat ≤ b.map UInt8.toNat

instance : DecidableRel bytesLe := fun _ _ ↦ inferInstanceAs (Decidable (_ ≤ _))

def encodingLe (a b : ThemePoolEntry) : Prop := bytesLe a.canonicalEncoding b.canonicalEncoding

instance : DecidableRel encodingLe := fun _ _ ↦ inferInstanceAs (Decidable (bytesLe _ _))

inductive InvalidThemeHeaderPool
  | empty
  | duplicate
deriving DecidableEq

structure ThemeHeaderPool where
  entries : List ThemePoolEntry
  revision : ContentHash
  nonempty : entries ≠ []

/-- `windows(2)` finds two equal neighbours. -/
def hasEqualNeighbours : List ThemePoolEntry → Bool
  | a :: b :: entries =>
    a.canonicalEncoding = b.canonicalEncoding || hasEqualNeighbours (b :: entries)
  | _ => false

def poolDomain : List UInt8 := "jaunder-theme-pool-v1".toUTF8.data.toList

def poolPreimage (entries : List ThemePoolEntry) : List UInt8 :=
  poolDomain ++ beBytes 8 entries.length ++
    entries.flatMap (fun e ↦ lengthPrefixed 8 e.canonicalEncoding)

theorem insertionSort_ne_nil {entries : List ThemePoolEntry} (h : entries ≠ []) :
    entries.insertionSort encodingLe ≠ [] := by
  intro hnil
  have hperm := List.perm_insertionSort encodingLe entries
  rw [hnil] at hperm
  exact h hperm.nil_eq.symm

variable (sha256 : List UInt8 → ContentHash)

def ThemeHeaderPool.new (entries : List ThemePoolEntry) :
    Except InvalidThemeHeaderPool ThemeHeaderPool :=
  if h : entries = [] then .error .empty
  else
    let sorted := entries.insertionSort encodingLe
    if hasEqualNeighbours sorted then .error .duplicate
    else .ok ⟨sorted, sha256 (poolPreimage sorted), insertionSort_ne_nil h⟩

def assignmentDomain : List UInt8 := "jaunder-theme-assignment-v1".toUTF8.data.toList

/-- The index that the digest gives, one byte after the other. -/
def remainder (length : ℕ) (digest : List UInt8) : ℕ :=
  digest.foldl (fun r b ↦ (r * 256 + b.toNat) % length) 0

theorem remainder_lt {length : ℕ} (h : 0 < length) (digest : List UInt8) :
    remainder length digest < length := by
  unfold remainder
  induction digest using List.reverseRecOn with
  | nil => exact h
  | append_singleton digest b ih =>
    rw [List.foldl_append]
    exact Nat.mod_lt _ h

def ThemeHeaderPool.select (pool : ThemeHeaderPool) (route : Text) (publishedRevision : ContentHash)
    (shuffleSeed : List UInt8) : ThemePoolEntry :=
  let digest := sha256 (assignmentDomain ++ lengthPrefixed 8 route.bytes ++
    digestBytes publishedRevision ++ digestBytes pool.revision ++ shuffleSeed)
  pool.entries.get ⟨remainder pool.entries.length (digestBytes digest),
    remainder_lt (List.length_pos_of_ne_nil pool.nonempty) _⟩

def packagedDefaultHeaderSeed : List UInt8 := List.replicate 32 0

/-- The path of the packaged header that a route shows. -/
def selectPackagedHeaderDefault (defaults : Option (List Text)) (publishedRevision : ContentHash)
    (route : Text) : Option Text := do
  let paths ← defaults
  let pool ← (ThemeHeaderPool.new sha256 (paths.map .package)).toOption
  match pool.select sha256 route publishedRevision packagedDefaultHeaderSeed with
  | .package path => return path
  | .media _ _ _ => none

variable {sha256} {entries entries' : List ThemePoolEntry} {pool : ThemeHeaderPool}

section Encoding

theorem delimits_text : Delimits (fun t : Text ↦ lengthPrefixed 8 t.bytes) id :=
  (delimits_lengthPrefixed (fun t ↦ t.bytes_length_lt.trans_le (by norm_num))).of_key
    fun _ _ h ↦ Text.bytes_inj h

theorem canonicalEncoding_inj {a b : ThemePoolEntry}
    (h : a.canonicalEncoding = b.canonicalEncoding) : a = b := by
  cases a with
  | package path =>
    cases b with
    | package path' => exact congrArg _ (delimits_text.key_eq (List.cons.inj h).2)
    | media source' digest' filename' => exact absurd (List.cons.inj h).1 (by decide)
  | media source digest filename =>
    cases b with
    | package path' => exact absurd (List.cons.inj h).1 (by decide)
    | media source' digest' filename' =>
      have hrest := (List.cons.inj h).2
      rw [List.append_assoc, List.append_assoc] at hrest
      obtain ⟨hsource, hrest⟩ := delimits_text hrest
      obtain ⟨hdigest, hrest⟩ := delimits_digestBytes hrest
      have hfilename := delimits_text.key_eq hrest
      cases hsource
      cases hdigest
      cases hfilename
      rfl

theorem bytesLe_total (a b : List UInt8) : bytesLe a b ∨ bytesLe b a := le_total _ _

theorem bytesLe_antisymm {a b : List UInt8} (h : bytesLe a b) (h' : bytesLe b a) : a = b :=
  List.map_injective_iff.mpr (fun _ _ heq ↦ UInt8.toNat_inj.mp heq) (le_antisymm h h')

instance : Std.Total bytesLe := ⟨bytesLe_total⟩

instance : IsTrans (List UInt8) bytesLe := ⟨fun _ _ _ ↦ le_trans⟩

instance : Std.Total encodingLe := ⟨fun _ _ ↦ bytesLe_total _ _⟩

instance : IsTrans ThemePoolEntry encodingLe := ⟨fun _ _ _ ↦ le_trans⟩

theorem encodingLe_antisymm {a b : ThemePoolEntry} (h : encodingLe a b) (h' : encodingLe b a) :
    a = b := canonicalEncoding_inj (bytesLe_antisymm h h')

end Encoding

section New

/-- In the canonical order equal entries are neighbours. -/
theorem hasEqualNeighbours_eq_false_iff (h : entries.Pairwise encodingLe) :
    hasEqualNeighbours entries = false ↔ entries.Nodup := by
  induction entries with
  | nil => exact ⟨fun _ ↦ List.nodup_nil, fun _ ↦ rfl⟩
  | cons a entries ih =>
    obtain ⟨ha, hrest⟩ := List.pairwise_cons.mp h
    cases entries with
    | nil => exact ⟨fun _ ↦ List.nodup_singleton a, fun _ ↦ rfl⟩
    | cons b entries =>
      have hfresh : ¬a.canonicalEncoding = b.canonicalEncoding ↔ a ∉ b :: entries := by
        refine ⟨fun hne hmem ↦ ?_, fun hmem heq ↦ ?_⟩
        · rcases List.mem_cons.mp hmem with rfl | hmem
          · exact hne rfl
          · have hba := (List.pairwise_cons.mp hrest).1 a hmem
            exact hne (congrArg _ (encodingLe_antisymm (ha b List.mem_cons_self) hba))
        · exact hmem (canonicalEncoding_inj heq ▸ List.mem_cons_self)
      rw [hasEqualNeighbours, Bool.or_eq_false_iff, decide_eq_false_iff_not, ih hrest,
        List.nodup_cons (a := a), hfresh]

/-- A pool is made of distinct entries, in their canonical order. -/
theorem new_eq_ok_iff : ThemeHeaderPool.new sha256 entries = .ok pool ↔
    entries ≠ [] ∧ entries.Nodup ∧ pool.entries = entries.insertionSort encodingLe ∧
      pool.revision = sha256 (poolPreimage (entries.insertionSort encodingLe)) := by
  have hneighbours : hasEqualNeighbours (entries.insertionSort encodingLe) = false ↔
      entries.Nodup := by
    rw [hasEqualNeighbours_eq_false_iff (List.pairwise_insertionSort _ _)]
    exact (List.perm_insertionSort _ _).nodup_iff
  unfold ThemeHeaderPool.new
  dsimp only
  split_ifs with hempty hequal
  · exact ⟨fun h ↦ (nomatch h), fun h ↦ absurd hempty h.1⟩
  · refine ⟨fun h ↦ (nomatch h), fun h ↦ ?_⟩
    rw [hneighbours.mpr h.2.1] at hequal
    cases hequal
  · rw [Except.ok.injEq]
    constructor
    · rintro rfl
      exact ⟨hempty, hneighbours.mp (eq_false_of_ne_true hequal), rfl, rfl⟩
    · rintro ⟨-, -, hentries, hrevision⟩
      obtain ⟨poolEntries, revision, nonempty⟩ := pool
      cases hentries
      cases hrevision
      rfl

/-- The pool does not depend on the order in which its entries are given. -/
theorem insertionSort_perm (h : entries.Perm entries') :
    entries.insertionSort encodingLe = entries'.insertionSort encodingLe := by
  have hperm := (List.perm_insertionSort encodingLe entries).trans
    (h.trans (List.perm_insertionSort encodingLe entries').symm)
  exact List.Perm.eq_of_pairwise (fun _ _ _ _ hab hba ↦ encodingLe_antisymm hab hba)
    (List.pairwise_insertionSort _ _) (List.pairwise_insertionSort _ _) hperm

theorem new_perm (h : entries.Perm entries') :
    ThemeHeaderPool.new sha256 entries = ThemeHeaderPool.new sha256 entries' := by
  have hnil : entries = [] ↔ entries' = [] :=
    ⟨fun hnil ↦ (hnil ▸ h).nil_eq.symm, fun hnil ↦ (hnil ▸ h).eq_nil⟩
  unfold ThemeHeaderPool.new
  by_cases hempty : entries = []
  · rw [dif_pos hempty, dif_pos (hnil.mp hempty)]
  · rw [dif_neg hempty, dif_neg fun h' ↦ hempty (hnil.mpr h')]
    simp only [insertionSort_perm h]

end New

end Jaunder.Common.ThemePool
