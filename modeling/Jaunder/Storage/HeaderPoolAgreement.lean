import Jaunder.Storage.HeaderPools

namespace Jaunder.Storage.HeaderPoolAgreement

open Foundation.Ledger Foundation.Octets Foundation.Outcome Foundation.SelfDelimiting
open Jaunder.Common.Hash Jaunder.Common.Media Jaunder.Common.Owned Jaunder.Common.References
open Jaunder.Common.ThemePool
open Jaunder.Host.ThemePackage
open Jaunder.Storage.HeaderPools Jaunder.Storage.Media Jaunder.Storage.Themes

variable {sha256 : List UInt8 → ContentHash} {t t' : ImageTables} {owner : ThemeOwner}
  {actor themeId : ℤ} {entries : List ThemeHeaderPoolEntry} {members : List ThemePoolEntry}

section Encoding

theorem fromStrRadix_of_isLowerHex {a b : Char} (ha : isLowerHex a = true)
    (hb : isLowerHex b = true) :
    fromStrRadix a b = some (UInt8.ofNat (16 * nibble a + nibble b)) := by
  have hdigit : ∀ c : Char, isLowerHex c = true → radixDigit c = some (nibble c) := by
    intro c hc
    unfold radixDigit nibble
    rcases of_decide_eq_true hc with hc | hc
    · rw [if_pos hc, if_pos hc.2]
    · have hnine : ¬c ≤ '9' := fun h ↦ absurd (hc.1.trans h) (by decide)
      rw [if_neg fun h ↦ hnine h.2, if_pos hc, if_neg hnine]
  have hplus : a ≠ '+' := by
    rintro rfl
    exact absurd ha (by decide)
  rw [fromStrRadix, if_neg hplus, hdigit a ha, hdigit b hb]
  rfl

theorem radixPairs_of_isLowerHex : ∀ s : List Char, s.all isLowerHex = true →
    radixPairs s = some (pairs s)
  | [], _ => rfl
  | [_], _ => rfl
  | a :: b :: s, h => by
    obtain ⟨ha, hb, hs⟩ : isLowerHex a = true ∧ isLowerHex b = true ∧ s.all isLowerHex = true := by
      simpa only [List.all_cons, Bool.and_eq_true] using h
    rw [radixPairs, fromStrRadix_of_isLowerHex ha hb, radixPairs_of_isLowerHex s hs]
    rfl

theorem themeDigestBytes_eq (digest : ContentHash) :
    themeDigestBytes digest = .ok (digestBytes digest) := by
  rw [themeDigestBytes, require_pos digest.canonical.1,
    radixPairs_of_isLowerHex _ digest.canonical.2]
  rfl

/-- The encoder of the storage crate is that of the common crate. -/
theorem headerPoolEntryEncoding_eq (entry : ThemeHeaderPoolEntry) :
    headerPoolEntryEncoding entry =
      orError ((poolEntry entry).map ThemePoolEntry.canonicalEncoding) .rowNotFound := by
  obtain ⟨ordinal, path, userId, source, digest, filename⟩ := entry
  cases path with
  | some path =>
    cases source <;> cases digest <;> cases filename <;> cases userId <;> rfl
  | none =>
    cases source with
    | none => cases digest <;> cases filename <;> cases userId <;> rfl
    | some source =>
      cases digest with
      | none => cases filename <;> cases userId <;> rfl
      | some digest =>
        cases filename with
        | none => cases userId <;> rfl
        | some filename =>
          cases userId with
          | none => rfl
          | some userId =>
            simp only [headerPoolEntryEncoding, themeDigestBytes_eq]
            rfl

theorem headerPoolEntryEncoding_eq_ok_iff {entry : ThemeHeaderPoolEntry} {encoding : List UInt8} :
    headerPoolEntryEncoding entry = .ok encoding ↔
      ∃ member, poolEntry entry = some member ∧ member.canonicalEncoding = encoding := by
  rw [headerPoolEntryEncoding_eq, orError_eq_ok, Option.map_eq_some_iff]

theorem headerEntryEncoding_of_poolEntry {entry : ThemeHeaderPoolEntry} {member : ThemePoolEntry}
    (h : poolEntry entry = some member) : headerEntryEncoding entry = member.canonicalEncoding := by
  rw [headerEntryEncoding, h]
  rfl

end Encoding

section Rows

/-- Rows that stand for entries of the common crate, in their order. -/
def Represents (entries : List ThemeHeaderPoolEntry) (members : List ThemePoolEntry) : Prop :=
  entries.map poolEntry = members.map some

def encodingsLe (a b : ThemeHeaderPoolEntry) : Prop :=
  bytesLe (headerEntryEncoding a) (headerEntryEncoding b)

instance : DecidableRel encodingsLe := fun _ _ ↦ inferInstanceAs (Decidable (bytesLe _ _))

instance : Std.Total encodingsLe := ⟨fun _ _ ↦ bytesLe_total _ _⟩

instance : IsTrans ThemeHeaderPoolEntry encodingsLe := ⟨fun _ _ _ ↦ le_trans⟩

/-- The rows in the canonical order of their encodings. -/
def sortEntries (entries : List ThemeHeaderPoolEntry) : List ThemeHeaderPoolEntry :=
  entries.insertionSort encodingsLe

theorem represents_nil : Represents [] members ↔ members = [] := by
  refine ⟨fun h ↦ ?_, fun h ↦ h ▸ rfl⟩
  exact List.map_eq_nil_iff.mp h.symm

theorem represents_cons {entry : ThemeHeaderPoolEntry} :
    Represents (entry :: entries) members ↔ ∃ member rest, members = member :: rest ∧
      poolEntry entry = some member ∧ Represents entries rest := by
  cases members with
  | nil => exact ⟨fun h ↦ (nomatch h), fun ⟨_, _, h, _⟩ ↦ (nomatch h)⟩
  | cons member rest =>
    constructor
    · intro h
      obtain ⟨hentry, hrest⟩ := List.cons.inj h
      exact ⟨member, rest, rfl, hentry, hrest⟩
    · rintro ⟨_, _, heq, hentry, hrest⟩
      obtain ⟨rfl, rfl⟩ := List.cons.inj heq
      exact congrArg₂ _ hentry hrest

theorem Represents.mapM_eq (h : Represents entries members) :
    entries.mapM poolEntry = some members := by
  induction entries generalizing members with
  | nil =>
    rw [represents_nil.mp h]
    rfl
  | cons entry entries ih =>
    obtain ⟨member, rest, rfl, hentry, hrest⟩ := represents_cons.mp h
    rw [List.mapM_cons, hentry, ih hrest]
    rfl

theorem Represents.length_eq (h : Represents entries members) : entries.length = members.length := by
  have hlength := congrArg List.length h
  rwa [List.length_map, List.length_map] at hlength

theorem Represents.encodings (h : Represents entries members) :
    entries.map headerEntryEncoding = members.map ThemePoolEntry.canonicalEncoding := by
  induction entries generalizing members with
  | nil =>
    rw [represents_nil.mp h]
    rfl
  | cons entry entries ih =>
    obtain ⟨member, rest, rfl, hentry, hrest⟩ := represents_cons.mp h
    rw [List.map_cons, List.map_cons, ih hrest, headerEntryEncoding_of_poolEntry hentry]

/-- Rows and entries go through the same permutation when they are sorted. -/
theorem Represents.sort (h : Represents entries members) :
    Represents (sortEntries entries) (members.insertionSort encodingLe) := by
  let le : Option ThemePoolEntry → Option ThemePoolEntry → Prop := fun a b ↦
    bytesLe (a.elim [] ThemePoolEntry.canonicalEncoding) (b.elim [] ThemePoolEntry.canonicalEncoding)
  have hdecidable : DecidableRel le := fun _ _ ↦ inferInstanceAs (Decidable (bytesLe _ _))
  have hrows : (sortEntries entries).map poolEntry = (entries.map poolEntry).insertionSort le :=
    List.map_insertionSort _ _ _ _ fun _ _ _ _ ↦ Iff.rfl
  have hmembers : (members.insertionSort encodingLe).map some = (members.map some).insertionSort le :=
    List.map_insertionSort _ _ _ _ fun _ _ _ _ ↦ Iff.rfl
  rw [Represents, hrows, hmembers, h]

theorem Represents.ordinals (h : Represents entries members) :
    Represents (withOrdinals entries) members := by
  have hordinal : (withOrdinals entries).map poolEntry = entries.map poolEntry := by
    have hfst : (entries.zipIdx.map Prod.fst).map poolEntry = entries.map poolEntry := by
      rw [List.zipIdx_map_fst]
    rw [List.map_map] at hfst
    rw [withOrdinals, List.map_map]
    exact hfst
  rw [Represents, hordinal, h]

end Rows

section Check

/-- Rows that pass the loop of `replace_header_pool` after some encodings were seen. -/
structure Admissible (t : ImageTables) (themeId : ℤ) (seen : List (List UInt8))
    (entries : List ThemeHeaderPoolEntry) (members : List ThemePoolEntry) : Prop where
  represents : Represents entries members
  distinct : members.Nodup
  fresh : ∀ member ∈ members, member.canonicalEncoding ∉ seen
  exist : ∀ entry ∈ entries, entryExists t themeId entry = .ok true

variable {seen : List (List UInt8)} {canonical : List (List UInt8 × ThemeHeaderPoolEntry)}

theorem admissible_cons {entry : ThemeHeaderPoolEntry} {member : ThemePoolEntry} :
    Admissible t themeId seen (entry :: entries) (member :: members) ↔
      poolEntry entry = some member ∧ member.canonicalEncoding ∉ seen ∧
        entryExists t themeId entry = .ok true ∧
        Admissible t themeId (member.canonicalEncoding :: seen) entries members := by
  constructor
  · rintro ⟨hrepresents, hdistinct, hfresh, hexist⟩
    obtain ⟨_, _, heq, hentry, hrest⟩ := represents_cons.mp hrepresents
    obtain ⟨rfl, rfl⟩ := List.cons.inj heq
    obtain ⟨hnew, hdistinct⟩ := List.nodup_cons.mp hdistinct
    obtain ⟨hexist, hexists⟩ := List.forall_mem_cons.mp hexist
    refine ⟨hentry, hfresh member List.mem_cons_self, hexist, hrest, hdistinct, ?_, hexists⟩
    intro other hother hseen
    rcases List.mem_cons.mp hseen with heq | hseen
    · exact hnew (canonicalEncoding_inj heq ▸ hother)
    · exact hfresh other (List.mem_cons_of_mem _ hother) hseen
  · rintro ⟨hentry, hunseen, hexist, hrest⟩
    have hnew : member ∉ members := fun hmem ↦ hrest.fresh member hmem List.mem_cons_self
    refine ⟨represents_cons.mpr ⟨member, members, rfl, hentry, hrest.represents⟩,
      List.nodup_cons.mpr ⟨hnew, hrest.distinct⟩, ?_, List.forall_mem_cons.mpr ⟨hexist, hrest.exist⟩⟩
    refine List.forall_mem_cons.mpr ⟨hunseen, fun other hother hseen ↦ ?_⟩
    exact hrest.fresh other hother (List.mem_cons_of_mem _ hseen)

theorem checkEntries_eq_ok_iff : checkEntries t themeId seen entries = .ok canonical ↔
    (∃ members, Admissible t themeId seen entries members) ∧
      canonical = entries.map (fun entry ↦ (headerEntryEncoding entry, entry)) := by
  induction entries generalizing seen canonical with
  | nil =>
    have hempty : Admissible t themeId seen [] [] := ⟨rfl, List.nodup_nil, nofun, nofun⟩
    constructor
    · intro h
      exact ⟨⟨[], hempty⟩, (Except.ok.inj h).symm⟩
    · rintro ⟨-, rfl⟩
      rfl
  | cons entry entries ih =>
    simp only [checkEntries, bind_eq_ok, require_eq_ok, headerPoolEntryEncoding_eq_ok_iff, ih,
      pure_eq_ok]
    constructor
    · rintro ⟨_, ⟨member, hentry, rfl⟩, _, hunseen, _, hexist, _, hvalid, _,
        ⟨⟨members, hrest⟩, rfl⟩, rfl⟩
      rw [hvalid] at hexist
      refine ⟨⟨member :: members, admissible_cons.mpr ⟨hentry, hunseen, hexist, hrest⟩⟩, ?_⟩
      rw [List.map_cons, headerEntryEncoding_of_poolEntry hentry]
    · rintro ⟨⟨_, hadmissible⟩, rfl⟩
      obtain ⟨member, members, rfl, -, -⟩ := represents_cons.mp hadmissible.represents
      obtain ⟨hentry, hunseen, hexist, hrest⟩ := admissible_cons.mp hadmissible
      refine ⟨_, ⟨member, hentry, rfl⟩, (), hunseen, true, hexist, (), rfl, _,
        ⟨⟨members, hrest⟩, rfl⟩, ?_⟩
      rw [List.map_cons, headerEntryEncoding_of_poolEntry hentry]

end Check

section Storage

/-- Rows that the owner of a theme may store as its pool. -/
structure Storable (t : ImageTables) (owner : ThemeOwner) (themeId : ℤ)
    (entries : List ThemeHeaderPoolEntry) (members : List ThemePoolEntry) : Prop where
  nonempty : entries ≠ []
  represents : Represents entries members
  distinct : members.Nodup
  exist : ∀ entry ∈ entries, entryExists t themeId entry = .ok true
  mediaOwned : ∀ actor, authorUserId owner = some actor →
    ∀ entry ∈ entries, entry.mediaUserId = none ∨ entry.mediaUserId = some actor
  themeOwned : t.catalog.owns owner themeId = true

/-- The tables with the pool of a theme replaced. -/
def withPool (t : ImageTables) (themeId : ℤ) (entries : List ThemeHeaderPoolEntry) :
    ImageTables :=
  let t : ImageTables := { t with
    headerPool := t.headerPool.filter (fun row ↦ row.1 ≠ themeId) ++
      (withOrdinals (sortEntries entries)).map (fun entry ↦ (themeId, entry)) }
  t.rebind themeId

theorem sorted_snd : ((entries.map (fun entry ↦ (headerEntryEncoding entry, entry))).insertionSort
    (fun a b ↦ bytesLe a.1 b.1)).map Prod.snd = sortEntries entries := by
  have hsort : (sortEntries entries).map (fun entry ↦ (headerEntryEncoding entry, entry)) =
      (entries.map (fun entry ↦ (headerEntryEncoding entry, entry))).insertionSort
        (fun a b ↦ bytesLe a.1 b.1) := List.map_insertionSort _ _ _ _ fun _ _ _ _ ↦ Iff.rfl
  rw [← hsort, List.map_map]
  exact List.map_id' _

theorem mediaOwned_iff : ¬(entries = [] ∨ (authorUserId owner).isSome ∧ entries.any (fun entry ↦
    entry.mediaUserId ≠ authorUserId owner ∧ entry.mediaUserId.isSome)) ↔ entries ≠ [] ∧
      ∀ actor, authorUserId owner = some actor →
        ∀ entry ∈ entries, entry.mediaUserId = none ∨ entry.mediaUserId = some actor := by
  rw [not_or]
  refine and_congr_right fun _ ↦ ?_
  cases authorUserId owner with
  | none => exact ⟨fun _ _ h ↦ (nomatch h), fun _ h ↦ (nomatch h.1)⟩
  | some actor =>
    have hforeign : ∀ entry : ThemeHeaderPoolEntry,
        ¬(entry.mediaUserId ≠ some actor ∧ entry.mediaUserId.isSome = true) ↔
          entry.mediaUserId = none ∨ entry.mediaUserId = some actor := by
      intro entry
      cases entry.mediaUserId with
      | none => simp
      | some userId => simp
    simp only [Option.isSome_some, true_and, List.any_eq_true, decide_eq_true_eq, not_exists,
      not_and, Option.some.injEq, forall_eq']
    refine forall₂_congr fun entry _ ↦ ?_
    rw [← hforeign entry, not_and]

theorem replaceHeaderPool_eq_ok_iff : replaceHeaderPool t owner themeId entries = .ok t' ↔
    (∃ members, Storable t owner themeId entries members) ∧ t' = withPool t themeId entries := by
  simp only [replaceHeaderPool, bind_eq_ok, require_eq_ok, checkEntries_eq_ok_iff, pure_eq_ok,
    mediaOwned_iff]
  constructor
  · rintro ⟨_, ⟨hnonempty, hmedia⟩, _, howned, _, ⟨⟨members, hadmissible⟩, rfl⟩, rfl⟩
    refine ⟨⟨members, hnonempty, hadmissible.represents, hadmissible.distinct, hadmissible.exist,
      hmedia, howned⟩, ?_⟩
    rw [withPool, sorted_snd]
  · rintro ⟨⟨members, h⟩, rfl⟩
    refine ⟨(), ⟨h.nonempty, h.mediaOwned⟩, (), h.themeOwned, _,
      ⟨⟨members, h.represents, h.distinct, fun _ _ ↦ List.not_mem_nil, h.exist⟩, rfl⟩, ?_⟩
    rw [withPool, sorted_snd]

theorem pairwise_withOrdinals :
    (withOrdinals entries).Pairwise (fun a b ↦ a.ordinal ≤ b.ordinal) := by
  rw [List.pairwise_iff_getElem]
  intro i j hi hj hij
  simp only [withOrdinals, List.getElem_map, List.getElem_zipIdx]
  omega

/-- The pool is read back in the order of its encodings. -/
theorem headerPool_withPool (h : t.catalog.owns owner themeId = true) :
    headerPool (withPool t themeId entries) owner themeId = withOrdinals (sortEntries entries) := by
  have howned : (withPool t themeId entries).catalog.owns owner themeId = true := h
  have hother : (t.headerPool.filter (fun row ↦ row.1 ≠ themeId)).filter (fun row ↦ row.1 = themeId) =
      [] := by
    refine List.filter_eq_nil_iff.mpr fun row hrow ↦ ?_
    rw [decide_eq_true_eq]
    exact of_decide_eq_true (List.mem_filter.mp hrow).2
  have hown : ∀ rows : List ThemeHeaderPoolEntry,
      ((rows.map (fun entry ↦ (themeId, entry))).filter (fun row ↦ row.1 = themeId)).map Prod.snd =
        rows := by
    intro rows
    rw [List.filter_eq_self.mpr, List.map_map]
    · exact List.map_id' rows
    · intro row hrow
      obtain ⟨entry, -, rfl⟩ := List.mem_map.mp hrow
      exact decide_eq_true rfl
  rw [headerPool, if_pos howned, withPool, ImageTables.rebind, List.filter_append, hother,
    List.nil_append, hown]
  exact List.Pairwise.insertionSort_eq pairwise_withOrdinals

/-- What is read back stands for the entries of the pool that the common crate makes. -/
theorem headerPool_represents {pool : ThemeHeaderPool} (h : Storable t owner themeId entries members)
    (hpool : ThemeHeaderPool.new sha256 members = .ok pool) :
    Represents (headerPool (withPool t themeId entries) owner themeId) pool.entries := by
  rw [headerPool_withPool h.themeOwned, (new_eq_ok_iff.mp hpool).2.2.1]
  exact h.represents.sort.ordinals

theorem Storable.exists_pool (h : Storable t owner themeId entries members) :
    ∃ pool, ThemeHeaderPool.new sha256 members = .ok pool := by
  have hnonempty : members ≠ [] := by
    rintro rfl
    exact h.nonempty (List.length_eq_zero_iff.mp h.represents.length_eq)
  exact ⟨⟨_, _, insertionSort_ne_nil hnonempty⟩,
    new_eq_ok_iff.mpr ⟨hnonempty, h.distinct, rfl, rfl⟩⟩

theorem mem_of_mem_entries {pool : ThemeHeaderPool}
    (h : ThemeHeaderPool.new sha256 members = .ok pool) : ∀ member ∈ pool.entries, member ∈ members := by
  intro member hmember
  rw [(new_eq_ok_iff.mp h).2.2.1] at hmember
  exact (List.mem_insertionSort encodingLe).mp hmember

/-- A canonical pool is made of its own entries again. -/
theorem new_entries {pool : ThemeHeaderPool} (h : ThemeHeaderPool.new sha256 members = .ok pool) :
    ThemeHeaderPool.new sha256 pool.entries = .ok pool := by
  have hperm : pool.entries.Perm members := by
    rw [(new_eq_ok_iff.mp h).2.2.1]
    exact List.perm_insertionSort _ _
  rw [new_perm hperm, h]

end Storage

section Manager

variable {inputs inputs' : List ThemePoolInput} {shuffleSeed : List UInt8} {pool : ThemeHeaderPool}
  {rows : List ThemeHeaderPoolEntry} {role : ThemeImageRole} {binding : ThemeRoleBinding}

theorem poolEntry_entry (input : ThemePoolInput) :
    poolEntry (input.entry actor) = some input.canonical := by
  cases input with
  | packageAsset path => rfl
  | media reference => rfl

theorem represents_inputs :
    Represents (inputs.map (ThemePoolInput.entry actor)) (inputs.map ThemePoolInput.canonical) := by
  rw [Represents, List.map_map, List.map_map]
  exact List.map_congr_left fun input _ ↦ poolEntry_entry input

theorem entry_inj {a b : ThemePoolInput}
    (h : headerEntryEncoding (a.entry actor) = headerEntryEncoding (b.entry actor)) :
    a.entry actor = b.entry actor := by
  rw [headerEntryEncoding_of_poolEntry (poolEntry_entry a),
    headerEntryEncoding_of_poolEntry (poolEntry_entry b)] at h
  have hcanonical := canonicalEncoding_inj h
  cases a with
  | packageAsset path =>
    cases b with
    | packageAsset path' =>
      obtain rfl := ThemePoolEntry.package.inj hcanonical
      rfl
    | media reference' => cases hcanonical
  | media reference =>
    cases b with
    | packageAsset path' => cases hcanonical
    | media reference' =>
      obtain ⟨hsource, hdigest, hfilename⟩ := ThemePoolEntry.media.inj hcanonical
      rw [ThemePoolInput.entry, ThemePoolInput.entry, hsource, hdigest, hfilename]

/-- Entries with one encoding are one entry, so their sorted list is one list. -/
theorem sortEntries_perm (h : inputs.Perm inputs') :
    sortEntries (inputs.map (ThemePoolInput.entry actor)) =
      sortEntries (inputs'.map (ThemePoolInput.entry actor)) := by
  have hperm := (List.perm_insertionSort encodingsLe (inputs.map (ThemePoolInput.entry actor))).trans
    ((h.map _).trans
      (List.perm_insertionSort encodingsLe (inputs'.map (ThemePoolInput.entry actor))).symm)
  refine List.Perm.eq_of_pairwise (fun a b ha hb hab hba ↦ ?_) (List.pairwise_insertionSort _ _)
    (List.pairwise_insertionSort _ _) hperm
  obtain ⟨i, -, rfl⟩ := List.mem_map.mp ((List.mem_insertionSort encodingsLe).mp ha)
  obtain ⟨j, -, rfl⟩ := List.mem_map.mp ((List.mem_insertionSort encodingsLe).mp hb)
  exact entry_inj (bytesLe_antisymm hab hba)

theorem pool_eq_ok_iff : HeaderPools.pool sha256 actor inputs = .ok (pool, rows) ↔
    ThemeHeaderPool.new sha256 (inputs.map ThemePoolInput.canonical) = .ok pool ∧
      rows = withOrdinals (sortEntries (inputs.map (ThemePoolInput.entry actor))) := by
  simp only [HeaderPools.pool, bind_eq_ok, pure_eq_ok]
  constructor
  · rintro ⟨pool', hpool, heq⟩
    obtain ⟨rfl, rfl⟩ := Prod.mk.inj heq
    exact ⟨hpool, rfl⟩
  · rintro ⟨hpool, rfl⟩
    exact ⟨pool, hpool, rfl⟩

theorem represents_pool (h : HeaderPools.pool sha256 actor inputs = .ok (pool, rows)) :
    Represents rows pool.entries := by
  obtain ⟨hpool, rfl⟩ := pool_eq_ok_iff.mp h
  rw [(new_eq_ok_iff.mp hpool).2.2.1]
  exact represents_inputs.sort.ordinals

def withBinding (t : ImageTables) (themeId : ℤ) (role : ThemeImageRole) (binding : ThemeRoleBinding) :
    ImageTables :=
  let t : ImageTables := { t with
    headerPool := if role = .header ∧ binding.isHeaderPool = false then
      t.headerPool.filter (fun row ↦ row.1 ≠ themeId) else t.headerPool
    roleBindings := t.roleBindings.insert (themeId, role) binding }
  t.rebind themeId

theorem replaceRoleBinding_eq_ok_iff :
    replaceRoleBinding t owner themeId role binding = .ok t' ↔
      bindingOwned owner binding = true ∧ t.catalog.owns owner themeId = true ∧
        bindingExists t themeId binding = true ∧ t' = withBinding t themeId role binding := by
  simp only [replaceRoleBinding, bind_eq_ok, require_eq_ok, pure_eq_ok]
  constructor
  · rintro ⟨_, hbinding, _, howned, _, hexists, rfl⟩
    exact ⟨hbinding, howned, hexists, rfl⟩
  · rintro ⟨hbinding, howned, hexists, rfl⟩
    exact ⟨(), hbinding, (), howned, (), hexists, rfl⟩

theorem roleBinding_withBinding (h : t.catalog.owns owner themeId = true) :
    roleBinding (withBinding t themeId role binding) owner themeId role = some binding := by
  have howned : (withBinding t themeId role binding).catalog.owns owner themeId = true := h
  rw [roleBinding, if_pos howned]
  exact Finmap.lookup_insert _

theorem headerPool_withBinding (h : binding.isHeaderPool = true) :
    headerPool (withBinding t themeId role binding) owner themeId = headerPool t owner themeId := by
  have hkept : ¬(role = .header ∧ binding.isHeaderPool = false) := by
    rintro ⟨-, hnot⟩
    rw [h] at hnot
    cases hnot
  simp only [withBinding, if_neg hkept]
  rfl

theorem requireAuthorActor_eq_ok {u : Unit} : requireAuthorActor actor owner = .ok u ↔
    (authorUserId owner).all (· = actor) = true := require_eq_ok

/-- What the manager stores: the rows of its pool and then a binding with their revision. -/
theorem replacePool_eq_ok_iff :
    replacePool sha256 t actor owner themeId inputs shuffleSeed = .ok t' ↔
      (authorUserId owner).all (· = actor) = true ∧ ∃ pool rows,
        HeaderPools.pool sha256 actor inputs = .ok (pool, rows) ∧
          Storable t owner themeId rows pool.entries ∧
          t' = withBinding (withPool t themeId rows) themeId .header
            (.headerPool pool.revision shuffleSeed) := by
  simp only [replacePool, bind_eq_ok, mapError_eq_ok, requireAuthorActor_eq_ok,
    replaceHeaderPool_eq_ok_iff, replaceRoleBinding_eq_ok_iff]
  constructor
  · rintro ⟨_, hactor, ⟨pool, rows⟩, hpool, _, ⟨⟨members, hstorable⟩, rfl⟩, -, -, -, rfl⟩
    have hmembers : members = pool.entries := by
      have hmap : members.map some = pool.entries.map some :=
        hstorable.represents.symm.trans (represents_pool hpool)
      exact List.map_injective_iff.mpr (Option.some_injective _) hmap
    exact ⟨hactor, pool, rows, hpool, hmembers ▸ hstorable, rfl⟩
  · rintro ⟨hactor, pool, rows, hpool, hstorable, rfl⟩
    exact ⟨(), hactor, (pool, rows), hpool, _, ⟨⟨_, hstorable⟩, rfl⟩, rfl, hstorable.themeOwned,
      rfl, rfl⟩

/-- The tables that the manager leaves do not depend on the order of its inputs. -/
theorem replacePool_perm (h : inputs.Perm inputs') :
    replacePool sha256 t actor owner themeId inputs shuffleSeed =
      replacePool sha256 t actor owner themeId inputs' shuffleSeed := by
  have hpool : HeaderPools.pool sha256 actor inputs = HeaderPools.pool sha256 actor inputs' := by
    have hrows : sortEntries (inputs.map (ThemePoolInput.entry actor)) =
        sortEntries (inputs'.map (ThemePoolInput.entry actor)) := sortEntries_perm h
    unfold HeaderPools.pool
    rw [new_perm (h.map ThemePoolInput.canonical)]
    exact congrArg _ (funext fun pool ↦ congrArg (fun rows ↦ Except.ok (pool, withOrdinals rows)) hrows)
  rw [replacePool, replacePool, hpool]

end Manager

section Public

variable {inputs : List ThemePoolInput} {shuffleSeed : List UInt8} {pool : ThemeHeaderPool}
  {rows : List ThemeHeaderPoolEntry} {role : ThemeImageRole} {assets : List ThemePackageAsset}
  {revision : ContentHash} {route : Text} {defaults : Option (List Text)}

theorem compose_value {s : String} (h : len s ≤ maxFilenameEncodedBytes) :
    (Text.compose s).value = s := by
  have hbytes : s.toUTF8.data.toList = utf8 s.toList := by
    have hofList : ∀ l : List Char, (String.ofList l).toUTF8.data.toList = utf8 l := by
      intro l
      change (String.ofList l).toByteArray.data.toList = utf8 l
      rw [String.toByteArray_ofList, List.utf8Encode]
      simp [utf8]
    rw [← hofList s.toList, String.ofList_toList]
  have hfits : s.toUTF8.data.toList.length < 2 ^ 63 := by
    rw [hbytes]
    exact h.trans_lt (by decide)
  rw [Text.compose, dif_pos hfits]

/-- A medium that the manager names has a URL. -/
theorem mediaUrlParts_input (reference : MediaRef) :
    mediaUrlParts (Text.compose reference.source.asRef).value reference.sha256
      (Text.compose reference.filename.value).value =
        some (mediaUrl reference.source reference.sha256 reference.filename) := by
  have hsource : (Text.compose reference.source.asRef).value = reference.source.asRef := by
    cases reference.source <;> rfl
  rw [hsource, compose_value reference.filename.spelling.short, mediaUrlParts,
    MediaSource.fromStr_asRef, fromStr_eq_ok_iff.mpr rfl]
  rfl

theorem packageUrl_eq_none {path : Text} :
    packageUrl assets path = none ↔ ∀ asset ∈ assets, asset.path ≠ path := by
  rw [packageUrl, Option.map_eq_none_iff, List.find?_eq_none]
  exact forall₂_congr fun asset _ ↦ not_congr decide_eq_true_iff

/-- A member of the manager's pool has no image where it is a package path without an asset. -/
theorem resolvePoolEntry_eq_none {member : ThemePoolEntry}
    (h : member ∈ inputs.map ThemePoolInput.canonical) :
    resolvePoolEntry assets member = none ↔
      ∃ path, member = .package path ∧ ∀ asset ∈ assets, asset.path ≠ path := by
  obtain ⟨input, -, rfl⟩ := List.mem_map.mp h
  cases input with
  | packageAsset path =>
    rw [ThemePoolInput.canonical, resolvePoolEntry, packageUrl_eq_none]
    constructor
    · exact fun hnone ↦ ⟨path, rfl, hnone⟩
    · rintro ⟨path', heq, hnone⟩
      rwa [ThemePoolEntry.package.inj heq]
  | media reference =>
    rw [ThemePoolInput.canonical, resolvePoolEntry, mediaUrlParts_input]
    exact ⟨fun hnone ↦ (nomatch hnone), fun ⟨_, heq, _⟩ ↦ (nomatch heq)⟩

theorem select_mem : pool.select sha256 route revision shuffleSeed ∈ pool.entries :=
  List.get_mem _ _

/-- The page finds the pool whose rows it reads. -/
theorem resolveRole_headerPool (hrows : Represents rows pool.entries)
    (hpool : ThemeHeaderPool.new sha256 pool.entries = .ok pool) :
    resolveRole sha256 assets revision route role (some (.headerPool pool.revision shuffleSeed))
      (some rows) defaults =
        resolvePoolEntry assets (pool.select sha256 route revision shuffleSeed) := by
  have hmapM := hrows.mapM_eq
  simp only [resolveRole, Option.bind_eq_bind, Option.bind_some, hmapM, hpool, Except.toOption]
  rw [if_neg (not_not.mpr rfl)]

theorem roleIsInvalid_headerPool {url : Option String} :
    roleIsInvalid (some (.headerPool revision shuffleSeed)) url = true ↔ url = none := by
  cases url with
  | none => exact iff_of_true rfl rfl
  | some url => exact iff_of_false nofun nofun

/-- After the manager's write the page shows the selected entry of the pool. -/
theorem roleUrl_replacePool
    (h : replacePool sha256 t actor owner themeId inputs shuffleSeed = .ok t') :
    ∃ pool, ThemeHeaderPool.new sha256 (inputs.map ThemePoolInput.canonical) = .ok pool ∧
      roleBinding t' owner themeId .header = some (.headerPool pool.revision shuffleSeed) ∧
      Represents (headerPool t' owner themeId) pool.entries ∧
      ∀ assets revision route defaults,
        roleUrl sha256 assets revision route t' owner themeId .header defaults =
          resolvePoolEntry assets (pool.select sha256 route revision shuffleSeed) := by
  obtain ⟨-, pool, rows, hpool, hstorable, rfl⟩ := replacePool_eq_ok_iff.mp h
  have hnew := (pool_eq_ok_iff.mp hpool).1
  have howned : (withPool t themeId rows).catalog.owns owner themeId = true := hstorable.themeOwned
  have hbinding : roleBinding (withBinding (withPool t themeId rows) themeId .header
      (.headerPool pool.revision shuffleSeed)) owner themeId .header =
        some (.headerPool pool.revision shuffleSeed) := roleBinding_withBinding howned
  have hrows : Represents (headerPool (withPool t themeId rows) owner themeId) pool.entries :=
    headerPool_represents hstorable (new_entries hnew)
  refine ⟨pool, hnew, hbinding, ?_, fun assets revision route defaults ↦ ?_⟩
  · rwa [headerPool_withBinding rfl]
  rw [roleUrl, hbinding, headerPool_withBinding rfl]
  exact resolveRole_headerPool hrows (new_entries hnew)

/-- The page rejects such a pool where the selected entry is a path without an asset. -/
theorem rejects_replacePool (hmembers : ∀ member ∈ pool.entries,
      member ∈ inputs.map ThemePoolInput.canonical)
    (hbinding : roleBinding t owner themeId .header = some (.headerPool pool.revision shuffleSeed))
    (hurl : roleUrl sha256 assets revision route t owner themeId .header defaults =
      resolvePoolEntry assets (pool.select sha256 route revision shuffleSeed)) :
    rejects sha256 assets revision route t owner themeId .header defaults = true ↔
      ∃ path, pool.select sha256 route revision shuffleSeed = .package path ∧
        ∀ asset ∈ assets, asset.path ≠ path := by
  rw [rejects, hbinding, roleIsInvalid_headerPool, hurl]
  exact resolvePoolEntry_eq_none (hmembers _ select_mem)

theorem rejects_replaceBinding {input : ThemeRoleInput}
    (h : replaceBinding t actor owner themeId role input = .ok t') :
    rejects sha256 assets revision route t' owner themeId role defaults = true ↔
      ∃ path, input = .packageAsset path ∧ ∀ asset ∈ assets, asset.path ≠ path := by
  simp only [replaceBinding, bind_eq_ok, mapError_eq_ok, replaceRoleBinding_eq_ok_iff] at h
  obtain ⟨-, -, -, howned, -, rfl⟩ := h
  have hbinding : roleBinding (withBinding t themeId role (input.binding actor)) owner themeId role =
      some (input.binding actor) := roleBinding_withBinding howned
  rw [rejects, roleUrl, hbinding]
  cases input with
  | packagedDefault => exact iff_of_false nofun fun ⟨_, h, _⟩ ↦ (nomatch h)
  | explicitAbsent => exact iff_of_false nofun fun ⟨_, h, _⟩ ↦ (nomatch h)
  | media reference => exact iff_of_false nofun fun ⟨_, h, _⟩ ↦ (nomatch h)
  | packageAsset path =>
    have hnone : roleIsInvalid (some (.packageAsset path)) (packageUrl assets path) = true ↔
        packageUrl assets path = none := by
      cases packageUrl assets path with
      | none => exact iff_of_true rfl rfl
      | some url => exact iff_of_false nofun nofun
    refine hnone.trans (packageUrl_eq_none.trans ⟨fun h ↦ ⟨path, rfl, h⟩, ?_⟩)
    rintro ⟨path', heq, h⟩
    rwa [ThemeRoleInput.packageAsset.inj heq]

end Public

section Publication

variable {catalog catalog' : ThemeTables} {admission : ThemePublicationAdmission}

/-- A newly admitted revision has an asset for each path that its theme names. -/
theorem admitPublication_bound (h : admitPublication catalog admission = .ok catalog')
    (hnew : ∀ row, catalog.themes.lookup admission.revision.themeId = some row →
      row.currentRevision ≠ some admission.revision.digest) :
    ∀ b ∈ catalog.boundPaths, b.themeId = admission.revision.themeId →
      ∃ asset ∈ admission.assets, asset.path = b.path := by
  intro b hb hid
  simp only [admitPublication, bind_eq_ok, orError_eq_ok] at h
  obtain ⟨-, -, row, hrow, -, -, h⟩ := h
  rw [if_neg (hnew row hrow)] at h
  simp only [bind_eq_ok, require_eq_ok] at h
  obtain ⟨-, hbound, -⟩ := h
  have hnamed := List.all_eq_true.mp hbound b (List.mem_filter.mpr ⟨hb, decide_eq_true hid⟩)
  obtain ⟨asset, hasset, hpath⟩ := List.any_eq_true.mp hnamed
  exact ⟨asset, hasset, of_decide_eq_true hpath⟩

/-- The catalog has the path of a binding and of each row of a pool. -/
theorem mem_boundPaths_withBinding {role : ThemeImageRole} {binding : ThemeRoleBinding} {path : Text}
    (h : path ∈ boundPaths (withBinding t themeId role binding) themeId) :
    ⟨themeId, path⟩ ∈ (withBinding t themeId role binding).catalog.boundPaths :=
  List.mem_append_right _ (List.mem_map.mpr ⟨path, h, rfl⟩)

theorem mem_boundPaths_of_row {entry : ThemeHeaderPoolEntry} {path : Text}
    (h : entry ∈ headerPool t owner themeId) (hpath : entry.packagePath = some path) :
    path ∈ boundPaths t themeId := by
  unfold headerPool at h
  split_ifs at h with howned
  · obtain ⟨row, hrow, rfl⟩ := List.mem_map.mp ((List.mem_insertionSort _).mp h)
    exact List.mem_append_left _ (List.mem_filterMap.mpr ⟨row, hrow, hpath⟩)
  · cases h

theorem mem_boundPaths_of_binding {role : ThemeImageRole} {path : Text}
    (h : t.roleBindings.lookup (themeId, role) = some (.packageAsset path)) :
    path ∈ boundPaths t themeId := by
  refine List.mem_append_right _ (List.mem_filterMap.mpr ⟨role, ?_, ?_⟩)
  · cases role with
    | logo => exact List.mem_cons_self
    | header => exact List.mem_cons_of_mem _ List.mem_cons_self
  · rw [h]
    rfl

theorem Represents.exists_row {member : ThemePoolEntry} (h : Represents entries members)
    (hmember : member ∈ members) : ∃ entry ∈ entries, poolEntry entry = some member :=
  List.mem_map.mp (h ▸ List.mem_map_of_mem hmember)

theorem packagePath_of_poolEntry {entry : ThemeHeaderPoolEntry} {path : Text}
    (h : poolEntry entry = some (.package path)) : entry.packagePath = some path := by
  unfold poolEntry at h
  split at h
  · next hpath _ _ _ _ => rw [hpath, ThemePoolEntry.package.inj (Option.some.inj h)]
  · cases h
  · cases h

variable {inputs : List ThemePoolInput} {shuffleSeed : List UInt8} {role : ThemeImageRole}
  {revision : ContentHash} {route : Text} {defaults : Option (List Text)}

/-- The paths of a theme that the manager wrote are still those of the catalog. -/
def KeepsPaths (t : ImageTables) (catalog : ThemeTables) (themeId : ℤ) : Prop :=
  ∀ b ∈ t.catalog.boundPaths, b.themeId = themeId → b ∈ catalog.boundPaths

/-- A revision that is not the current one becomes it. -/
structure Publishes (catalog : ThemeTables) (admission : ThemePublicationAdmission) (themeId : ℤ) :
    Prop where
  theme : admission.revision.themeId = themeId
  new : ∀ row, catalog.themes.lookup themeId = some row →
    row.currentRevision ≠ some admission.revision.digest
  admitted : ∃ catalog', admitPublication catalog admission = .ok catalog'

theorem Publishes.asset {path : Text} (h : Publishes catalog admission themeId)
    (hkeeps : KeepsPaths t catalog themeId) (hpath : ⟨themeId, path⟩ ∈ t.catalog.boundPaths) :
    ¬∀ asset ∈ admission.assets, asset.path ≠ path := by
  obtain ⟨rfl, hnew, catalog', hadmitted⟩ := h
  obtain ⟨asset, hasset, heq⟩ := admitPublication_bound hadmitted hnew _ (hkeeps _ hpath rfl) rfl
  exact fun hnone ↦ hnone asset hasset heq

theorem publishes_replacePool
    (h : replacePool sha256 t actor owner themeId inputs shuffleSeed = .ok t')
    (hkeeps : KeepsPaths t' catalog themeId) (hpublishes : Publishes catalog admission themeId) :
    rejects sha256 admission.assets revision route t' owner themeId .header defaults = false := by
  obtain ⟨pool, hnew, hbinding, hrows, hurl⟩ := roleUrl_replacePool h
  refine eq_false_of_ne_true fun hrejects ↦ ?_
  obtain ⟨path, hselect, hnone⟩ :=
    (rejects_replacePool (mem_of_mem_entries hnew) hbinding (hurl _ _ _ _)).mp hrejects
  obtain ⟨entry, hentry, hmember⟩ := hrows.exists_row (hselect ▸ select_mem)
  have hpath := mem_boundPaths_of_row hentry (packagePath_of_poolEntry hmember)
  obtain ⟨-, _, _, -, -, rfl⟩ := replacePool_eq_ok_iff.mp h
  exact hpublishes.asset hkeeps (mem_boundPaths_withBinding hpath) hnone

theorem publishes_replaceBinding {input : ThemeRoleInput}
    (h : replaceBinding t actor owner themeId role input = .ok t')
    (hkeeps : KeepsPaths t' catalog themeId) (hpublishes : Publishes catalog admission themeId) :
    rejects sha256 admission.assets revision route t' owner themeId role defaults = false := by
  refine eq_false_of_ne_true fun hrejects ↦ ?_
  obtain ⟨path, rfl, hnone⟩ := (rejects_replaceBinding h).mp hrejects
  simp only [replaceBinding, bind_eq_ok, mapError_eq_ok, replaceRoleBinding_eq_ok_iff] at h
  obtain ⟨-, -, -, -, -, rfl⟩ := h
  have hlookup : (withBinding t themeId role (.packageAsset path)).roleBindings.lookup (themeId, role) =
      some (.packageAsset path) := Finmap.lookup_insert _
  have hpath := mem_boundPaths_of_binding hlookup
  exact hpublishes.asset hkeeps (mem_boundPaths_withBinding hpath) hnone

end Publication

/-- The storage crate, the common crate and the public page agree about header pools. -/
theorem header_pools_agree (sha256 : List UInt8 → ContentHash) :
    (∀ entry, headerPoolEntryEncoding entry =
      orError ((poolEntry entry).map ThemePoolEntry.canonicalEncoding) .rowNotFound) ∧
    (∀ a b : ThemePoolEntry, a.canonicalEncoding = b.canonicalEncoding → a = b) ∧
    (∀ t owner themeId entries members, Storable t owner themeId entries members →
      ∃ t' pool, replaceHeaderPool t owner themeId entries = .ok t' ∧
        ThemeHeaderPool.new sha256 members = .ok pool ∧
        headerPool t' owner themeId = withOrdinals (sortEntries entries) ∧
        (headerPool t' owner themeId).mapM poolEntry = some pool.entries ∧
        ThemeHeaderPool.new sha256 pool.entries = .ok pool) ∧
    (∀ t actor owner themeId inputs shuffleSeed t',
      replacePool sha256 t actor owner themeId inputs shuffleSeed = .ok t' →
      ∃ pool, ThemeHeaderPool.new sha256 (inputs.map ThemePoolInput.canonical) = .ok pool ∧
        roleBinding t' owner themeId .header = some (.headerPool pool.revision shuffleSeed) ∧
        (headerPool t' owner themeId).mapM poolEntry = some pool.entries ∧
        ∀ assets revision route defaults,
          roleUrl sha256 assets revision route t' owner themeId .header defaults =
            resolvePoolEntry assets (pool.select sha256 route revision shuffleSeed) ∧
          (rejects sha256 assets revision route t' owner themeId .header defaults = true ↔
            ∃ path, pool.select sha256 route revision shuffleSeed = .package path ∧
              ∀ asset ∈ assets, asset.path ≠ path)) ∧
    (∀ t actor owner themeId role input t', replaceBinding t actor owner themeId role input = .ok t' →
      ∀ assets revision route defaults,
        rejects sha256 assets revision route t' owner themeId role defaults = true ↔
          ∃ path, input = .packageAsset path ∧ ∀ asset ∈ assets, asset.path ≠ path) ∧
    (∀ t actor owner themeId inputs shuffleSeed catalog admission t',
      replacePool sha256 t actor owner themeId inputs shuffleSeed = .ok t' →
      KeepsPaths t' catalog themeId → Publishes catalog admission themeId →
      ∀ revision route defaults,
        rejects sha256 admission.assets revision route t' owner themeId .header defaults = false) ∧
    (∀ t actor owner themeId role input catalog admission t',
      replaceBinding t actor owner themeId role input = .ok t' →
      KeepsPaths t' catalog themeId → Publishes catalog admission themeId →
      ∀ revision route defaults,
        rejects sha256 admission.assets revision route t' owner themeId role defaults = false) ∧
    (∀ t actor owner themeId inputs inputs' shuffleSeed, inputs.Perm inputs' →
      replacePool sha256 t actor owner themeId inputs shuffleSeed =
        replacePool sha256 t actor owner themeId inputs' shuffleSeed) := by
  refine ⟨headerPoolEntryEncoding_eq, fun _ _ ↦ canonicalEncoding_inj, ?_, ?_, ?_, ?_, ?_, ?_⟩
  · intro t owner themeId entries members hstorable
    have hpool : ∃ pool, ThemeHeaderPool.new sha256 members = .ok pool := hstorable.exists_pool
    obtain ⟨pool, hpool⟩ := hpool
    exact ⟨_, pool, replaceHeaderPool_eq_ok_iff.mpr ⟨⟨members, hstorable⟩, rfl⟩, hpool,
      headerPool_withPool hstorable.themeOwned, (headerPool_represents hstorable hpool).mapM_eq,
      new_entries hpool⟩
  · intro t actor owner themeId inputs shuffleSeed t' h
    obtain ⟨pool, hnew, hbinding, hrows, hurl⟩ := roleUrl_replacePool h
    exact ⟨pool, hnew, hbinding, hrows.mapM_eq, fun assets revision route defaults ↦
      ⟨hurl _ _ _ _, rejects_replacePool (mem_of_mem_entries hnew) hbinding (hurl _ _ _ _)⟩⟩
  · exact fun _ _ _ _ _ _ _ h _ _ _ _ ↦ rejects_replaceBinding h
  · exact fun _ _ _ _ _ _ _ _ _ h hkeeps hpublishes _ _ _ ↦
      publishes_replacePool h hkeeps hpublishes
  · exact fun _ _ _ _ _ _ _ _ _ h hkeeps hpublishes _ _ _ ↦
      publishes_replaceBinding h hkeeps hpublishes
  · exact fun _ _ _ _ _ _ _ h ↦ replacePool_perm h

def firstImage : Text := ⟨"a.png", by decide⟩

def secondImage : Text := ⟨"b.png", by decide⟩

/-- A published theme without images, in whose draft there are now two. -/
def draftedImages : ImageTables where
  catalog := { ThemeTables.empty with
    themes := Finmap.singleton 1 ⟨.author 1, "Mine", "mine", some (.replicate 1)⟩
    drafts := Finmap.singleton 1 ⟨1, .collect [], .collect [], .replicate 2,
      [⟨firstImage, "image/png", .collect [], .replicate 3⟩,
        ⟨secondImage, "image/png", .collect [], .replicate 4⟩]⟩
    revisions := [⟨⟨1, .replicate 1, .replicate 5, .collect []⟩, []⟩] }
  media := []
  headerPool := []
  roleBindings := ∅

theorem drafted_pool_agrees : ∃ t' pool,
    replaceHeaderPool draftedImages (.author 1) 1
      [⟨0, some secondImage, none, none, none, none⟩, ⟨0, some firstImage, none, none, none, none⟩] =
        .ok t' ∧
      ThemeHeaderPool.new (fun _ ↦ .replicate 0) [.package secondImage, .package firstImage] =
        .ok pool ∧
      (headerPool t' (.author 1) 1).mapM poolEntry = some pool.entries := by
  have hstorable : Storable draftedImages (.author 1) 1
      [⟨0, some secondImage, none, none, none, none⟩, ⟨0, some firstImage, none, none, none, none⟩]
      [.package secondImage, .package firstImage] :=
    { nonempty := nofun
      represents := rfl
      distinct := by decide
      exist := List.forall_iff_forall_mem.mp (by decide)
      mediaOwned := fun _ _ ↦ List.forall_iff_forall_mem.mp ⟨.inl rfl, .inl rfl⟩
      themeOwned := by decide }
  obtain ⟨t', pool, hstored, hpool, -, hread, -⟩ :=
    (header_pools_agree (fun _ ↦ .replicate 0)).2.2.1 _ _ _ _ _ hstorable
  exact ⟨t', pool, hstored, hpool, hread⟩

/-- The manager binds an image of the draft, and the published revision has no such asset. Two rows
that only differ in their user have one encoding. -/
theorem draft_image_rejected :
    (∃ t', replaceBinding draftedImages 1 (.author 1) 1 .header (.packageAsset firstImage) = .ok t' ∧
      ∃ r ∈ t'.catalog.revisions,
        rejects (fun _ ↦ .replicate 0) r.assets r.revision.digest (.compose "/") t' (.author 1) 1
          .header none = true) ∧
    headerPoolEntryEncoding ⟨0, none, some 1, some firstImage, some (.replicate 0), some firstImage⟩ =
      headerPoolEntryEncoding
        ⟨0, none, some 2, some firstImage, some (.replicate 0), some firstImage⟩ := by
  refine ⟨⟨withBinding draftedImages 1 .header (.packageAsset firstImage), ?_, _, List.mem_cons_self, ?_⟩,
    rfl⟩
  · have hreplaced : replaceRoleBinding draftedImages (.author 1) 1 .header
        (.packageAsset firstImage) =
          .ok (withBinding draftedImages 1 .header (.packageAsset firstImage)) :=
      replaceRoleBinding_eq_ok_iff.mpr ⟨rfl, by decide, by decide, rfl⟩
    rw [replaceBinding, requireAuthorActor, require_pos (by decide), ThemeRoleInput.binding, hreplaced]
    rfl
  · have hbinding : roleBinding (withBinding draftedImages 1 .header (.packageAsset firstImage))
        (.author 1) 1 .header = some (.packageAsset firstImage) := roleBinding_withBinding (by decide)
    rw [rejects, roleUrl, hbinding]
    rfl

end Jaunder.Storage.HeaderPoolAgreement
