import Jaunder.Elisp.PostInventory

namespace Jaunder.Elisp.InventoryPartition

open Foundation.Components Relation
open Jaunder.Elisp.PostInventory

variable {locals locals' : List InventoryLocal} {members members' : List InventoryMember}
  {groups groups' : List (List InventoryNode)} {l : InventoryLocal} {m : InventoryMember}
  {node : InventoryNode}

def conflictNodes (c : InventoryConflict) : List InventoryNode :=
  c.locals.map .local ++ c.members.map .member

/-- A local file and a Member that have no other counterpart by ID. -/
structure Counterparts (locals : List InventoryLocal) (members : List InventoryMember)
    (l : InventoryLocal) (m : InventoryMember) : Prop where
  local_mem : l ∈ locals
  member_mem : m ∈ members
  same_id : l.postId = some m.id
  only_local : ∀ l' ∈ locals, l'.postId = some m.id → l' = l
  only_member : ∀ m' ∈ members, l.postId = some m'.id → m' = m

structure Partitioned (locals : List InventoryLocal) (members : List InventoryMember)
    (inv : Inventory) : Prop where
  locals_once : (inv.localDrafts ++ inv.matched.map InventoryMatch.local ++ inv.orphans ++
    inv.conflicts.flatMap InventoryConflict.locals).Perm locals
  members_once : (inv.serverOnly ++ inv.matched.map InventoryMatch.member ++
    inv.conflicts.flatMap InventoryConflict.members).Perm members
  matched_iff : ∀ l m, ⟨l, m⟩ ∈ inv.matched ↔ Counterparts locals members l m ∧
    ∀ c ∈ inv.conflicts, .local l ∉ conflictNodes c ∧ .member m ∉ conflictNodes c
  conflict_class : ∀ c ∈ inv.conflicts, ∃ n, Conflicting locals members n ∧
    ∀ node, node ∈ conflictNodes c ↔ EqvGen (Related locals members) n node
  conflicting_grouped : ∀ n, Conflicting locals members n → ∃ c ∈ inv.conflicts, n ∈ conflictNodes c

/-- The same results as sets. -/
structure SameSets (inv inv' : Inventory) : Prop where
  localDrafts : ∀ l, l ∈ inv.localDrafts ↔ l ∈ inv'.localDrafts
  serverOnly : ∀ m, m ∈ inv.serverOnly ↔ m ∈ inv'.serverOnly
  matched : ∀ pair, pair ∈ inv.matched ↔ pair ∈ inv'.matched
  orphans : ∀ l, l ∈ inv.orphans ↔ l ∈ inv'.orphans
  conflicts : ∀ c ∈ inv.conflicts, ∃ c' ∈ inv'.conflicts, c'.kinds = c.kinds ∧
    (∀ l, l ∈ c'.locals ↔ l ∈ c.locals) ∧ ∀ m, m ∈ c'.members ↔ m ∈ c.members
  conflicts' : ∀ c ∈ inv'.conflicts, ∃ c' ∈ inv.conflicts, c'.kinds = c.kinds ∧
    (∀ l, l ∈ c'.locals ↔ l ∈ c.locals) ∧ ∀ m, m ∈ c'.members ↔ m ∈ c.members

section Groups

/-- What the searches find. -/
structure Classes (locals : List InventoryLocal) (members : List InventoryMember)
    (groups : List (List InventoryNode)) : Prop where
  nodup : ∀ g ∈ groups, g.Nodup
  disjoint : groups.Pairwise List.Disjoint
  class_of : ∀ g ∈ groups, ∃ n, Conflicting locals members n ∧
    ∀ node, node ∈ g ↔ EqvGen (Related locals members) n node
  covered : ∀ n, Conflicting locals members n → ∃ g ∈ groups, n ∈ g

theorem conflictGroups_classes {fuel : ℕ} (hlocals : locals.Nodup) (hmembers : members.Nodup)
    (h : conflictGroups locals members fuel = some groups) : Classes locals members groups := by
  have hclosed : Closed InventoryNode.keys (indexedNodes locals members) [] :=
    fun x y _ hx ↦ absurd hx List.not_mem_nil
  have hgrouped := components_grouped hclosed (fun seed ↦ seeds_subset) h
  refine ⟨hgrouped.nodup, hgrouped.disjoint, fun g hg ↦ ?_, fun n hn ↦ ?_⟩
  · obtain ⟨s, hs, hclass⟩ := hgrouped.class_of g hg
    exact ⟨s, conflicting_of_seed hlocals hmembers hs, hclass⟩
  · obtain ⟨s, hs, hsn⟩ := seed_of_conflicting hlocals hmembers hn
    obtain ⟨g, hg, hsg⟩ := (hgrouped.covered s hs).resolve_left List.not_mem_nil
    obtain ⟨s', -, hclass⟩ := hgrouped.class_of g hg
    exact ⟨g, hg, (hclass n).mpr (((hclass s).mp hsg).trans _ _ _ hsn)⟩

theorem Classes.mem_flatten (h : Classes locals members groups) :
    node ∈ groups.flatten ↔ Owned locals members node := by
  rw [List.mem_flatten]
  constructor
  · rintro ⟨g, hg, hnode⟩
    obtain ⟨n, hn, hclass⟩ := h.class_of g hg
    exact ⟨n, hn, (hclass node).mp hnode⟩
  · rintro ⟨n, hn, hclass⟩
    obtain ⟨g, hg, hng⟩ := h.covered n hn
    obtain ⟨n', -, hclass'⟩ := h.class_of g hg
    exact ⟨g, hg, (hclass' node).mpr (((hclass' n).mp hng).trans _ _ _ hclass)⟩

theorem Classes.mem_nodes (h : Classes locals members groups) {g : List InventoryNode}
    (hg : g ∈ groups) (hnode : node ∈ g) : node ∈ indexedNodes locals members := by
  obtain ⟨n, hn, hclass⟩ := h.class_of g hg
  have hn' : n ∈ indexedNodes locals members := by
    cases hn with
    | invalidId hl _ => exact local_mem_nodes.mpr hl
    | sharedId hl _ _ _ _ => exact local_mem_nodes.mpr hl
    | sharedSlug hm _ _ _ => exact member_mem_nodes.mpr hm
  have hclosed : Closed InventoryNode.keys (indexedNodes locals members)
      (indexedNodes locals members) := fun x y hxy _ ↦ hxy.2.1
  exact (hclosed.mem_iff ((hclass node).mp hnode)).mp hn'

theorem mem_conflictNodes {kinds : List ConflictKind} (h : Classes locals members groups)
    {g : List InventoryNode} (hg : g ∈ groups) :
    node ∈ conflictNodes ⟨kinds, nodeLocals locals g, nodeMembers members g⟩ ↔ node ∈ g := by
  rw [conflictNodes, List.mem_append, List.mem_map, List.mem_map]
  constructor
  · rintro (⟨l, hl, rfl⟩ | ⟨m, hm, rfl⟩)
    · exact of_decide_eq_true (List.mem_filter.mp hl).2
    · exact of_decide_eq_true (List.mem_filter.mp hm).2
  · intro hnode
    have hmem := h.mem_nodes hg hnode
    cases node with
    | «local» l =>
      exact .inl ⟨l, List.mem_filter.mpr ⟨local_mem_nodes.mp hmem, decide_eq_true hnode⟩, rfl⟩
    | member m =>
      exact .inr ⟨m, List.mem_filter.mpr ⟨member_mem_nodes.mp hmem, decide_eq_true hnode⟩, rfl⟩

end Groups

theorem id_ne_none (hid : l.postId ≠ none) : l.id ≠ none := by
  intro hnone
  rw [InventoryLocal.postId, hnone] at hid
  exact hid rfl

theorem conflicts_eq : (joinAvailable locals members groups).conflicts = groups.map (fun nodes ↦
    ⟨conflictKinds locals members nodes, nodeLocals locals nodes, nodeMembers members nodes⟩) := rfl

theorem nodup_matched_locals (hlocals : locals.Nodup) :
    ((joinAvailable locals members groups).matched.map InventoryMatch.local).Nodup := by
  have hmap : ∀ available (xs : List InventoryLocal),
      ((xs.filterMap (matchOf available)).map InventoryMatch.local).Sublist xs := by
    intro available xs
    induction xs with
    | nil => exact List.Sublist.refl _
    | cons x xs ih =>
      cases hx : (membersOfId available x.postId).head? with
      | none =>
        rw [List.filterMap_cons_none (by rw [matchOf, hx]; rfl)]
        exact ih.cons x
      | some m' =>
        rw [List.filterMap_cons_some (b := ⟨x, m'⟩) (by rw [matchOf, hx]; rfl), List.map_cons]
        exact ih.cons_cons x
  exact (hmap _ _).nodup ((hlocals.filter _).filter _)

section Lists

variable (h : Classes locals members groups)
include h

theorem mem_availableLocals : l ∈ availableLocals locals groups ↔
    l ∈ locals ∧ ¬Owned locals members (.local l) := by
  rw [availableLocals, List.mem_filter, decide_eq_true_eq, h.mem_flatten]

theorem mem_availableMembers : m ∈ availableMembers members groups ↔
    m ∈ members ∧ ¬Owned locals members (.member m) := by
  rw [availableMembers, List.mem_filter, decide_eq_true_eq, h.mem_flatten]

/-- A free file has all its Members among the available ones. -/
theorem mem_counterparts (hl : l ∈ locals) (hfree : ¬Owned locals members (.local l)) :
    m ∈ membersOfId (availableMembers members groups) l.postId ↔
      m ∈ members ∧ l.postId = some m.id := by
  rw [mem_membersOfId, mem_availableMembers h]
  constructor
  · rintro ⟨⟨hm, -⟩, hid⟩
    exact ⟨hm, hid.symm⟩
  · rintro ⟨hm, hid⟩
    exact ⟨⟨hm, fun howned ↦ hfree (howned.related (related_counterpart hl hm hid).symm)⟩, hid.symm⟩

theorem mem_local_counterparts (hm : m ∈ members) (hfree : ¬Owned locals members (.member m)) :
    l ∈ localsOfId (availableLocals locals groups) (some m.id) ↔
      l ∈ locals ∧ l.postId = some m.id := by
  rw [mem_localsOfId, mem_availableLocals h]
  constructor
  · rintro ⟨⟨hl, -⟩, -, hid⟩
    exact ⟨hl, hid⟩
  · rintro ⟨hl, hid⟩
    exact ⟨⟨hl, fun howned ↦ hfree (howned.related (related_counterpart hl hm hid))⟩,
      by rw [hid]; exact Option.some_ne_none _, hid⟩

theorem mem_localDrafts : l ∈ (joinAvailable locals members groups).localDrafts ↔
    l ∈ locals ∧ l.id = none := by
  rw [joinAvailable]
  simp only [List.mem_filter, decide_eq_true_eq, h.mem_flatten]
  exact ⟨And.left, fun hl ↦ ⟨hl, not_owned_draft hl.2⟩⟩

theorem mem_orphans : l ∈ (joinAvailable locals members groups).orphans ↔
    l ∈ locals ∧ ¬Owned locals members (.local l) ∧ l.postId ≠ none ∧
      ∀ m ∈ members, l.postId ≠ some m.id := by
  rw [joinAvailable]
  simp only [List.mem_filter, decide_eq_true_eq, mem_availableLocals h, and_assoc]
  refine and_congr_right (fun hl ↦ and_congr_right (fun hfree ↦ ?_))
  rw [List.eq_nil_iff_forall_not_mem]
  simp only [mem_counterparts h hl hfree, not_and]
  constructor
  · rintro ⟨-, hnone, hpost⟩
    exact ⟨hpost, hnone⟩
  · rintro ⟨hpost, hnone⟩
    exact ⟨id_ne_none hpost, hnone, hpost⟩

theorem mem_serverOnly : m ∈ (joinAvailable locals members groups).serverOnly ↔
    m ∈ members ∧ ¬Owned locals members (.member m) ∧ ∀ l ∈ locals, l.postId ≠ some m.id := by
  rw [joinAvailable]
  simp only [List.mem_filter, decide_eq_true_eq, mem_availableMembers h, and_assoc]
  refine and_congr_right (fun hm ↦ and_congr_right (fun hfree ↦ ?_))
  rw [List.eq_nil_iff_forall_not_mem]
  simp only [mem_local_counterparts h hm hfree, not_and]

theorem mem_matched (hids : (members.map InventoryMember.id).Nodup) :
    ⟨l, m⟩ ∈ (joinAvailable locals members groups).matched ↔
      l ∈ locals ∧ ¬Owned locals members (.local l) ∧ m ∈ members ∧ l.postId = some m.id := by
  rw [joinAvailable]
  simp only [List.mem_filterMap, List.mem_filter, decide_eq_true_eq, mem_availableLocals h, matchOf,
    Option.map_eq_some_iff]
  constructor
  · rintro ⟨l', ⟨⟨hl, hfree⟩, -⟩, m', hhead, hpair⟩
    obtain ⟨rfl, rfl⟩ := InventoryMatch.mk.inj hpair
    exact ⟨hl, hfree, (mem_counterparts h hl hfree).mp (List.mem_of_mem_head? hhead)⟩
  · rintro ⟨hl, hfree, hm, hid⟩
    have hmem := (mem_counterparts h hl hfree).mpr ⟨hm, hid⟩
    refine ⟨l, ⟨⟨hl, hfree⟩, id_ne_none (by rw [hid]; exact Option.some_ne_none _)⟩, ?_⟩
    cases hbucket : membersOfId (availableMembers members groups) l.postId with
    | nil =>
      rw [hbucket] at hmem
      exact absurd hmem List.not_mem_nil
    | cons m' rest =>
      have hm' : m' ∈ membersOfId (availableMembers members groups) l.postId := by
        rw [hbucket]
        exact List.mem_cons_self
      obtain ⟨hm', hid'⟩ := (mem_counterparts h hl hfree).mp hm'
      have heq : m'.id = m.id := Option.some.inj (hid'.symm.trans hid)
      refine ⟨m', rfl, ?_⟩
      rw [List.inj_on_of_nodup_map hids hm' hm heq]

end Lists

section Permutations

variable (h : Classes locals members groups)
include h

theorem mem_conflict_locals :
    l ∈ (joinAvailable locals members groups).conflicts.flatMap InventoryConflict.locals ↔
      Owned locals members (.local l) := by
  rw [← h.mem_flatten, List.mem_flatten, conflicts_eq, List.mem_flatMap]
  constructor
  · rintro ⟨c, hc, hl⟩
    obtain ⟨g, hg, rfl⟩ := List.mem_map.mp hc
    exact ⟨g, hg, of_decide_eq_true (List.mem_filter.mp hl).2⟩
  · rintro ⟨g, hg, hl⟩
    refine ⟨_, List.mem_map_of_mem hg, List.mem_filter.mpr ⟨?_, decide_eq_true hl⟩⟩
    exact local_mem_nodes.mp (h.mem_nodes hg hl)

theorem mem_conflict_members :
    m ∈ (joinAvailable locals members groups).conflicts.flatMap InventoryConflict.members ↔
      Owned locals members (.member m) := by
  rw [← h.mem_flatten, List.mem_flatten, conflicts_eq, List.mem_flatMap]
  constructor
  · rintro ⟨c, hc, hm⟩
    obtain ⟨g, hg, rfl⟩ := List.mem_map.mp hc
    exact ⟨g, hg, of_decide_eq_true (List.mem_filter.mp hm).2⟩
  · rintro ⟨g, hg, hm⟩
    refine ⟨_, List.mem_map_of_mem hg, List.mem_filter.mpr ⟨?_, decide_eq_true hm⟩⟩
    exact member_mem_nodes.mp (h.mem_nodes hg hm)

theorem nodup_conflict_locals (hlocals : locals.Nodup) :
    ((joinAvailable locals members groups).conflicts.flatMap InventoryConflict.locals).Nodup := by
  rw [conflicts_eq, List.flatMap_map, List.nodup_flatMap]
  refine ⟨fun g hg ↦ hlocals.filter _, h.disjoint.imp (fun hdisjoint l hl hl' ↦ ?_)⟩
  exact hdisjoint (of_decide_eq_true (List.mem_filter.mp hl).2)
    (of_decide_eq_true (List.mem_filter.mp hl').2)

theorem nodup_conflict_members (hmembers : members.Nodup) :
    ((joinAvailable locals members groups).conflicts.flatMap InventoryConflict.members).Nodup := by
  rw [conflicts_eq, List.flatMap_map, List.nodup_flatMap]
  refine ⟨fun g hg ↦ hmembers.filter _, h.disjoint.imp (fun hdisjoint m hm hm' ↦ ?_)⟩
  exact hdisjoint (of_decide_eq_true (List.mem_filter.mp hm).2)
    (of_decide_eq_true (List.mem_filter.mp hm').2)

/-- Two files matched to one Member would be a conflict. -/
theorem nodup_matched_members (hids : (members.map InventoryMember.id).Nodup)
    (hlocals : locals.Nodup) :
    ((joinAvailable locals members groups).matched.map InventoryMatch.member).Nodup := by
  refine List.Nodup.map_on ?_ (nodup_matched_locals hlocals).of_map
  rintro ⟨l, m⟩ hpair ⟨l', m'⟩ hpair' hmember
  obtain rfl : m = m' := hmember
  obtain ⟨hl, hfree, hm, hid⟩ := (mem_matched h hids).mp hpair
  obtain ⟨hl', -, -, hid'⟩ := (mem_matched h hids).mp hpair'
  by_contra hne
  have hne' : l' ≠ l := fun heq ↦ hne (by rw [heq])
  exact hfree (Conflicting.sharedId hl hl' hne' (by rw [hid]; exact Option.some_ne_none _)
    (by rw [hid, hid'])).owned

theorem mem_matched_locals (hids : (members.map InventoryMember.id).Nodup) :
    l ∈ (joinAvailable locals members groups).matched.map InventoryMatch.local ↔
      l ∈ locals ∧ ¬Owned locals members (.local l) ∧ ∃ m ∈ members, l.postId = some m.id := by
  rw [List.mem_map]
  constructor
  · rintro ⟨⟨l', m⟩, hpair, rfl⟩
    obtain ⟨hl, hfree, hm, hid⟩ := (mem_matched h hids).mp hpair
    exact ⟨hl, hfree, m, hm, hid⟩
  · rintro ⟨hl, hfree, m, hm, hid⟩
    exact ⟨⟨l, m⟩, (mem_matched h hids).mpr ⟨hl, hfree, hm, hid⟩, rfl⟩

theorem mem_matched_members (hids : (members.map InventoryMember.id).Nodup) :
    m ∈ (joinAvailable locals members groups).matched.map InventoryMatch.member ↔
      m ∈ members ∧ ¬Owned locals members (.member m) ∧ ∃ l ∈ locals, l.postId = some m.id := by
  rw [List.mem_map]
  constructor
  · rintro ⟨⟨l, m'⟩, hpair, rfl⟩
    obtain ⟨hl, hfree, hm, hid⟩ := (mem_matched h hids).mp hpair
    have hrelated := related_counterpart hl hm hid
    exact ⟨hm, fun howned ↦ hfree (howned.related hrelated.symm), l, hl, hid⟩
  · rintro ⟨hm, hfree, l, hl, hid⟩
    have hrelated := related_counterpart hl hm hid
    exact ⟨⟨l, m⟩, (mem_matched h hids).mpr
      ⟨hl, fun howned ↦ hfree (howned.related hrelated), hm, hid⟩, rfl⟩

theorem locals_once (hids : (members.map InventoryMember.id).Nodup) (hlocals : locals.Nodup) :
    ((joinAvailable locals members groups).localDrafts ++
      (joinAvailable locals members groups).matched.map InventoryMatch.local ++
      (joinAvailable locals members groups).orphans ++
      (joinAvailable locals members groups).conflicts.flatMap InventoryConflict.locals).Perm
      locals := by
  have hdrafts : (joinAvailable locals members groups).localDrafts.Nodup :=
    (hlocals.filter _).filter _
  have horphans : (joinAvailable locals members groups).orphans.Nodup := (hlocals.filter _).filter _
  refine (List.perm_ext_iff_of_nodup ?_ hlocals).mpr (fun l ↦ ?_)
  · refine ((hdrafts.append (nodup_matched_locals hlocals) ?_).append horphans ?_).append
      (nodup_conflict_locals h hlocals) ?_
    · intro l hdraft hmatched
      obtain ⟨-, -, m, -, hid⟩ := (mem_matched_locals h hids).mp hmatched
      exact id_ne_none (by rw [hid]; exact Option.some_ne_none _) ((mem_localDrafts h).mp hdraft).2
    · intro l hleft horphan
      obtain ⟨-, -, hpost, hnone⟩ := (mem_orphans h).mp horphan
      rcases List.mem_append.mp hleft with hdraft | hmatched
      · exact id_ne_none hpost ((mem_localDrafts h).mp hdraft).2
      · obtain ⟨-, -, m, hm, hid⟩ := (mem_matched_locals h hids).mp hmatched
        exact hnone m hm hid
    · intro l hleft hconflict
      have howned := (mem_conflict_locals h).mp hconflict
      rcases List.mem_append.mp hleft with hleft | horphan
      · rcases List.mem_append.mp hleft with hdraft | hmatched
        · exact not_owned_draft ((mem_localDrafts h).mp hdraft).2 howned
        · exact ((mem_matched_locals h hids).mp hmatched).2.1 howned
      · exact ((mem_orphans h).mp horphan).2.1 howned
  · rw [List.mem_append, List.mem_append, List.mem_append, mem_localDrafts h,
      mem_matched_locals h hids, mem_orphans h, mem_conflict_locals h]
    constructor
    · rintro (((hdraft | hmatched) | horphan) | howned)
      · exact hdraft.1
      · exact hmatched.1
      · exact horphan.1
      · obtain ⟨g, hg, hl⟩ := List.mem_flatten.mp (h.mem_flatten.mpr howned)
        exact local_mem_nodes.mp (h.mem_nodes hg hl)
    · intro hl
      by_cases howned : Owned locals members (.local l)
      · exact .inr howned
      · refine .inl ?_
        by_cases hid : l.id = none
        · exact .inl (.inl ⟨hl, hid⟩)
        · have hpost : l.postId ≠ none := by
            intro hnone
            refine howned (Conflicting.invalidId hl (decide_eq_true ⟨?_, hnone⟩)).owned
            exact Option.isSome_iff_ne_none.mpr hid
          by_cases hm : ∃ m ∈ members, l.postId = some m.id
          · exact .inl (.inr ⟨hl, howned, hm⟩)
          · exact .inr ⟨hl, howned, hpost, fun m hmem heq ↦ hm ⟨m, hmem, heq⟩⟩

theorem members_once (hids : (members.map InventoryMember.id).Nodup) (hlocals : locals.Nodup) :
    ((joinAvailable locals members groups).serverOnly ++
      (joinAvailable locals members groups).matched.map InventoryMatch.member ++
      (joinAvailable locals members groups).conflicts.flatMap InventoryConflict.members).Perm
      members := by
  have hmembers : members.Nodup := hids.of_map
  have hserver : (joinAvailable locals members groups).serverOnly.Nodup :=
    (hmembers.filter _).filter _
  refine (List.perm_ext_iff_of_nodup ?_ hmembers).mpr (fun m ↦ ?_)
  · refine (hserver.append (nodup_matched_members h hids hlocals) ?_).append
      (nodup_conflict_members h hmembers) ?_
    · intro m hserver hmatched
      obtain ⟨-, -, l, hl, hid⟩ := (mem_matched_members h hids).mp hmatched
      exact ((mem_serverOnly h).mp hserver).2.2 l hl hid
    · intro m hleft hconflict
      have howned := (mem_conflict_members h).mp hconflict
      rcases List.mem_append.mp hleft with hserver | hmatched
      · exact ((mem_serverOnly h).mp hserver).2.1 howned
      · exact ((mem_matched_members h hids).mp hmatched).2.1 howned
  · rw [List.mem_append, List.mem_append, mem_serverOnly h, mem_matched_members h hids,
      mem_conflict_members h]
    constructor
    · rintro ((hserver | hmatched) | howned)
      · exact hserver.1
      · exact hmatched.1
      · obtain ⟨g, hg, hm⟩ := List.mem_flatten.mp (h.mem_flatten.mpr howned)
        exact member_mem_nodes.mp (h.mem_nodes hg hm)
    · intro hm
      by_cases howned : Owned locals members (.member m)
      · exact .inr howned
      · refine .inl ?_
        by_cases hl : ∃ l ∈ locals, l.postId = some m.id
        · exact .inr ⟨hm, howned, hl⟩
        · exact .inl ⟨hm, howned, fun l hmem heq ↦ hl ⟨l, hmem, heq⟩⟩

theorem conflict_free_iff {c : InventoryConflict}
    (hc : c ∈ (joinAvailable locals members groups).conflicts) (hnode : node ∈ conflictNodes c) :
    Owned locals members node := by
  rw [conflicts_eq] at hc
  obtain ⟨g, hg, rfl⟩ := List.mem_map.mp hc
  exact h.mem_flatten.mp (List.mem_flatten.mpr ⟨g, hg, (mem_conflictNodes h hg).mp hnode⟩)

theorem join_partitioned (hids : (members.map InventoryMember.id).Nodup) (hlocals : locals.Nodup) :
    Partitioned locals members (joinAvailable locals members groups) where
  locals_once := locals_once h hids hlocals
  members_once := members_once h hids hlocals
  matched_iff := by
    intro l m
    rw [mem_matched h hids]
    constructor
    · rintro ⟨hl, hfree, hm, hid⟩
      refine ⟨⟨hl, hm, hid, fun l' hl' hid' ↦ ?_, fun m' hm' hid' ↦ ?_⟩, fun c hc ↦ ⟨?_, ?_⟩⟩
      · by_contra hne
        exact hfree (Conflicting.sharedId hl hl' hne (by rw [hid]; exact Option.some_ne_none _)
          (by rw [hid, hid'])).owned
      · exact List.inj_on_of_nodup_map hids hm' hm (Option.some.inj (hid'.symm.trans hid))
      · exact fun hnode ↦ hfree (conflict_free_iff h hc hnode)
      · exact fun hnode ↦ hfree ((conflict_free_iff h hc hnode).related
          (related_counterpart hl hm hid).symm)
    · rintro ⟨hpair, hfree⟩
      refine ⟨hpair.local_mem, fun howned ↦ ?_, hpair.member_mem, hpair.same_id⟩
      obtain ⟨g, hg, hl⟩ := List.mem_flatten.mp (h.mem_flatten.mpr howned)
      exact (hfree _ (List.mem_map_of_mem hg)).1 ((mem_conflictNodes h hg).mpr hl)
  conflict_class := by
    intro c hc
    rw [conflicts_eq] at hc
    obtain ⟨g, hg, rfl⟩ := List.mem_map.mp hc
    obtain ⟨n, hn, hclass⟩ := h.class_of g hg
    exact ⟨n, hn, fun node ↦ (mem_conflictNodes h hg).trans (hclass node)⟩
  conflicting_grouped := by
    intro n hn
    obtain ⟨g, hg, hng⟩ := h.covered n hn
    exact ⟨_, List.mem_map_of_mem hg, (mem_conflictNodes h hg).mpr hng⟩

end Permutations

section Orders

theorem any_congr_of_mem {α : Type} {p q : α → Bool} {xs ys : List α}
    (hmem : ∀ x, x ∈ xs ↔ x ∈ ys) (hpq : ∀ x, p x = q x) : xs.any p = ys.any q := by
  rw [Bool.eq_iff_iff, List.any_eq_true, List.any_eq_true]
  simp only [hmem, hpq]

theorem tail_ne_nil_of_perm {α : Type} {xs ys : List α} (h : xs.Perm ys) :
    (xs.tail ≠ []) = (ys.tail ≠ []) := by
  have hlength := h.length_eq
  match xs, ys with
  | [], [] => rfl
  | [_], [_] => rfl
  | _ :: _ :: _, _ :: _ :: _ => exact propext (iff_of_true (List.cons_ne_nil _ _) (List.cons_ne_nil _ _))
  | [], _ :: _ => cases hlength
  | _ :: _, [] => cases hlength
  | [_], _ :: _ :: _ => exact absurd hlength (by simp)
  | _ :: _ :: _, [_] => exact absurd hlength (by simp)

theorem conflictKinds_congr (hlocals : locals.Perm locals') (hmembers : members.Perm members')
    {g g' : List InventoryNode} (hmem : ∀ node, node ∈ g ↔ node ∈ g') :
    conflictKinds locals members g = conflictKinds locals' members' g' := by
  have hid : ∀ l, duplicateLocalId locals l = duplicateLocalId locals' l := by
    intro l
    unfold duplicateLocalId
    simp only [tail_ne_nil_of_perm (show (localsOfId locals l.postId).Perm
      (localsOfId locals' l.postId) from hlocals.filter _)]
  have hslug : ∀ m, duplicateTargetSlug members m = duplicateTargetSlug members' m := by
    intro m
    unfold duplicateTargetSlug
    simp only [tail_ne_nil_of_perm (show (membersOfSlug members m.slug).Perm
      (membersOfSlug members' m.slug) from hmembers.filter _)]
  unfold conflictKinds
  simp only [hid, hslug]
  rw [any_congr_of_mem hmem (fun _ ↦ rfl), any_congr_of_mem hmem (fun _ ↦ rfl),
    any_congr_of_mem hmem (fun _ ↦ rfl)]

theorem conflicts_correspond (hlocals : locals.Perm locals') (hmembers : members.Perm members')
    (h : Classes locals members groups) (h' : Classes locals' members' groups') :
    ∀ c ∈ (joinAvailable locals members groups).conflicts,
      ∃ c' ∈ (joinAvailable locals' members' groups').conflicts, c'.kinds = c.kinds ∧
        (∀ l, l ∈ c'.locals ↔ l ∈ c.locals) ∧ ∀ m, m ∈ c'.members ↔ m ∈ c.members := by
  intro c hc
  rw [conflicts_eq] at hc
  obtain ⟨g, hg, rfl⟩ := List.mem_map.mp hc
  obtain ⟨n, hn, hclass⟩ := h.class_of g hg
  obtain ⟨g', hg', hng'⟩ := h'.covered n (hn.mono hlocals.subset hmembers.subset)
  obtain ⟨n', -, hclass'⟩ := h'.class_of g' hg'
  have hmem : ∀ node, node ∈ g' ↔ node ∈ g := by
    intro node
    rw [hclass node, hclass' node]
    have hn' := (hclass' n).mp hng'
    constructor
    · intro hnode
      exact class_mono hlocals.symm.subset hmembers.symm.subset
        ((hn'.symm _ _).trans _ _ _ hnode)
    · exact fun hnode ↦ hn'.trans _ _ _ (class_mono hlocals.subset hmembers.subset hnode)
  refine ⟨_, List.mem_map_of_mem hg', ?_, fun l ↦ ?_, fun m ↦ ?_⟩
  · exact conflictKinds_congr hlocals.symm hmembers.symm hmem
  · simp only [nodeLocals, List.mem_filter, decide_eq_true_eq, hmem, hlocals.mem_iff]
  · simp only [nodeMembers, List.mem_filter, decide_eq_true_eq, hmem, hmembers.mem_iff]

theorem owned_congr (hlocals : locals.Perm locals') (hmembers : members.Perm members') :
    Owned locals members node ↔ Owned locals' members' node :=
  ⟨fun h ↦ h.mono hlocals.subset hmembers.subset,
    fun h ↦ h.mono hlocals.symm.subset hmembers.symm.subset⟩

theorem join_sameSets (hlocals : locals.Perm locals') (hmembers : members.Perm members')
    (hids : (members.map InventoryMember.id).Nodup) (h : Classes locals members groups)
    (h' : Classes locals' members' groups') :
    SameSets (joinAvailable locals members groups) (joinAvailable locals' members' groups') where
  localDrafts := by
    intro l
    rw [mem_localDrafts h, mem_localDrafts h', hlocals.mem_iff]
  serverOnly := by
    intro m
    rw [mem_serverOnly h, mem_serverOnly h', hmembers.mem_iff, owned_congr hlocals hmembers]
    simp only [hlocals.mem_iff]
  matched := by
    rintro ⟨l, m⟩
    have hids' : (members'.map InventoryMember.id).Nodup := (hmembers.map _).nodup_iff.mp hids
    rw [mem_matched h hids, mem_matched h' hids', hlocals.mem_iff, hmembers.mem_iff,
      owned_congr hlocals hmembers]
  orphans := by
    intro l
    rw [mem_orphans h, mem_orphans h', hlocals.mem_iff, owned_congr hlocals hmembers]
    simp only [hmembers.mem_iff]
  conflicts := conflicts_correspond hlocals hmembers h h'
  conflicts' := conflicts_correspond hlocals.symm hmembers.symm h' h

end Orders

theorem inventory_exactly_partitioned (locals : List InventoryLocal) (members : List InventoryMember)
    (hlocals : locals.Nodup) (hids : (members.map InventoryMember.id).Nodup) :
    ∃ bound inv, (∀ fuel, bound ≤ fuel → joinInventory locals members fuel = some inv) ∧
      Partitioned locals members inv ∧
      ∀ locals' members' inv' fuel, locals.Perm locals' → members.Perm members' →
        joinInventory locals' members' fuel = some inv' → SameSets inv inv' := by
  have hterminates : ∃ bound groups, ∀ fuel, bound ≤ fuel →
      conflictGroups locals members fuel = some groups :=
    components_terminates (fun seed ↦ seeds_subset)
  obtain ⟨bound, groups, hbound⟩ := hterminates
  have hclasses : Classes locals members groups :=
    conflictGroups_classes hlocals hids.of_map (hbound bound le_rfl)
  refine ⟨bound, joinAvailable locals members groups, fun fuel hfuel ↦ ?_,
    join_partitioned hclasses hids hlocals, ?_⟩
  · rw [joinInventory, hbound fuel hfuel]
    rfl
  · intro locals' members' inv' fuel hperm hperm' hjoin
    obtain ⟨groups', hgroups, rfl⟩ := Option.map_eq_some_iff.mp hjoin
    have hids' : (members'.map InventoryMember.id).Nodup := (hperm'.map _).nodup_iff.mp hids
    have hclasses' := conflictGroups_classes (hperm.nodup_iff.mp hlocals) hids'.of_map hgroups
    exact join_sameSets hperm hperm' hids hclasses hclasses'

section Samples

/-- Two files of one ID, and a Member of it whose slug another Member has. -/
def sampleLocals : List InventoryLocal :=
  [⟨"a.org", some "1"⟩, ⟨"b.org", some "01"⟩, ⟨"c.org", some "3"⟩, ⟨"d.org", none⟩]

def sampleMembers : List InventoryMember := [⟨"1", "note"⟩, ⟨"2", "note"⟩, ⟨"3", "memo"⟩, ⟨"4", "new"⟩]

theorem sample_partitioned :
    ∃ bound inv, (∀ fuel, bound ≤ fuel → joinInventory sampleLocals sampleMembers fuel = some inv) ∧
      Partitioned sampleLocals sampleMembers inv ∧
      ∀ locals' members' inv' fuel, sampleLocals.Perm locals' → sampleMembers.Perm members' →
        joinInventory locals' members' fuel = some inv' → SameSets inv inv' :=
  inventory_exactly_partitioned sampleLocals sampleMembers (by decide) (by decide)

end Samples

end Jaunder.Elisp.InventoryPartition
