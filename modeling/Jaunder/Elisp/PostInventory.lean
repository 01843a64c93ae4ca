import Jaunder.Foundation.Components

namespace Jaunder.Elisp.PostInventory

open Foundation.Components Relation

structure InventoryMember where
  id : String
  slug : String
deriving DecidableEq

structure InventoryLocal where
  path : String
  id : Option String
deriving DecidableEq

structure InventoryMatch where
  «local» : InventoryLocal
  member : InventoryMember
deriving DecidableEq

inductive ConflictKind
  | invalidLocalId
  | duplicateLocalId
  | duplicateTargetSlug
deriving DecidableEq

structure InventoryConflict where
  kinds : List ConflictKind
  locals : List InventoryLocal
  members : List InventoryMember
deriving DecidableEq

structure Inventory where
  localDrafts : List InventoryLocal
  serverOnly : List InventoryMember
  matched : List InventoryMatch
  orphans : List InventoryLocal
  conflicts : List InventoryConflict
deriving DecidableEq

/-- A decimal number without leading zeros. -/
def canonicalPostId (value : String) : Option String :=
  let digits := value.toList
  if digits ≠ [] ∧ digits.all Char.isDigit then
    let id := digits.dropWhile (· = '0')
    some (if id = [] then "0" else String.ofList id)
  else none

inductive InventoryNode
  | «local» (value : InventoryLocal)
  | member (value : InventoryMember)
deriving DecidableEq

def InventoryLocal.postId (l : InventoryLocal) : Option String := l.id.bind canonicalPostId

/-- `jaunder--node-id` -/
def InventoryNode.id : InventoryNode → Option String
  | .local l => l.postId
  | .member m => some m.id

/-- The keys of the tables of expanded IDs and expanded slugs. -/
inductive Key
  | id (value : String)
  | slug (value : String)
deriving DecidableEq

def InventoryNode.keys (node : InventoryNode) : List Key :=
  node.id.toList.map .id ++
    match node with
    | .local _ => []
    | .member m => [.slug m.slug]

def indexedNodes (locals : List InventoryLocal) (members : List InventoryMember) :
    List InventoryNode :=
  locals.map .local ++ members.map .member

section Join

variable (locals : List InventoryLocal) (members : List InventoryMember)

/-- `local-id-index` -/
def localsOfId (id : Option String) : List InventoryLocal :=
  locals.filter (fun l ↦ l.postId.isSome ∧ l.postId = id)

/-- `member-id-index` -/
def membersOfId (id : Option String) : List InventoryMember :=
  members.filter (fun m ↦ some m.id = id)

/-- `member-slug-index` -/
def membersOfSlug (slug : String) : List InventoryMember := members.filter (fun m ↦ m.slug = slug)

def invalidLocalId (l : InventoryLocal) : Bool := l.id.isSome ∧ l.postId = none

/-- The first of several items under one key. -/
def leads {α : Type} [DecidableEq α] (x : α) (bucket : List α) : Bool :=
  bucket.head? = some x ∧ bucket.tail ≠ []

def conflictSeeds : List InventoryNode :=
  (locals.filter invalidLocalId).map .local ++
    (locals.filter (fun l ↦ leads l (localsOfId locals l.postId))).map .local ++
    (members.filter (fun m ↦ leads m (membersOfSlug members m.slug))).map .member

def conflictComponent (fuel : ℕ) (seed : InventoryNode) (visited : List InventoryNode) :
    Option (List InventoryNode × List InventoryNode) :=
  component InventoryNode.keys (indexedNodes locals members) fuel seed visited

def nodeLocals (nodes : List InventoryNode) : List InventoryLocal :=
  locals.filter (fun l ↦ .local l ∈ nodes)

def nodeMembers (nodes : List InventoryNode) : List InventoryMember :=
  members.filter (fun m ↦ .member m ∈ nodes)

def duplicateLocalId (l : InventoryLocal) : Bool := (localsOfId locals l.postId).tail ≠ []

def duplicateTargetSlug (m : InventoryMember) : Bool := (membersOfSlug members m.slug).tail ≠ []

def conflictKinds (nodes : List InventoryNode) : List ConflictKind :=
  (if nodes.any (fun node ↦ match node with
    | .local l => invalidLocalId l
    | .member _ => false) then [.invalidLocalId] else []) ++
  (if nodes.any (fun node ↦ match node with
    | .local l => duplicateLocalId locals l
    | .member _ => false) then [.duplicateLocalId] else []) ++
  (if nodes.any (fun node ↦ match node with
    | .local _ => false
    | .member m => duplicateTargetSlug members m) then [.duplicateTargetSlug] else [])

def conflictGroups (fuel : ℕ) : Option (List (List InventoryNode)) :=
  components InventoryNode.keys (indexedNodes locals members) fuel (conflictSeeds locals members) []

def matchOf (available : List InventoryMember) (l : InventoryLocal) : Option InventoryMatch :=
  (membersOfId available l.postId).head?.map (fun m ↦ ⟨l, m⟩)

def availableLocals (groups : List (List InventoryNode)) : List InventoryLocal :=
  locals.filter (fun l ↦ .local l ∉ groups.flatten)

def availableMembers (groups : List (List InventoryNode)) : List InventoryMember :=
  members.filter (fun m ↦ .member m ∉ groups.flatten)

/-- The join of what no conflict owns. -/
def joinAvailable (groups : List (List InventoryNode)) : Inventory :=
  let locals' := availableLocals locals groups
  let members' := availableMembers members groups
  { localDrafts := (locals.filter (fun l ↦ l.id = none)).filter (fun l ↦ .local l ∉ groups.flatten)
    serverOnly := members'.filter (fun m ↦ localsOfId locals' (some m.id) = [])
    matched := (locals'.filter (fun l ↦ l.id ≠ none)).filterMap (matchOf members')
    orphans := locals'.filter (fun l ↦ l.id ≠ none ∧ membersOfId members' l.postId = [] ∧
      l.postId ≠ none)
    conflicts := groups.map (fun nodes ↦
      ⟨conflictKinds locals members nodes, nodeLocals locals nodes, nodeMembers members nodes⟩) }

/-- `none` when the fuel of a search runs out. -/
def joinInventory (fuel : ℕ) : Option Inventory :=
  (conflictGroups locals members fuel).map (joinAvailable locals members)

end Join


section Classes

variable (locals : List InventoryLocal) (members : List InventoryMember)

/-- What makes a class of the join a conflict. -/
inductive Conflicting : InventoryNode → Prop
  | invalidId {l} (hl : l ∈ locals) (hinvalid : invalidLocalId l = true) : Conflicting (.local l)
  | sharedId {l l'} (hl : l ∈ locals) (hl' : l' ∈ locals) (hne : l' ≠ l)
      (hid : l.postId ≠ none) (heq : l'.postId = l.postId) : Conflicting (.local l)
  | sharedSlug {m m'} (hm : m ∈ members) (hm' : m' ∈ members) (hne : m' ≠ m)
      (heq : m'.slug = m.slug) : Conflicting (.member m)

/-- Equal IDs and equal Member slugs. -/
abbrev Related : InventoryNode → InventoryNode → Prop :=
  Linked InventoryNode.keys (indexedNodes locals members)

def Owned (node : InventoryNode) : Prop :=
  ∃ n, Conflicting locals members n ∧ EqvGen (Related locals members) n node

variable {locals members} {locals' : List InventoryLocal} {members' : List InventoryMember}
  {node : InventoryNode} {l l' : InventoryLocal} {m m' : InventoryMember}

theorem local_mem_nodes : .local l ∈ indexedNodes locals members ↔ l ∈ locals := by
  simp [indexedNodes]

theorem member_mem_nodes : .member m ∈ indexedNodes locals members ↔ m ∈ members := by
  simp [indexedNodes]

theorem related_locals (hl : l ∈ locals) (hl' : l' ∈ locals) (hid : l.postId ≠ none)
    (heq : l'.postId = l.postId) : Related locals members (.local l) (.local l') := by
  obtain ⟨id, hsome⟩ := Option.ne_none_iff_exists'.mp hid
  refine ⟨local_mem_nodes.mpr hl, local_mem_nodes.mpr hl', .id id, ?_, ?_⟩
  · simp [InventoryNode.keys, InventoryNode.id, hsome]
  · simp [InventoryNode.keys, InventoryNode.id, heq, hsome]

theorem related_counterpart (hl : l ∈ locals) (hm : m ∈ members) (hid : l.postId = some m.id) :
    Related locals members (.local l) (.member m) := by
  refine ⟨local_mem_nodes.mpr hl, member_mem_nodes.mpr hm, .id m.id, ?_, ?_⟩
  · simp [InventoryNode.keys, InventoryNode.id, hid]
  · simp [InventoryNode.keys, InventoryNode.id]

theorem related_members (hm : m ∈ members) (hm' : m' ∈ members) (heq : m'.slug = m.slug) :
    Related locals members (.member m) (.member m') := by
  refine ⟨member_mem_nodes.mpr hm, member_mem_nodes.mpr hm', .slug m.slug, ?_, ?_⟩
  · simp [InventoryNode.keys, InventoryNode.id]
  · simp [InventoryNode.keys, InventoryNode.id, heq]

theorem Owned.related {node' : InventoryNode} (h : Owned locals members node)
    (hrel : Related locals members node node') : Owned locals members node' := by
  obtain ⟨n, hconflicting, hclass⟩ := h
  exact ⟨n, hconflicting, hclass.trans _ _ _ (.rel _ _ hrel)⟩

theorem Conflicting.owned (h : Conflicting locals members node) : Owned locals members node :=
  ⟨node, h, .refl _⟩

theorem Conflicting.mono (hlocals : locals ⊆ locals') (hmembers : members ⊆ members')
    (h : Conflicting locals members node) : Conflicting locals' members' node := by
  cases h with
  | invalidId hl hinvalid => exact .invalidId (hlocals hl) hinvalid
  | sharedId hl hl' hne hid heq => exact .sharedId (hlocals hl) (hlocals hl') hne hid heq
  | sharedSlug hm hm' hne heq => exact .sharedSlug (hmembers hm) (hmembers hm') hne heq

theorem nodes_subset (hlocals : locals ⊆ locals') (hmembers : members ⊆ members') :
    indexedNodes locals members ⊆ indexedNodes locals' members' := by
  intro node hnode
  cases node with
  | «local» l => exact local_mem_nodes.mpr (hlocals (local_mem_nodes.mp hnode))
  | member m => exact member_mem_nodes.mpr (hmembers (member_mem_nodes.mp hnode))

theorem class_mono (hlocals : locals ⊆ locals') (hmembers : members ⊆ members')
    {node' : InventoryNode} (h : EqvGen (Related locals members) node node') :
    EqvGen (Related locals' members') node node' := by
  refine h.mono (fun x y hxy ↦ ?_)
  exact ⟨nodes_subset hlocals hmembers hxy.1, nodes_subset hlocals hmembers hxy.2.1, hxy.2.2⟩

theorem Owned.mono (hlocals : locals ⊆ locals') (hmembers : members ⊆ members')
    (h : Owned locals members node) : Owned locals' members' node := by
  obtain ⟨n, hconflicting, hclass⟩ := h
  exact ⟨n, hconflicting.mono hlocals hmembers, class_mono hlocals hmembers hclass⟩

theorem not_owned_draft (hid : l.id = none) : ¬Owned locals members (.local l) := by
  have hpost : l.postId = none := by rw [InventoryLocal.postId, hid, Option.bind_none]
  -- no key of a draft is shared
  have hclass : ∀ x y, EqvGen (Related locals members) x y → (x = .local l ↔ y = .local l) := by
    have hrel : ∀ x y, Related locals members x y → x ≠ .local l := by
      rintro x y ⟨-, -, key, hkey, -⟩ rfl
      simp [InventoryNode.keys, InventoryNode.id, hpost] at hkey
    intro x y h
    induction h with
    | rel x y hxy => exact iff_of_false (hrel x y hxy) (hrel y x hxy.symm)
    | refl x => exact Iff.rfl
    | symm x y _ ih => exact ih.symm
    | trans x y z _ _ ih ih' => exact ih.trans ih'
  rintro ⟨n, hconflicting, h⟩
  obtain rfl := (hclass _ _ h).mpr rfl
  cases hconflicting with
  | invalidId hl hinvalid =>
    have := (of_decide_eq_true hinvalid).1
    rw [hid] at this
    cases this
  | sharedId hl hl' hne hshared heq => exact hshared hpost

end Classes

section Seeds

variable {locals : List InventoryLocal} {members : List InventoryMember} {node : InventoryNode}
  {l : InventoryLocal} {m : InventoryMember}

theorem tail_ne_nil_iff {α : Type} {x : α} {bucket : List α} (hnodup : bucket.Nodup)
    (hx : x ∈ bucket) : bucket.tail ≠ [] ↔ ∃ y ∈ bucket, y ≠ x := by
  match bucket with
  | [] => exact absurd hx List.not_mem_nil
  | [a] =>
    obtain rfl := List.mem_singleton.mp hx
    simp
  | a :: b :: rest =>
    refine iff_of_true (List.cons_ne_nil _ _) ?_
    by_cases hxa : x = a
    · refine ⟨b, List.mem_cons_of_mem _ List.mem_cons_self, fun hb ↦ ?_⟩
      refine (List.nodup_cons.mp hnodup).1 ?_
      rw [← hxa, ← hb]
      exact List.mem_cons_self
    · exact ⟨a, List.mem_cons_self, fun ha ↦ hxa ha.symm⟩

theorem mem_localsOfId {id : Option String} :
    l ∈ localsOfId locals id ↔ l ∈ locals ∧ l.postId ≠ none ∧ l.postId = id := by
  rw [localsOfId, List.mem_filter, decide_eq_true_eq, Option.isSome_iff_ne_none]

theorem mem_membersOfId {id : Option String} :
    m ∈ membersOfId members id ↔ m ∈ members ∧ some m.id = id := by
  rw [membersOfId, List.mem_filter, decide_eq_true_eq]

theorem mem_membersOfSlug {slug : String} :
    m ∈ membersOfSlug members slug ↔ m ∈ members ∧ m.slug = slug := by
  rw [membersOfSlug, List.mem_filter, decide_eq_true_eq]

theorem leads_iff {α : Type} [DecidableEq α] {x : α} {bucket : List α} :
    leads x bucket = true ↔ bucket.head? = some x ∧ bucket.tail ≠ [] := by
  rw [leads, decide_eq_true_eq]

theorem mem_conflictSeeds : node ∈ conflictSeeds locals members ↔
    (∃ l ∈ locals, invalidLocalId l = true ∧ node = .local l) ∨
    (∃ l ∈ locals, leads l (localsOfId locals l.postId) = true ∧ node = .local l) ∨
    ∃ m ∈ members, leads m (membersOfSlug members m.slug) = true ∧ node = .member m := by
  rw [conflictSeeds, List.mem_append, List.mem_append, or_assoc, List.mem_map, List.mem_map,
    List.mem_map]
  simp only [List.mem_filter, and_assoc, eq_comm]

theorem conflicting_of_seed (hlocals : locals.Nodup) (hmembers : members.Nodup)
    (h : node ∈ conflictSeeds locals members) : Conflicting locals members node := by
  rcases mem_conflictSeeds.mp h with ⟨l, hl, hinvalid, rfl⟩ | ⟨l, hl, hleads, rfl⟩ |
    ⟨m, hm, hleads, rfl⟩
  · exact .invalidId hl hinvalid
  · obtain ⟨hhead, htail⟩ := leads_iff.mp hleads
    have hmem := List.mem_of_mem_head? hhead
    obtain ⟨l', hl', hne⟩ := (tail_ne_nil_iff (hlocals.filter _) hmem).mp htail
    obtain ⟨hl', -, heq⟩ := mem_localsOfId.mp hl'
    exact .sharedId hl hl' hne (mem_localsOfId.mp hmem).2.1 heq
  · obtain ⟨hhead, htail⟩ := leads_iff.mp hleads
    obtain ⟨m', hm', hne⟩ :=
      (tail_ne_nil_iff (hmembers.filter _) (List.mem_of_mem_head? hhead)).mp htail
    obtain ⟨hm', heq⟩ := mem_membersOfSlug.mp hm'
    exact .sharedSlug hm hm' hne heq

theorem head_leads {α : Type} [DecidableEq α] {x y : α} {bucket : List α} (hnodup : bucket.Nodup)
    (hx : x ∈ bucket) (hy : y ∈ bucket) (hne : y ≠ x) :
    ∃ z ∈ bucket, bucket.head? = some z ∧ leads z bucket = true := by
  match hbucket : bucket with
  | [] => exact absurd hx List.not_mem_nil
  | z :: rest =>
    refine ⟨z, List.mem_cons_self, rfl, leads_iff.mpr ⟨rfl, ?_⟩⟩
    exact (tail_ne_nil_iff hnodup hx).mpr ⟨y, hy, hne⟩

/-- Every conflicting item is in the class of a seed. -/
theorem seed_of_conflicting (hlocals : locals.Nodup) (hmembers : members.Nodup)
    (h : Conflicting locals members node) :
    ∃ seed ∈ conflictSeeds locals members, EqvGen (Related locals members) seed node := by
  cases h with
  | @invalidId l hl hinvalid =>
    exact ⟨.local l, mem_conflictSeeds.mpr (.inl ⟨l, hl, hinvalid, rfl⟩), .refl _⟩
  | @sharedId l l' hl hl' hne hid heq =>
    have hmem : l ∈ localsOfId locals l.postId := mem_localsOfId.mpr ⟨hl, hid, rfl⟩
    have hmem' : l' ∈ localsOfId locals l.postId :=
      mem_localsOfId.mpr ⟨hl', by rw [heq]; exact hid, heq⟩
    obtain ⟨z, hz, -, hleads⟩ := head_leads (hlocals.filter _) hmem hmem' hne
    obtain ⟨hz, -, hzid⟩ := mem_localsOfId.mp hz
    rw [← hzid] at hleads
    refine ⟨.local z, mem_conflictSeeds.mpr (.inr (.inl ⟨z, hz, hleads, rfl⟩)), .rel _ _ ?_⟩
    exact related_locals hz hl (by rw [hzid]; exact hid) hzid.symm
  | @sharedSlug m m' hm hm' hne heq =>
    have hmem : m ∈ membersOfSlug members m.slug := mem_membersOfSlug.mpr ⟨hm, rfl⟩
    have hmem' : m' ∈ membersOfSlug members m.slug := mem_membersOfSlug.mpr ⟨hm', heq⟩
    obtain ⟨z, hz, -, hleads⟩ := head_leads (hmembers.filter _) hmem hmem' hne
    obtain ⟨hz, hzslug⟩ := mem_membersOfSlug.mp hz
    rw [← hzslug] at hleads
    refine ⟨.member z, mem_conflictSeeds.mpr (.inr (.inr ⟨z, hz, hleads, rfl⟩)), .rel _ _ ?_⟩
    exact related_members hz hm hzslug.symm

theorem seeds_subset (h : node ∈ conflictSeeds locals members) :
    node ∈ indexedNodes locals members := by
  rcases mem_conflictSeeds.mp h with ⟨l, hl, -, rfl⟩ | ⟨l, hl, -, rfl⟩ | ⟨m, hm, -, rfl⟩
  · exact local_mem_nodes.mpr hl
  · exact local_mem_nodes.mpr hl
  · exact member_mem_nodes.mpr hm

end Seeds

end Jaunder.Elisp.PostInventory
