import Jaunder.Foundation.FileOwnership
import Jaunder.Foundation.Octets
import Mathlib.Data.List.Sort

namespace Jaunder.Elisp.StagedMedia

open Foundation.Procedures Foundation.SharedFiles
open Foundation.Octets (utf8 percentEncode)

/-- A destination that the author wrote, proved at the source and at the final place of a Post. -/
structure OriginalDestination where
  spelling : List Char
  sourcePath : Path
  finalPath : Path
  hash : List Char
deriving DecidableEq

abbrev OriginalProof : Type := List OriginalDestination

structure Replacement where
  start : ℕ
  stop : ℕ
  fragment : Option (List Char)
  label : Option (List Char)
deriving DecidableEq

structure Reference where
  url : List Char
  hash : List Char
  leaf : List Char
  target : List Char
  replacements : List Replacement
deriving DecidableEq

structure Plan where
  format : List Char
  body : List Char
  references : List Reference
deriving DecidableEq

structure Fallback where
  hash : List Char
  leaf : List Char
  target : Path
  nativeTarget : List Char
  bytes : Bytes
deriving DecidableEq

structure Reuse where
  original : OriginalDestination
  fallback : Fallback
deriving DecidableEq

structure Staged where
  plan : Plan
  reuses : List Reuse
  fallbacks : List Fallback
deriving DecidableEq

section Planning

def isControlCharacter (c : Char) : Bool := c.toNat < 32 ∨ (127 ≤ c.toNat ∧ c.toNat < 160)

def safeLeaf (leaf : List Char) : Bool :=
  leaf ≠ [] ∧ leaf ≠ ['.'] ∧ leaf ≠ ['.', '.'] ∧
    leaf.all (fun c ↦ c ≠ '/' ∧ c ≠ '\\' ∧ isControlCharacter c = false)

def isLowerHex (c : Char) : Bool := ('0' ≤ c ∧ c ≤ '9') ∨ ('a' ≤ c ∧ c ≤ 'f')

def isSha256 (hash : List Char) : Bool := hash.length = 64 ∧ hash.all isLowerHex

def keptByte (b : UInt8) : Bool :=
  (65 ≤ b ∧ b ≤ 90) ∨ (97 ≤ b ∧ b ≤ 122) ∨ (48 ≤ b ∧ b ≤ 57) ∨ b ∈ [45, 46, 95, 126]

def encodeFilename (leaf : List Char) : List Char := percentEncode keptByte (utf8 leaf)

def mediaTarget (format hash filename : List Char) (fragment : Option (List Char)) : List Char :=
  let path := "local-media/".toList ++ hash ++ '/' :: filename
  (if format = "org".toList then "file:".toList ++ path else path) ++ fragment.getD []

/-- What `jaunder--pull-media-url-parts` finds in an eligible URL. Its last segment is the canonical
encoding of the leaf. -/
structure MediaUrl where
  key : List Char
  hash : List Char
  leaf : List Char
  encoded : List Char
  sha256 : isSha256 hash = true
  canonical : encoded = encodeFilename leaf

/-- `jaunder--pull-media-add-candidate`, for a URL that is eligible. -/
def addCandidate (format : List Char) (table : List Reference) (candidate : MediaUrl × Replacement) :
    List Reference :=
  let (media, replacement) := candidate
  if table.any (fun reference ↦ reference.url = media.key) then
    table.map (fun reference ↦
      if reference.url = media.key then
        { reference with replacements := reference.replacements ++ [replacement] }
      else reference)
  else
    table ++ [⟨media.key, media.hash, media.leaf,
      mediaTarget format media.hash media.encoded none, [replacement]⟩]

def isPlanned (format : List Char) (reference : Reference) : Prop :=
  isSha256 reference.hash = true ∧
    reference.target = mediaTarget format reference.hash (encodeFilename reference.leaf) none

/-- A plan whose references stand for Local Media Copies. -/
structure LocalizationPlan extends Plan where
  planned : ∀ reference ∈ references, isPlanned format reference

theorem isPlanned_addCandidate {format : List Char} {table : List Reference}
    (h : ∀ reference ∈ table, isPlanned format reference) (candidate : MediaUrl × Replacement) :
    ∀ reference ∈ addCandidate format table candidate, isPlanned format reference := by
  obtain ⟨media, replacement⟩ := candidate
  intro reference hmem
  unfold addCandidate at hmem
  dsimp only at hmem
  split at hmem
  · obtain ⟨old, hold, rfl⟩ := List.mem_map.mp hmem
    split
    · exact h old hold
    · exact h old hold
  · rcases List.mem_append.mp hmem with hold | hnew
    · exact h reference hold
    · rw [List.mem_singleton.mp hnew]
      exact ⟨media.sha256, by rw [media.canonical]⟩

theorem isPlanned_foldl {format : List Char} (candidates : List (MediaUrl × Replacement))
    {table : List Reference} (h : ∀ reference ∈ table, isPlanned format reference) :
    ∀ reference ∈ candidates.foldl (addCandidate format) table, isPlanned format reference := by
  induction candidates generalizing table with
  | nil => exact h
  | cons candidate candidates ih => exact ih (isPlanned_addCandidate h candidate)

/-- `string-lessp`. -/
def stringLessp : List Char → List Char → Bool
  | _, [] => false
  | [], _ :: _ => true
  | c :: s, d :: t => c.toNat < d.toNat ∨ (c = d ∧ stringLessp s t = true)

/-- `jaunder--pull-media-plan`, for the eligible URLs that a scanner of the format has found. -/
def planMedia (format body : List Char) (candidates : List (MediaUrl × Replacement)) :
    LocalizationPlan where
  format := format
  body := body
  references := (candidates.foldl (addCandidate format) []).insertionSort
    (fun a b ↦ stringLessp b.url a.url = false)
  planned reference hmem := isPlanned_foldl candidates (fun _ h ↦ absurd h List.not_mem_nil) reference
    ((List.mem_insertionSort _).mp hmem)

def outOfRange : Signal := .error "args-out-of-range"

def substring (body : List Char) (start stop : ℕ) : Except Signal (List Char) :=
  if start ≤ stop ∧ stop ≤ body.length then .ok ((body.take stop).drop start) else .error outOfRange

def replacementText (reference : Reference) (replacement : Replacement) : List Char :=
  let target := reference.target ++ replacement.fragment.getD []
  match replacement.label with
  | some label => '[' :: label ++ "](".toList ++ target ++ [')']
  | none => target

def applyFrom (body : List Char) : ℕ → List (ℕ × ℕ × List Char) → Except Signal (List Char)
  | position, [] => substring body position body.length
  | position, (start, stop, text) :: replacements => do
    let before ← substring body position start
    let after ← applyFrom body stop replacements
    return before ++ text ++ after

def applyPlan (plan : Plan) : Except Signal (List Char) :=
  let replacements := plan.references.flatMap (fun reference ↦ reference.replacements.map
    (fun replacement ↦ (replacement.start, replacement.stop, replacementText reference replacement)))
  applyFrom plan.body 0 (replacements.insertionSort (fun a b ↦ a.1 ≤ b.1))

def originalForHash (proof : OriginalProof) (hash : List Char) : Option OriginalDestination :=
  match proof.filter (fun original ↦ original.hash = hash) with
  | [original] => some original
  | _ => none

end Planning

structure Response where
  status : ℕ
  headers : List (List Char × List Char)
  body : Bytes

/-- The other processes and the server, and how the client hashes bytes. -/
structure Surroundings extends Others where
  respond : ℕ → List Char → Option Response
  temporaryFileDirectory : Path
  sha256 : Bytes → List Char

abbrev Step (α : Type) : Type := Procedure World Signal α

def complain (message : String) (argument : List Char) : Step Unit :=
  Procedure.signal (.error (message ++ String.ofList argument))

def fileName (path : Path) : List Char := path.flatMap ('/' :: ·)

def both (p q : Step Bool) : Step Bool := do
  if ← p then q else return false

def either (p q : Step Bool) : Step Bool := do
  if ← p then return true else q

def negated (p : Step Bool) : Step Bool := do
  return !(← p)

/-- `unless` with an error. -/
def insist (test : Step Bool) (message : String) (argument : List Char) : Step Unit := do
  if ← test then pure () else complain message argument

def insistOn (condition : Bool) (message : String) (argument : List Char) : Step Unit :=
  if condition then pure () else complain message argument

def ofExcept {α : Type} (result : Except Signal α) : Step α :=
  match result with
  | .ok a => return a
  | .error e => Procedure.signal e

section Downloads

variable (s : Surroundings)

def ensureComponent (directory : Path) : Step Unit := do
  if ← fileSymlinkP s.toOthers directory then
    complain "jaunder pull media: refusing symlink directory: " (fileName directory)
  else if ← fileExistsP s.toOthers directory then
    insist (fileDirectoryP s.toOthers directory)
      "jaunder pull media: non-directory path component: " (fileName directory)
  else makeDirectory s.toOthers directory

def ensureDirectory (directory : Path) : Step Unit := do
  ensureComponent s directory
  insist (fileWritableP s.toOthers directory) "jaunder pull media: unwritable directory: "
    (fileName directory)

/-- The place of a Local Media Copy. -/
def localCopy (root : Path) (hash leaf : List Char) : Path :=
  root ++ ["local-media".toList, hash, leaf]

def fallbackPath (root : Path) (hash leaf : List Char) : Step Path := do
  insistOn (isSha256 hash) "jaunder pull media: invalid planned hash: " hash
  insistOn (safeLeaf leaf) "jaunder pull media: invalid decoded filename: " leaf
  return localCopy root hash leaf

def targetPath (root : Path) (hash leaf : List Char) : Step Path := do
  let target ← fallbackPath root hash leaf
  let digest := target.dropLast
  let media := digest.dropLast
  ensureDirectory s media.dropLast
  ensureDirectory s media
  ensureDirectory s digest
  return target

def fileSha256 (path : Path) : Step (List Char) := do
  return s.sha256 (← insertFileContentsLiterally s.toOthers path)

def verifiedFileP (path : Path) (hash : List Char) : Step Bool :=
  both (negated (fileSymlinkP s.toOthers path))
    (both (fileRegularP s.toOthers path) (do return (← fileSha256 s path) = hash))

def requireExistingCopy (path : Path) (hash : List Char) : Step Unit :=
  insist (verifiedFileP s path hash) "jaunder pull media: existing copy is unsafe or corrupt: "
    (fileName path)

def headerValues (headers : List (List Char × List Char)) (name : List Char) : List (List Char) :=
  (headers.filter (fun header ↦ header.1.map Char.toLower = name.map Char.toLower)).map Prod.snd

def isInstanceId (text : List Char) : Bool :=
  (text.splitOn '-').map List.length = [8, 4, 4, 4, 12] ∧
    (text.splitOn '-').all (fun group ↦ group.all isLowerHex)

def plz (url : List Char) : Step Response := fun w ↦
  (match s.respond w.clock url with
    | some response => .ok response
    | none => .error (.error "plz-error"), w.settle s.toOthers)

/-- `jaunder--pull-media-get`, which answers with the status and the headers. -/
def mediaGet (url : List Char) (destination : Path) : Step (ℕ × List (List Char × List Char)) := do
  insist (both (fileExistsP s.toOthers destination)
      (both (negated (fileSymlinkP s.toOthers destination)) (fileRegularP s.toOthers destination)))
    "jaunder pull media: temporary destination is not a regular file: " (fileName destination)
  let response ← plz s url
  writeRegion s.toOthers response.body destination
  return (response.status, response.headers)

def validateResponse (response : ℕ × List (List Char × List Char)) (instanceId hash : List Char)
    (temporary : Path) : Step Unit := do
  insistOn (response.1 = 200) "jaunder pull media: expected direct 200, got "
    (toString response.1).toList
  let instances := headerValues response.2 "x-jaunder-instance".toList
  let etags := headerValues response.2 "etag".toList
  insistOn (isInstanceId instanceId ∧ instances = [instanceId])
    "jaunder pull media: media response has invalid instance identity" []
  insistOn (isSha256 hash ∧ etags = ["\"sha256-".toList ++ hash ++ ['"']])
    "jaunder pull media: media response ETag disagrees with URL hash" []
  insist (do return (← fileSha256 s temporary) = hash)
    "jaunder pull media: downloaded bytes disagree with URL hash" []

def temporaryPath (target : Path) : Step Path :=
  makeTempFile s.toOthers target.dropLast ".jaunder-media-".toList

/-- A temporary that cannot be removed only calls for a warning. -/
def cleanTemporary (temporary : Path) : Step Unit := do
  if ← fileExistsP s.toOthers temporary then
    (deleteFile s.toOthers temporary).handle (fun _ ↦ pure ())
  else pure ()

def fetchVerifiedBytes (url instanceId hash : List Char) : Step Bytes := do
  let temporary ← makeTempFile s.toOthers s.temporaryFileDirectory "jaunder-media-".toList
  Procedure.withCleanup
    (do
      let response ← mediaGet s url temporary
      validateResponse s response instanceId hash temporary
      insertFileContentsLiterally s.toOthers temporary)
    (cleanTemporary s temporary)

end Downloads

section Staging

variable (s : Surroundings) (root : Path) (instanceId : List Char) (proof : Option OriginalProof)

def referenceKey (hash leaf : List Char) : List Char := hash ++ Char.ofNat 0 :: leaf

def originalOf (hash : List Char) : Option OriginalDestination :=
  proof.bind (fun originals ↦ originalForHash originals hash)

/-- A reference names its original when there is one. -/
def stagedReference (reference : Reference) : Reference :=
  { reference with target := ((originalOf proof reference.hash).map
      OriginalDestination.spelling).getD reference.target }

def stageEach : List (List Char) → List Reference →
    Step (List Reference × List Reuse × List Fallback)
  | _, [] => return ([], [], [])
  | seen, reference :: references => do
    let hash := reference.hash
    let leaf := reference.leaf
    let key := referenceKey hash leaf
    let staged := stagedReference proof reference
    if seen.any (fun k ↦ k = key) then
      let (others, reuses, fallbacks) ← stageEach seen references
      return (staged :: others, reuses, fallbacks)
    else match originalOf proof hash with
      | some original => do
        let target ← fallbackPath root hash leaf
        let bytes ← fetchVerifiedBytes s reference.url instanceId hash
        let (others, reuses, fallbacks) ← stageEach (key :: seen) references
        return (staged :: others, ⟨original, ⟨hash, leaf, target, reference.target, bytes⟩⟩ :: reuses,
          fallbacks)
      | none => do
        let target ← targetPath s root hash leaf
        if ← either (fileExistsP s.toOthers target) (fileSymlinkP s.toOthers target) then
          requireExistingCopy s target hash
          let (others, reuses, fallbacks) ← stageEach (key :: seen) references
          return (staged :: others, reuses, fallbacks)
        else
          let bytes ← fetchVerifiedBytes s reference.url instanceId hash
          let (others, reuses, fallbacks) ← stageEach (key :: seen) references
          return (staged :: others, reuses, ⟨hash, leaf, target, reference.target, bytes⟩ :: fallbacks)

def stageMedia (plan : Plan) : Step Staged := do
  insistOn (isInstanceId instanceId) "jaunder pull media: Member instance identity is not canonical" []
  let (references, reuses, fallbacks) ← stageEach s root instanceId proof [] plan.references
  return ⟨{ plan with references := references }, reuses, fallbacks⟩

end Staging

section Installation

variable (s : Surroundings) (root : Path)

structure Copy where
  temporary : Path
  target : Path
  hash : List Char
  leaf : List Char

def stageFallback (fallback : Fallback) : Procedure (List Copy × World) Signal Unit := do
  let hash := fallback.hash
  let leaf := fallback.leaf
  let target ← Procedure.lift (targetPath s root hash leaf)
  Procedure.lift (insistOn (target = fallback.target)
    "jaunder pull media: target changed during installation: " (fileName target))
  if ← Procedure.lift (either (fileExistsP s.toOthers target) (fileSymlinkP s.toOthers target)) then
    Procedure.lift (requireExistingCopy s target hash)
  else do
    let temporary ← Procedure.lift (temporaryPath s target)
    Procedure.modify (⟨temporary, target, hash, leaf⟩ :: ·)
    Procedure.lift (writeRegion s.toOthers fallback.bytes temporary)
    Procedure.lift (insist (verifiedFileP s temporary hash)
      "jaunder pull media: staged bytes disagree with URL hash" [])

def installCopy (copy : Copy) : Step Unit := do
  let target ← targetPath s root copy.hash copy.leaf
  insistOn (copy.target = target) "jaunder pull media: target changed during installation: "
    (fileName copy.target)
  (renameFile s.toOthers copy.temporary copy.target).handle (fun
    | .fileAlreadyExists => requireExistingCopy s copy.target copy.hash
    | .fileError => do
      if ← either (fileExistsP s.toOthers copy.target) (fileSymlinkP s.toOthers copy.target) then
        requireExistingCopy s copy.target copy.hash
      else Procedure.signal .fileError
    | e => Procedure.signal e)

def finalizeStaged (staged : Staged) : Step Unit :=
  Procedure.unwindProtect []
    (do
      Procedure.forEach (stageFallback s root) staged.fallbacks
      let temporaries ← Procedure.get
      Procedure.lift (Procedure.forEach (installCopy s root) temporaries.reverse))
    (fun temporaries ↦ Procedure.forEach (fun copy ↦ cleanTemporary s copy.temporary) temporaries)

end Installation

section Reconciliation

variable (s : Surroundings) (root : Path)

def rejectedFallback (rejected : List Reuse) (reference : Reference) : Option Fallback :=
  (rejected.map Reuse.fallback).reverse.find?
    (fun fallback ↦ fallback.hash = reference.hash ∧ fallback.leaf = reference.leaf)

def withReuseFallbacks (staged : Staged) (rejected : List Reuse) : Staged where
  plan := { staged.plan with
    references := staged.plan.references.map (fun reference ↦
      match rejectedFallback rejected reference with
      | some fallback => { reference with target := fallback.nativeTarget }
      | none => reference) }
  reuses := staged.reuses.filter (fun reuse ↦ reuse ∉ rejected)
  fallbacks := staged.fallbacks ++ rejected.map Reuse.fallback

def stagedWithReuseFallbacks (staged : Staged) (rejected : List Reuse) : Except Signal Staged :=
  if ∀ reuse ∈ rejected, reuse ∈ staged.reuses then .ok (withReuseFallbacks staged rejected)
  else .error (.error "jaunder pull media: rejected reuse does not belong to staged media")

/-- `file-relative-name`, split at the slashes. -/
def relativeParts : Path → Path → List (List Char)
  | c :: root, c' :: path =>
    if c = c' then relativeParts root path
    else (c :: root).map (fun _ ↦ ['.', '.']) ++ c' :: path
  | root, path => root.map (fun _ ↦ ['.', '.']) ++ path

def expandFileName (part : List Char) (directory : Path) : Path :=
  if part = ['.', '.'] then directory.dropLast else directory ++ [part]

def safeDirectory (component : Path) : Step Bool :=
  both (negated (fileSymlinkP s.toOthers component))
    (both (fileAttributes s.toOthers component) (fileDirectoryP s.toOthers component))

/-- The directories on the way to a path, of which the last part is left out. -/
def safeDirectories : Path → List (List Char) → Step Bool
  | component, part :: next :: parts =>
    both (safeDirectory s (expandFileName part component))
      (safeDirectories (expandFileName part component) (next :: parts))
  | _, _ => return true

def originalSafeRegularP (path : Path) : Step Bool :=
  both (fileInDirectoryP s.toOthers path root)
    (both (negated (fileSymlinkP s.toOthers path))
      (both (fileAttributes s.toOthers path)
        (both (safeDirectory s root)
          (both (safeDirectories s root (relativeParts root path))
            (both (fileRegularP s.toOthers path) (fileReadableP s.toOthers path))))))

def reuseStillEligibleP (reuse : Reuse) : Step Bool :=
  let original := reuse.original
  both (originalSafeRegularP s root original.sourcePath)
    (both (originalSafeRegularP s root original.finalPath)
      (both (do return original.hash = (← fileSha256 s original.sourcePath))
        (do return original.hash = (← fileSha256 s original.finalPath))))

def rejectedReuses : (reuses : List Reuse) → Step { rejected : List Reuse // rejected.Sublist reuses }
  | [] => return ⟨[], .slnil⟩
  | reuse :: reuses => do
    let eligible ← reuseStillEligibleP s root reuse
    let ⟨rejected, hrejected⟩ ← rejectedReuses reuses
    if eligible then return ⟨rejected, hrejected.cons reuse⟩
    else return ⟨reuse :: rejected, hrejected.cons_cons reuse⟩

theorem length_stagedWithReuseFallbacks {media media' : Staged} {rejected : List Reuse}
    (hrejected : rejected ≠ []) (h : stagedWithReuseFallbacks media rejected = .ok media') :
    media'.reuses.length < media.reuses.length := by
  unfold stagedWithReuseFallbacks at h
  split at h
  · rename_i hsub
    cases h
    obtain ⟨reuse, hreuse⟩ := List.exists_mem_of_ne_nil rejected hrejected
    refine List.length_filter_lt_length_iff_exists.mpr ⟨reuse, hsub reuse hreuse, ?_⟩
    rw [decide_eq_true_iff, not_not]
    exact hreuse
  · cases h

/-- Every pass that rejects a reuse installs its copy and checks the others again. -/
def settleReuses (media : Staged) : Step Staged := do
  let ⟨rejected, _⟩ ← rejectedReuses s root media.reuses
  if _ : rejected = [] then return media
  else match _hmedia : stagedWithReuseFallbacks media rejected with
    | .error e => Procedure.signal e
    | .ok media' => do
      finalizeStaged s root media'
      settleReuses media'
termination_by media.reuses.length
decreasing_by exact length_stagedWithReuseFallbacks ‹_› ‹_›

/-- A pulled Member on its way to its file. -/
structure StagedMember (μ : Type) where
  mediaStaged : Option Staged
  pulledMember : μ
  bytes : List Char

variable {μ : Type} (renderPulledMember : μ → List Char → List Char)

def materialize (instanceId : List Char) (plan : Plan) : Step Unit := do
  finalizeStaged s root (← stageMedia s root instanceId none plan)

def stageProved (instanceId : List Char) (proof : Option OriginalProof) (plan : Plan) :
    Step (Option Staged) :=
  match proof with
  | some _ => do
    let staged ← stageMedia s root instanceId proof plan
    return some staged
  | none => do
    materialize s root instanceId plan
    return none

/-- The part of `jaunder--pull-stage-member` behind the plan. -/
def pullStageMember (instanceId : List Char) (proof : Option OriginalProof) (plan : Plan)
    (pulledMember : μ) : Step (StagedMember μ) := do
  let mediaStaged ← stageProved s root instanceId proof plan
  let body ← ofExcept (applyPlan ((mediaStaged.map Staged.plan).getD plan))
  return ⟨mediaStaged, pulledMember, renderPulledMember pulledMember body⟩

/-- `jaunder--reconcile-finalize-staged-media`. -/
def finalizeStagedMedia (staged : StagedMember μ) : Step (StagedMember μ) :=
  match staged.mediaStaged with
  | none => return staged
  | some media => do
    finalizeStaged s root media
    let media ← settleReuses s root media
    let body ← ofExcept (applyPlan media.plan)
    return ⟨some media, staged.pulledMember, renderPulledMember staged.pulledMember body⟩

def stageAndFinalize (instanceId : List Char) (proof : Option OriginalProof) (plan : Plan)
    (pulledMember : μ) : Step (StagedMember μ) := do
  finalizeStagedMedia s root renderPulledMember
    (← pullStageMember s root renderPulledMember instanceId proof plan pulledMember)

end Reconciliation

end Jaunder.Elisp.StagedMedia
