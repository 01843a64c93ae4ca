import Mathlib.Data.List.Destutter
import Jaunder.Storage.Themes

namespace Jaunder.Storage.ThemeAssetManager

open Jaunder.Common.Hash Jaunder.Common.Owned
open Jaunder.Host.ThemePackage
open Jaunder.Storage.Themes

/-- The immutable-cache lifetime plus the freshness allowance of public documents. -/
def contentRetentionSeconds : ℤ := 31536300

structure Blob where
  digest : ContentHash
  mime : String
  bytes : Vec UInt8

def sortBlobs (blobs : List Blob) : List Blob :=
  blobs.insertionSort (fun a b ↦ a.digest.value ≤ b.digest.value)

/-- `dedup_by` on the digests. -/
def dedupBlobs (blobs : List Blob) : List Blob := blobs.destutter (fun a b ↦ a.digest ≠ b.digest)

def charge (blob : Blob) : ThemeContentCharge :=
  ⟨blob.digest, blob.bytes.toList.length, blob.bytes.toList.length⟩

section Digests

variable (sha256 : List UInt8 → ContentHash)

def blobOf (content : CompiledThemeContent) : Blob :=
  ⟨content.digest sha256, content.mime, content.bytes⟩

/-- The contents of a compiled package, one for each digest. -/
def blobs (compiled : CompiledThemeRevision) : List Blob :=
  dedupBlobs (sortBlobs (compiled.contents.map (blobOf sha256)))

def revision (themeId : ℤ) (compiled : CompiledThemeRevision) : ThemeRevision :=
  ⟨themeId, compiled.revisionDigest sha256, compiled.stylesheetContent.digest sha256,
    compiled.package.manifest⟩

def assets (compiled : CompiledThemeRevision) : List ThemePackageAsset :=
  compiled.package.assets.toList.map (fun a ↦
    ⟨a.1, a.2.content.digest sha256, a.2.content.mime⟩)

/-- What a prepared publication asks the storage to admit. -/
def admission (owner : ThemeOwner) (limits : ThemeQuotaLimits) (themeId : ℤ)
    (compiled : CompiledThemeRevision) (now : ℤ) : ThemePublicationAdmission where
  owner := owner
  limits := limits
  revision := revision sha256 themeId compiled
  assets := assets sha256 compiled
  eligibilities := (blobs sha256 compiled).map (fun b ↦ ⟨b.digest, b.mime, now⟩)
  charges := (blobs sha256 compiled).map charge

end Digests

section Blobs

variable {α κ : Type} [DecidableEq κ] {key : α → κ} {l : List α} {a x : α}

/-- Of every run of equal keys one element stays. -/
theorem key_mem_destutter (hx : x ∈ l) :
    key x ∈ (l.destutter (fun a b ↦ key a ≠ key b)).map key := by
  have hfrom : ∀ (l : List α) (a : α), ∀ x ∈ a :: l,
      key x ∈ (l.destutter' (fun a b ↦ key a ≠ key b) a).map key := by
    intro l
    induction l with
    | nil =>
      intro a x hx
      rw [List.mem_singleton.mp hx]
      exact List.mem_cons_self
    | cons b l ih =>
      intro a x hx
      rw [List.destutter'_cons]
      split_ifs with hne
      · rcases List.mem_cons.mp hx with rfl | hx
        · exact List.mem_cons_self
        · exact List.mem_cons_of_mem _ (ih b x hx)
      · have heq : key a = key b := not_not.mp hne
        rcases List.mem_cons.mp hx with rfl | hx
        · exact ih x x List.mem_cons_self
        · rcases List.mem_cons.mp hx with rfl | hx
          · rw [← heq]
            exact ih a a List.mem_cons_self
          · exact ih a x (List.mem_cons_of_mem _ hx)
  cases l with
  | nil => cases hx
  | cons a l => exact hfrom l a x hx

variable {sha256 : List UInt8 → ContentHash} {compiled : CompiledThemeRevision} {blob : Blob}
  {digest : ContentHash}

theorem mem_contentBlobs {contents : List CompiledThemeContent}
    (h : blob ∈ dedupBlobs (sortBlobs (contents.map (blobOf sha256)))) :
    ∃ content ∈ contents, blob = blobOf sha256 content := by
  have hsorted := (List.destutter_sublist _ _).subset h
  obtain ⟨content, hcontent, rfl⟩ := List.mem_map.mp ((List.mem_insertionSort _).mp hsorted)
  exact ⟨content, hcontent, rfl⟩

theorem mem_contentBlobs_digest {contents : List CompiledThemeContent} :
    digest ∈ (dedupBlobs (sortBlobs (contents.map (blobOf sha256)))).map Blob.digest ↔
      digest ∈ contents.map (CompiledThemeContent.digest sha256) := by
  constructor
  · intro h
    obtain ⟨blob, hblob, rfl⟩ := List.mem_map.mp h
    obtain ⟨content, hcontent, rfl⟩ := mem_contentBlobs hblob
    exact List.mem_map_of_mem hcontent
  · intro h
    obtain ⟨content, hcontent, rfl⟩ := List.mem_map.mp h
    exact @key_mem_destutter _ _ _ Blob.digest _ _
      ((List.mem_insertionSort _).mpr (List.mem_map_of_mem (f := blobOf sha256) hcontent))

theorem mem_blobs (h : blob ∈ blobs sha256 compiled) :
    ∃ content ∈ compiled.contents, blob = blobOf sha256 content := mem_contentBlobs h

theorem mem_blobs_digest :
    digest ∈ (blobs sha256 compiled).map Blob.digest ↔
      digest ∈ compiled.contents.map (CompiledThemeContent.digest sha256) := mem_contentBlobs_digest

/-- The rows of a revision name the digests of the compiled contents. -/
theorem retained_digests {themeId : ℤ} :
    RetainedRevision.digests ⟨revision sha256 themeId compiled, assets sha256 compiled⟩ =
      compiled.contents.map (CompiledThemeContent.digest sha256) := by
  unfold RetainedRevision.digests assets CompiledThemeRevision.contents revision
  simp only [List.map_map, List.map_cons]
  rfl

end Blobs

end Jaunder.Storage.ThemeAssetManager
