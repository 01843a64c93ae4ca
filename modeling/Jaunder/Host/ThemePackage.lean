import Jaunder.Common.Hash
import Jaunder.Common.Owned
import Jaunder.Foundation.SelfDelimiting

namespace Jaunder.Host.ThemePackage

open Foundation.SelfDelimiting
open Jaunder.Common.Hash Jaunder.Common.Owned

inductive AssetMime
  | woff2
  | png
  | jpeg
  | webp
  | avif
deriving DecidableEq

def AssetMime.asStr : AssetMime → String
  | .woff2 => "font/woff2"
  | .png => "image/png"
  | .jpeg => "image/jpeg"
  | .webp => "image/webp"
  | .avif => "image/avif"

structure ThemeAsset where
  mime : AssetMime
  bytes : Vec UInt8

/-- A validated source package; the assets are in the order of their paths. -/
structure ValidatedThemePackage where
  manifest : Vec UInt8
  css : Vec UInt8
  assets : Vec (Text × ThemeAsset)
  ordered : assets.toList.Pairwise (fun a b ↦ a.1.value < b.1.value)

def sourceDomain : List UInt8 := "jaunder-theme-source-v1".toUTF8.data.toList

def revisionDomain : List UInt8 := "jaunder-theme-revision-v1".toUTF8.data.toList

def frame (bytes : List UInt8) : List UInt8 := lengthPrefixed 8 bytes

def AssetMime.bytes (mime : AssetMime) : List UInt8 := mime.asStr.toUTF8.data.toList

def frameAsset (asset : Text × ThemeAsset) : List UInt8 :=
  frame asset.1.bytes ++ frame asset.2.mime.bytes ++ frame asset.2.bytes.toList

/-- What `source_digest` feeds to its hasher. -/
def sourcePreimage (package : ValidatedThemePackage) : List UInt8 :=
  sourceDomain ++ beBytes 8 package.assets.toList.length ++ frame package.manifest.toList ++
    frame package.css.toList ++ package.assets.toList.flatMap frameAsset

/-- A package with the stylesheet that its compilation gave. -/
structure CompiledThemeRevision where
  package : ValidatedThemePackage
  css : Vec UInt8

structure CompiledThemeContent where
  mime : String
  bytes : Vec UInt8

def ThemeAsset.content (asset : ThemeAsset) : CompiledThemeContent :=
  ⟨asset.mime.asStr, asset.bytes⟩

def CompiledThemeRevision.stylesheetContent (compiled : CompiledThemeRevision) :
    CompiledThemeContent :=
  ⟨"text/css; charset=utf-8", compiled.css⟩

/-- The stylesheet and then the assets, in the order of their paths. -/
def CompiledThemeRevision.contents (compiled : CompiledThemeRevision) :
    List CompiledThemeContent :=
  compiled.stylesheetContent :: compiled.package.assets.toList.map (fun a ↦ a.2.content)

def nibble (c : Char) : ℕ := if c ≤ '9' then c.toNat - 48 else c.toNat - 87

def pairs : List Char → List UInt8
  | a :: b :: rest => UInt8.ofNat (16 * nibble a + nibble b) :: pairs rest
  | _ => []

/-- The 32 bytes that a digest spells. -/
def digestBytes (digest : ContentHash) : List UInt8 := pairs digest.value.toList

section Digests

variable (sha256 : List UInt8 → ContentHash)

def CompiledThemeContent.digest (content : CompiledThemeContent) : ContentHash :=
  sha256 content.bytes.toList

def ValidatedThemePackage.sourceDigest (package : ValidatedThemePackage) : ContentHash :=
  sha256 (sourcePreimage package)

def revisionPreimage (compiled : CompiledThemeRevision) : List UInt8 :=
  revisionDomain ++ beBytes 8 compiled.package.assets.toList.length ++
    frame compiled.package.manifest.toList ++
    digestBytes (compiled.stylesheetContent.digest sha256) ++
    compiled.package.assets.toList.flatMap (fun a ↦
      frame a.1.bytes ++ frame a.2.mime.bytes ++ digestBytes (a.2.content.digest sha256))

def CompiledThemeRevision.revisionDigest (compiled : CompiledThemeRevision) : ContentHash :=
  sha256 (revisionPreimage sha256 compiled)

end Digests

/-- The bytes of the source. -/
def ValidatedThemePackage.size (package : ValidatedThemePackage) : ℕ :=
  package.manifest.toList.length + package.css.toList.length +
    (package.assets.toList.map (fun a ↦ a.2.bytes.toList.length)).sum

theorem delimits_frame {α : Type} {enc : α → List UInt8} (h : ∀ x, (enc x).length < 2 ^ 63) :
    Delimits (fun x ↦ frame (enc x)) enc :=
  delimits_lengthPrefixed (fun x ↦ (h x).trans_le (by norm_num))

theorem AssetMime.bytes_length_lt (mime : AssetMime) : mime.bytes.length < 2 ^ 63 := by
  cases mime <;> decide +kernel

theorem delimits_frameAsset : Delimits frameAsset (fun a ↦ a.2.bytes.toList.length) := by
  have hpath : Delimits (fun a : Text × ThemeAsset ↦ frame a.1.bytes) (fun a ↦ a.1.bytes) :=
    delimits_frame (fun a ↦ a.1.bytes_length_lt)
  have hmime : Delimits (fun a : Text × ThemeAsset ↦ frame a.2.mime.bytes) (fun a ↦ a.2.mime.bytes) :=
    delimits_frame (fun a ↦ a.2.mime.bytes_length_lt)
  have hbytes : Delimits (fun a : Text × ThemeAsset ↦ frame a.2.bytes.toList)
      (fun a ↦ a.2.bytes.toList) :=
    delimits_frame (fun a ↦ a.2.bytes.fits)
  refine ((hpath.append hmime).append hbytes).of_key (fun a b hkey ↦ ?_)
  exact congrArg List.length (Prod.mk.inj hkey).2

/-- The framing leaves no choice of the sizes. -/
theorem sourcePreimage_size {p q : ValidatedThemePackage}
    (h : sourcePreimage p = sourcePreimage q) : p.size = q.size := by
  have hbytes : Delimits (fun v : Vec UInt8 ↦ frame v.toList) Vec.toList :=
    delimits_frame Vec.fits
  unfold sourcePreimage at h
  simp only [List.append_assoc] at h
  have hdomain := List.append_cancel_left h
  obtain ⟨hcount, hrest⟩ := beBytes_append_inj (p.assets.fits.trans (by norm_num))
    (q.assets.fits.trans (by norm_num)) hdomain
  obtain ⟨hmanifest, hrest⟩ := hbytes hrest
  obtain ⟨hcss, hrest⟩ := hbytes hrest
  have hassets := (delimits_frameAsset.flatMap hcount (u := []) (v := [])
    (by rw [List.append_nil, List.append_nil]; exact hrest)).1
  unfold ValidatedThemePackage.size
  rw [hmanifest, hcss, hassets]

theorem AssetMime.bytes_inj {a b : AssetMime} (h : a.bytes = b.bytes) : a = b := by
  cases a <;> cases b <;> first | rfl | exact absurd h (by decide +kernel)

theorem delimits_path : Delimits (fun a : Text × ThemeAsset ↦ frame a.1.bytes) (fun a ↦ a.1) :=
  (delimits_frame (fun a ↦ a.1.bytes_length_lt)).of_key fun _ _ h ↦ Text.bytes_inj h

theorem delimits_mime :
    Delimits (fun a : Text × ThemeAsset ↦ frame a.2.mime.bytes) (fun a ↦ a.2.mime) :=
  (delimits_frame (fun a ↦ a.2.mime.bytes_length_lt)).of_key fun _ _ h ↦ AssetMime.bytes_inj h

/-- A framed asset is told from every other one, whatever its bytes are. -/
theorem delimits_asset : Delimits frameAsset id := by
  have hbytes : Delimits (fun a : Text × ThemeAsset ↦ frame a.2.bytes.toList)
      (fun a ↦ a.2.bytes) :=
    (delimits_frame (fun a ↦ a.2.bytes.fits)).of_key fun _ _ h ↦ Vec.ext h
  refine ((delimits_path.append delimits_mime).append hbytes).of_key fun a b hkey ↦ ?_
  obtain ⟨hpath, hbytes⟩ := Prod.mk.inj hkey
  obtain ⟨hpath, hmime⟩ := Prod.mk.inj hpath
  obtain ⟨path, mime, bytes⟩ := a
  cases hpath
  cases hmime
  cases hbytes
  rfl

theorem delimits_vec : Delimits (fun v : Vec UInt8 ↦ frame v.toList) id :=
  (delimits_frame Vec.fits).of_key fun _ _ h ↦ Vec.ext h

/-- The source digest hashes one byte sequence for every manifest, stylesheet and asset map. -/
theorem sourcePreimage_inj {p q : ValidatedThemePackage} :
    sourcePreimage p = sourcePreimage q ↔
      p.manifest = q.manifest ∧ p.css = q.css ∧ p.assets = q.assets := by
  constructor
  · intro h
    unfold sourcePreimage at h
    simp only [List.append_assoc] at h
    obtain ⟨hcount, hrest⟩ := beBytes_append_inj (p.assets.fits.trans (by norm_num))
      (q.assets.fits.trans (by norm_num)) (List.append_cancel_left h)
    obtain ⟨hmanifest, hrest⟩ := delimits_vec hrest
    obtain ⟨hcss, hrest⟩ := delimits_vec hrest
    have hassets := (delimits_asset.flatMap hcount (u := []) (v := [])
      (by rw [List.append_nil, List.append_nil]; exact hrest)).1
    rw [List.map_id, List.map_id] at hassets
    exact ⟨hmanifest, hcss, Vec.ext hassets⟩
  · rintro ⟨hmanifest, hcss, hassets⟩
    rw [sourcePreimage, sourcePreimage, hmanifest, hcss, hassets]

section HexDigits

theorem nibble_inj {c d : Char} (hc : isLowerHex c = true) (hd : isLowerHex d = true)
    (h : nibble c = nibble d) : c = d := by
  have hall : ∀ n < 128, isLowerHex (Char.ofNat n) = true →
      Char.ofNat n = if nibble (Char.ofNat n) < 10 then Char.ofNat (48 + nibble (Char.ofNat n))
        else Char.ofNat (87 + nibble (Char.ofNat n)) := by decide +kernel
  have hascii {c : Char} (hc : isLowerHex c = true) : c.toNat < 128 := by
    rcases of_decide_eq_true hc with ⟨-, hle⟩ | ⟨-, hle⟩
    · exact (show c.toNat ≤ '9'.toNat from hle).trans_lt (by decide)
    · exact (show c.toNat ≤ 'f'.toNat from hle).trans_lt (by decide)
  have hc' := hall c.toNat (hascii hc)
  have hd' := hall d.toNat (hascii hd)
  rw [Char.ofNat_toNat] at hc' hd'
  rw [hc' hc, hd' hd, h]

theorem nibble_lt {c : Char} (hc : isLowerHex c = true) : nibble c < 16 := by
  have hrange : c.toNat ≤ 57 ∧ 48 ≤ c.toNat ∨ c.toNat ≤ 102 ∧ 97 ≤ c.toNat :=
    (of_decide_eq_true hc).imp (fun h ↦ ⟨h.2, h.1⟩) (fun h ↦ ⟨h.2, h.1⟩)
  unfold nibble
  split <;> rename_i hle
  · have hle' : c.toNat ≤ 57 := hle
    omega
  · have hle' : ¬c.toNat ≤ 57 := hle
    omega

theorem pairs_inj : ∀ {s t : List Char}, s.all isLowerHex = true → t.all isLowerHex = true →
    s.length = t.length → s.length % 2 = 0 → pairs s = pairs t → s = t
  | [], t, _, _, hlen, _, _ => (List.length_eq_zero_iff.mp hlen.symm).symm
  | [_], _, _, _, _, heven, _ => absurd (show 1 % 2 = 0 from heven) (by decide)
  | a :: b :: s, [], _, _, hlen, _, _ => absurd hlen (Nat.succ_ne_zero _)
  | a :: b :: s, [_], _, _, hlen, _, _ => absurd (Nat.succ.inj hlen) (Nat.succ_ne_zero _)
  | a :: b :: s, c :: d :: t, hs, ht, hlen, heven, h => by
    simp only [List.all_cons, Bool.and_eq_true] at hs ht
    simp only [List.length_cons] at hlen heven
    obtain ⟨hhead, htail⟩ := List.cons.inj h
    have hmod := uint8_ofNat_inj hhead
    have ha := nibble_lt hs.1
    have hb := nibble_lt hs.2.1
    have hc := nibble_lt ht.1
    have hd := nibble_lt ht.2.1
    have hhigh : nibble a = nibble c := by omega
    have hlow : nibble b = nibble d := by omega
    rw [nibble_inj hs.1 ht.1 hhigh, nibble_inj hs.2.1 ht.2.1 hlow,
      pairs_inj hs.2.2 ht.2.2 (by omega) (by omega) htail]

theorem length_pairs : ∀ s : List Char, (pairs s).length = s.length / 2
  | [] => rfl
  | [_] => (Nat.div_eq_of_lt Nat.one_lt_two).symm
  | a :: b :: s => by
    rw [pairs, List.length_cons, length_pairs s, List.length_cons, List.length_cons]
    omega

theorem delimits_digestBytes : Delimits digestBytes id := by
  have hlength : ∀ digest : ContentHash, (digestBytes digest).length = 32 := by
    intro digest
    rw [digestBytes, length_pairs, digest.canonical.1]
  refine (delimits_of_length hlength).of_key fun a b h ↦ ?_
  have hchars := pairs_inj a.canonical.2 b.canonical.2
    (a.canonical.1.trans b.canonical.1.symm) (by rw [a.canonical.1]) h
  obtain ⟨a, ha⟩ := a
  obtain ⟨b, hb⟩ := b
  obtain rfl := String.toList_inj.mp hchars
  rfl

end HexDigits

section Revisions

variable {sha256 : List UInt8 → ContentHash} {a b : CompiledThemeRevision}

def frameDigest (sha256 : List UInt8 → ContentHash) (asset : Text × ThemeAsset) : List UInt8 :=
  frame asset.1.bytes ++ frame asset.2.mime.bytes ++ digestBytes (asset.2.content.digest sha256)

/-- An asset as the revision digest sees it. -/
def assetIdentity (sha256 : List UInt8 → ContentHash) (asset : Text × ThemeAsset) :
    Text × AssetMime × ContentHash :=
  (asset.1, asset.2.mime, asset.2.content.digest sha256)

/-- The revision digest hashes one byte sequence for every manifest, stylesheet digest and map of
asset digests. -/
theorem revisionPreimage_inj : revisionPreimage sha256 a = revisionPreimage sha256 b ↔
    a.package.manifest = b.package.manifest ∧
      a.stylesheetContent.digest sha256 = b.stylesheetContent.digest sha256 ∧
      a.package.assets.toList.map (assetIdentity sha256) =
        b.package.assets.toList.map (assetIdentity sha256) := by
  have hasset : Delimits (frameDigest sha256) (assetIdentity sha256) := by
    have hdigest := delimits_digestBytes.comp
      (fun a : Text × ThemeAsset ↦ a.2.content.digest sha256)
    refine ((delimits_path.append delimits_mime).append hdigest).of_key fun a b hkey ↦ ?_
    obtain ⟨hpath, hdigest⟩ := Prod.mk.inj hkey
    obtain ⟨hpath, hmime⟩ := Prod.mk.inj hpath
    exact Prod.ext hpath (Prod.ext hmime hdigest)
  have hparts (c : CompiledThemeRevision) : revisionPreimage sha256 c = revisionDomain ++
      (beBytes 8 c.package.assets.toList.length ++ (frame c.package.manifest.toList ++
        (digestBytes (c.stylesheetContent.digest sha256) ++
          c.package.assets.toList.flatMap (frameDigest sha256)))) := by
    rw [revisionPreimage, List.append_assoc, List.append_assoc, List.append_assoc]
    rfl
  rw [hparts, hparts]
  constructor
  · intro h
    obtain ⟨hcount, hrest⟩ := beBytes_append_inj (a.package.assets.fits.trans (by norm_num))
      (b.package.assets.fits.trans (by norm_num)) (List.append_cancel_left h)
    obtain ⟨hmanifest, hrest⟩ := delimits_vec hrest
    obtain ⟨hcss, hrest⟩ := delimits_digestBytes hrest
    have hassets := (hasset.flatMap hcount (u := []) (v := [])
      (by rw [List.append_nil, List.append_nil]; exact hrest)).1
    exact ⟨hmanifest, hcss, hassets⟩
  · rintro ⟨hmanifest, hcss, hassets⟩
    have hcount := congrArg List.length hassets
    rw [List.length_map, List.length_map] at hcount
    have hframe : ∀ x y, assetIdentity sha256 x = assetIdentity sha256 y →
        frameDigest sha256 x = frameDigest sha256 y := by
      intro x y hkey
      obtain ⟨hpath, hrest⟩ := Prod.mk.inj hkey
      obtain ⟨hmime, hdigest⟩ := Prod.mk.inj hrest
      rw [frameDigest, frameDigest, hpath, hmime, hdigest]
    rw [hcount, hmanifest, hcss, flatMap_eq_of_map_key_eq hframe hassets]

/-- Where no two assets collide, equal digests are equal assets. -/
theorem map_assetIdentity_inj
    (h : ∀ x ∈ a.package.assets.toList, ∀ y ∈ b.package.assets.toList,
      sha256 x.2.bytes.toList = sha256 y.2.bytes.toList → x.2.bytes = y.2.bytes) :
    a.package.assets.toList.map (assetIdentity sha256) =
        b.package.assets.toList.map (assetIdentity sha256) ↔
      a.package.assets = b.package.assets := by
  refine ⟨fun heq ↦ Vec.ext ?_, fun heq ↦ by rw [heq]⟩
  generalize a.package.assets.toList = xs at h heq
  generalize b.package.assets.toList = ys at h heq
  induction xs generalizing ys with
  | nil => exact (List.map_eq_nil_iff.mp heq.symm).symm
  | cons x xs ih =>
    cases ys with
    | nil => cases heq
    | cons y ys =>
      obtain ⟨hhead, htail⟩ := List.cons.inj heq
      obtain ⟨hpath, hrest⟩ := Prod.mk.inj hhead
      obtain ⟨hmime, hdigest⟩ := Prod.mk.inj hrest
      have hbytes := h x List.mem_cons_self y List.mem_cons_self hdigest
      have hrest' := ih ys (fun x hx y hy ↦ h x (List.mem_cons_of_mem _ hx) y
        (List.mem_cons_of_mem _ hy)) htail
      obtain ⟨path, mime, bytes⟩ := x
      cases hpath
      cases hmime
      cases hbytes
      rw [hrest']

end Revisions

end Jaunder.Host.ThemePackage
