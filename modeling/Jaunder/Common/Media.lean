import Jaunder.Foundation.Octets
import Mathlib.Tactic

namespace Jaunder.Common.Media

open Foundation.Octets

/-- `MEDIA_SEGMENT_ENCODE_SET` leaves the ASCII letters and digits and `-._~` as they are. -/
def unreserved (b : UInt8) : Bool :=
  (48 ≤ b && b ≤ 57) || (65 ≤ b && b ≤ 90) || (97 ≤ b && b ≤ 122) ||
    b == 45 || b == 46 || b == 95 || b == 126

def len (s : String) : ℕ := (utf8 s.toList).length

def utf8PercentEncode (s : String) : String :=
  String.ofList (percentEncode unreserved (utf8 s.toList))

def percentDecodeLossy (s : String) : String :=
  String.ofList (decodeLossy (percentDecode (utf8 s.toList)))

/-- `Path::file_name` on Unix: empty and `.` components do not count, and `..` names no file. -/
def pathFileName (path : List Char) : Option (List Char) :=
  match ((path.splitOn '/').filter (fun c ↦ c ≠ [] ∧ c ≠ ['.'])).getLast? with
  | none => none
  | some component => if component = ['.', '.'] then none else some component

def replaceChar (a b : Char) (cs : List Char) : List Char := cs.map (fun c ↦ if c = a then b else c)

def sanitizeFilename (name : String) : String :=
  match pathFileName (replaceChar '\\' '/' name.toList) with
  | none => ""
  | some fileName => String.ofList (replaceChar '\x00' '_' fileName)

def isSafeLeaf (candidate : String) : Bool :=
  candidate ≠ "" && candidate ≠ "." && candidate ≠ ".." && sanitizeFilename candidate = candidate

def maxFilenameEncodedBytes : ℕ := 255

inductive InvalidFilename
  | notASafeLeaf
  | notCanonical
  | tooLong (encoded : ℕ)
deriving DecidableEq

structure CanonicalSpelling (value : String) : Prop where
  safe : isSafeLeaf (percentDecodeLossy value) = true
  canonical : utf8PercentEncode (percentDecodeLossy value) = value
  short : len value ≤ maxFilenameEncodedBytes

/-- A media filename in its canonical spelling, at once the stored value, the name on disk and the
URL segment. -/
@[ext]
structure Filename where
  value : String
  spelling : CanonicalSpelling value
deriving DecidableEq

theorem unreserved_ascii (b : UInt8) (h : unreserved b) : b < 128 := by
  simp only [unreserved, Bool.or_eq_true, Bool.and_eq_true, decide_eq_true_eq, beq_iff_eq] at h
  simp only [UInt8.le_iff_toNat_le, ← UInt8.toNat_inj] at h
  rw [UInt8.lt_iff_toNat_lt]
  simp only [UInt8.reduceToNat] at h ⊢
  omega

theorem percentDecodeLossy_encode (s : String) : percentDecodeLossy (utf8PercentEncode s) = s := by
  rw [percentDecodeLossy, utf8PercentEncode, String.toList_ofList,
    percentDecode_percentEncode unreserved_ascii (by decide), decodeLossy_utf8, String.ofList_toList]

def Filename.fromStr (s : String) : Except InvalidFilename Filename :=
  if hsafe : isSafeLeaf (percentDecodeLossy s) = true then
    if hcanonical : utf8PercentEncode (percentDecodeLossy s) = s then
      if hshort : len s ≤ maxFilenameEncodedBytes then .ok ⟨s, ⟨hsafe, hcanonical, hshort⟩⟩
      else .error (.tooLong (len s))
    else .error .notCanonical
  else .error .notASafeLeaf

def Filename.fromDecodedSegment (decoded : String) : Except InvalidFilename Filename :=
  if hsafe : isSafeLeaf decoded = true then
    if hshort : len (utf8PercentEncode decoded) ≤ maxFilenameEncodedBytes then
      .ok ⟨utf8PercentEncode decoded, ⟨by rwa [percentDecodeLossy_encode],
        by rw [percentDecodeLossy_encode], hshort⟩⟩
    else .error (.tooLong (len (utf8PercentEncode decoded)))
  else .error .notASafeLeaf

def Filename.decoded (f : Filename) : String := percentDecodeLossy f.value

theorem fromStr_eq_ok_iff {s : String} {f : Filename} : Filename.fromStr s = .ok f ↔ s = f.value := by
  constructor
  · intro h
    unfold Filename.fromStr at h
    split_ifs at h
    cases h
    rfl
  · rintro rfl
    rw [Filename.fromStr, dif_pos f.spelling.safe, dif_pos f.spelling.canonical, dif_pos f.spelling.short]

theorem fromDecodedSegment_eq_ok_iff {d : String} {f : Filename} :
    Filename.fromDecodedSegment d = .ok f ↔ d = f.decoded := by
  constructor
  · intro h
    unfold Filename.fromDecodedSegment at h
    split_ifs at h
    cases h
    exact (percentDecodeLossy_encode d).symm
  · rintro rfl
    have hvalue : utf8PercentEncode f.decoded = f.value := f.spelling.canonical
    have hshort : len (utf8PercentEncode f.decoded) ≤ maxFilenameEncodedBytes := by
      rw [hvalue]
      exact f.spelling.short
    have hsafe : isSafeLeaf f.decoded = true := f.spelling.safe
    rw [Filename.fromDecodedSegment, dif_pos hsafe, dif_pos hshort]
    exact congrArg Except.ok (Filename.ext hvalue)

theorem decoded_injective {f g : Filename} (h : f.decoded = g.decoded) : f = g := by
  have hf : utf8PercentEncode f.decoded = f.value := f.spelling.canonical
  have hg : utf8PercentEncode g.decoded = g.value := g.spelling.canonical
  exact Filename.ext (by rw [← hf, ← hg, h])

/-- The stored and the decoded spelling of a media filename determine each other, at either
door. -/
theorem filename_spellings_biject :
    (∀ s f, Filename.fromStr s = .ok f →
      f.value = s ∧ Filename.fromDecodedSegment f.decoded = .ok f) ∧
    (∀ d f, Filename.fromDecodedSegment d = .ok f →
      f.decoded = d ∧ Filename.fromStr f.value = .ok f) ∧
    (∀ d d' f, Filename.fromDecodedSegment d = .ok f → Filename.fromDecodedSegment d' = .ok f →
      d = d') ∧
    (∀ s s' f g, Filename.fromStr s = .ok f → Filename.fromStr s' = .ok g →
      f.decoded = g.decoded → s = s') := by
  refine ⟨fun s f h ↦ ?_, fun d f h ↦ ?_, fun d d' f h h' ↦ ?_, fun s s' f g h h' he ↦ ?_⟩
  · exact ⟨(fromStr_eq_ok_iff.mp h).symm, fromDecodedSegment_eq_ok_iff.mpr rfl⟩
  · exact ⟨(fromDecodedSegment_eq_ok_iff.mp h).symm, fromStr_eq_ok_iff.mpr rfl⟩
  · rw [fromDecodedSegment_eq_ok_iff.mp h, fromDecodedSegment_eq_ok_iff.mp h']
  · rw [fromStr_eq_ok_iff.mp h, fromStr_eq_ok_iff.mp h', decoded_injective he]

def spacedPhoto : Filename := ⟨"a%20b.jpg", ⟨by decide, by decide, by decide⟩⟩

theorem spacedPhoto_spellings :
    Filename.fromDecodedSegment "a b.jpg" = .ok spacedPhoto ∧ spacedPhoto.decoded = "a b.jpg" ∧
      Filename.fromStr "a%20b.jpg" = .ok spacedPhoto := by
  have hdoor : Filename.fromDecodedSegment "a b.jpg" = .ok spacedPhoto :=
    fromDecodedSegment_eq_ok_iff.mpr (by decide)
  exact ⟨hdoor, filename_spellings_biject.2.1 "a b.jpg" spacedPhoto hdoor⟩

end Jaunder.Common.Media
