import Jaunder.Common.MediaSpellings

namespace Jaunder.Common.MediaUrl

open Foundation.Octets
open Jaunder.Common.Hash Jaunder.Common.Media Jaunder.Common.References

section Layouts

variable {m : MediaRef} {path segment user : List Char} {f : Filename}

end Layouts

section Cleaning

variable {s t : List Char} {c : Char} {keep : Char → Bool}

end Cleaning

section Encoding

variable {s t buffer : List Char} {c : Char} {f : Filename}

theorem encodeInPath_append (s t : List Char) :
    encodeInPath (s ++ t) = encodeInPath s ++ encodeInPath t := by
  rw [encodeInPath, utf8_append, percentEncode, List.flatMap_append]
  rfl

theorem encodeInPath_cons (c : Char) (s : List Char) :
    encodeInPath (c :: s) = encodeInPath [c] ++ encodeInPath s := encodeInPath_append [c] s

/-- Lowercase letters and digits, of which the fixed segments of the layouts consist. -/
def IsWord (s : List Char) : Prop := ∀ c ∈ s, ('a' ≤ c ∧ c ≤ 'z') ∨ ('0' ≤ c ∧ c ≤ '9')

theorem isWord_char (h : ('a' ≤ c ∧ c ≤ 'z') ∨ ('0' ≤ c ∧ c ≤ '9')) :
    encodeInPath [c] = [c] ∧ isSlash c = false ∧ c ≠ '?' ∧ isTabOrNewline c = false ∧
      c.toLower = c ∧ c ≠ '.' ∧ c ≠ '%' := by
  have hall : ∀ n < 128, (('a' ≤ Char.ofNat n ∧ Char.ofNat n ≤ 'z') ∨
      ('0' ≤ Char.ofNat n ∧ Char.ofNat n ≤ '9')) →
        encodeInPath [Char.ofNat n] = [Char.ofNat n] ∧ isSlash (Char.ofNat n) = false ∧
          Char.ofNat n ≠ '?' ∧ isTabOrNewline (Char.ofNat n) = false ∧
            (Char.ofNat n).toLower = Char.ofNat n ∧ Char.ofNat n ≠ '.' ∧ Char.ofNat n ≠ '%' := by
    decide
  have hlt : c.toNat < 128 := by
    rcases h with ⟨-, hle⟩ | ⟨-, hle⟩
    · have hnat : c.toNat ≤ 122 := hle
      omega
    · have hnat : c.toNat ≤ 57 := hle
      omega
  have hc := hall c.toNat hlt
  rw [Char.ofNat_toNat] at hc
  exact hc h

theorem IsWord.encodeInPath (h : IsWord s) : encodeInPath s = s := by
  induction s with
  | nil => rfl
  | cons c s ih =>
    rw [encodeInPath_cons, (isWord_char (h c List.mem_cons_self)).1,
      ih fun d hd ↦ h d (List.mem_cons_of_mem c hd)]
    rfl

theorem IsWord.filter (h : IsWord s) : s.filter (fun c ↦ ¬isTabOrNewline c) = s :=
  List.filter_eq_self.mpr fun c hc ↦ by
    simp [(isWord_char (h c hc)).2.2.2.1]

theorem IsWord.not_dot (h : IsWord s) : isSingleDot s = false ∧ isDoubleDot s = false := by
  have hmap : s.map Char.toLower = s := by
    conv_rhs => rw [← List.map_id s]
    exact List.map_congr_left fun c hc ↦ (isWord_char (h c hc)).2.2.2.2.1
  have hhead (t : List Char) (d : Char) (ht : t.head? = some d) (hd : d = '.' ∨ d = '%') : s ≠ t := by
    rintro rfl
    have hword := (isWord_char (h d (List.mem_of_mem_head? ht))).2.2.2.2.2
    rcases hd with rfl | rfl
    · exact hword.1 rfl
    · exact hword.2 rfl
  rw [isSingleDot, isDoubleDot, hmap]
  simp only [List.mem_cons, List.not_mem_nil, or_false, decide_eq_false_iff_not, not_or]
  exact ⟨⟨hhead _ '.' rfl (.inl rfl), hhead _ '%' rfl (.inr rfl)⟩, hhead _ '.' rfl (.inl rfl),
    hhead _ '.' rfl (.inl rfl), hhead _ '%' rfl (.inr rfl), hhead _ '%' rfl (.inr rfl)⟩

end Encoding

section Files

variable {s file query : List Char} {c : Char} {f : Filename}

end Files

section Walk

variable {closed : List (List Char)} {buffer s t w rest file query : List Char} {c : Char}

/-- The segments that are closed when a slash follows a text. -/
def closeText (closed : List (List Char)) (buffer : List Char) : List Char → List (List Char)
  | [] => closeSegment closed buffer
  | c :: s =>
    if isSlash c then closeText (closeSegment closed buffer) [] s
    else closeText closed (buffer ++ encodeInPath [c]) s

theorem pathState_closeText (h : '?' ∉ s) : pathState closed buffer (s ++ '/' :: rest) =
    pathState (closeText closed buffer s) [] rest := by
  induction s generalizing closed buffer with
  | nil => rfl
  | cons c s ih =>
    have hc : c ≠ '?' := fun heq ↦ h (heq ▸ List.mem_cons_self)
    have hs : '?' ∉ s := fun hmem ↦ h (List.mem_cons_of_mem c hmem)
    rw [List.cons_append, pathState, if_neg hc, closeText]
    by_cases hslash : isSlash c = true
    · rw [if_pos hslash, if_pos hslash, ih hs]
    · rw [if_neg hslash, if_neg hslash, ih hs]

theorem closeText_of_no_slash (h : ∀ c ∈ s, isSlash c = false) :
    closeText closed buffer s = closeSegment closed (buffer ++ encodeInPath s) := by
  induction s generalizing buffer with
  | nil => rw [closeText, encodeInPath, utf8_nil, percentEncode, List.flatMap_nil, List.append_nil]
  | cons c s ih =>
    rw [closeText, if_neg (by simp [h c List.mem_cons_self]),
      ih fun d hd ↦ h d (List.mem_cons_of_mem c hd), encodeInPath_cons c s, List.append_assoc]

theorem closeText_word (h : IsWord w) : closeText closed [] w = closed ++ [w] := by
  rw [closeText_of_no_slash fun c hc ↦ (isWord_char (h c hc)).2.1, h.encodeInPath, List.nil_append,
    closeSegment, h.not_dot.1, h.not_dot.2]
  rfl

theorem pathState_word (h : IsWord w) :
    pathState closed [] (w ++ '/' :: rest) = pathState (closed ++ [w]) [] rest := by
  rw [pathState_closeText fun hmem ↦ (isWord_char (h _ hmem)).2.2.1 rfl, closeText_word h]

end Walk

section Resolve

variable {closed dirs : List (List Char)} {buffer s q rest file query : List Char}

/-- Segments with a slash behind each of them. -/
def joined (dirs : List (List Char)) : List Char := dirs.flatMap (· ++ ['/'])

end Resolve

section Agreement

variable {parse : List Char → Option Url} {host q file user : List Char} {m : MediaRef}
  {closed dirs : List (List Char)}

theorem IsWord.mono {s t : List Char} (h : IsWord t) (hsub : s ⊆ t) : IsWord s :=
  fun c hc ↦ h c (hsub hc)

end Agreement

section Samples

def exampleUrl (scheme p : List Char) : Url where
  scheme := scheme
  username := []
  password := none
  host := some "example.com".toList
  port := none
  path := browserPath p
  query := match (cleaned p).dropWhile (· ≠ '?') with
    | [] => none
    | _ :: query => some query
  fragment := none

end Samples

end Jaunder.Common.MediaUrl
