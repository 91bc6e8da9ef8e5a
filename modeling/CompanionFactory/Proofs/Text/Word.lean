import CompanionFactory.Proofs.Text.Recovery
import CompanionFactory.Text.Dotted

/-!
# Names and words

Identifiers consist of ASCII letters, digits, `_` and `$` and do not start with a digit, and
qualified names are identifiers with dots between them.  Reserved words count as identifiers.  A
word is any text of the characters that names and whole numbers are written with.

* `isNameChar_of_isQualifiedName`: a qualified name has only dots besides its identifiers;
* `append_dot_append_inj`: a text without dots is found again behind the last dot;
* `isWord_of_isIdentifier`, `isWord_of_isQualifiedName`, `isWord_repr`: what words are;
* `eq_of_repr_eq`: no two numbers are written alike;
* `isWordChar_head?_of_delimited`: a word ends where a delimiter stands.
-/

namespace CompanionFactory.Text

/-! ## Names -/

def isIdentifierStart (c : Char) : Bool :=
  c.isAlpha || c == '_' || c == '$'

def isIdentifierChar (c : Char) : Bool :=
  isIdentifierStart c || c.isDigit

/-- A character of a qualified name. -/
def isNameChar (c : Char) : Bool :=
  isIdentifierChar c || c == '.'

/-- Whether the text is an identifier. -/
def isIdentifier (text : String) : Bool :=
  text.toList.head?.any isIdentifierStart && text.toList.all isIdentifierChar

/-- Whether all parts between the dots are identifiers, which makes the text not empty. -/
def isQualifiedName (name : String) : Bool :=
  (segments name).all isIdentifier

theorem toList_ne_nil_of_isIdentifier {text : String} (h : isIdentifier text = true) :
    text.toList ≠ [] := by
  intro hempty
  simp [isIdentifier, hempty] at h

theorem isIdentifierChar_of_isIdentifier {text : String} (h : isIdentifier text = true) :
    ∀ c ∈ text.toList, isIdentifierChar c = true := by
  simp only [isIdentifier, Bool.and_eq_true, List.all_eq_true] at h
  exact h.2

theorem dot_notMem_of_isIdentifier {text : String} (h : isIdentifier text = true) :
    '.' ∉ text.toList := by
  intro hdot
  exact absurd (isIdentifierChar_of_isIdentifier h '.' hdot) (by decide)

theorem isNameChar_of_isQualifiedName {name : String} (h : isQualifiedName name = true) :
    ∀ c ∈ name.toList, isNameChar c = true := by
  have hsegments : ∀ segment ∈ segments name, ∀ c ∈ segment.toList, isNameChar c = true := by
    intro segment hsegment c hc
    have hidentifier := List.all_eq_true.mp h segment hsegment
    simp [isNameChar, isIdentifierChar_of_isIdentifier hidentifier c hc]
  rw [← intercalate_segments name]
  cases hparts : segments name with
  | nil => simp
  | cons first parts =>
      rw [hparts] at hsegments
      obtain ⟨hfirst, hrest⟩ := List.forall_mem_cons.mp hsegments
      intro c hc
      simp only [intercalate_cons_eq_join, String.toList_append, String.toList_join,
        List.mem_append, List.mem_flatMap, List.mem_map] at hc
      rcases hc with hc | ⟨_, ⟨part, hpart, rfl⟩, hc⟩
      · exact hfirst c hc
      · obtain rfl | hc : c = '.' ∨ c ∈ part.toList := by simpa using hc
        · rfl
        · exact hrest part hpart c hc

/-- A text is determined by what stands before its last dot and what stands behind it. -/
theorem append_dot_append_inj {outer outer' last last' : String}
    (hlast : '.' ∉ last.toList) (hlast' : '.' ∉ last'.toList)
    (h : outer ++ "." ++ last = outer' ++ "." ++ last') : outer = outer' ∧ last = last' := by
  have hchars : last.toList.reverse ++ '.' :: outer.toList.reverse =
      last'.toList.reverse ++ '.' :: outer'.toList.reverse := by
    simpa using congrArg (fun text : String => text.toList.reverse) h
  obtain ⟨hlasts, houters⟩ := append_inj_of_all (p := fun c => c != '.')
    (by simpa using fun c hc => ne_of_mem_of_not_mem hc hlast)
    (by simpa using fun c hc => ne_of_mem_of_not_mem hc hlast') (by simp) (by simp) hchars
  exact ⟨String.toList_injective (by simpa using houters),
    String.toList_injective (by simpa using hlasts)⟩

/-! ## Words -/

/-- A character of a word. -/
def isWordChar (c : Char) : Bool :=
  isNameChar c || c == '-'

def IsWord (text : String) : Prop :=
  ∀ c ∈ text.toList, isWordChar c = true

theorem isDelimiter_eq_false_of_isWordChar {c : Char} (h : isWordChar c = true) :
    isDelimiter c = false := by
  rw [← Bool.not_eq_true]
  intro hdelimiter
  simp only [isDelimiter, Bool.or_eq_true, beq_iff_eq] at hdelimiter
  rcases hdelimiter with ((rfl | rfl) | rfl) | rfl <;> exact absurd h (by decide)

theorem isWordChar_head?_cons {c : Char} (h : isWordChar c = false) (rest : List Char) :
    ∀ d ∈ (c :: rest).head?, isWordChar d = false := by
  simpa using h

theorem isWordChar_head?_of_delimited {rest : List Char} (hrest : Delimited rest) :
    ∀ c ∈ rest.head?, isWordChar c = false := by
  intro c hc
  rw [← Bool.not_eq_true]
  intro hword
  have hother := isDelimiter_eq_false_of_isWordChar hword
  rw [hrest c hc] at hother
  cases hother

theorem IsWord.append {s t : String} (hs : IsWord s) (ht : IsWord t) : IsWord (s ++ t) := by
  intro c hc
  rcases List.mem_append.mp (String.toList_append ▸ hc) with hc | hc
  · exact hs c hc
  · exact ht c hc

theorem isWord_of_isIdentifier {text : String} (h : isIdentifier text = true) :
    IsWord text := by
  intro c hc
  simp [isWordChar, isNameChar, isIdentifierChar_of_isIdentifier h c hc]

theorem isWord_of_isQualifiedName {name : String} (h : isQualifiedName name = true) :
    IsWord name := by
  intro c hc
  simp [isWordChar, isNameChar_of_isQualifiedName h c hc]

theorem isWord_dot : IsWord "." := by
  intro c hc
  obtain rfl : c = '.' := by simpa using hc
  rfl

theorem isDigit_or_eq_of_mem_repr {n : Int} {c : Char} (h : c ∈ n.repr.toList) :
    c.isDigit = true ∨ c = '-' := by
  rw [Int.repr_eq_if] at h
  split at h
  · rw [Nat.toList_repr] at h
    exact .inl (Nat.isDigit_of_mem_toDigits (by decide) (by decide) h)
  · rw [String.toList_append, Nat.toList_repr] at h
    rcases List.mem_append.mp h with h | h
    · exact .inr (by simpa using h)
    · exact .inl (Nat.isDigit_of_mem_toDigits (by decide) (by decide) h)

theorem isWord_repr (n : Int) : IsWord n.repr := by
  intro c hc
  rcases isDigit_or_eq_of_mem_repr hc with h | rfl
  · simp [isWordChar, isNameChar, isIdentifierChar, h]
  · rfl

theorem repr_ne_empty (n : Int) : n.repr ≠ "" := by
  rw [Int.repr_eq_if]
  split <;> simp

/-- A number is found again from its digits. -/
theorem eq_of_natRepr_eq {m n : Nat} (h : m.repr = n.repr) : m = n := by
  rw [← Nat.ofDigitChars_ten_toDigits (n := m), ← Nat.toList_repr, h, Nat.toList_repr,
    Nat.ofDigitChars_ten_toDigits]

theorem minus_mem_repr_iff {n : Int} : '-' ∈ n.repr.toList ↔ n < 0 := by
  rw [Int.repr_eq_if]
  split
  · next hn =>
      rw [Nat.toList_repr]
      refine ⟨fun h => ?_, fun h => absurd hn (Int.not_le.mpr h)⟩
      exact absurd (Nat.isDigit_of_mem_toDigits (by decide) (by decide) h) (by decide)
  · next hn => exact ⟨fun _ => Int.not_le.mp hn, fun _ => by simp⟩

theorem eq_of_repr_eq {m n : Int} (h : m.repr = n.repr) : m = n := by
  have hsign : m < 0 ↔ n < 0 := by rw [← minus_mem_repr_iff, h, minus_mem_repr_iff]
  rw [Int.repr_eq_if, Int.repr_eq_if] at h
  by_cases hm : m < 0
  · have hn := hsign.mp hm
    rw [if_neg (Int.not_le.mpr hm), if_neg (Int.not_le.mpr hn), String.append_right_inj] at h
    have hdigits := eq_of_natRepr_eq h
    omega
  · have hn := mt hsign.mpr hm
    rw [if_pos (Int.not_lt.mp hm), if_pos (Int.not_lt.mp hn)] at h
    have hdigits := eq_of_natRepr_eq h
    omega

end CompanionFactory.Text
