import CompanionFactory.Proofs.Annotations.Unambiguous
import CompanionFactory.Proofs.Target.Carried
import CompanionFactory.Proofs.Text.Scan

/-!
# Annotations are lexically sound

An annotation writes its names as they were given, and everything else in a form of its own: texts
and characters as literals, numbers by their digits.  So the names are all that can spoil its
source.

* `Binary64.inert_literal`: no double, finite or not, is written with an active character;
* `AnnotationUse.names`: every name in an annotation, at any depth;
* `AnnotationUse.lexicallySound_source`: inert names make the source sound, whatever the texts,
  characters and numbers are;
* `Element.lexicallySound_carriedAnnotations`: the same for the annotations of an element together.
-/

namespace CompanionFactory

open Text (Inert LexicallySound inert_append inert_of_isWord)

/-! ## Numbers -/

namespace Decimal

variable {d : Decimal}

theorem isWordChar_of_mem_plain (h : ∀ c ∈ d.digits, Text.isWordChar c = true) :
    ∀ c ∈ d.plain, Text.isWordChar c = true := by
  have hzeros (n : Nat) : ∀ c ∈ List.replicate n '0', Text.isWordChar c = true := by
    intro c hc
    obtain rfl := List.eq_of_mem_replicate hc
    rfl
  have hdot : Text.isWordChar '.' = true := rfl
  have hzero : Text.isWordChar '0' = true := rfl
  unfold plain
  split
  · simp only [List.forall_mem_append, List.forall_mem_cons]
    exact ⟨⟨⟨hzero, hdot, by simp⟩, hzeros _⟩, h⟩
  · dsimp only
    split
    · simp only [List.forall_mem_append, List.forall_mem_cons]
      exact ⟨fun c hc => h c (List.mem_of_mem_take hc), hdot,
        fun c hc => h c (List.mem_of_mem_drop hc)⟩
    · simp only [List.forall_mem_append, List.forall_mem_cons]
      exact ⟨⟨h, hzeros _⟩, hdot, hzero, by simp⟩

theorem isWordChar_of_mem_scientific (h : ∀ c ∈ d.digits, Text.isWordChar c = true) :
    ∀ c ∈ d.scientific, Text.isWordChar c = true := by
  have hpower : ∀ c ∈ (toString (d.point - 1)).toList, Text.isWordChar c = true :=
    Text.isWord_repr (d.point - 1)
  have hdot : Text.isWordChar '.' = true := rfl
  have he : Text.isWordChar 'e' = true := rfl
  unfold scientific
  cases hdigits : d.digits with
  | nil =>
      simp only [List.forall_mem_append, List.forall_mem_cons]
      exact ⟨⟨rfl, he, by simp⟩, hpower⟩
  | cons digit more =>
      rw [hdigits] at h
      obtain ⟨hdigit, hmore⟩ := List.forall_mem_cons.mp h
      cases more with
      | nil =>
          simp only [List.forall_mem_append, List.forall_mem_cons]
          exact ⟨⟨hdigit, he, by simp⟩, hpower⟩
      | cons =>
          simp only [List.forall_mem_append, List.forall_mem_cons] at hmore ⊢
          exact ⟨hdigit, hdot, hmore, he, hpower⟩

theorem isWord_text (h : ∀ c ∈ d.digits, Text.isWordChar c = true) :
    Text.IsWord (String.ofList d.text) := by
  unfold Text.IsWord text
  rw [String.toList_ofList]
  split
  · exact isWordChar_of_mem_plain h
  · exact isWordChar_of_mem_scientific h

end Decimal

namespace RoundingInterval

/-- The shortest decimal is spelled by some number, found or not. -/
theorem exists_shortest_eq (r : RoundingInterval) :
    ∃ count c, r.shortest = r.decimal count c := by
  unfold shortest
  cases hhit : (List.range' 1 17).findSome? fun count =>
      (r.nearest? count).map (r.decimal count) with
  | none => exact ⟨17, _, rfl⟩
  | some d =>
      obtain ⟨count, -, hcount⟩ := List.exists_of_findSome?_eq_some hhit
      obtain ⟨c, -, rfl⟩ := Option.map_eq_some_iff.mp hcount
      exact ⟨count, c, rfl⟩

theorem isWordChar_of_mem_digits_decimal (r : RoundingInterval) (count n : Nat) :
    ∀ c ∈ (r.decimal count n).digits, Text.isWordChar c = true := by
  intro c hc
  have hmem : c ∈ Nat.toDigits 10 n := by
    have hreverse := (List.dropWhile_suffix _).mem (List.mem_reverse.mp hc)
    exact List.mem_reverse.mp hreverse
  have hdigit : c.isDigit = true := Nat.isDigit_of_mem_toDigits (by decide) (by decide) hmem
  simp [Text.isWordChar, Text.isNameChar, Text.isIdentifierChar, hdigit]

end RoundingInterval

theorem Binary64.inert_literal (x : Binary64) : Inert x.literal := by
  have hsign : Inert (if x.isNegative then "-" else "") := by
    split <;> decide
  have hshortest : Inert (String.ofList x.roundingInterval.shortest.text) := by
    obtain ⟨count, c, hdecimal⟩ := x.roundingInterval.exists_shortest_eq
    rw [hdecimal]
    exact inert_of_isWord
      (Decimal.isWord_text (x.roundingInterval.isWordChar_of_mem_digits_decimal count c))
  unfold literal
  dsimp only
  split
  · decide
  split
  · exact inert_append.mpr ⟨hsign, by decide⟩
  split
  · exact inert_append.mpr ⟨hsign, by decide⟩
  · exact inert_append.mpr ⟨hsign, hshortest⟩

/-! ## Names -/

mutual

/-- Every annotation type, key, enum type, constant and class name in a value. -/
def AnnotationValue.names : AnnotationValue → List String
  | .enumConstant type constant => [type, constant]
  | .classLiteral type => [type]
  | .nested use => use.names
  | .array values => AnnotationValue.namesAll values
  | .text _ | .flag _ | .int _ | .long _ | .char _ | .double _ => []

def AnnotationValue.namesAll : List AnnotationValue → List String
  | [] => []
  | v :: vs => v.names ++ AnnotationValue.namesAll vs

def AnnotationEntry.names : AnnotationEntry → List String
  | ⟨key, value⟩ => key :: value.names

def AnnotationEntry.namesAll : List AnnotationEntry → List String
  | [] => []
  | e :: es => e.names ++ AnnotationEntry.namesAll es

/-- Every annotation type, key, enum type, constant and class name in an annotation. -/
def AnnotationUse.names : AnnotationUse → List String
  | ⟨type, entries⟩ => type :: AnnotationEntry.namesAll entries

end

/-! ## Sources -/

theorem AnnotationUse.Inside.lexicallySound {entries : List AnnotationEntry} {text : String}
    (h : Inside entries text) (hkeys : ∀ e ∈ entries, Inert e.key)
    (hvalues : ∀ e ∈ entries, LexicallySound e.value.source) : LexicallySound text := by
  cases h with
  | short v => exact hvalues ⟨"value", v⟩ List.mem_cons_self
  | keyed e es =>
      refine LexicallySound.intercalate (by decide) ?_
      intro written hwritten
      obtain ⟨⟨key, value⟩, hmem, rfl⟩ := List.mem_map.mp hwritten
      have hkey : LexicallySound key := (hkeys ⟨key, value⟩ hmem).lexicallySound
      have hvalue : LexicallySound value.source := hvalues ⟨key, value⟩ hmem
      exact (hkey.append (by decide)).append hvalue

/-- An annotation is sound when its type, its keys and its values are. -/
theorem AnnotationUse.lexicallySound_source_of_values {use : AnnotationUse} (htype : Inert use.type)
    (hkeys : ∀ e ∈ use.entries, Inert e.key)
    (hvalues : ∀ e ∈ use.entries, LexicallySound e.value.source) : LexicallySound use.source := by
  have hhead : LexicallySound ("@" ++ use.type) :=
    (inert_append.mpr ⟨by decide, htype⟩).lexicallySound
  obtain ⟨-, hsource⟩ | ⟨text, hinside, hsource⟩ := use.toList_source_cases
  · have hsame : use.source = "@" ++ use.type := String.toList_injective (by simp [hsource])
    rw [hsame]
    exact hhead
  · have hsame : use.source = "@" ++ use.type ++ ("(" ++ text ++ ")") :=
      String.toList_injective (by simp [hsource])
    rw [hsame]
    exact hhead.append (hinside.lexicallySound hkeys hvalues).parens

mutual

theorem AnnotationValue.lexicallySound_source :
    ∀ v : AnnotationValue, (∀ name ∈ v.names, Inert name) → LexicallySound v.source
  | .text s, _ => Text.lexicallySound_quoted (.inl rfl) s.toList
  | .char c, _ => Text.lexicallySound_quoted (.inr rfl) [c]
  | .flag b, _ => by
      rw [AnnotationValue.source]
      cases b <;> decide
  | .int n, _ => (inert_of_isWord (Text.isWord_repr n.toInt)).lexicallySound
  | .long n, _ =>
      (inert_append.mpr ⟨inert_of_isWord (Text.isWord_repr n.toInt), by decide⟩).lexicallySound
  | .double x, _ => x.inert_literal.lexicallySound
  | .enumConstant type constant, h => by
      simp only [AnnotationValue.names, List.forall_mem_cons] at h
      rw [AnnotationValue.source]
      exact (inert_append.mpr ⟨inert_append.mpr ⟨h.1, by decide⟩, h.2.1⟩).lexicallySound
  | .classLiteral type, h => by
      simp only [AnnotationValue.names, List.forall_mem_cons] at h
      rw [AnnotationValue.source]
      exact (inert_append.mpr ⟨h.1, by decide⟩).lexicallySound
  | .nested use, h => use.lexicallySound_source h
  | .array values, h => by
      have hvalues := AnnotationValue.lexicallySound_sources values h
      rw [AnnotationValue.source, AnnotationValue.sources_eq_map]
      exact (LexicallySound.intercalate (by decide) (List.forall_mem_map.mpr hvalues)).braces

theorem AnnotationValue.lexicallySound_sources :
    ∀ vs : List AnnotationValue, (∀ name ∈ AnnotationValue.namesAll vs, Inert name) →
      ∀ v ∈ vs, LexicallySound v.source
  | [], _ => by simp
  | v :: vs, h => by
      simp only [AnnotationValue.namesAll, List.forall_mem_append] at h
      exact List.forall_mem_cons.mpr
        ⟨v.lexicallySound_source h.1, AnnotationValue.lexicallySound_sources vs h.2⟩

theorem AnnotationEntry.lexicallySound_sources :
    ∀ es : List AnnotationEntry, (∀ name ∈ AnnotationEntry.namesAll es, Inert name) →
      ∀ e ∈ es, Inert e.key ∧ LexicallySound e.value.source
  | [], _ => by simp
  | ⟨key, value⟩ :: es, h => by
      simp only [AnnotationEntry.namesAll, AnnotationEntry.names, List.forall_mem_append,
        List.forall_mem_cons] at h
      exact List.forall_mem_cons.mpr
        ⟨⟨h.1.1, value.lexicallySound_source h.1.2⟩, AnnotationEntry.lexicallySound_sources es h.2⟩

theorem AnnotationUse.lexicallySound_source :
    ∀ use : AnnotationUse, (∀ name ∈ use.names, Inert name) → LexicallySound use.source
  | ⟨type, entries⟩, h => by
      simp only [AnnotationUse.names, List.forall_mem_cons] at h
      have hentries := AnnotationEntry.lexicallySound_sources entries h.2
      exact AnnotationUse.lexicallySound_source_of_values h.1 (fun e he => (hentries e he).1)
        fun e he => (hentries e he).2

end

theorem Element.lexicallySound_carriedAnnotations {s : Settings} {e : Element}
    (h : ∀ use ∈ e.carried s, ∀ name ∈ use.names, Inert name) :
    LexicallySound (e.carriedAnnotations s) := by
  rw [carriedAnnotations_eq]
  exact LexicallySound.intercalate (by decide)
    (List.forall_mem_map.mpr fun use huse => use.lexicallySound_source (h use huse))

end CompanionFactory
