import CompanionFactory.Proofs.Annotations.WellFormed
import CompanionFactory.Proofs.Text.Quoted
import CompanionFactory.Target.Parameter

/-!
# Annotations are not ambiguous

In front of a delimiter, the source of a well-formed value or annotation cannot be taken for the
source of another one, and shows where it ends.  There is one lemma for each form of a value;
`AnnotationValue.WellFormed.recoverable` and `AnnotationUse.WellFormed.recoverable` put them
together by induction on how values and annotations nest.

* `AnnotationValue.WellFormed.source_eq_cons`: the first character tells the forms apart, all words
  being one form;
* `AnnotationUse.toList_source_cases`, `AnnotationUse.short_ne_keyed`: the short form of an
  annotation with the one key `value` is none of the other forms.
-/

namespace CompanionFactory

open Text (Delimited Recoverable Closes isDelimiter delimited_nil delimited_cons)

/-- The separator of arrays and entries. -/
theorem separates_comma : Text.Separates ", " :=
  ⟨',', by simp, rfl⟩

/-- The key is an identifier, and the value is well-formed. -/
structure AnnotationEntry.WellFormed (e : AnnotationEntry) : Prop where
  key : Text.isIdentifier e.key = true
  value : e.value.WellFormed

namespace AnnotationUse

/-- The text between the parentheses of an annotation with the given entries. -/
inductive Inside : List AnnotationEntry → String → Prop
  | short (v : AnnotationValue) : Inside [⟨"value", v⟩] v.source
  | keyed (e : AnnotationEntry) (es : List AnnotationEntry) :
      Inside (e :: es) (", ".intercalate ((e :: es).map AnnotationEntry.source))

/-- An annotation has parentheses exactly when it has entries. -/
theorem toList_source_cases (use : AnnotationUse) :
    use.entries = [] ∧ use.source.toList = '@' :: use.type.toList ∨
      ∃ text, Inside use.entries text ∧
        use.source.toList = '@' :: (use.type.toList ++ '(' :: (text.toList ++ [')'])) := by
  obtain ⟨type, entries⟩ := use
  match entries with
  | [] => exact .inl ⟨rfl, by simp [source]⟩
  | [⟨key, v⟩] =>
      right
      by_cases hkey : key = "value"
      · subst hkey
        exact ⟨_, .short v, by simp [source]⟩
      · exact ⟨_, .keyed ⟨key, v⟩ [], by simp [source, hkey, AnnotationEntry.source]⟩
  | e :: f :: es =>
      right
      refine ⟨_, .keyed e (f :: es), ?_⟩
      rw [source.eq_3 type (e :: f :: es) (by simp) (by simp), AnnotationEntry.sources_eq_map]
      simp

theorem exists_toList_source (use : AnnotationUse) : ∃ chars, use.source.toList = '@' :: chars := by
  obtain ⟨-, hsource⟩ | ⟨text, -, hsource⟩ := use.toList_source_cases
  · exact ⟨_, hsource⟩
  · exact ⟨_, hsource⟩

end AnnotationUse

namespace AnnotationValue

variable {v w : AnnotationValue} {rest rest' : List Char}

theorem toList_source_array (values : List AnnotationValue) :
    (array values).source.toList =
      '\x7b' :: ((", ".intercalate (values.map source)).toList ++ ['\x7d']) := by
  simp [source, sources_eq_map]

/-- No value begins with a delimiter, and its first character tells whether it is a word. -/
theorem WellFormed.source_eq_cons (h : v.WellFormed) :
    ∃ c chars, v.source.toList = c :: chars ∧ isDelimiter c = false ∧
      v.opening? = if Text.isWordChar c then none else some c := by
  by_cases hword : v.opening? = none
  · obtain ⟨c, chars, hsource⟩ := List.exists_cons_of_ne_nil
      (mt String.toList_eq_nil_iff.mp (h.source_ne_empty hword))
    have hstart : Text.isWordChar c = true := h.isWord_source hword c (by simp [hsource])
    exact ⟨c, chars, hsource, Text.isDelimiter_eq_false_of_isWordChar hstart,
      by simp [hword, hstart]⟩
  · cases h with
    | text s => exact ⟨'"', _, Text.toList_quoted '"' s.toList, rfl, rfl⟩
    | char c => exact ⟨'\'', _, Text.toList_quoted '\'' [c], rfl, rfl⟩
    | array => exact ⟨'\x7b', _, toList_source_array _, rfl, rfl⟩
    | @nested use =>
        obtain ⟨chars, hsource⟩ := use.exists_toList_source
        exact ⟨'@', chars, by rw [source, hsource], rfl, rfl⟩
    | _ => simp [opening?] at hword

theorem WellFormed.opening?_eq (h : v.WellFormed) {c : Char} {chars : List Char}
    (hsource : v.source.toList ++ rest = c :: chars) :
    v.opening? = if Text.isWordChar c then none else some c := by
  obtain ⟨d, tail, hcons, -, hopening⟩ := h.source_eq_cons
  rw [hcons, List.cons_append] at hsource
  rw [hopening, List.head_eq_of_cons_eq hsource]

/-- Two values that are written alike, whatever follows, begin alike. -/
theorem WellFormed.opening?_congr (hv : v.WellFormed) (hw : w.WellFormed)
    (h : v.source.toList ++ rest = w.source.toList ++ rest') : v.opening? = w.opening? := by
  obtain ⟨c, chars, hcons, -, hopening⟩ := hw.source_eq_cons
  rw [hcons, List.cons_append] at h
  rw [hv.opening?_eq h, hopening]

theorem WellFormed.recoverable_word (hv : v.WellFormed) (hword : v.opening? = none) :
    Recoverable source WellFormed v := by
  intro w hw rest rest' hrest hrest' h
  have hword' : w.opening? = none := (hv.opening?_congr hw h).symm.trans hword
  obtain ⟨hsource, rfl⟩ := Text.append_inj_of_all (hv.isWord_source hword)
    (hw.isWord_source hword') (Text.isWordChar_head?_of_delimited hrest)
    (Text.isWordChar_head?_of_delimited hrest') h
  exact ⟨hv.eq_of_source_eq hw hword hword' (String.toList_injective hsource), rfl⟩

/-- A literal ends at its closing quote. -/
theorem quoted_append_inj {quote : Char} (hquote : Text.IsQuote quote) {text text' : List Char}
    (h : (Text.quoted quote text).toList ++ rest = (Text.quoted quote text').toList ++ rest') :
    text = text' ∧ rest = rest' := by
  simp only [Text.toList_quoted, List.cons_append, List.append_assoc, List.nil_append,
    List.cons.injEq, true_and] at h
  exact Text.escape_append_inj hquote h

theorem recoverable_text (s : String) : Recoverable source WellFormed (.text s) := by
  intro w hw rest rest' _ _ h
  have hopening := (WellFormed.text s).opening?_congr hw h
  cases hw with
  | text t =>
      obtain ⟨htext, rfl⟩ := quoted_append_inj (.inl rfl) h
      exact ⟨by rw [String.toList_injective htext], rfl⟩
  | _ => simp [opening?] at hopening

theorem recoverable_char (c : Char) : Recoverable source WellFormed (.char c) := by
  intro w hw rest rest' _ _ h
  have hopening := (WellFormed.char c).opening?_congr hw h
  cases hw with
  | char d =>
      obtain ⟨htext, rfl⟩ := quoted_append_inj (.inr rfl) h
      exact ⟨by rw [List.head_eq_of_cons_eq htext], rfl⟩
  | _ => simp [opening?] at hopening

theorem recoverable_nested {use : AnnotationUse} (huse : use.WellFormed)
    (hrecoverable : Recoverable AnnotationUse.source AnnotationUse.WellFormed use) :
    Recoverable source WellFormed (.nested use) := by
  intro w hw rest rest' hrest hrest' h
  have hopening := (WellFormed.nested huse).opening?_congr hw h
  cases hw with
  | nested huse' =>
      simp only [source] at h
      obtain ⟨rfl, rfl⟩ := hrecoverable _ huse' rest rest' hrest hrest' h
      exact ⟨rfl, rfl⟩
  | _ => simp [opening?] at hopening

theorem recoverable_array {values : List AnnotationValue} (hvalues : ∀ v ∈ values, v.WellFormed)
    (hrecoverable : ∀ v ∈ values, Recoverable source WellFormed v) :
    Recoverable source WellFormed (.array values) := by
  intro w hw rest rest' hrest hrest' h
  have hopening := (WellFormed.array hvalues).opening?_congr hw h
  cases hw with
  | array hvalues' =>
      simp only [toList_source_array, List.cons_append, List.append_assoc, List.cons.injEq,
        true_and] at h
      have hcloses (rest : List Char) : Closes ", " ('\x7d' :: rest) :=
        ⟨delimited_cons.mpr rfl, by simp⟩
      obtain ⟨rfl, hrests⟩ := Text.intercalate_append_inj separates_comma
        (fun v hv => by
          obtain ⟨c, chars, hsource, hc, -⟩ := WellFormed.source_eq_cons hv
          exact ⟨c, chars, hsource, hc⟩) hrecoverable hvalues hvalues'
        (hcloses rest) (hcloses rest') h
      exact ⟨rfl, (List.cons.inj hrests).2⟩
  | _ => simp [opening?] at hopening

end AnnotationValue

/-! ## Entries and annotations -/

namespace AnnotationEntry

theorem toList_source (e : AnnotationEntry) :
    e.source.toList = e.key.toList ++ '=' :: e.value.source.toList := by
  cases e
  simp [source]

theorem WellFormed.source_eq_cons {e : AnnotationEntry} (h : e.WellFormed) :
    ∃ c chars, e.source.toList = c :: chars ∧ Text.isWordChar c = true := by
  obtain ⟨c, chars, hkey⟩ := List.exists_cons_of_ne_nil (Text.toList_ne_nil_of_isIdentifier h.key)
  refine ⟨c, chars ++ '=' :: e.value.source.toList, by simp [toList_source, hkey], ?_⟩
  exact Text.isWord_of_isIdentifier h.key c (by simp [hkey])

theorem WellFormed.recoverable {e : AnnotationEntry} (h : e.WellFormed)
    (hrecoverable : Recoverable AnnotationValue.source AnnotationValue.WellFormed e.value) :
    Recoverable source WellFormed e := by
  intro f hf rest rest' hrest hrest' hsame
  simp only [toList_source, List.append_assoc, List.cons_append] at hsame
  obtain ⟨hkeys, hvalues⟩ := Text.append_inj_of_all (Text.isWord_of_isIdentifier h.key)
    (Text.isWord_of_isIdentifier hf.key) (Text.isWordChar_head?_cons rfl _)
    (Text.isWordChar_head?_cons rfl _) hsame
  obtain ⟨hvalue, rfl⟩ := hrecoverable f.value hf.value rest rest' hrest hrest'
    (List.cons.inj hvalues).2
  obtain ⟨key, value⟩ := e
  obtain ⟨key', value'⟩ := f
  obtain rfl : key = key' := String.toList_injective hkeys
  obtain rfl : value = value' := hvalue
  exact ⟨rfl, rfl⟩

end AnnotationEntry

namespace AnnotationUse

variable {es es' : List AnnotationEntry} {text text' : String} {rest rest' : List Char}

/-- A value in front of a closing bracket is not written like a key in front of its value. -/
theorem short_ne_keyed {v : AnnotationValue} (hv : v.WellFormed) {e : AnnotationEntry}
    (he : e.WellFormed) (es : List AnnotationEntry) (rest rest' : List Char) :
    v.source.toList ++ ')' :: rest ≠
      (", ".intercalate ((e :: es).map AnnotationEntry.source)).toList ++ rest' := by
  intro h
  obtain ⟨c, chars, hsource, hc⟩ := he.source_eq_cons
  rw [List.map_cons, Text.intercalate_cons_eq_join, String.toList_append, List.append_assoc] at h
  have hword : v.opening? = none := by
    rw [hsource, List.cons_append] at h
    rw [hv.opening?_eq h, if_pos hc]
  rw [AnnotationEntry.toList_source, List.append_assoc] at h
  have hrests := (Text.append_inj_of_all (hv.isWord_source hword)
    (Text.isWord_of_isIdentifier he.key) (Text.isWordChar_head?_cons rfl _)
    (Text.isWordChar_head?_cons rfl _) h).2
  simp at hrests

theorem Inside.append_inj (h : Inside es text) (h' : Inside es' text')
    (hes : ∀ e ∈ es, e.WellFormed) (hes' : ∀ e ∈ es', e.WellFormed)
    (hrecoverable : ∀ e ∈ es,
      Recoverable AnnotationValue.source AnnotationValue.WellFormed e.value)
    (hsame : text.toList ++ ')' :: rest = text'.toList ++ ')' :: rest') :
    es = es' ∧ rest = rest' := by
  have hclosed (rest : List Char) : Delimited (')' :: rest) := delimited_cons.mpr rfl
  cases h with
  | short v =>
      have hv := (hes _ List.mem_cons_self).value
      cases h' with
      | short w =>
          have hw := (hes' _ List.mem_cons_self).value
          obtain ⟨hvalue, hrests⟩ := hrecoverable _ List.mem_cons_self w hw _ _
            (hclosed rest) (hclosed rest') hsame
          exact ⟨by rw [show v = w from hvalue], (List.cons.inj hrests).2⟩
      | keyed f fs =>
          exact absurd hsame (short_ne_keyed hv (hes' f List.mem_cons_self) fs _ _)
  | keyed e es =>
      cases h' with
      | short w =>
          have hw := (hes' _ List.mem_cons_self).value
          exact absurd hsame.symm (short_ne_keyed hw (hes e List.mem_cons_self) es _ _)
      | keyed f fs =>
          obtain ⟨hentries, hrests⟩ := Text.intercalate_append_inj separates_comma
            (fun e he => by
              obtain ⟨c, chars, hsource, hc⟩ := AnnotationEntry.WellFormed.source_eq_cons he
              exact ⟨c, chars, hsource, Text.isDelimiter_eq_false_of_isWordChar hc⟩)
            (fun e he => (hes e he).recoverable (hrecoverable e he)) hes hes'
            ⟨hclosed rest, by simp⟩ ⟨hclosed rest', by simp⟩ hsame
          exact ⟨hentries, (List.cons.inj hrests).2⟩

/-- The annotation type ends where its parentheses begin, or else where the annotation does. -/
theorem recoverable_mk {type : String} {entries : List AnnotationEntry}
    (htype : Text.isQualifiedName type = true) (hentries : ∀ e ∈ entries, e.WellFormed)
    (hrecoverable : ∀ e ∈ entries,
      Recoverable AnnotationValue.source AnnotationValue.WellFormed e.value) :
    Recoverable source WellFormed ⟨type, entries⟩ := by
  rintro ⟨type', entries'⟩ ⟨htype', hkeys', hvalues'⟩ rest rest' hrest hrest' h
  have htypes {chars chars' : List Char} (hchars : ∀ c ∈ chars.head?, Text.isWordChar c = false)
      (hchars' : ∀ c ∈ chars'.head?, Text.isWordChar c = false)
      (hsame : type.toList ++ chars = type'.toList ++ chars') : type = type' ∧ chars = chars' := by
    obtain ⟨htypes, hrests⟩ := Text.append_inj_of_all (Text.isWord_of_isQualifiedName htype)
      (Text.isWord_of_isQualifiedName htype') hchars hchars' hsame
    exact ⟨String.toList_injective htypes, hrests⟩
  have hnone {rest : List Char} (hrest : Delimited rest) := Text.isWordChar_head?_of_delimited hrest
  have hparen (chars : List Char) := Text.isWordChar_head?_cons (c := '(') rfl chars
  have hne {chars rest : List Char} (hrest : Delimited rest) : rest ≠ '(' :: chars := by
    rintro rfl
    exact absurd (delimited_cons.mp hrest) (by decide)
  rcases toList_source_cases ⟨type, entries⟩ with ⟨hempty, hsource⟩ | ⟨text, hinside, hsource⟩ <;>
    rcases toList_source_cases ⟨type', entries'⟩ with
      ⟨hempty', hsource'⟩ | ⟨text', hinside', hsource'⟩ <;>
    simp only [hsource, hsource', List.cons_append, List.append_assoc, List.nil_append,
      List.cons.injEq, true_and] at h
  · obtain ⟨rfl, rfl⟩ := htypes (hnone hrest) (hnone hrest') h
    obtain rfl : entries = [] := hempty
    obtain rfl : entries' = [] := hempty'
    exact ⟨rfl, rfl⟩
  · exact absurd (htypes (hnone hrest) (hparen _) h).2 (hne hrest)
  · exact absurd (htypes (hparen _) (hnone hrest') h).2.symm (hne hrest')
  · obtain ⟨rfl, hrests⟩ := htypes (hparen _) (hparen _) h
    obtain ⟨hes, rfl⟩ := hinside.append_inj hinside' hentries
      (fun e he => ⟨hkeys' e he, hvalues' e he⟩) hrecoverable (List.cons.inj hrests).2
    obtain rfl : entries = entries' := hes
    exact ⟨rfl, rfl⟩

end AnnotationUse

mutual

theorem AnnotationValue.WellFormed.recoverable :
    ∀ {v : AnnotationValue}, v.WellFormed →
      Recoverable AnnotationValue.source AnnotationValue.WellFormed v
  | _, .text s => AnnotationValue.recoverable_text s
  | _, .char c => AnnotationValue.recoverable_char c
  | _, .flag b => (AnnotationValue.WellFormed.flag b).recoverable_word rfl
  | _, .int n => (AnnotationValue.WellFormed.int n).recoverable_word rfl
  | _, .long n => (AnnotationValue.WellFormed.long n).recoverable_word rfl
  | _, .enumConstant htype hconstant hclass =>
      (AnnotationValue.WellFormed.enumConstant htype hconstant hclass).recoverable_word rfl
  | _, .classLiteral htype => (AnnotationValue.WellFormed.classLiteral htype).recoverable_word rfl
  | _, .nested huse => AnnotationValue.recoverable_nested huse huse.recoverable
  | _, .array hvalues =>
      AnnotationValue.recoverable_array hvalues fun v hv => (hvalues v hv).recoverable

theorem AnnotationUse.WellFormed.recoverable :
    ∀ {use : AnnotationUse}, use.WellFormed →
      Recoverable AnnotationUse.source AnnotationUse.WellFormed use
  | _, .mk htype hkeys hvalues =>
      AnnotationUse.recoverable_mk htype (fun e he => ⟨hkeys e he, hvalues e he⟩)
        fun e he => (hvalues e he).recoverable

end

end CompanionFactory
