/-!
# Where written texts end

A text that is followed by more text can be found again when what follows shows where it ends.  A
run of characters of one class ends where the class does.  Other texts are only told apart in front
of a delimiter; they may contain delimiters themselves.

* `append_inj_of_all`: runs of one class;
* `Recoverable`: a written text determines what it was written for, and where it ends;
* `intercalate_append_inj`: recoverable texts can be told apart after they have been joined.
-/

namespace CompanionFactory.Text

/-- A separator before every text but the first is a separator between any two. -/
theorem intercalate_cons_eq_join (separator first : String) (texts : List String) :
    separator.intercalate (first :: texts) =
      first ++ String.join (texts.map fun text => separator ++ text) := by
  induction texts generalizing first with
  | nil => simp
  | cons text texts ih =>
      rw [String.intercalate_cons_cons, ih text]
      simp [String.append_assoc]

/-- Two runs of characters of one class, each followed by nothing or by a character outside the
class, are equal when the whole texts are. -/
theorem append_inj_of_all {p : Char → Bool} {run run' rest rest' : List Char}
    (hrun : ∀ c ∈ run, p c = true) (hrun' : ∀ c ∈ run', p c = true)
    (hrest : ∀ c ∈ rest.head?, p c = false) (hrest' : ∀ c ∈ rest'.head?, p c = false)
    (h : run ++ rest = run' ++ rest') : run = run' ∧ rest = rest' := by
  have hread {run rest : List Char} (hrun : ∀ c ∈ run, p c = true)
      (hrest : ∀ c ∈ rest.head?, p c = false) : (run ++ rest).takeWhile p = run := by
    rw [List.takeWhile_append_of_pos hrun]
    cases rest with
    | nil => simp
    | cons c rest => simp [hrest c rfl]
  have hsame : run = run' := by rw [← hread hrun hrest, h, hread hrun' hrest']
  exact ⟨hsame, List.append_cancel_left (hsame ▸ h)⟩

/-! ## Delimiters -/

/-- The characters that a text may end in front of. -/
def isDelimiter (c : Char) : Bool :=
  c == ',' || c == ')' || c == '\x7d' || c == ' '

/-- The text is empty or begins with a delimiter. -/
def Delimited (rest : List Char) : Prop :=
  ∀ c ∈ rest.head?, isDelimiter c = true

theorem delimited_nil : Delimited [] := by
  simp [Delimited]

theorem delimited_cons {c : Char} {rest : List Char} :
    Delimited (c :: rest) ↔ isDelimiter c = true := by
  simp [Delimited]

/-- In front of delimiters, no other good thing is written in a way that could be mistaken for how
`a` is written. -/
def Recoverable {α : Type} (write : α → String) (Good : α → Prop) (a : α) : Prop :=
  ∀ b, Good b → ∀ rest rest', Delimited rest → Delimited rest' →
    (write a).toList ++ rest = (write b).toList ++ rest' → a = b ∧ rest = rest'

/-- A separator has to begin with a delimiter, so that the text before it ends there. -/
def Separates (separator : String) : Prop :=
  ∃ c ∈ separator.toList.head?, isDelimiter c = true

/-- What stands behind a join begins with a delimiter as well, but not like the separator. -/
structure Closes (separator : String) (rest : List Char) : Prop where
  delimited : Delimited rest
  head?_ne : rest.head? ≠ separator.toList.head?

section Joined

variable {α : Type} {write : α → String} {Good : α → Prop} {separator : String}
  {as bs : List α} {rest rest' : List Char}

theorem delimited_join_append (hseparator : Separates separator) (as : List α)
    (hrest : Closes separator rest) :
    Delimited
      ((String.join ((as.map write).map fun text => separator ++ text)).toList ++ rest) := by
  obtain ⟨c, hhead, hc⟩ := hseparator
  obtain ⟨chars, hchars⟩ := List.head?_eq_some_iff.mp hhead
  cases as with
  | nil => simpa using hrest.delimited
  | cons a as => simpa [hchars, delimited_cons] using hc

/-- What stands behind the first text of a join: every further text after its separator. -/
theorem join_append_inj (hseparator : Separates separator)
    (has : ∀ a ∈ as, Recoverable write Good a)
    (hbs : ∀ b ∈ bs, Good b) (hrest : Closes separator rest) (hrest' : Closes separator rest')
    (h : (String.join ((as.map write).map fun text => separator ++ text)).toList ++ rest =
      (String.join ((bs.map write).map fun text => separator ++ text)).toList ++ rest') :
    as = bs ∧ rest = rest' := by
  have ⟨c, hhead, _⟩ := hseparator
  obtain ⟨chars, hchars⟩ := List.head?_eq_some_iff.mp hhead
  induction as generalizing bs with
  | nil =>
      cases bs with
      | nil => exact ⟨rfl, by simpa using h⟩
      | cons b bs =>
          refine absurd ?_ hrest.head?_ne
          simpa [hchars] using congrArg List.head? h
  | cons a as ih =>
      cases bs with
      | nil =>
          refine absurd ?_ hrest'.head?_ne
          simpa [hchars] using congrArg List.head? h.symm
      | cons b bs =>
          obtain ⟨ha, htail⟩ := List.forall_mem_cons.mp has
          obtain ⟨hb, htail'⟩ := List.forall_mem_cons.mp hbs
          simp only [List.map_cons, String.join_cons, String.toList_append, List.append_assoc,
            List.append_cancel_left_eq] at h
          obtain ⟨rfl, htails⟩ := ha b hb _ _ (delimited_join_append hseparator as hrest)
            (delimited_join_append hseparator bs hrest') h
          obtain ⟨rfl, rfl⟩ := ih htail htail' htails
          exact ⟨rfl, rfl⟩

/-- Joins of recoverable texts are joins of the same texts, and end at the same place. -/
theorem intercalate_append_inj (hseparator : Separates separator)
    (hstart : ∀ a, Good a → ∃ c chars, (write a).toList = c :: chars ∧ isDelimiter c = false)
    (has : ∀ a ∈ as, Recoverable write Good a) (hgood : ∀ a ∈ as, Good a)
    (hbs : ∀ b ∈ bs, Good b) (hrest : Closes separator rest) (hrest' : Closes separator rest')
    (h : (separator.intercalate (as.map write)).toList ++ rest =
      (separator.intercalate (bs.map write)).toList ++ rest') :
    as = bs ∧ rest = rest' := by
  have hne {a : α} (ha : Good a) (as : List α) {rest chars : List Char} (hrest : Delimited rest) :
      rest ≠ (separator.intercalate ((a :: as).map write)).toList ++ chars := by
    obtain ⟨d, tail, hwritten, hd⟩ := hstart a ha
    rintro rfl
    simp [intercalate_cons_eq_join, hwritten, delimited_cons, hd] at hrest
  cases as with
  | nil =>
      cases bs with
      | nil => exact ⟨rfl, by simpa using h⟩
      | cons b bs => exact absurd h (hne (hbs b List.mem_cons_self) bs hrest.delimited)
  | cons a as =>
      cases bs with
      | nil => exact absurd h.symm (hne (hgood a List.mem_cons_self) as hrest'.delimited)
      | cons b bs =>
          obtain ⟨ha, htail⟩ := List.forall_mem_cons.mp has
          obtain ⟨hb, htail'⟩ := List.forall_mem_cons.mp hbs
          simp only [List.map_cons, intercalate_cons_eq_join, String.toList_append,
            List.append_assoc] at h
          obtain ⟨rfl, htails⟩ := ha b hb _ _ (delimited_join_append hseparator as hrest)
            (delimited_join_append hseparator bs hrest') h
          obtain ⟨rfl, rfl⟩ := join_append_inj hseparator htail htail' hrest hrest' htails
          exact ⟨rfl, rfl⟩

end Joined

end CompanionFactory.Text
