import CompanionFactory.Proofs.Text.Recovery

/-!
# The lines of a text

Every line break ends a line.  What stands behind the last one is not a line yet: it may still be
continued by more text.

* `lines_line_append`: a line in front of a text;
* `lines_append`: texts that end with a line break have their own lines;
* `empty_not_mem_lines_append`: texts without empty lines can be put together, wherever their lines
  begin and end.
-/

namespace CompanionFactory.Text

/-- The lines of a text, without their line breaks. -/
def lines (text : String) : List String :=
  (text.toList.splitOn '\n').dropLast.map String.ofList

/-- The text stands on one line. -/
def Unbroken (text : String) : Prop :=
  '\n' ∉ text.toList

instance (text : String) : Decidable (Unbroken text) :=
  inferInstanceAs (Decidable (_ ∉ _))

theorem unbroken_append {s t : String} : Unbroken (s ++ t) ↔ Unbroken s ∧ Unbroken t := by
  simp [Unbroken, not_or]

theorem Unbroken.append {s t : String} (hs : Unbroken s) (ht : Unbroken t) : Unbroken (s ++ t) :=
  unbroken_append.mpr ⟨hs, ht⟩

theorem Unbroken.join {texts : List String} (h : ∀ text ∈ texts, Unbroken text) :
    Unbroken (String.join texts) := by
  induction texts with
  | nil => decide
  | cons text texts ih =>
      obtain ⟨htext, htexts⟩ := List.forall_mem_cons.mp h
      rw [String.join_cons]
      exact htext.append (ih htexts)

theorem Unbroken.intercalate {separator : String} (hseparator : Unbroken separator)
    {texts : List String} (h : ∀ text ∈ texts, Unbroken text) :
    Unbroken (separator.intercalate texts) := by
  cases texts with
  | nil => simp [Unbroken]
  | cons first texts =>
      obtain ⟨hfirst, htexts⟩ := List.forall_mem_cons.mp h
      rw [intercalate_cons_eq_join]
      refine hfirst.append (Unbroken.join fun text htext => ?_)
      obtain ⟨text, hmem, rfl⟩ := List.mem_map.mp htext
      exact hseparator.append (htexts text hmem)

@[simp] theorem lines_empty : lines "" = [] := rfl

theorem lines_break_append (t : String) : lines ("\n" ++ t) = "" :: lines t := by
  have hsplit : ('\n' :: t.toList).splitOn '\n' = [] :: t.toList.splitOn '\n' := by
    simp [List.splitOn_cons_eq_if_modifyHead]
  have htext : ("\n" ++ t).toList = '\n' :: t.toList := by simp
  rw [lines, htext, hsplit, List.dropLast_cons_of_ne_nil (List.splitOn_ne_nil _ _)]
  rfl

/-- A text without line breaks goes on the first line of what follows. -/
theorem lines_append_of_unbroken {s : String} (hs : Unbroken s) (t : String) :
    lines (s ++ t) = (lines t).modifyHead (s ++ ·) := by
  have hsplit (cs : List Char) (hcs : '\n' ∉ cs) : (cs ++ t.toList).splitOn '\n' =
      (t.toList.splitOn '\n').modifyHead (cs ++ ·) := by
    induction cs with
    | nil =>
        rw [List.nil_append]
        cases t.toList.splitOn '\n' <;> rfl
    | cons c cs ih =>
        rw [List.mem_cons, not_or] at hcs
        obtain ⟨hc, hcs⟩ := hcs
        have hne : (c == '\n') = false := beq_eq_false_iff_ne.mpr (Ne.symm hc)
        rw [List.cons_append, List.splitOn_cons_eq_if_modifyHead, hne, ih hcs]
        cases t.toList.splitOn '\n' <;> rfl
  rw [lines, String.toList_append, hsplit _ hs, lines]
  -- The last piece is no line, whether or not it is the first one too.
  match t.toList.splitOn '\n' with
  | [] | [_] => rfl
  | first :: second :: pieces => simp

theorem lines_eq_nil_of_unbroken {s : String} (hs : Unbroken s) : lines s = [] := by
  have h := lines_append_of_unbroken hs ""
  rwa [String.append_empty] at h

theorem lines_line_append {row : String} (hrow : Unbroken row) (t : String) :
    lines (row ++ "\n" ++ t) = row :: lines t := by
  rw [String.append_assoc, lines_append_of_unbroken hrow, lines_break_append]
  simp

/-- The last line of the text has its line break. -/
def EndsLine (text : String) : Prop :=
  ∃ front, text = front ++ "\n"

theorem EndsLine.append (s : String) {t : String} (ht : EndsLine t) : EndsLine (s ++ t) := by
  obtain ⟨front, rfl⟩ := ht
  exact ⟨s ++ front, (String.append_assoc).symm⟩

theorem lines_append {s : String} (hs : EndsLine s) (t : String) :
    lines (s ++ t) = lines s ++ lines t := by
  obtain ⟨front, rfl⟩ := hs
  have hsplit (cs : List Char) : ((front.toList ++ '\n' :: cs).splitOn '\n').dropLast =
      front.toList.splitOn '\n' ++ (cs.splitOn '\n').dropLast := by
    rw [List.splitOn_append_cons_self, List.dropLast_append_of_ne_nil (List.splitOn_ne_nil _ _)]
  have hends : (front ++ "\n").toList = front.toList ++ '\n' :: [] := by simp
  have hboth : (front ++ "\n" ++ t).toList = front.toList ++ '\n' :: t.toList := by simp
  rw [lines, lines, hends, hboth, hsplit, hsplit]
  simp [lines]

theorem unbroken_or_exists_line (s : String) :
    Unbroken s ∨ ∃ row rest, Unbroken row ∧ s = row ++ "\n" ++ rest := by
  by_cases hbreak : '\n' ∈ s.toList
  · obtain ⟨row, rest, hchars, hrow⟩ := List.eq_append_cons_of_mem hbreak
    refine .inr ⟨String.ofList row, String.ofList rest, by simpa [Unbroken] using hrow, ?_⟩
    apply String.toList_injective
    simp [hchars]
  · exact .inl hbreak

theorem EndsLine.lines_ne_nil {s : String} (hs : EndsLine s) : lines s ≠ [] := by
  obtain ⟨front, rfl⟩ := hs
  rcases unbroken_or_exists_line front with hunbroken | ⟨row, rest, hrow, rfl⟩
  · have h := lines_line_append hunbroken ""
    rw [String.append_empty] at h
    simp [h]
  · rw [String.append_assoc, lines_line_append hrow]
    exact List.cons_ne_nil _ _

theorem empty_not_mem_lines_append {s t : String} (hs : "" ∉ lines s) (ht : "" ∉ lines t) :
    "" ∉ lines (s ++ t) := by
  rcases unbroken_or_exists_line s with hunbroken | ⟨row, rest, hrow, htext⟩
  · rw [lines_append_of_unbroken hunbroken]
    cases hlines : lines t with
    | nil => simp
    | cons first more =>
        rw [hlines] at ht
        simp_all
  · have hshorter : rest.length < s.length := by
      have hbreak : "\n".length = 1 := rfl
      rw [htext, String.length_append, String.length_append, hbreak]
      omega
    rw [htext, lines_line_append hrow, List.mem_cons, not_or] at hs
    rw [htext, String.append_assoc, lines_line_append hrow, List.mem_cons, not_or]
    exact ⟨hs.1, empty_not_mem_lines_append hs.2 ht⟩
termination_by s.length

end CompanionFactory.Text
