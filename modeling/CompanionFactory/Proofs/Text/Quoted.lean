import CompanionFactory.Text.Quoted

/-!
# Reading quoted literals

Between double or single quotes, reading undoes writing for every text, and stops right behind the
closing quote whatever follows it.

* `unquote?_escape_append`: reading undoes writing;
* `unquote?_eq_some_cases`: the three ways in which reading begins;
* `eq_escape_of_unquote?`: without line breaks and tabs, a text can be written in one way only;
* `escape_reads_back` puts these together.
-/

namespace CompanionFactory.Text

/-- The two characters that literals are put between. -/
def IsQuote (quote : Char) : Prop :=
  quote = '"' ∨ quote = '\''

/-- A line break or a tab. -/
def IsRaw (c : Char) : Prop :=
  c = '\n' ∨ c = '\r' ∨ c = '\t'

instance (quote : Char) : Decidable (IsQuote quote) :=
  inferInstanceAs (Decidable (_ ∨ _))

instance (c : Char) : Decidable (IsRaw c) :=
  inferInstanceAs (Decidable (_ ∨ _ ∨ _))

/-! ## How reading begins -/

theorem unquote?_quote {quote : Char} (hquote : IsQuote quote) (rest : List Char) :
    unquote? quote (quote :: rest) = some ([], rest) := by
  rcases hquote with rfl | rfl <;> simp [unquote?]

theorem unquote?_backslash (quote c : Char) (rest : List Char) :
    unquote? quote ('\\' :: c :: rest) = (unescapeChar? quote c).bind fun d =>
      (unquote? quote rest).map fun read => (d :: read.1, read.2) := by
  rw [unquote?]
  cases unescapeChar? quote c <;> cases unquote? quote rest <;> rfl

/-- A character that stands for itself neither ends the literal nor escapes another. -/
theorem unquote?_cons_of_ne {quote c : Char} (hbackslash : c ≠ '\\') (hclose : c ≠ quote)
    (rest : List Char) :
    unquote? quote (c :: rest) = (unquote? quote rest).map fun read => (c :: read.1, read.2) := by
  rw [unquote?.eq_def]
  cases hread : unquote? quote rest <;> simp [hbackslash, hclose, hread]

/-! ## Reading what was written -/

/-- One written character is read as what it stands for, in front of anything. -/
theorem unquote?_escapeChar_append {quote : Char} (hquote : IsQuote quote) (c : Char)
    (rest : List Char) :
    unquote? quote (escapeChar quote c ++ rest) =
      (unquote? quote rest).map fun read => (c :: read.1, read.2) := by
  have hescaped (written : Char) (hread : unescapeChar? quote written = some c) :
      unquote? quote ('\\' :: written :: rest) =
        (unquote? quote rest).map fun read => (c :: read.1, read.2) := by
    rw [unquote?_backslash, hread, Option.bind_some]
  by_cases hbackslash : c = '\\'
  · simpa [escapeChar, hbackslash] using hescaped '\\' (by rw [hbackslash]; rfl)
  by_cases hline : c = '\n'
  · simpa [escapeChar, hline] using hescaped 'n' (by rw [hline]; rfl)
  by_cases hreturn : c = '\r'
  · simpa [escapeChar, hreturn] using hescaped 'r' (by rw [hreturn]; rfl)
  by_cases htab : c = '\t'
  · simpa [escapeChar, htab] using hescaped 't' (by rw [htab]; rfl)
  by_cases hclose : c = quote
  · have hread : unescapeChar? quote quote = some c := by
      rcases hquote with rfl | rfl <;> rw [hclose] <;> rfl
    have hwritten : escapeChar quote c = ['\\', quote] := by
      simp only [escapeChar, hbackslash, hline, hreturn, htab, if_false, if_pos hclose]
    rw [hwritten]
    exact hescaped quote hread
  simpa [escapeChar, hbackslash, hline, hreturn, htab, hclose] using
    unquote?_cons_of_ne hbackslash hclose rest

theorem unquote?_escape_append {quote : Char} (hquote : IsQuote quote) (text rest : List Char) :
    unquote? quote (escape quote text ++ quote :: rest) = some (text, rest) := by
  induction text with
  | nil => exact unquote?_quote hquote rest
  | cons c text ih =>
      rw [escape_cons, List.append_assoc, unquote?_escapeChar_append hquote, ih]
      rfl

/-- A literal determines its text and where it ends. -/
theorem escape_append_inj {quote : Char} (hquote : IsQuote quote)
    {text text' rest rest' : List Char}
    (h : escape quote text ++ quote :: rest = escape quote text' ++ quote :: rest') :
    text = text' ∧ rest = rest' := by
  have hread := unquote?_escape_append hquote text rest
  rw [h, unquote?_escape_append hquote text' rest'] at hread
  exact Prod.mk.inj (Option.some.inj hread.symm)

theorem not_isRaw_of_mem_escape {quote c : Char} {text : List Char} (h : c ∈ escape quote text) :
    ¬IsRaw c := by
  obtain ⟨d, -, hd⟩ := List.mem_flatMap.mp h
  unfold escapeChar at hd
  repeat' split at hd
  all_goals grind [IsRaw]

/-! ## Writing what was read -/

theorem escapeChar_of_ne {quote c : Char} (hbackslash : c ≠ '\\') (hclose : c ≠ quote)
    (hraw : ¬IsRaw c) : escapeChar quote c = [c] := by
  obtain ⟨hline, hreturn, htab⟩ : c ≠ '\n' ∧ c ≠ '\r' ∧ c ≠ '\t' := by
    simpa [IsRaw, not_or] using hraw
  rw [escapeChar, if_neg hbackslash, if_neg hline, if_neg hreturn, if_neg htab, if_neg hclose]

section Uniqueness

variable {quote : Char} (hquote : IsQuote quote) {chars written text rest : List Char}

include hquote

/-- Reading stops at the quote, or takes a backslash with the character behind it, or takes a
character that stands for itself. -/
theorem unquote?_eq_some_cases (h : unquote? quote chars = some (text, rest)) :
    (chars = quote :: rest ∧ text = []) ∨
    (∃ c d chars' text', chars = '\\' :: c :: chars' ∧ text = d :: text' ∧
      unescapeChar? quote c = some d ∧ unquote? quote chars' = some (text', rest)) ∨
    (∃ c chars' text', chars = c :: chars' ∧ text = c :: text' ∧
      c ≠ '\\' ∧ c ≠ quote ∧ unquote? quote chars' = some (text', rest)) := by
  cases chars with
  | nil => simp [unquote?] at h
  | cons c chars =>
      by_cases hbackslash : c = '\\'
      · subst hbackslash
        cases chars with
        | nil => simp [unquote?] at h
        | cons c chars =>
            rw [unquote?_backslash] at h
            obtain ⟨d, hd, hmap⟩ := Option.bind_eq_some_iff.mp h
            obtain ⟨⟨text', rest'⟩, hread, heq⟩ := Option.map_eq_some_iff.mp hmap
            cases heq
            exact .inr (.inl ⟨c, d, chars, text', rfl, rfl, hd, hread⟩)
      by_cases hclose : c = quote
      · rw [hclose, unquote?_quote hquote] at h
        cases h
        exact .inl ⟨by rw [hclose], rfl⟩
      rw [unquote?_cons_of_ne hbackslash hclose] at h
      obtain ⟨⟨text', rest'⟩, hread, heq⟩ := Option.map_eq_some_iff.mp h
      cases heq
      exact .inr (.inr ⟨c, chars, text', rfl, rfl, hbackslash, hclose, hread⟩)

/-- At least the closing quote is taken. -/
theorem length_lt_of_unquote?_eq_some (h : unquote? quote chars = some (text, rest)) :
    rest.length < chars.length := by
  induction text generalizing chars with
  | nil =>
      obtain ⟨rfl, -⟩ | ⟨_, _, _, _, -, htext, -⟩ | ⟨_, _, _, -, htext, -⟩ :=
        unquote?_eq_some_cases hquote h
      · exact Nat.lt_succ_self _
      · cases htext
      · cases htext
  | cons d text ih =>
      obtain ⟨-, htext⟩ | ⟨c, _, chars', _, rfl, htext, -, hread⟩ |
        ⟨c, chars', _, rfl, htext, -, -, hread⟩ := unquote?_eq_some_cases hquote h
      · cases htext
      · cases htext
        have hlater := ih hread
        simp only [List.length_cons]
        omega
      · cases htext
        exact Nat.lt_succ_of_lt (ih hread)

theorem escapeChar_of_unescapeChar? {c d : Char} (h : unescapeChar? quote c = some d) :
    escapeChar quote d = ['\\', c] := by
  unfold unescapeChar? at h
  rcases hquote with rfl | rfl <;> grind [escapeChar]

/-- Whatever reads back as a text, and holds no line break and no tab, is how the text is
written. -/
theorem eq_escape_of_unquote? (hraw : ∀ c ∈ written, ¬IsRaw c)
    (h : unquote? quote (written ++ quote :: rest) = some (text, rest)) :
    written = escape quote text := by
  have hne : quote ≠ '\\' := by rcases hquote with rfl | rfl <;> decide
  -- The induction is on what was read: each of its characters takes one or two from `written`.
  induction text generalizing written with
  | nil =>
      obtain ⟨hchars, -⟩ | ⟨_, _, _, _, -, htext, -⟩ | ⟨_, _, _, -, htext, -⟩ :=
        unquote?_eq_some_cases hquote h
      · exact List.append_cancel_right hchars
      · cases htext
      · cases htext
  | cons d text ih =>
      obtain ⟨-, htext⟩ | ⟨c, _, chars', _, hchars, htext, hd, hread⟩ |
        ⟨c, chars', _, hchars, htext, hbackslash, hclose, hread⟩ :=
        unquote?_eq_some_cases hquote h
      · cases htext
      · cases htext
        match written with
        | [] => exact absurd (List.cons.inj hchars).1 hne
        | [_] =>
            -- The backslash would take the closing quote, and reading would go on behind it.
            obtain ⟨-, htail⟩ := List.cons.inj hchars
            obtain ⟨-, rfl⟩ := List.cons.inj htail
            exact absurd (length_lt_of_unquote?_eq_some hquote hread) (Nat.lt_irrefl _)
        | backslash :: _ :: written =>
            obtain ⟨hfirst, htail⟩ := List.cons.inj hchars
            obtain ⟨rfl, rfl⟩ := List.cons.inj htail
            have hlater : ∀ c ∈ written, ¬IsRaw c := fun c hc =>
              hraw c (List.mem_cons_of_mem _ (List.mem_cons_of_mem _ hc))
            rw [escape_cons, escapeChar_of_unescapeChar? hquote hd, ← ih hlater hread, hfirst]
            rfl
      · cases htext
        match written with
        | [] => exact absurd (List.cons.inj hchars).1.symm hclose
        | _ :: written =>
            obtain ⟨rfl, rfl⟩ := List.cons.inj hchars
            obtain ⟨hfirst, hlater⟩ := List.forall_mem_cons.mp hraw
            rw [escape_cons, escapeChar_of_ne hbackslash hclose hfirst, ← ih hlater hread]
            rfl

/-- Between either kind of quotes the written form of a text reads back as this text, and reading
stops in front of whatever follows the closing quote.  The written form holds no line break and no
tab, and it is the only text without them that reads back so. -/
theorem escape_reads_back (text rest : List Char) :
    unquote? quote (escape quote text ++ quote :: rest) = some (text, rest) ∧
      (∀ c ∈ escape quote text, c ≠ '\n' ∧ c ≠ '\r' ∧ c ≠ '\t') ∧
      ∀ written, (∀ c ∈ written, ¬IsRaw c) →
        unquote? quote (written ++ quote :: rest) = some (text, rest) →
          written = escape quote text := by
  refine ⟨unquote?_escape_append hquote text rest, fun c hc => ?_, fun written hraw h => ?_⟩
  · have hplain := not_isRaw_of_mem_escape hc
    simpa [IsRaw, not_or] using hplain
  · exact eq_escape_of_unquote? hquote hraw h

end Uniqueness

/-- Backslashes in front of both quotes, in front of a line break and at the end. -/
theorem escape_reads_back_backslashes :
    IsQuote '\'' ∧
      escape '\'' ['\\', '\'', '\\', '"', '\\', '\n', '\\'] =
        ['\\', '\\', '\\', '\'', '\\', '\\', '"', '\\', '\\', '\\', 'n', '\\', '\\'] ∧
      unquote? '\'' (escape '\'' ['\\', '\'', '\\', '"', '\\', '\n', '\\'] ++ '\'' :: ['\'', ')']) =
        some (['\\', '\'', '\\', '"', '\\', '\n', '\\'], ['\'', ')']) :=
  ⟨by decide, by decide, (escape_reads_back (.inr rfl) _ _).1⟩

end CompanionFactory.Text
