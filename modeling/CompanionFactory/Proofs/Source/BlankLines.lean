import Mathlib.Data.List.Chain
import Mathlib.Data.List.DropRight
import CompanionFactory.Proofs.Source.ClassBody

/-!
# Blank lines in a class body

A constructor or method that is not the first member of its class is set off by one empty line,
which comes before its tags.  There is one exception.  A field does not use up its tags, and as long
as a tag waits nothing is set off.  So the tags of a field take the empty line away from the
constructor or method behind it.

* `TagWaits` says this of the members themselves, and `tagWaits_concat` follows it from one member
  to the next;
* `WrittenClass.Reached` is what holds behind the class line and any members, and
  `WrittenClass.Reached.concat` keeps it up;
* `WrittenClass.blank_lines` says where the whole class has empty lines, and exactly when a
  constructor or method has none before it.
-/

namespace CompanionFactory

open Text (lines Unbroken EndsLine)

/-! ## Rows of lines -/

/-- Of any two lines in a row at least one is not empty. -/
def Spaced (rows : List String) : Prop :=
  rows.IsChain fun row next => row ≠ "" ∨ next ≠ ""

section Spaced

variable {rows own : List String}

theorem Spaced.not_infix (h : Spaced rows) : ¬["", ""] <:+: rows := by
  intro hinfix
  have hchain := List.IsChain.infix h hinfix
  have hpair := List.isChain_pair.mp hchain
  simp at hpair

theorem spaced_of_empty_not_mem (h : "" ∉ own) : Spaced own := by
  refine (List.pairwise_of_forall_mem_list fun row hrow next _ => ?_).isChain
  exact .inl fun hempty => h (hempty ▸ hrow)

/-- At most one empty line between lines that are not empty. -/
theorem Spaced.append_gap (hrows : Spaced rows) (hlast : rows.getLast? ≠ some "") {gap : Nat}
    (hgap : gap ≤ 1) (hown : "" ∉ own) : Spaced (rows ++ (List.replicate gap "" ++ own)) := by
  have hbehind : Spaced (List.replicate gap "" ++ own) := by
    rcases Nat.le_one_iff_eq_zero_or_eq_one.mp hgap with rfl | rfl
    · exact spaced_of_empty_not_mem hown
    · refine List.isChain_cons.mpr ⟨fun next hnext => ?_, spaced_of_empty_not_mem hown⟩
      exact .inr fun hempty => hown (hempty ▸ List.mem_of_mem_head? hnext)
  refine List.isChain_append.mpr ⟨hrows, hbehind, fun row hrow next _ => ?_⟩
  exact .inl fun hempty => hlast (hempty ▸ hrow)

theorem getLast?_append_ne (hne : own ≠ []) (hown : "" ∉ own) :
    (rows ++ own).getLast? ≠ some "" := by
  rw [List.getLast?_append_of_ne_nil rows hne]
  exact fun h => hown (List.mem_of_getLast? h)

end Spaced

/-! ## Waiting tags -/

/-- One of the fields at the end, behind the last constructor or method, has tags.  They go on
waiting for a declaration, although the field was theirs. -/
def TagWaits (members : List ClassMember) : Prop :=
  ∃ f ∈ members.rtakeWhile ClassMember.isField, f.tags ≠ []

instance (members : List ClassMember) : Decidable (TagWaits members) :=
  inferInstanceAs (Decidable (∃ _ ∈ _, _))

theorem tagWaits_concat {members : List ClassMember} {m : ClassMember} :
    TagWaits (members ++ [m]) ↔ m.isField = true ∧ (TagWaits members ∨ m.tags ≠ []) := by
  unfold TagWaits
  rw [List.rtakeWhile_concat]
  by_cases hfield : m.isField = true
  · simp [hfield, or_and_right, exists_or]
  · simp [hfield]

/-! ## Classes -/

namespace WrittenClass

variable (c : WrittenClass) (l : Layout)

/-- The lines from the class line through some members. -/
def rows (members : List ClassMember) : List String :=
  lines (l.textAll (c.stepsThrough members))

/-- Behind the members `before`, so many empty lines come before `m` with its tags.  No other empty
line stands there, nor between its tags and the end of its declaration. -/
def Follows (before : List ClassMember) (m : ClassMember) (gap : Nat) : Prop :=
  (c.rows l before).getLast? ≠ some "" ∧
  ∃ rest more,
    let own := m.rows { l with depth := l.depth + 1 }.indent rest more
    "" ∉ own ∧ c.rows l (before ++ [m]) = c.rows l before ++ (List.replicate gap "" ++ own)

/-- What is known behind the class line and some members. -/
structure Reached (members : List ClassMember) : Prop where
  depth_eq : (l.nextAll (c.stepsThrough members)).depth = l.depth + 1
  bodyEmpty_iff : (l.nextAll (c.stepsThrough members)).bodyEmpty = true ↔ members = []
  tagged_iff : (l.nextAll (c.stepsThrough members)).tagged = true ↔ TagWaits members
  endsLine : EndsLine (l.textAll (c.stepsThrough members))
  getLast?_ne : (c.rows l members).getLast? ≠ some ""
  spaced : Spaced (c.rows l members)

theorem stepsThrough_concat (members : List ClassMember) (m : ClassMember) :
    c.stepsThrough (members ++ [m]) = c.stepsThrough members ++ m.steps := by
  simp [stepsThrough]

variable {c l}

/-- The number of empty lines before a member is determined. -/
theorem Follows.unique {before : List ClassMember} {m : ClassMember} {gap gap' : Nat}
    (h : c.Follows l before m gap) (h' : c.Follows l before m gap') : gap = gap' := by
  have hcount (gap : Nat) {own : List String} (hown : "" ∉ own) :
      (List.replicate gap "" ++ own).count "" = gap := by
    rw [List.count_append, List.count_replicate_self, List.count_eq_zero_of_not_mem hown,
      Nat.add_zero]
  obtain ⟨-, rest, more, hown, hrows⟩ := h
  obtain ⟨-, rest', more', hown', hrows'⟩ := h'
  have hsame := List.append_cancel_left (hrows.symm.trans hrows')
  rw [← hcount gap hown, hsame, hcount gap' hown']

namespace Reached

variable {members : List ClassMember} (h : c.Reached l members)

include h

theorem rows_append (text : String) :
    lines (l.textAll (c.stepsThrough members) ++ text) = c.rows l members ++ lines text :=
  Text.lines_append h.endsLine text

/-- Only a field without tags is never set off. -/
theorem gapBefore_eq (m : ClassMember) : (l.nextAll (c.stepsThrough members)).gapBefore m =
    if members ≠ [] ∧ ¬TagWaits members ∧ (m.tags ≠ [] ∨ m.isField = false) then 1 else 0 := by
  rw [Layout.gapBefore, Layout.gap]
  simp only [Bool.or_eq_true, Bool.and_eq_true, h.tagged_iff, h.bodyEmpty_iff, List.isEmpty_iff]
  grind

theorem follows {m : ClassMember} (hm : ∀ step ∈ m.steps, step.OneLine) :
    c.Follows l members m
      (if members ≠ [] ∧ ¬TagWaits members ∧ (m.tags ≠ [] ∨ m.isField = false) then 1 else 0) := by
  let behind := l.nextAll (c.stepsThrough members)
  have hdepth : behind.depth ≠ 0 := h.depth_eq ▸ Nat.succ_ne_zero _
  have hindent : behind.indent = { l with depth := l.depth + 1 }.indent := by
    rw [Layout.indent, h.depth_eq, Layout.indent]
  obtain ⟨-, rest, more, hlines, hown⟩ := behind.exists_lines_member hdepth hm
  rw [hindent] at hlines hown
  refine ⟨h.getLast?_ne, rest, more, hown, ?_⟩
  rw [rows, stepsThrough_concat, Layout.textAll_append, h.rows_append, hlines, h.gapBefore_eq]

/-- A constructor or method behind other members is set off unless a tag waits. -/
theorem follows_one_iff {m : ClassMember} (hm : ∀ step ∈ m.steps, step.OneLine)
    (hroutine : m.isField = false) (hne : members ≠ []) :
    c.Follows l members m 1 ↔ ¬TagWaits members := by
  have hfollows := h.follows hm
  constructor
  · intro hone hwaits
    have hzero := hone.unique hfollows
    simp [hwaits] at hzero
  · intro hwaits
    rwa [if_pos ⟨hne, hwaits, .inr hroutine⟩] at hfollows

theorem concat {m : ClassMember} (hm : ∀ step ∈ m.steps, step.OneLine) :
    c.Reached l (members ++ [m]) := by
  let behind := l.nextAll (c.stepsThrough members)
  have hdepth : behind.depth ≠ 0 := h.depth_eq ▸ Nat.succ_ne_zero _
  obtain ⟨hends, -⟩ := behind.exists_lines_member hdepth hm
  obtain ⟨hdepth', hbodyEmpty, htagged⟩ := behind.nextAll_member m
  obtain ⟨-, rest, more, hown, hrows⟩ := h.follows hm
  have hne : m.rows { l with depth := l.depth + 1 }.indent rest more ≠ [] := by
    simp [ClassMember.rows]
  have hnext : l.nextAll (c.stepsThrough (members ++ [m])) = behind.nextAll m.steps := by
    rw [stepsThrough_concat, Layout.nextAll_append]
  refine ⟨?_, ?_, ?_, ?_, ?_, ?_⟩
  · rw [hnext, hdepth', h.depth_eq]
  · rw [hnext, hbodyEmpty]
    simp
  · rw [hnext, htagged, tagWaits_concat]
    simp [behind, h.tagged_iff]
  · rw [stepsThrough_concat, Layout.textAll_append]
    exact hends.append _
  · rw [hrows, ← List.append_assoc]
    exact getLast?_append_ne hne hown
  · rw [hrows]
    refine h.spaced.append_gap h.getLast?_ne ?_ hown
    split <;> decide

end Reached

/-! ## From the class line to the closing brace -/

theorem oneLine_head (hc : ∀ step ∈ c.steps, step.OneLine) :
    (SourceStep.classHead c.name c.generator c.modifiers).OneLine :=
  hc _ List.mem_cons_self

theorem oneLine_members (hc : ∀ step ∈ c.steps, step.OneLine) :
    ∀ m ∈ c.members, ∀ step ∈ m.steps, step.OneLine := by
  intro m hm step hstep
  have hbody : step ∈ c.members.flatMap (·.steps) := List.mem_flatMap_of_mem hm hstep
  exact hc step (List.mem_append_left _ (List.mem_cons_of_mem _ hbody))

/-- The tag that names the generator, then the class line. -/
theorem textAll_stepsThrough_nil : l.textAll (c.stepsThrough []) =
    l.line ("@javax.annotation.Generated(\"" ++ c.generator ++ "\")") ++
      l.line (Modifier.words c.modifiers ++ "class " ++ c.name ++ " \x7b") := by
  simp [stepsThrough, Layout.textAll, Layout.text]

theorem rows_nil (hhead : (SourceStep.classHead c.name c.generator c.modifiers).OneLine) :
    c.rows l [] =
      [l.indent ++ ("@javax.annotation.Generated(\"" ++ c.generator ++ "\")"),
        l.indent ++ (Modifier.words c.modifiers ++ "class " ++ c.name ++ " \x7b")] := by
  obtain ⟨hname, hgenerator⟩ := hhead
  have htag : Unbroken ("@javax.annotation.Generated(\"" ++ c.generator ++ "\")") :=
    (Unbroken.append (by decide) hgenerator).append (by decide)
  have hclass : Unbroken (Modifier.words c.modifiers ++ "class " ++ c.name ++ " \x7b") :=
    (((Modifier.unbroken_words c.modifiers).append (by decide)).append hname).append (by decide)
  rw [rows, textAll_stepsThrough_nil, l.lines_line_append htag (by simp),
    l.lines_line hclass (by simp)]

theorem reached_nil (hhead : (SourceStep.classHead c.name c.generator c.modifiers).OneLine) :
    c.Reached l [] := by
  have hnext : l.nextAll (c.stepsThrough []) =
      { l with depth := l.depth + 1, tagged := false, bodyEmpty := true } := rfl
  have hempty : "" ∉ c.rows l [] := by simp [rows_nil hhead]
  refine ⟨by rw [hnext], by simp [hnext], by simp [hnext, TagWaits], ?_, ?_, ?_⟩
  · rw [textAll_stepsThrough_nil]
    exact EndsLine.append _ ⟨_, l.line_eq _⟩
  · exact fun h => hempty (List.mem_of_getLast? h)
  · exact spaced_of_empty_not_mem hempty

/-- Behind the class line and any members, by induction on the members from the last one. -/
theorem reached (hhead : (SourceStep.classHead c.name c.generator c.modifiers).OneLine)
    {members : List ClassMember} (hmembers : ∀ m ∈ members, ∀ step ∈ m.steps, step.OneLine) :
    c.Reached l members := by
  induction members using List.reverseRecOn with
  | nil => exact reached_nil hhead
  | append_singleton members m ih =>
      obtain ⟨hfront, hm⟩ := List.forall_mem_append.mp hmembers
      exact (ih hfront).concat (hm m (List.mem_singleton_self m))

/-- What is written up to some member begins what is written in the end. -/
theorem Reached.rows_prefix_lines {before : List ClassMember} (h : c.Reached l before)
    {after : List ClassMember} (hmembers : c.members = before ++ after) :
    c.rows l before <+: lines (l.textAll c.steps) := by
  have hsteps : c.steps = c.stepsThrough before ++ (after.flatMap (·.steps) ++ [.closeBlock]) := by
    simp [steps, stepsThrough, hmembers]
  rw [hsteps, Layout.textAll_append, h.rows_append]
  exact List.prefix_append _ _

/-- The closing brace comes right behind the last member. -/
theorem Reached.lines_steps (h : c.Reached l c.members) :
    lines (l.textAll c.steps) = c.rows l c.members ++ [l.indent ++ "\x7d"] := by
  have hclose : (l.nextAll (c.stepsThrough c.members)).textAll [.closeBlock] = l.line "\x7d" := by
    simp [Layout.textAll, Layout.text, Layout.line, Layout.indent, h.depth_eq]
  rw [steps, Layout.textAll_append, h.rows_append, hclose,
    l.lines_line (by decide) (by decide)]

theorem Reached.spaced_steps (h : c.Reached l c.members) :
    Spaced (lines (l.textAll c.steps)) := by
  have hbrace : "" ∉ [l.indent ++ "\x7d"] := by simp
  have hspaced := h.spaced.append_gap h.getLast?_ne (Nat.zero_le 1) hbrace
  rw [List.replicate_zero, List.nil_append] at hspaced
  rwa [h.lines_steps]

/-- The line behind the class line is not empty. -/
theorem exists_lines_steps (hc : ∀ step ∈ c.steps, step.OneLine) :
    ∃ behind, lines (l.textAll c.steps) = c.rows l [] ++ behind ∧ behind.head? ≠ some "" := by
  have hhead := oneLine_head hc
  have hmembers := oneLine_members hc
  cases hlist : c.members with
  | nil =>
      refine ⟨[l.indent ++ "\x7d"], ?_, by simp⟩
      rw [(reached hhead hmembers).lines_steps, hlist]
  | cons m after =>
      have hm := hmembers m (hlist ▸ List.mem_cons_self)
      obtain ⟨-, rest, more, hown, hrows⟩ := (reached_nil (l := l) hhead).follows hm
      obtain ⟨back, hback⟩ := ((reached_nil (l := l) hhead).concat hm).rows_prefix_lines hlist
      refine ⟨m.rows { l with depth := l.depth + 1 }.indent rest more ++ back, ?_, fun hfirst => ?_⟩
      · rw [← hback, hrows]
        simp
      · rw [List.head?_append_of_ne_nil _ (by simp [ClassMember.rows])] at hfirst
        exact hown (List.mem_of_mem_head? hfirst)

/-- Written into a sink without a limit, a class has no empty line right behind its class line,
never two in a row, and none between a tag and its declaration.  A member has at most one, before
its first tag or, without tags, before its declaration.  A constructor or method that is not the
first member has one if and only if none of the fields right in front of it has tags. -/
theorem blank_lines (w : SourceWriter) (hsink : w.sink.limit = none) (c : WrittenClass)
    (hc : ∀ step ∈ c.steps, step.OneLine) :
    let l := w.layout
    let source := l.textAll c.steps
    (w.writeAll c.steps).2 = .ok () ∧
    (w.writeAll c.steps).1.sink.held = w.sink.held ++ Bytes.ofText source ∧
    (∃ behind, lines source =
        [l.indent ++ ("@javax.annotation.Generated(\"" ++ c.generator ++ "\")"),
          l.indent ++ (Modifier.words c.modifiers ++ "class " ++ c.name ++ " \x7b")] ++ behind ∧
      behind.head? ≠ some "") ∧
    ¬["", ""] <:+: lines source ∧
    ∀ before m after, c.members = before ++ m :: after →
      c.rows l (before ++ [m]) <+: lines source ∧
      c.Follows l before m
        (if before ≠ [] ∧ ¬TagWaits before ∧ (m.tags ≠ [] ∨ m.isField = false) then 1 else 0) ∧
      (m.isField = false → before ≠ [] → (c.Follows l before m 1 ↔ ¬TagWaits before)) := by
  intro l source
  have hhead := oneLine_head hc
  have hmembers := oneLine_members hc
  have hwritten := SourceWriter.writeAll_of_limit_none hsink c.steps
  refine ⟨by rw [hwritten], by rw [hwritten], ?_, ?_, ?_⟩
  · rw [← rows_nil hhead]
    exact exists_lines_steps hc
  · have hreached : c.Reached l c.members := reached hhead hmembers
    exact hreached.spaced_steps.not_infix
  · intro before m after hlist
    rw [hlist] at hmembers
    obtain ⟨hbefore, hbehind⟩ := List.forall_mem_append.mp hmembers
    have hm := hbehind m List.mem_cons_self
    have hreached : c.Reached l before := reached hhead hbefore
    have hthrough : c.members = (before ++ [m]) ++ after := by simp [hlist]
    exact ⟨(hreached.concat hm).rows_prefix_lines hthrough, hreached.follows hm,
      hreached.follows_one_iff hm⟩

/-- Two fields and two methods.  The first method comes right behind a field with a tag, the second
one is set off, before its tags. -/
theorem blank_lines_taggedField :
    let plain : ClassMember := ⟨[], .field "int" "n" [.privateAccess]⟩
    let tagged : ClassMember := ⟨["@A"], .field "String" "s" []⟩
    let first : ClassMember := ⟨[], .method "void" "first" [] {}⟩
    let second : ClassMember := ⟨["@B", "@C"], .method "void" "second" [] {}⟩
    let c : WrittenClass := ⟨"Foo", "Gen", [.publicAccess], [plain, tagged, first, second]⟩
    let w : SourceWriter := {}
    w.sink.limit = none ∧ (∀ step ∈ c.steps, step.OneLine) ∧
      ¬["", ""] <:+: lines (w.layout.textAll c.steps) ∧
      c.Follows w.layout [] plain 0 ∧ c.Follows w.layout [plain] tagged 1 ∧
      c.Follows w.layout [plain, tagged] first 0 ∧
      c.Follows w.layout [plain, tagged, first] second 1 := by
  intro plain tagged first second c w
  have hc : ∀ step ∈ c.steps, step.OneLine := by decide +kernel
  obtain ⟨-, -, -, hspaced, hmember⟩ := blank_lines w rfl c hc
  refine ⟨rfl, hc, hspaced, ?_, ?_, ?_, ?_⟩
  · exact (hmember [] plain _ rfl).2.1
  · exact (hmember [plain] tagged _ rfl).2.1
  · exact (hmember [plain, tagged] first _ rfl).2.1
  · exact ((hmember [plain, tagged, first] second [] rfl).2.2 rfl (by decide)).mpr (by decide)

/-- Not every constructor or method that is not the first member has an empty line before it: the
tag of a field takes the empty line away from the method behind the field. -/
theorem not_forall_follows :
    ¬∀ (w : SourceWriter) (c : WrittenClass), w.sink.limit = none →
      (∀ step ∈ c.steps, step.OneLine) →
      ∀ before m after, c.members = before ++ m :: after → m.isField = false → before ≠ [] →
        c.Follows w.layout before m 1 := by
  intro hall
  let tagged : ClassMember := ⟨["@A"], .field "T" "f" []⟩
  let method : ClassMember := ⟨[], .method "R" "m" [] {}⟩
  let c : WrittenClass := ⟨"Foo", "Gen", [], [tagged, method]⟩
  obtain ⟨-, rest, more, -, hrows⟩ :=
    hall {} c rfl (by decide +kernel) [tagged] method [] rfl rfl (by decide)
  -- The generated tag, the class line, the tag of the field and the field.
  have hbefore : (c.rows {} [tagged]).length = 4 := by decide +kernel
  have hfifth : (c.rows {} [tagged, method])[4]? = some "    R m() \x7b" := by decide +kernel
  have hempty : (c.rows {} [tagged, method])[4]? = some "" := by
    rw [show [tagged, method] = [tagged] ++ [method] from rfl, hrows,
      List.getElem?_append_right hbefore.le, hbefore]
    rfl
  exact absurd (hfifth.symm.trans hempty) (by decide)

end WrittenClass

end CompanionFactory
