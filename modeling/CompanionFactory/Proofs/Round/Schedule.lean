import CompanionFactory.Proofs.Round.Files
import CompanionFactory.Proofs.Round.Pending
import Mathlib.Data.List.Perm.Basic

/-!
# Compilations that differ in their schedule only

The same classes can be shown to the generator in many ways: in any order, spread over any number
of rounds, and long before all their types are resolved.  A `Schedule` is any such way.  Every
schedule ends with the same files: one for each class, generated from its resolved form.

At any time of such a compilation the classes fall into three groups: those whose factory is
written, those that wait, and those that no round has shown yet.  `Standing` says what is known of
each group, `Standing.process` that a round moves classes from group to group and does nothing
else, and `Standing.run` that in the end only written factories are left.
-/

namespace CompanionFactory

/-- A class that asks for a factory and is resolved, with the target that is read from it. -/
structure ResolvedClass (s : Settings) where
  element : Element
  target : Target
  marked : element.carries s.factoryMarker = true
  read : Target.ofElement s element = .ok target

/-- A call of the generator: what the host knows at that time, and the round. -/
structure Call where
  types : TypeTable
  round : Round

namespace ResolvedClass

variable {s : Settings}

def name (x : ResolvedClass s) : String :=
  x.element.qualifiedName

def factoryName (x : ResolvedClass s) : String :=
  x.target.qualifiedFactoryName

def file (x : ResolvedClass s) : StoredFile :=
  factoryFile s x.element x.target

/-- The class is known in its resolved form. -/
def KnownTo (x : ResolvedClass s) (types : TypeTable) : Prop :=
  types.get? x.name = some x.element

/-- The round shows a target by the name of the class. -/
def ShownBy (x : ResolvedClass s) (r : Round) : Prop :=
  x.name ∈ r.targetNames s

instance (x : ResolvedClass s) (r : Round) : Decidable (x.ShownBy r) :=
  inferInstanceAs (Decidable (x.name ∈ r.targetNames s))

/-- Exactly one of the calls shows the class, and in that call or a later one the class is known in
its resolved form. -/
inductive ShownOnce (x : ResolvedClass s) : List Call → Prop
  | now {call : Call} {ahead : List Call} (hshown : x.ShownBy call.round)
      (hquiet : ∀ later ∈ ahead, ¬x.ShownBy later.round)
      (hknown : ∃ later ∈ call :: ahead, x.KnownTo later.types) : ShownOnce x (call :: ahead)
  | later {call : Call} {ahead : List Call} (hhidden : ¬x.ShownBy call.round)
      (hahead : ShownOnce x ahead) : ShownOnce x (call :: ahead)

theorem not_unsettled {x : ResolvedClass s} {types : TypeTable} (h : x.KnownTo types) :
    ¬Unsettled s types x.name := by
  rw [unsettled_iff_of_known h, x.marked, x.read]
  simp

end ResolvedClass

/-! ## Attempts on the classes of a schedule -/

theorem Attempted.of_unsettled {s : Settings} {host after : MemoryHost} {name : String}
    {verdict : Verdict} (h : Attempted s host name verdict after)
    (hunsettled : Unsettled s host.types name) : verdict.isFinal = false ∧ after = host := by
  have hopen := h.isFinal_eq_false_iff.mpr hunsettled
  refine ⟨hopen, ?_⟩
  cases h with
  | missing | unmarked | deferred => rfl
  | rejected | failed | emitted => cases hopen

theorem Attempted.of_knownTo {s : Settings} {x : ResolvedClass s} {host after : MemoryHost}
    {verdict : Verdict} (h : Attempted s host x.name verdict after) (hknown : x.KnownTo host.types)
    (hrefused : host.store.refused = []) (hfree : ∀ f ∈ host.store.files, f.name ≠ x.factoryName) :
    verdict = .emitted ∧ after = { host with store := host.store.keep x.file } := by
  have hemit : Emittable s host.types host.store x.name x.element x.target :=
    ⟨hknown, x.marked, x.read, by simp [hrefused], hfree⟩
  obtain rfl := h.emitted_of_emittable hemit
  refine ⟨rfl, ?_⟩
  cases h with
  | emitted hknown' hmarked hread _ =>
      obtain rfl := Option.some.inj (hknown.symm.trans hknown')
      obtain rfl := Except.ok.inj (x.read.symm.trans hread)
      rfl

/-- A chain of attempts on classes whose factories have free and distinct names: it writes the
factories of those that are known in their resolved form, and leaves the others waiting. -/
theorem Attempts.exists_written {s : Settings} {host after : MemoryHost}
    {verdicts : List (String × Verdict)} (h : Attempts s host verdicts after)
    {due : List (ResolvedClass s)} (hnames : verdicts.map (·.1) = due.map (·.name))
    (hknown : ∀ x ∈ due, Unsettled s host.types x.name ∨ x.KnownTo host.types)
    (hrefused : host.store.refused = [])
    (hfree : ∀ x ∈ due, ∀ f ∈ host.store.files, f.name ≠ x.factoryName)
    (hdistinct : (due.map (·.factoryName)).Nodup) :
    ∃ written left : List (ResolvedClass s),
      due.Perm (written ++ left) ∧
      after.store.files = host.store.files ++ written.map (·.file) ∧
      after.reporter = host.reporter ∧
      (verdicts.filter fun v => !v.2.isFinal).map (·.1) = left.map (·.name) ∧
      ∀ x ∈ left, ¬x.KnownTo host.types := by
  induction h generalizing due with
  | nil host =>
      obtain rfl := List.map_eq_nil_iff.mp hnames.symm
      exact ⟨[], [], List.Perm.refl _, (List.append_nil _).symm, rfl, rfl, by simp⟩
  | @cons host middle after name verdict verdicts first rest ih =>
      obtain ⟨x, due, rfl, rfl, hrest⟩ := List.map_eq_cons_iff.mp hnames.symm
      obtain ⟨hfirst, hdistinct⟩ := List.nodup_cons.mp hdistinct
      obtain ⟨hknownFirst, hknown⟩ := List.forall_mem_cons.mp hknown
      obtain ⟨hfreeFirst, hfree⟩ := List.forall_mem_cons.mp hfree
      rcases hknownFirst with hunsettled | hresolved
      · obtain ⟨hopen, rfl⟩ := first.of_unsettled hunsettled
        obtain ⟨written, left, hperm, hfiles, hreporter, hkept, hleft⟩ :=
          ih hrest.symm hknown hrefused hfree hdistinct
        refine ⟨written, x :: left, ?_, hfiles, hreporter, ?_, ?_⟩
        · exact (hperm.cons x).trans List.perm_middle.symm
        · simp [hopen, hkept]
        · refine List.forall_mem_cons.mpr ⟨?_, hleft⟩
          exact fun hresolved => ResolvedClass.not_unsettled hresolved hunsettled
      · obtain ⟨rfl, rfl⟩ := first.of_knownTo hresolved hrefused hfreeFirst
        have hstillFree : ∀ y ∈ due, ∀ f ∈ host.store.files ++ [x.file],
            f.name ≠ y.factoryName := by
          intro y hy f hf
          rcases List.mem_append.mp hf with hf | hf
          · exact hfree y hy f hf
          · obtain rfl := List.mem_singleton.mp hf
            exact fun hsame => hfirst (List.mem_map.mpr ⟨y, hy, hsame.symm⟩)
        obtain ⟨written, left, hperm, hfiles, hreporter, hkept, hleft⟩ :=
          ih hrest.symm hknown hrefused hstillFree hdistinct
        refine ⟨x :: written, left, hperm.cons x, ?_, hreporter, ?_, hleft⟩
        · rw [hfiles]
          simp [MemoryStore.keep]
        · simpa [Verdict.isFinal] using hkept

/-! ## The three groups -/

/-- Where a compilation stands, with the calls that lie ahead of it. -/
structure Standing {s : Settings} (classes written waiting hidden : List (ResolvedClass s))
    (g : Generator) (store : MemoryStore) (reporter : Recorder) (ahead : List Call) : Prop where
  settings : g.settings = s
  groups : classes.Perm (written ++ (waiting ++ hidden))
  files : store.files = written.map (·.file)
  refused : store.refused = []
  diagnostics : reporter.diagnostics = []
  pending : g.pending.toList = waiting.map (·.name)
  /-- What has been shown is not shown again. -/
  quiet : ∀ x ∈ written ++ waiting, ∀ call ∈ ahead, ¬x.ShownBy call.round
  due : ∀ x ∈ waiting, ∃ call ∈ ahead, x.KnownTo call.types
  shownOnce : ∀ x ∈ hidden, x.ShownOnce ahead

/-- A round that shows none but the given classes, at a time when the host knows nothing else by
their names than unsettled forms and the resolved one. -/
structure Call.Admissible {s : Settings} (classes : List (ResolvedClass s)) (call : Call) :
    Prop where
  shown : ∀ e ∈ call.round.marked s, ∃ x ∈ classes, e.targetName? = some x.name
  known : ∀ x ∈ classes, Unsettled s call.types x.name ∨ x.KnownTo call.types

namespace Call.Admissible

variable {s : Settings} {classes : List (ResolvedClass s)} {call : Call}

theorem exists_class (h : call.Admissible classes) {name : String}
    (hname : name ∈ call.round.targetNames s) : ∃ x ∈ classes, x.name = name := by
  obtain ⟨e, he, htarget⟩ := List.mem_filterMap.mp (OrderedSet.mem_ofList.mp hname)
  obtain ⟨x, hx, hx'⟩ := h.shown e he
  exact ⟨x, hx, Option.some.inj (hx'.symm.trans htarget)⟩

theorem misplaced_eq_nil (h : call.Admissible classes) : call.round.misplaced s = [] := by
  have hplaced : (call.round.marked s).filter (fun e => e.enclosingPackage?.isNone) = [] := by
    refine List.filter_eq_nil_iff.mpr fun e he => ?_
    obtain ⟨x, -, htarget⟩ := h.shown e he
    cases hpackage : e.enclosingPackage? with
    | none => simp [Element.targetName?, hpackage] at htarget
    | some package => simp
  rw [Round.misplaced, hplaced, List.map_nil]

end Call.Admissible

/-- Names that all belong to classes are, one by one, the names of those classes. -/
theorem ResolvedClass.exists_map_name_eq {s : Settings} {classes : List (ResolvedClass s)}
    (hdistinct : (classes.map (·.name)).Nodup) {names : List String}
    (h : ∀ name ∈ names, ∃ x ∈ classes, x.name = name) :
    ∃ due : List (ResolvedClass s), due.map (·.name) = names ∧
      ∀ x, x ∈ due ↔ x ∈ classes ∧ x.name ∈ names := by
  induction names with
  | nil => exact ⟨[], rfl, by simp⟩
  | cons name names ih =>
      obtain ⟨⟨x, hx, rfl⟩, hrest⟩ := List.forall_mem_cons.mp h
      obtain ⟨due, rfl, hdue⟩ := ih hrest
      refine ⟨x :: due, rfl, fun y => ?_⟩
      rw [List.mem_cons, List.mem_cons, hdue, and_or_left]
      refine or_congr ⟨?_, ?_⟩ Iff.rfl
      · rintro rfl
        exact ⟨hx, rfl⟩
      · rintro ⟨hy, hname⟩
        exact List.inj_on_of_nodup_map hdistinct hy hx hname

namespace Standing

variable {s : Settings} {classes written waiting hidden : List (ResolvedClass s)}
  {g : Generator} {store : MemoryStore} {reporter : Recorder} {call : Call} {ahead : List Call}

theorem mem_classes (h : Standing classes written waiting hidden g store reporter ahead)
    {x : ResolvedClass s} : x ∈ classes ↔ x ∈ written ∨ x ∈ waiting ∨ x ∈ hidden := by
  simp [h.groups.mem_iff]

theorem exists_class_of_attempted
    (h : Standing classes written waiting hidden g store reporter ahead)
    (hcall : call.Admissible classes) {name : String} (hname : name ∈ g.waiting call.round) :
    ∃ x ∈ classes, x.name = name := by
  rw [Generator.mem_waiting, ← OrderedSet.mem_toList, h.pending, h.settings] at hname
  rcases hname with hpending | hshown
  · obtain ⟨x, hx, rfl⟩ := List.mem_map.mp hpending
    exact ⟨x, h.mem_classes.mpr (.inr (.inl hx)), rfl⟩
  · exact hcall.exists_class hshown

/-- A round attempts the classes that waited and those that it shows. -/
theorem attempted_iff (h : Standing classes written waiting hidden g store reporter ahead)
    (hnames : (classes.map (·.name)).Nodup) {x : ResolvedClass s} (hx : x ∈ classes) {r : Round} :
    x.name ∈ g.waiting r ↔ x ∈ waiting ∨ x.ShownBy r := by
  rw [Generator.mem_waiting, ← OrderedSet.mem_toList, h.pending, h.settings]
  refine or_congr ⟨fun hpending => ?_, fun hwaiting => List.mem_map_of_mem hwaiting⟩ Iff.rfl
  obtain ⟨y, hy, hname⟩ := List.mem_map.mp hpending
  have hyclass : y ∈ classes := h.mem_classes.mpr (.inr (.inl hy))
  exact List.inj_on_of_nodup_map hnames hyclass hx hname ▸ hy

/-- What is written or waits already is not shown again. -/
theorem mem_hidden_of_shown
    (h : Standing classes written waiting hidden g store reporter (call :: ahead))
    {x : ResolvedClass s} (hx : x ∈ classes) (hshown : x.ShownBy call.round) : x ∈ hidden := by
  have hquiet (hx : x ∈ written ++ waiting) : False := h.quiet x hx call List.mem_cons_self hshown
  rcases h.mem_classes.mp hx with hwritten | hwaiting | hhidden
  · exact (hquiet (List.mem_append_left _ hwritten)).elim
  · exact (hquiet (List.mem_append_right _ hwaiting)).elim
  · exact hhidden

/-- The classes that a round attempts, in order; some of them are shown by it. -/
theorem exists_attempted
    (h : Standing classes written waiting hidden g store reporter (call :: ahead))
    (hnames : (classes.map (·.name)).Nodup) (hcall : call.Admissible classes) :
    ∃ due shown stillHidden : List (ResolvedClass s),
      due.map (·.name) = g.waiting call.round ∧ due.Perm (waiting ++ shown) ∧
      hidden.Perm (shown ++ stillHidden) ∧
      (∀ x ∈ shown, x.ShownBy call.round) ∧ ∀ x ∈ stillHidden, ¬x.ShownBy call.round := by
  obtain ⟨due, hduenames, hmemDue⟩ := ResolvedClass.exists_map_name_eq hnames
    fun name hname => h.exists_class_of_attempted hcall hname
  let shown := hidden.filter fun x => decide (x.ShownBy call.round)
  let stillHidden := hidden.filter fun x => !decide (x.ShownBy call.round)
  have hmemShown {x : ResolvedClass s} : x ∈ shown ↔ x ∈ hidden ∧ x.ShownBy call.round := by
    simp [shown]
  refine ⟨due, shown, stillHidden, hduenames, ?_, (List.filter_append_perm _ hidden).symm,
    fun x hx => (hmemShown.mp hx).2, fun x hx => by simpa using (List.mem_filter.mp hx).2⟩
  have hdueNodup : due.Nodup := by
    have hwaiting := g.nodup_waiting call.round
    rw [← hduenames] at hwaiting
    exact hwaiting.of_map
  have hsublist : (waiting ++ shown).Sublist (written ++ (waiting ++ hidden)) :=
    ((List.Sublist.refl waiting).append List.filter_sublist).trans (List.sublist_append_right _ _)
  have hgroups : (written ++ (waiting ++ hidden)).Nodup := h.groups.nodup_iff.mp hnames.of_map
  refine (List.perm_ext_iff_of_nodup hdueNodup (hsublist.nodup hgroups)).mpr fun x => ?_
  rw [hmemDue, List.mem_append, hmemShown]
  constructor
  · rintro ⟨hclass, hname⟩
    refine ((h.attempted_iff hnames hclass).mp hname).imp id fun hshown => ?_
    exact ⟨h.mem_hidden_of_shown hclass hshown, hshown⟩
  · intro hx
    have hclass : x ∈ classes := h.mem_classes.mpr (.inr (hx.imp id And.left))
    exact ⟨hclass, (h.attempted_iff hnames hclass).mpr (hx.imp id And.right)⟩

/-- What the calls that lie ahead hold for the classes that a round attempts, and for those that it
leaves hidden. -/
theorem exists_due (h : Standing classes written waiting hidden g store reporter (call :: ahead))
    (hnames : (classes.map (·.name)).Nodup) (hcall : call.Admissible classes) :
    ∃ due stillHidden : List (ResolvedClass s),
      due.map (·.name) = g.waiting call.round ∧
      classes.Perm (written ++ (due ++ stillHidden)) ∧
      (∀ x ∈ due, (∀ later ∈ ahead, ¬x.ShownBy later.round) ∧
        ∃ later ∈ call :: ahead, x.KnownTo later.types) ∧
      ∀ x ∈ stillHidden, x.ShownOnce ahead := by
  obtain ⟨due, shown, stillHidden, hduenames, hdue, hhidden, hshown, hstillHidden⟩ :=
    h.exists_attempted hnames hcall
  refine ⟨due, stillHidden, hduenames, ?_, ?_, ?_⟩
  · have hsplit := hhidden.append_left waiting
    rw [← List.append_assoc] at hsplit
    exact h.groups.trans ((hsplit.trans (hdue.symm.append_right stillHidden)).append_left written)
  · intro x hx
    rcases List.mem_append.mp (hdue.mem_iff.mp hx) with hwaiting | hnow
    · refine ⟨fun later hlater => ?_, h.due x hwaiting⟩
      exact h.quiet x (List.mem_append_right _ hwaiting) later (List.mem_cons_of_mem _ hlater)
    · -- The call that shows a class is the only one that does.
      cases h.shownOnce x (hhidden.mem_iff.mpr (List.mem_append_left _ hnow)) with
      | now _ hquiet hknown => exact ⟨hquiet, hknown⟩
      | later hnot _ => exact absurd (hshown x hnow) hnot
  · intro x hx
    cases h.shownOnce x (hhidden.mem_iff.mpr (List.mem_append_right _ hx)) with
    | now hnow _ _ => exact absurd hnow (hstillHidden x hx)
    | later _ hahead => exact hahead

/-- A round writes the factories of the attempted classes that are known in their resolved form
and lets the others wait. -/
theorem process (h : Standing classes written waiting hidden g store reporter (call :: ahead))
    (hnames : (classes.map (·.name)).Nodup) (hfactories : (classes.map (·.factoryName)).Nodup)
    (hcall : call.Admissible classes) :
    let report := g.process call.round { types := call.types, store := store, reporter := reporter }
    ∃ written' waiting' hidden' : List (ResolvedClass s),
      Standing classes written' waiting' hidden' report.generator report.host.store
        report.host.reporter ahead := by
  intro report
  obtain ⟨due, stillHidden, hduenames, hgroups, hdue, hstillHidden⟩ := h.exists_due hnames hcall
  obtain ⟨hattempts, hvisited, hkept⟩ := g.process_spec call.round ⟨call.types, store, reporter⟩
  rw [h.settings] at hattempts
  have hfactories' := (hgroups.map (·.factoryName)).nodup_iff.mp hfactories
  rw [List.map_append, List.map_append, List.nodup_append] at hfactories'
  obtain ⟨-, hdistinct, hapart⟩ := hfactories'
  have hknown : ∀ x ∈ due, Unsettled s call.types x.name ∨ x.KnownTo call.types :=
    fun x hx => hcall.known x (hgroups.mem_iff.mpr (by simp [hx]))
  have hfree : ∀ x ∈ due, ∀ f ∈ store.files, f.name ≠ x.factoryName := by
    intro x hx f hf
    rw [h.files] at hf
    obtain ⟨y, hy, rfl⟩ := List.mem_map.mp hf
    exact hapart _ (List.mem_map_of_mem hy) _ (List.mem_append_left _ (List.mem_map_of_mem hx))
  obtain ⟨new, left, hsplit, hfiles, hreporter, hopen, hleft⟩ :=
    hattempts.exists_written (hvisited.trans hduenames.symm) hknown h.refused hfree
      (List.nodup_append.mp hdistinct).1
  refine ⟨written ++ new, left, stillHidden, h.settings, ?_, ?_,
    hattempts.refused_eq.trans h.refused, ?_, hkept.trans hopen, ?_, ?_, hstillHidden⟩
  · refine hgroups.trans ?_
    rw [List.append_assoc, ← List.append_assoc new]
    exact (hsplit.append_right stillHidden).append_left written
  · rw [hfiles, List.map_append, ← h.files]
    rfl
  · rw [hreporter]
    show reporter.diagnostics ++ call.round.misplaced g.settings = []
    rw [h.diagnostics, h.settings, hcall.misplaced_eq_nil, List.nil_append]
  · intro x hx later hlater
    rw [List.append_assoc] at hx
    rcases List.mem_append.mp hx with hwritten | hattempted
    · exact h.quiet x (List.mem_append_left _ hwritten) later (List.mem_cons_of_mem _ hlater)
    · exact (hdue x (hsplit.mem_iff.mpr hattempted)).1 later hlater
  · intro x hx
    obtain ⟨later, hlater, hresolved⟩ :=
      (hdue x (hsplit.mem_iff.mpr (List.mem_append_right _ hx))).2
    rcases List.mem_cons.mp hlater with rfl | hlater
    · exact absurd hresolved (hleft x hx)
    · exact ⟨later, hlater, hresolved⟩

end Standing

/-! ## Whole compilations -/

namespace Compilation

/-- The calls of the generator that come of a sequence of events, when the host knows `types` at its
beginning. -/
def calls (types : TypeTable) : List CompilationEvent → List Call
  | [] => []
  | .insert e :: events => calls (types.insertFamily e) events
  | .refuse _ :: events => calls types events
  | .round r :: events => ⟨types, r⟩ :: calls types events

/-- A sequence of events that shows each of the given classes in one round and no other class, at
all times with a host that knows nothing else by their names than unsettled forms and the resolved
one, which it knows in a round that attempts the class. -/
structure Schedule {s : Settings} (classes : List (ResolvedClass s))
    (events : List CompilationEvent) : Prop where
  unrefused : ∀ name, .refuse name ∉ events
  admissible : ∀ call ∈ calls {} events, call.Admissible classes
  shownOnce : ∀ x ∈ classes, x.ShownOnce (calls {} events)

theorem types_process (g : Generator) (r : Round) (host : MemoryHost) :
    (g.process r host).host.types = host.types :=
  (g.process_spec r host).1.types_eq

end Compilation

namespace Standing

open Compilation

variable {s : Settings} {classes : List (ResolvedClass s)}

/-- In the end only written factories are left. -/
theorem run (hnames : (classes.map (·.name)).Nodup)
    (hfactories : (classes.map (·.factoryName)).Nodup) {events : List CompilationEvent}
    {c : Compilation} {written waiting hidden : List (ResolvedClass s)}
    (hunrefused : ∀ name, .refuse name ∉ events)
    (hadmissible : ∀ call ∈ calls c.host.types events, call.Admissible classes)
    (h : Standing classes written waiting hidden c.generator c.host.store c.host.reporter
      (calls c.host.types events)) :
    ∃ written' waiting' hidden' : List (ResolvedClass s),
      Standing classes written' waiting' hidden' (c.run events).generator (c.run events).host.store
        (c.run events).host.reporter [] := by
  induction events generalizing c written waiting hidden with
  | nil => exact ⟨written, waiting, hidden, h⟩
  | cons event events ih =>
      have hrest : ∀ name, .refuse name ∉ events :=
        fun name hmem => hunrefused name (List.mem_cons_of_mem _ hmem)
      cases event with
      | refuse name => exact absurd List.mem_cons_self (hunrefused name)
      | insert e =>
          exact ih (c := c.step (.insert e)) hrest hadmissible h
      | round r =>
          obtain ⟨hcall, hahead⟩ := List.forall_mem_cons.mp hadmissible
          obtain ⟨written', waiting', hidden', h'⟩ := h.process hnames hfactories hcall
          have hstep : Standing classes written' waiting' hidden' (c.step (.round r)).generator
              (c.step (.round r)).host.store (c.step (.round r)).host.reporter
              (calls c.host.types events) := h'
          have htypes : c.host.types = (c.step (.round r)).host.types :=
            (types_process c.generator r c.host).symm
          rw [htypes] at hahead hstep
          exact ih (c := c.step (.round r)) hrest hahead hstep

end Standing

/-- Where no name is given out twice, the order of the files does not matter. -/
theorem MemoryStore.NamesDistinct.file?_eq_of_perm {m m' : MemoryStore} (h : m.NamesDistinct)
    (hperm : m'.files.Perm m.files) (name : String) : m'.file? name = m.file? name := by
  cases hfile : m'.file? name with
  | none =>
      refine (file?_eq_none_iff.mpr fun f hf => ?_).symm
      exact file?_eq_none_iff.mp hfile f (hperm.mem_iff.mpr hf)
  | some f =>
      have hname : f.name = name := by
        simpa using List.find?_some hfile
      rw [← hname, h.file?_eq (hperm.mem_iff.mp (List.mem_of_find?_eq_some hfile))]

namespace Compilation

variable {s : Settings} {classes : List (ResolvedClass s)} {events : List CompilationEvent}

theorem Schedule.standing_nil (h : Schedule classes events)
    (hnames : (classes.map (·.name)).Nodup) (hfactories : (classes.map (·.factoryName)).Nodup) :
    let c := (start s).run events
    ∃ written, Standing classes written [] [] c.generator c.host.store c.host.reporter [] := by
  intro c
  have hstart : Standing classes [] [] classes (start s).generator (start s).host.store
      (start s).host.reporter (calls (start s).host.types events) := by
    refine ⟨rfl, List.Perm.refl _, rfl, rfl, rfl, rfl, ?_, ?_, h.shownOnce⟩
    · exact fun x hx => absurd hx List.not_mem_nil
    · exact fun x hx => absurd hx List.not_mem_nil
  obtain ⟨written, waiting, hidden, hend⟩ :=
    hstart.run hnames hfactories h.unrefused h.admissible
  -- With no call ahead, nothing can wait for one.
  have hwaiting : waiting = [] := by
    refine List.eq_nil_iff_forall_not_mem.mpr fun x hx => ?_
    obtain ⟨call, hcall, -⟩ := hend.due x hx
    exact List.not_mem_nil hcall
  have hhidden : hidden = [] :=
    List.eq_nil_iff_forall_not_mem.mpr fun x hx => nomatch hend.shownOnce x hx
  subst hwaiting hhidden
  exact ⟨written, hend⟩

theorem Schedule.files_perm (h : Schedule classes events) (hnames : (classes.map (·.name)).Nodup)
    (hfactories : (classes.map (·.factoryName)).Nodup) :
    ((start s).run events).host.store.files.Perm (classes.map (·.file)) := by
  obtain ⟨written, hend⟩ := h.standing_nil hnames hfactories
  rw [hend.files]
  simpa using (hend.groups.map (·.file)).symm

/-- Every schedule of the same classes ends with one file for each of them: it has the name of the
factory and holds the source rendered for the resolved class.  Nothing waits any more, nothing has
been reported, and any two schedules end with the same files. -/
theorem files_eq_of_schedules (hnames : (classes.map (·.name)).Nodup)
    (hfactories : (classes.map (·.factoryName)).Nodup) (h : Schedule classes events)
    {events' : List CompilationEvent} (h' : Schedule classes events') :
    let c := (start s).run events
    let c' := (start s).run events'
    c.host.store.files.Perm (classes.map (·.file)) ∧
    (∀ x ∈ classes, ∃ text, (FactoryClass.ofTarget s x.target).render? = some text ∧
      c.host.store.file? x.target.qualifiedFactoryName =
        some ⟨x.target.qualifiedFactoryName, [x.element.display], Bytes.ofText text⟩) ∧
    c.generator.pending.toList = [] ∧
    c.host.reporter.diagnostics = [] ∧
    ∀ name, c.host.store.file? name = c'.host.store.file? name := by
  intro c c'
  obtain ⟨written, hend⟩ := h.standing_nil hnames hfactories
  have hfiles : c.host.store.files.Perm (classes.map (·.file)) := h.files_perm hnames hfactories
  have hfiles' : c'.host.store.files.Perm (classes.map (·.file)) := h'.files_perm hnames hfactories
  have hdistinct : c.host.store.NamesDistinct := namesDistinct_run s events
  refine ⟨hfiles, ?_, hend.pending, hend.diagnostics, ?_⟩
  · intro x hx
    have hfile : x.file ∈ c.host.store.files := hfiles.mem_iff.mpr (List.mem_map_of_mem hx)
    exact ⟨_, FactoryClass.render?_eq_source _, hdistinct.file?_eq hfile⟩
  · exact (namesDistinct_run s events').file?_eq_of_perm (hfiles.trans hfiles'.symm)

end Compilation

/-! ## Two classes in two schedules -/

/-- A class of the package `pkg` that asks for a factory and has one constructor parameter. -/
def Element.holder (name : String) (type : TypeRef) : Element :=
  let marked := withAnnotation (classIn "pkg" name) ⟨"factoria.annotations.Factory", []⟩
  marked.withMember (constructor.withParameter (parameter "value" type))

/-- The class with its parameter type resolved. -/
def ResolvedClass.holder (name type : String) : ResolvedClass {} where
  element := Element.holder name ⟨.declared, type⟩
  target :=
    { package := "pkg"
      name := name
      options := {}
      bound := OrderedSet.ofList [⟨type, "value", ""⟩]
      constructors := [⟨[⟨type, "value", ""⟩], []⟩] }
  marked := rfl
  read := rfl

namespace Compilation

/-- One round shows both classes, when all types are known. -/
def atOnce : List CompilationEvent :=
  let foo := Element.holder "Foo" ⟨.declared, "Baz"⟩
  let bar := Element.holder "Bar" ⟨.declared, "String"⟩
  [.insert foo, .insert bar, .round (Round.ofRoots [foo, bar])]

/-- The first round shows a class with a type that is not resolved before the last round; the
second round shows the other class. -/
def stepByStep : List CompilationEvent :=
  let early := Element.holder "Foo" ⟨.unresolved, "Baz"⟩
  let foo := Element.holder "Foo" ⟨.declared, "Baz"⟩
  let bar := Element.holder "Bar" ⟨.declared, "String"⟩
  [.insert early, .round (Round.ofRoots [early]), .insert bar, .round (Round.ofRoots [bar]),
    .insert foo, .round Round.last]

theorem schedule_atOnce :
    Schedule [.holder "Foo" "Baz", .holder "Bar" "String"] atOnce where
  unrefused name := by simp [atOnce]
  admissible := by
    refine List.forall_mem_singleton.mpr ⟨by decide, ?_⟩
    exact List.forall_mem_cons.mpr ⟨.inr rfl, List.forall_mem_singleton.mpr (.inr rfl)⟩
  shownOnce := by
    refine List.forall_mem_cons.mpr ⟨?_, List.forall_mem_singleton.mpr ?_⟩
    · exact .now (by decide) (by decide) ⟨_, List.mem_cons_self, rfl⟩
    · exact .now (by decide) (by decide) ⟨_, List.mem_cons_self, rfl⟩

theorem schedule_stepByStep :
    Schedule [.holder "Foo" "Baz", .holder "Bar" "String"] stepByStep where
  unrefused name := by simp [stepByStep]
  admissible := by
    refine List.forall_mem_cons.mpr ⟨⟨by decide, ?_⟩, List.forall_mem_cons.mpr
      ⟨⟨by decide, ?_⟩, List.forall_mem_singleton.mpr ⟨by decide, ?_⟩⟩⟩
    · exact List.forall_mem_cons.mpr
        ⟨.inl (.unresolved rfl rfl), List.forall_mem_singleton.mpr (.inl (.unknown rfl))⟩
    · exact List.forall_mem_cons.mpr
        ⟨.inl (.unresolved rfl rfl), List.forall_mem_singleton.mpr (.inr rfl)⟩
    · exact List.forall_mem_cons.mpr ⟨.inr rfl, List.forall_mem_singleton.mpr (.inr rfl)⟩
  shownOnce := by
    refine List.forall_mem_cons.mpr ⟨?_, List.forall_mem_singleton.mpr ?_⟩
    · exact .now (by decide) (by decide) ⟨_, List.mem_of_getElem? (i := 2) rfl, rfl⟩
    · exact .later (by decide) (.now (by decide) (by decide) ⟨_, List.mem_cons_self, rfl⟩)

theorem files_eq_of_schedules_holders :
    let classes : List (ResolvedClass {}) := [.holder "Foo" "Baz", .holder "Bar" "String"]
    let c := (start {}).run stepByStep
    let c' := (start {}).run atOnce
    (classes.map (·.name)).Nodup ∧ (classes.map (·.factoryName)).Nodup ∧
    Schedule classes stepByStep ∧ Schedule classes atOnce ∧
    c.host.store.files.Perm (classes.map (·.file)) ∧
    c.generator.pending.toList = [] ∧ c.host.reporter.diagnostics = [] ∧
    ∀ name, c.host.store.file? name = c'.host.store.file? name := by
  intro classes c c'
  have hnames : (classes.map (·.name)).Nodup := by decide
  have hfactories : (classes.map (·.factoryName)).Nodup := by decide
  obtain ⟨hfiles, -, hpending, hdiagnostics, hsame⟩ :=
    files_eq_of_schedules hnames hfactories schedule_stepByStep schedule_atOnce
  exact ⟨hnames, hfactories, schedule_stepByStep, schedule_atOnce, hfiles, hpending, hdiagnostics,
    hsame⟩

end Compilation

end CompanionFactory
