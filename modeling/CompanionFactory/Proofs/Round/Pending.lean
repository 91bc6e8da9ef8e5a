import CompanionFactory.Proofs.Round.Sweep

/-!
# The queue behind a round

Which names still wait when a round is over, for any generator, any round and any host.

* `waiting_eq` says which names a round attempts: those that waited before, and then the arrivals,
  in the order in which they were first discovered, and `arrivals_eq` reads these off the elements
  that the round shows;
* `Attempted.isFinal_eq_false_iff` says which of them are not done with, in terms of what the host
  knows by their names and of nothing else;
* `pending_process` puts both together.
-/

namespace CompanionFactory

/-- By the name, the host knows nothing, or something that asks for no factory, or a class with a
parameter type that is not resolved yet. -/
inductive Unsettled (s : Settings) (types : TypeTable) (name : String) : Prop
  | unknown (hknown : types.get? name = none)
  | unmarked {e : Element} (hknown : types.get? name = some e)
      (hmarked : e.carries s.factoryMarker = false)
  | unresolved {e : Element} {parameter : String} (hknown : types.get? name = some e)
      (hread : Target.ofElement s e = .error (.unresolvedType parameter))

theorem unsettled_iff_of_known {s : Settings} {types : TypeTable} {name : String} {e : Element}
    (hknown : types.get? name = some e) :
    Unsettled s types name ↔ e.carries s.factoryMarker = false ∨
      ∃ parameter, Target.ofElement s e = .error (.unresolvedType parameter) := by
  constructor
  · intro h
    cases h with
    | unknown hnone =>
        rw [hknown] at hnone
        cases hnone
    | unmarked hknown' hmarked =>
        obtain rfl := Option.some.inj (hknown.symm.trans hknown')
        exact .inl hmarked
    | unresolved hknown' hread =>
        obtain rfl := Option.some.inj (hknown.symm.trans hknown')
        exact .inr ⟨_, hread⟩
  · rintro (hmarked | ⟨parameter, hread⟩)
    · exact .unmarked hknown hmarked
    · exact .unresolved hknown hread

theorem Attempted.isFinal_eq_false_iff {s : Settings} {host after : MemoryHost} {name : String}
    {verdict : Verdict} (h : Attempted s host name verdict after) :
    verdict.isFinal = false ↔ Unsettled s host.types name := by
  cases h with
  | missing hknown => exact iff_of_true rfl (.unknown hknown)
  | unmarked hknown hmarked => exact iff_of_true rfl (.unmarked hknown hmarked)
  | deferred hknown _ hread => exact iff_of_true rfl (.unresolved hknown hread)
  | rejected hknown hmarked hread hfinal =>
      rw [unsettled_iff_of_known hknown, hmarked, hread]
      refine iff_of_false (by decide) ?_
      rintro (hunmarked | ⟨parameter, hunresolved⟩)
      · cases hunmarked
      · rw [Except.error.inj hunresolved] at hfinal
        cases hfinal
  | failed hknown hmarked hread _ | emitted hknown hmarked hread _ =>
      rw [unsettled_iff_of_known hknown, hmarked, hread]
      exact iff_of_false (by decide) (by simp)

/-- In a chain of attempts nothing changes that the verdicts of later attempts depend on. -/
theorem Attempts.isFinal_eq_false_iff {s : Settings} {host after : MemoryHost}
    {verdicts : List (String × Verdict)} (h : Attempts s host verdicts after)
    {name : String} {verdict : Verdict} (hmem : (name, verdict) ∈ verdicts) :
    verdict.isFinal = false ↔ Unsettled s host.types name := by
  induction h with
  | nil => exact absurd hmem List.not_mem_nil
  | cons first _ ih =>
      cases hmem with
      | head => exact first.isFinal_eq_false_iff
      | tail _ hmem =>
          rw [ih hmem, first.types_eq]

/-- The names that a chain of attempts is not done with are the unsettled ones. -/
theorem Attempts.mem_open_iff {s : Settings} {host after : MemoryHost}
    {verdicts : List (String × Verdict)} (h : Attempts s host verdicts after) {name : String}
    (hname : name ∈ verdicts.map (·.1)) :
    name ∈ (verdicts.filter fun v => !v.2.isFinal).map (·.1) ↔ Unsettled s host.types name := by
  obtain ⟨⟨name, verdict⟩, hmem, rfl⟩ := List.mem_map.mp hname
  rw [← h.isFinal_eq_false_iff hmem]
  constructor
  · intro hkept
    obtain ⟨⟨name', verdict'⟩, hmem', hsame⟩ := List.mem_map.mp hkept
    obtain ⟨hmem', hopen⟩ := List.mem_filter.mp hmem'
    -- Whether a verdict is final is decided by the name alone.
    obtain rfl : name' = name := hsame
    rw [h.isFinal_eq_false_iff hmem, ← h.isFinal_eq_false_iff hmem']
    simpa using hopen
  · intro hopen
    exact List.mem_map.mpr ⟨(name, verdict), List.mem_filter.mpr ⟨hmem, by simpa using hopen⟩, rfl⟩

namespace Generator

variable (g : Generator) (r : Round) (host : MemoryHost)

/-- The names of the targets that begin to wait in a round, in the order in which it first shows
them. -/
def arrivals : List String :=
  g.pending.arriving (r.targetNames g.settings).toList

theorem waiting_eq : g.waiting r = g.pending.toList ++ g.arrivals r :=
  g.pending.toList_enqueue _

theorem nodup_waiting : (g.waiting r).Nodup :=
  OrderedSet.nodup _

/-- The arrivals, read off the elements that the round shows. -/
theorem arrivals_eq :
    g.arrivals r =
      (((r.carriers g.settings.factoryMarker).filterMap fun e =>
        e.enclosingPackage?.map fun package =>
          Text.qualify package.qualifiedName e.simpleName).filter
        fun name => name ∉ g.pending).eraseDups := by
  rw [arrivals, Round.targetNames, Queue.arriving_ofList]
  rfl

/-- A round attempts every name that waited before and then every name that it discovers, once each.
It discovers the elements that ask for a factory and are declared directly in a package, by the name
of the package and their own, in the order in which it first shows them.  Exactly the names without
a final verdict go on waiting, in the same order, and those are the unsettled ones.  The markers are
never claimed. -/
theorem pending_process :
    let report := g.process r host
    let discovered := (r.carriers g.settings.factoryMarker).filterMap fun e =>
      e.enclosingPackage?.map fun package => Text.qualify package.qualifiedName e.simpleName
    let arrivals := (discovered.filter fun name => name ∉ g.pending).eraseDups
    report.verdicts.map (·.1) = g.pending.toList ++ arrivals ∧
    (report.verdicts.map (·.1)).Nodup ∧
    Attempts g.settings (g.reported r host) report.verdicts report.host ∧
    report.generator.pending.toList =
      (report.verdicts.filter fun v => !v.2.isFinal).map (·.1) ∧
    report.generator.pending.toList.Nodup ∧
    (∀ name ∈ g.pending.toList ++ arrivals,
      name ∈ report.generator.pending ↔ Unsettled g.settings host.types name) ∧
    report.claimed = false := by
  intro report discovered arrivals
  obtain ⟨hattempts, hvisited, hkept⟩ := g.process_spec r host
  have hnames : report.verdicts.map (·.1) = g.pending.toList ++ arrivals := by
    rw [hvisited, waiting_eq, arrivals_eq]
  have hnodup : (report.verdicts.map (·.1)).Nodup := hvisited ▸ g.nodup_waiting r
  refine ⟨hnames, hnodup, hattempts, hkept, report.generator.pending.nodup, ?_, rfl⟩
  intro name hname
  rw [← hnames] at hname
  rw [← OrderedSet.mem_toList, hkept]
  exact hattempts.mem_open_iff hname

/-- Behind a name that nobody knows and a class that waits already, a round shows a class twice
whose parameter type is not resolved yet, and a class with another marked class in it. -/
theorem pending_process_shown :
    let marked (e : Element) : Element := e.withAnnotation ⟨"factoria.annotations.Factory", []⟩
    let foo := (marked (Element.classIn "pkg" "Foo")).withMember Element.constructor
    let late := (marked (Element.classIn "" "Late")).withMember
      (Element.constructor.withParameter (Element.parameter "value" ⟨.unresolved, "Baz"⟩))
    let outer := marked (Element.classIn "pkg" "Outer")
    let family := outer.withMember (marked (outer.declaredIn .classType "Inner"))
    let g : Generator := { pending := .ofList ["pkg.Ghost", "pkg.Foo"] }
    let r := Round.ofRoots [late, foo, family, late]
    let host : MemoryHost :=
      { types := [late, foo, family].foldl TypeTable.insertFamily {}, store := {}, reporter := {} }
    let report := g.process r host
    report.verdicts.map (·.1) = ["pkg.Ghost", "pkg.Foo", "Late", "pkg.Outer"] ∧
    report.generator.pending.toList = ["pkg.Ghost", "Late"] ∧
    (∀ name ∈ ["pkg.Ghost", "pkg.Foo", "Late", "pkg.Outer"],
      name ∈ report.generator.pending ↔ Unsettled {} host.types name) ∧
    report.claimed = false := by
  intro marked foo late outer family g r host report
  obtain ⟨hnames, -, -, -, -, hunsettled, hclaimed⟩ := pending_process g r host
  refine ⟨hnames.trans (by decide), ?_, fun name hname => hunsettled name ?_, hclaimed⟩
  · decide +kernel
  · exact hname

end Generator

end CompanionFactory
