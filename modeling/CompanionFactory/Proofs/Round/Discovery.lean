import CompanionFactory.Proofs.Element.Nested
import CompanionFactory.Proofs.Round.Diagnostics

/-!
# Discovery and look-up

A target is discovered by a name that its place gives it, and later it is looked up by the name it
carries.  When the names of all types of a round are distinct and the round was inserted last, the
two lead to the same element:

* `TypeTable.get?_insertFamilies`: whatever was known before, every element of the round is known by
  its own name, in whatever order the round was inserted;
* `Round.targetNames_ofRoots`: the names of the targets are the names that they carry;
* `discovered_or_misplaced` accounts for every marked element of the round exactly once.
-/

namespace CompanionFactory

/-! ## Looking up what was inserted last -/

namespace TypeTable

/-- Insert elements under their qualified names, one after the other. -/
def insertAll (t : TypeTable) (es : List Element) : TypeTable :=
  es.foldl (fun table e => table.insert e.qualifiedName e) t

theorem get?_insertAll_of_notMem {t : TypeTable} {es : List Element} {name : String}
    (h : name ∉ es.map (·.qualifiedName)) : (t.insertAll es).get? name = t.get? name := by
  induction es generalizing t with
  | nil => rfl
  | cons e es ih =>
      obtain ⟨hfirst, hrest⟩ : name ≠ e.qualifiedName ∧ name ∉ es.map (·.qualifiedName) := by
        simpa using h
      rw [insertAll, List.foldl_cons, ← insertAll, ih hrest, get?_insert, if_neg hfirst]

/-- Of elements with distinct names, each one is known by its name. -/
theorem get?_insertAll {t : TypeTable} {es : List Element}
    (hnames : (es.map (·.qualifiedName)).Nodup) {e : Element} (he : e ∈ es) :
    (t.insertAll es).get? e.qualifiedName = some e := by
  induction es generalizing t with
  | nil => exact absurd he List.not_mem_nil
  | cons first es ih =>
      obtain ⟨hfirst, hrest⟩ := List.nodup_cons.mp hnames
      rw [insertAll, List.foldl_cons, ← insertAll]
      rcases List.mem_cons.mp he with rfl | he
      · -- No later element has the name of the first one.
        rw [get?_insertAll_of_notMem hfirst, get?_insert, if_pos rfl]
      · exact ih hrest he

theorem foldl_insertFamily (t : TypeTable) (roots : List Element) :
    roots.foldl insertFamily t = t.insertAll (roots.flatMap Element.innerFirst) :=
  List.foldl_flatMap.symm

theorem get?_insertFamilies {t : TypeTable} {roots inserted : List Element}
    (hnames : ((roots.flatMap Element.outerFirst).map (·.qualifiedName)).Nodup)
    (hinserted : inserted.Perm roots) {e : Element} (he : e ∈ roots.flatMap Element.outerFirst) :
    (inserted.foldl insertFamily t).get? e.qualifiedName = some e := by
  have hperm : (inserted.flatMap Element.innerFirst).Perm (roots.flatMap Element.outerFirst) :=
    hinserted.flatMap fun root _ => root.innerFirst_perm
  rw [foldl_insertFamily]
  exact get?_insertAll ((hperm.map _).nodup_iff.mpr hnames) (hperm.mem_iff.mpr he)

end TypeTable

/-! ## The targets of a round -/

/-- An element declared directly in a package is discovered by the name it carries. -/
theorem Element.Built.targetName?_eq {e : Element} (h : e.Built) :
    e.targetName? = if e.enclosingPackage?.isSome then some e.qualifiedName else none := by
  cases hpackage : e.enclosingPackage? with
  | none => simp [targetName?, hpackage]
  | some package =>
      have houter : e.enclosing = some package := Option.eq_some_of_filter_eq_some hpackage
      simp [targetName?, hpackage, h.qualifiedName_eq houter]

theorem Element.filterMap_targetName? {es : List Element} (h : ∀ e ∈ es, e.Built) :
    es.filterMap targetName? =
      (es.filter fun e => e.enclosingPackage?.isSome).map (·.qualifiedName) := by
  induction es with
  | nil => rfl
  | cons e es ih =>
      obtain ⟨he, hes⟩ := List.forall_mem_cons.mp h
      rw [List.filterMap_cons, he.targetName?_eq, ih hes]
      cases hpackage : e.enclosingPackage?.isSome <;> simp [hpackage]

namespace Round

variable {s : Settings} {roots : List Element}

theorem mem_marked_ofRoots {e : Element} :
    e ∈ (ofRoots roots).marked s ↔
      (∃ root ∈ roots, e.Within root) ∧ e.carries s.factoryMarker = true := by
  rw [marked, ofRoots, List.mem_filter, List.mem_flatMap]
  simp only [Element.mem_outerFirst]

theorem targetNames_ofRoots (hbuilt : ∀ root ∈ roots, root.Built)
    (hnames : ((roots.flatMap Element.outerFirst).map (·.qualifiedName)).Nodup) :
    ((ofRoots roots).targetNames s).toList =
      (((ofRoots roots).marked s).filter fun e => e.enclosingPackage?.isSome).map
        (·.qualifiedName) := by
  have hmarked : ∀ e ∈ (ofRoots roots).marked s, e.Built := fun e he => by
    obtain ⟨⟨root, hroot, hwithin⟩, -⟩ := mem_marked_ofRoots.mp he
    exact (hbuilt root hroot).of_within hwithin
  have hfamily : (((ofRoots roots).marked s).filter fun e => e.enclosingPackage?.isSome).Sublist
      (roots.flatMap Element.outerFirst) :=
    List.filter_sublist.trans List.filter_sublist
  rw [targetNames, OrderedSet.toList_ofList, Element.filterMap_targetName? hmarked]
  exact OrderedSet.eraseDups_of_nodup (hnames.sublist (hfamily.map _))

end Round

/-! ## Every marked element is accounted for -/

theorem Attempted.ne_skipped {s : Settings} {host after : MemoryHost} {name : String}
    {verdict : Verdict} (h : Attempted s host name verdict after) {e : Element}
    (hknown : host.types.get? name = some e) (hmarked : e.carries s.factoryMarker = true) :
    verdict ≠ .skipped := by
  rintro rfl
  cases h with
  | missing hnone =>
      rw [hknown] at hnone
      cases hnone
  | unmarked hknown' hunmarked =>
      obtain rfl := Option.some.inj (hknown.symm.trans hknown')
      rw [hmarked] at hunmarked
      cases hunmarked

theorem Attempts.ne_skipped {s : Settings} {host after : MemoryHost}
    {verdicts : List (String × Verdict)} (h : Attempts s host verdicts after) {name : String}
    {verdict : Verdict} (hmem : (name, verdict) ∈ verdicts) {e : Element}
    (hknown : host.types.get? name = some e) (hmarked : e.carries s.factoryMarker = true) :
    verdict ≠ .skipped := by
  induction h with
  | nil => exact absurd hmem List.not_mem_nil
  | cons first _ ih =>
      cases hmem with
      | head => exact first.ne_skipped hknown hmarked
      | tail _ hmem => exact ih hmem (first.types_eq ▸ hknown)

namespace Generator

/-- A round shows built elements, all types of which have distinct names, and they were inserted
last, in any order.  Then every element of the round that asks for a factory is accounted for
exactly once.  One that is not declared directly in a package is reported.  Every other is
discovered by the name that it carries, and looking that name up finds the same element.  So no
target that the round discovers is skipped. -/
theorem discovered_or_misplaced (g : Generator) (host : MemoryHost)
    {roots inserted : List Element} (hbuilt : ∀ root ∈ roots, root.Built)
    (hnames : ((roots.flatMap Element.outerFirst).map (·.qualifiedName)).Nodup)
    (hinserted : inserted.Perm roots) :
    let r := Round.ofRoots roots
    let marked := r.carriers g.settings.factoryMarker
    let known := { host with types := inserted.foldl TypeTable.insertFamily host.types }
    let report := g.process r known
    (∀ e, e ∈ marked ↔
      (∃ root ∈ roots, e.Within root) ∧ e.carries g.settings.factoryMarker = true) ∧
    (marked.map (·.qualifiedName)).Nodup ∧
    r.misplaced g.settings = (marked.filter fun e => e.enclosingPackage?.isNone).map
      (fun e => ⟨.error, "Factory annotation must be applied to outer-classes",
        some (e.enclosing.getD e).display⟩) ∧
    host.reporter.diagnostics ++ r.misplaced g.settings <+: report.host.reporter.diagnostics ∧
    (r.targetNames g.settings).toList =
      (marked.filter fun e => e.enclosingPackage?.isSome).map (·.qualifiedName) ∧
    (∀ e ∈ marked, known.types.get? e.qualifiedName = some e) ∧
    ∀ name ∈ r.targetNames g.settings,
      (∃ verdict, (name, verdict) ∈ report.verdicts) ∧ (name, .skipped) ∉ report.verdicts := by
  intro r marked known report
  have hfamily : marked.Sublist (roots.flatMap Element.outerFirst) := List.filter_sublist
  have hlookup : ∀ e ∈ marked, known.types.get? e.qualifiedName = some e :=
    fun e he => TypeTable.get?_insertFamilies hnames hinserted (hfamily.subset he)
  have htargets : (r.targetNames g.settings).toList =
      (marked.filter fun e => e.enclosingPackage?.isSome).map (·.qualifiedName) :=
    Round.targetNames_ofRoots hbuilt hnames
  obtain ⟨hattempts, hvisited, -⟩ := g.process_spec r known
  refine ⟨fun e => Round.mem_marked_ofRoots, hnames.sublist (hfamily.map _),
    r.misplaced_eq g.settings, ?_, htargets, hlookup, ?_⟩
  · obtain ⟨reports, -, hdiagnostics, -⟩ := hattempts.exists_reported
    exact ⟨_, hdiagnostics.symm⟩
  · intro name hname
    have hattempted : name ∈ report.verdicts.map (·.1) := by
      rw [hvisited, mem_waiting]
      exact .inr hname
    obtain ⟨⟨name', verdict⟩, hmem, hsame⟩ := List.mem_map.mp hattempted
    obtain rfl : name' = name := hsame
    refine ⟨⟨verdict, hmem⟩, fun hskipped => ?_⟩
    rw [← OrderedSet.mem_toList, htargets] at hname
    obtain ⟨e, he, rfl⟩ := List.mem_map.mp hname
    have he : e ∈ marked := List.mem_of_mem_filter he
    have hmarked : e.carries g.settings.factoryMarker = true := (Round.mem_marked_ofRoots.mp he).2
    exact hattempts.ne_skipped hskipped (hlookup e he) hmarked rfl

end Generator

/-- Four marked places: a class of a package with an interface nested in it, a class of the unnamed
package, a class that is a member of an enum although it is declared in the package, and a
constructor on its own. -/
def Element.scattered : List Element :=
  let marked (e : Element) : Element := e.withAnnotation ⟨"factoria.annotations.Factory", []⟩
  let outer := classIn "pkg" "Outer"
  let kinds := (package "pkg").declaredIn .enumType "Kinds"
  [(marked outer).withMember (marked (outer.declaredIn .interfaceType "Inner")),
    marked (classIn "" "Bare"),
    (kinds.withMember (method "size")).withMember (marked (classIn "pkg" "Loose")),
    marked constructor]

theorem Element.built_scattered : ∀ root ∈ scattered, root.Built := by
  have hmarked {e : Element} {use : AnnotationUse} (he : Built e) : Built <| e.withAnnotation use :=
    he.withAnnotation use
  have houter : Built (classIn "pkg" "Outer") := .classIn "pkg" "Outer"
  have hkinds := (Built.package "pkg").declaredIn .enumType "Kinds"
  simp only [scattered, List.forall_mem_cons]
  refine ⟨?_, hmarked (.classIn "" "Bare"), ?_, hmarked .constructor,
    fun _ hnone => absurd hnone List.not_mem_nil⟩
  · exact (hmarked houter).withMember (hmarked (houter.declaredIn .interfaceType "Inner"))
  · exact (hkinds.withMember (.method "size")).withMember (hmarked (.classIn "pkg" "Loose"))

namespace Generator

theorem discovered_or_misplaced_scattered :
    let roots := Element.scattered
    let r := Round.ofRoots roots
    let earlier : TypeTable := ⟨[("pkg.Outer", Element.classIn "pkg" "Outer")]⟩
    let known : MemoryHost :=
      { types := roots.reverse.foldl TypeTable.insertFamily earlier, store := {}, reporter := {} }
    let report := process {} r known
    (∀ root ∈ roots, root.Built) ∧
    ((roots.flatMap Element.outerFirst).map (·.qualifiedName)).Nodup ∧
    roots.reverse.Perm roots ∧
    (r.targetNames {}).toList = ["pkg.Outer", "Bare", "pkg.Loose"] ∧
    (r.misplaced {}).map (·.subject) = [some "pkg.Outer", some "<init>"] ∧
    (∀ e ∈ r.carriers "factoria.annotations.Factory",
      known.types.get? e.qualifiedName = some e) ∧
    ∀ name ∈ r.targetNames {}, (name, .skipped) ∉ report.verdicts := by
  intro roots r earlier known report
  have hnames : ((roots.flatMap Element.outerFirst).map (·.qualifiedName)).Nodup := by decide
  obtain ⟨-, -, -, -, -, hlookup, hattempted⟩ :=
    discovered_or_misplaced {} { types := earlier, store := {}, reporter := {} }
      Element.built_scattered hnames roots.reverse_perm
  exact ⟨Element.built_scattered, hnames, roots.reverse_perm, by decide, by decide, hlookup,
    fun name hname => (hattempted name hname).2⟩

end Generator

end CompanionFactory
