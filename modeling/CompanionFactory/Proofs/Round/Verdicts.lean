import CompanionFactory.Proofs.Round.Diagnostics

/-!
# The verdicts of a compilation

What becomes of one name over all the rounds of a compilation, when no name is discovered in two
different rounds.  The types that the host knows and the names that the store refuses may change
between the rounds in any way.

A `Visit` is an attempt as it is seen from outside: its name, its verdict, the files that it adds
to the store and the diagnostics that it adds to the reporter.

* `Attempted.exists_added`: a final verdict comes with one file or one diagnostic, and any other
  verdict comes with nothing;
* `Settled.step`: a name with a final verdict has left the queue, and does not come back to it;
* `final_verdict_unique` puts both together for a whole compilation.
-/

namespace CompanionFactory

/-- An attempt with what it adds to the host. -/
structure Visit where
  name : String
  verdict : Verdict
  created : List StoredFile
  reported : List Diagnostic
  deriving DecidableEq, Repr

/-! ## Visits of a round -/

/-- An attempt adds one file or one diagnostic when it is final, and nothing when it is not. -/
theorem Attempted.exists_added {s : Settings} {host after : MemoryHost} {name : String}
    {verdict : Verdict} (h : Attempted s host name verdict after) :
    ∃ created reported,
      after.store.files = host.store.files ++ created ∧
      after.reporter.diagnostics = host.reporter.diagnostics ++ reported ∧
      created.length + reported.length = if verdict.isFinal then 1 else 0 := by
  have hnil {α : Type} (as : List α) : as = as ++ [] := (List.append_nil as).symm
  cases h with
  | missing | unmarked | deferred => exact ⟨[], [], hnil _, hnil _, rfl⟩
  | rejected | failed => exact ⟨[], [_], hnil _, rfl, rfl⟩
  | emitted => exact ⟨[_], [], rfl, hnil _, rfl⟩

namespace Host

variable (s : Settings)

/-- The attempt on a name. -/
def visit (host : MemoryHost) (name : String) : Visit :=
  let attempt := host.attempt s name
  { name := name
    verdict := attempt.verdict
    created := attempt.host.store.files.drop host.store.files.length
    reported := attempt.host.reporter.diagnostics.drop host.reporter.diagnostics.length }

/-- The attempts on several names, each on the host that the one before leaves behind. -/
def visits (host : MemoryHost) : List String → List Visit
  | [] => []
  | name :: names => host.visit s name :: visits (host.attempt s name).host names

/-- What a visit adds is all that changes in the store and in the reporter. -/
theorem added_visit (host : MemoryHost) (name : String) :
    (host.attempt s name).host.store.files = host.store.files ++ (host.visit s name).created ∧
    (host.attempt s name).host.reporter.diagnostics =
      host.reporter.diagnostics ++ (host.visit s name).reported ∧
    (host.visit s name).created.length + (host.visit s name).reported.length =
      if (host.visit s name).verdict.isFinal then 1 else 0 := by
  obtain ⟨created, reported, hfiles, hdiagnostics, hlength⟩ := (host.attempted s name).exists_added
  have hcreated : (host.visit s name).created = created := by
    simp [visit, hfiles]
  have hreported : (host.visit s name).reported = reported := by
    simp [visit, hdiagnostics]
  rw [hcreated, hreported]
  exact ⟨hfiles, hdiagnostics, hlength⟩

theorem length_added_of_mem_visits {host : MemoryHost} {names : List String} {v : Visit}
    (hv : v ∈ host.visits s names) :
    v.created.length + v.reported.length = if v.verdict.isFinal then 1 else 0 := by
  induction names generalizing host with
  | nil => exact absurd hv List.not_mem_nil
  | cons name names ih =>
      rcases List.mem_cons.mp hv with rfl | hv
      · exact (host.added_visit s name).2.2
      · exact ih hv

end Host

/-- A chain of attempts is the chain of the visits of its names. -/
theorem Attempts.visits_eq {s : Settings} {host after : MemoryHost}
    {verdicts : List (String × Verdict)} (h : Attempts s host verdicts after) :
    (host.visits s (verdicts.map (·.1))).map (fun v => (v.name, v.verdict)) = verdicts ∧
    after.store.files =
      host.store.files ++ (host.visits s (verdicts.map (·.1))).flatMap (·.created) ∧
    after.reporter.diagnostics =
      host.reporter.diagnostics ++ (host.visits s (verdicts.map (·.1))).flatMap (·.reported) := by
  induction h with
  | nil => simp [Host.visits]
  | @cons host middle after name verdict verdicts first rest ih =>
      obtain ⟨hverdicts, hfiles, hdiagnostics⟩ := ih
      obtain ⟨hverdict, hmiddle⟩ := first.eq_attempt
      obtain ⟨hcreated, hreported, -⟩ := host.added_visit s name
      rw [← hmiddle] at hcreated hreported
      have hvisits : host.visits s (((name, verdict) :: verdicts).map (·.1)) =
          host.visit s name :: middle.visits s (verdicts.map (·.1)) := by
        rw [List.map_cons, Host.visits, ← hmiddle]
      rw [hvisits]
      refine ⟨?_, ?_, ?_⟩
      · rw [List.map_cons, hverdicts, hverdict]
        rfl
      · rw [hfiles, hcreated, List.flatMap_cons, List.append_assoc]
      · rw [hdiagnostics, hreported, List.flatMap_cons, List.append_assoc]

namespace Generator

variable (g : Generator) (r : Round) (host : MemoryHost)

/-- The visits of a round, in the order of the queue. -/
def visits : List Visit :=
  (g.reported r host).visits g.settings (g.waiting r)

theorem map_verdict_visits :
    (g.visits r host).map (fun v => (v.name, v.verdict)) = (g.process r host).verdicts := by
  obtain ⟨hattempts, hvisited, -⟩ := g.process_spec r host
  rw [visits, ← hvisited]
  exact hattempts.visits_eq.1

theorem map_name_visits : (g.visits r host).map (·.name) = g.waiting r := by
  obtain ⟨-, hvisited, -⟩ := g.process_spec r host
  rw [← hvisited, ← map_verdict_visits, List.map_map]
  rfl

theorem files_process_eq : (g.process r host).host.store.files =
    host.store.files ++ (g.visits r host).flatMap (·.created) := by
  obtain ⟨hattempts, hvisited, -⟩ := g.process_spec r host
  rw [visits, ← hvisited]
  exact hattempts.visits_eq.2.1

theorem diagnostics_process_eq : (g.process r host).host.reporter.diagnostics =
    host.reporter.diagnostics ++
      (r.misplaced g.settings ++ (g.visits r host).flatMap (·.reported)) := by
  obtain ⟨hattempts, hvisited, -⟩ := g.process_spec r host
  rw [visits, ← hvisited, hattempts.visits_eq.2.2, reported, List.append_assoc]

theorem toList_pending_process : (g.process r host).generator.pending.toList =
    ((g.visits r host).filter fun v => !v.verdict.isFinal).map (·.name) := by
  obtain ⟨-, -, hkept⟩ := g.process_spec r host
  rw [hkept, ← map_verdict_visits, List.filter_map, List.map_map]
  rfl

end Generator

/-! ## Visits of a compilation -/

namespace CompilationEvent

/-- The names of the targets that an event discovers, in the order of their first discovery. -/
def discovered (s : Settings) : CompilationEvent → List String
  | .round r => (r.targetNames s).toList
  | .insert _ | .refuse _ => []

end CompilationEvent

namespace Compilation

/-- What `f` says of every event at its turn, in order. -/
def collect {α : Type} (f : Compilation → CompilationEvent → List α) :
    Compilation → List CompilationEvent → List α
  | _, [] => []
  | c, event :: events => f c event ++ collect f (c.step event) events

/-- The verdicts that the generator reports for an event. -/
def verdictsAt (c : Compilation) : CompilationEvent → List (String × Verdict)
  | .round r => (c.generator.process r c.host).verdicts
  | .insert _ | .refuse _ => []

/-- The visits of an event. -/
def visitsAt (c : Compilation) : CompilationEvent → List Visit
  | .round r => c.generator.visits r c.host
  | .insert _ | .refuse _ => []

/-- The diagnostics of an event: first what discovery reports, then what the visits report. -/
def diagnosticsAt (c : Compilation) : CompilationEvent → List Diagnostic
  | .round r => r.misplaced c.generator.settings ++
      (c.generator.visits r c.host).flatMap (·.reported)
  | .insert _ | .refuse _ => []

/-- What every event appends to a view, a run appends in order. -/
theorem view_run {α : Type} (view : Compilation → List α)
    {f : Compilation → CompilationEvent → List α}
    (hstep : ∀ c event, view (c.step event) = view c ++ f c event) (c : Compilation)
    (events : List CompilationEvent) : view (c.run events) = view c ++ c.collect f events := by
  induction events generalizing c with
  | nil => exact (List.append_nil _).symm
  | cons event events ih =>
      show view ((c.step event).run events) = _
      rw [ih, hstep, collect, List.append_assoc]

theorem map_collect {α β : Type} {f : Compilation → CompilationEvent → List α} {g : α → β}
    {f' : Compilation → CompilationEvent → List β}
    (h : ∀ c event, (f c event).map g = f' c event) (c : Compilation)
    (events : List CompilationEvent) : (c.collect f events).map g = c.collect f' events := by
  induction events generalizing c with
  | nil => rfl
  | cons event events ih => rw [collect, List.map_append, h, ih, collect]

theorem flatMap_collect {α β : Type} (f : Compilation → CompilationEvent → List α)
    (g : α → List β) (c : Compilation) (events : List CompilationEvent) :
    (c.collect f events).flatMap g = c.collect (fun c event => (f c event).flatMap g) events := by
  induction events generalizing c with
  | nil => rfl
  | cons event events ih => rw [collect, List.flatMap_append, ih, collect]

theorem mem_collect {α : Type} {f : Compilation → CompilationEvent → List α} {a : α}
    {c : Compilation} {events : List CompilationEvent} (h : a ∈ c.collect f events) :
    ∃ c' event, a ∈ f c' event := by
  induction events generalizing c with
  | nil => exact absurd h List.not_mem_nil
  | cons event events ih =>
      rcases List.mem_append.mp h with hfirst | hrest
      · exact ⟨c, event, hfirst⟩
      · exact ih hrest

theorem files_run (c : Compilation) (events : List CompilationEvent) :
    (c.run events).host.store.files =
      c.host.store.files ++ (c.collect visitsAt events).flatMap (·.created) := by
  rw [flatMap_collect]
  refine view_run (·.host.store.files) (fun c event => ?_) c events
  cases event with
  | insert e => exact (List.append_nil _).symm
  | refuse name => exact (List.append_nil _).symm
  | round r => exact c.generator.files_process_eq r c.host

theorem diagnostics_run (c : Compilation) (events : List CompilationEvent) :
    (c.run events).host.reporter.diagnostics =
      c.host.reporter.diagnostics ++ c.collect diagnosticsAt events := by
  refine view_run (·.host.reporter.diagnostics) (fun c event => ?_) c events
  cases event with
  | insert e => exact (List.append_nil _).symm
  | refuse name => exact (List.append_nil _).symm
  | round r => exact c.generator.diagnostics_process_eq r c.host

theorem map_verdict_visitsAt (c : Compilation) (event : CompilationEvent) :
    (c.visitsAt event).map (fun v => (v.name, v.verdict)) = c.verdictsAt event := by
  cases event with
  | insert e => rfl
  | refuse name => rfl
  | round r => exact c.generator.map_verdict_visits r c.host

theorem length_added_of_mem_visitsAt {c : Compilation} {event : CompilationEvent} {v : Visit}
    (hv : v ∈ c.visitsAt event) :
    v.created.length + v.reported.length = if v.verdict.isFinal then 1 else 0 := by
  cases event with
  | insert e => exact absurd hv List.not_mem_nil
  | refuse name => exact absurd hv List.not_mem_nil
  | round r => exact Host.length_added_of_mem_visits c.generator.settings hv

end Compilation

/-! ## Names that are done with -/

/-- Whether some visit ended with a final verdict on the name. -/
def isSettled (visits : List Visit) (name : String) : Bool :=
  visits.any fun v => v.name = name ∧ v.verdict.isFinal

theorem isSettled_eq_true_iff {visits : List Visit} {name : String} :
    isSettled visits name = true ↔
      ∃ v ∈ visits, v.name = name ∧ v.verdict.isFinal = true := by
  simp [isSettled]

theorem isSettled_append (first second : List Visit) (name : String) :
    isSettled (first ++ second) name = (isSettled first name || isSettled second name) :=
  List.any_append

/-- Where each name is visited once, the names that stay open are those of the open visits. -/
theorem filter_isSettled_eq {visits : List Visit} (hnames : (visits.map (·.name)).Nodup) :
    (visits.map (·.name)).filter (fun name => !isSettled visits name) =
      (visits.filter fun v => !v.verdict.isFinal).map (·.name) := by
  rw [List.filter_map]
  refine congrArg (List.map _) (List.filter_congr fun v hv => ?_)
  have hsettled : isSettled visits v.name = v.verdict.isFinal := by
    rw [Bool.eq_iff_iff, isSettled_eq_true_iff]
    constructor
    · rintro ⟨w, hw, hname, hfinal⟩
      exact List.inj_on_of_nodup_map hnames hw hv hname ▸ hfinal
    · exact fun hfinal => ⟨v, hv, rfl, hfinal⟩
  simp [hsettled]

/-- A compilation that has discovered the names `known` and made the visits `visits`. -/
structure Settled (s : Settings) (known : List String) (visits : List Visit)
    (c : Compilation) : Prop where
  settings : c.generator.settings = s
  /-- The discovered names without a final verdict wait, in the order of their discovery. -/
  pending : c.generator.pending.toList = known.filter fun name => !isSettled visits name
  names : ∀ v ∈ visits, v.name ∈ known
  /-- No name is visited behind a final verdict on it. -/
  done : visits.Pairwise fun v later => v.verdict.isFinal = true → later.name ≠ v.name

namespace Settled

variable {s : Settings} {known : List String} {visits : List Visit} {c : Compilation}

/-- A round that discovers no name again visits every discovered name that is still open. -/
theorem waiting_eq (h : Settled s known visits c) {r : Round}
    (hnew : ∀ name ∈ r.targetNames s, name ∉ known) :
    c.generator.waiting r =
      (known ++ (r.targetNames s).toList).filter fun name => !isSettled visits name := by
  have harrivals : c.generator.arrivals r = (r.targetNames s).toList := by
    have hall : ((r.targetNames s).toList.filter fun name => name ∉ c.generator.pending) =
        (r.targetNames s).toList := by
      refine List.filter_eq_self.mpr fun name hname => decide_eq_true fun hpending => ?_
      rw [← OrderedSet.mem_toList, h.pending] at hpending
      exact hnew name hname (List.mem_filter.mp hpending).1
    rw [Generator.arrivals, h.settings, Queue.arriving, hall]
    exact OrderedSet.eraseDups_of_nodup (r.targetNames s).nodup
  have hopen : (r.targetNames s).toList.filter (fun name => !isSettled visits name) =
      (r.targetNames s).toList := by
    refine List.filter_eq_self.mpr fun name hname => ?_
    rw [Bool.not_eq_true', ← Bool.not_eq_true, isSettled_eq_true_iff]
    rintro ⟨v, hv, rfl, -⟩
    exact hnew v.name hname (h.names v hv)
  rw [Generator.waiting_eq, harrivals, h.pending, List.filter_append, hopen]

theorem round (h : Settled s known visits c) {r : Round}
    (hnew : ∀ name ∈ r.targetNames s, name ∉ known) :
    Settled s (known ++ (r.targetNames s).toList)
      (visits ++ c.generator.visits r c.host) (c.step (.round r)) := by
  have hnames : (c.generator.visits r c.host).map (·.name) = c.generator.waiting r :=
    c.generator.map_name_visits r c.host
  have hnodup : ((c.generator.visits r c.host).map (·.name)).Nodup :=
    hnames ▸ c.generator.nodup_waiting r
  have hvisited {v : Visit} (hv : v ∈ c.generator.visits r c.host) :
      v.name ∈ known ++ (r.targetNames s).toList ∧ isSettled visits v.name = false := by
    have hname : v.name ∈ c.generator.waiting r := hnames ▸ List.mem_map_of_mem hv
    rw [h.waiting_eq hnew, List.mem_filter] at hname
    exact ⟨hname.1, by simpa using hname.2⟩
  refine ⟨h.settings, ?_, ?_, ?_⟩
  · show (c.generator.process r c.host).generator.pending.toList = _
    rw [Generator.toList_pending_process, ← filter_isSettled_eq hnodup, hnames,
      h.waiting_eq hnew, List.filter_filter]
    refine List.filter_congr fun name _ => ?_
    rw [isSettled_append, Bool.not_or, Bool.and_comm]
  · intro v hv
    rcases List.mem_append.mp hv with hv | hv
    · exact List.mem_append_left _ (h.names v hv)
    · exact (hvisited hv).1
  · refine List.pairwise_append.mpr ⟨h.done, ?_, ?_⟩
    · exact (List.pairwise_map.mp hnodup).imp fun hne _ hsame => hne hsame.symm
    · intro v hv later hlater hfinal hsame
      have hsettled : isSettled visits later.name = true :=
        isSettled_eq_true_iff.mpr ⟨v, hv, hsame.symm, hfinal⟩
      rw [(hvisited hlater).2] at hsettled
      cases hsettled

theorem step (h : Settled s known visits c) {event : CompilationEvent}
    (hnew : ∀ name ∈ event.discovered s, name ∉ known) :
    Settled s (known ++ event.discovered s) (visits ++ c.visitsAt event) (c.step event) := by
  cases event with
  | insert e =>
      rw [CompilationEvent.discovered, Compilation.visitsAt, List.append_nil, List.append_nil]
      exact ⟨h.settings, h.pending, h.names, h.done⟩
  | refuse name =>
      rw [CompilationEvent.discovered, Compilation.visitsAt, List.append_nil, List.append_nil]
      exact ⟨h.settings, h.pending, h.names, h.done⟩
  | round r => exact h.round hnew

theorem run (h : Settled s known visits c) {events : List CompilationEvent}
    (hdistinct : (known ++ events.flatMap (·.discovered s)).Nodup) :
    Settled s (known ++ events.flatMap (·.discovered s))
      (visits ++ c.collect Compilation.visitsAt events) (c.run events) := by
  induction events generalizing known visits c with
  | nil => simpa [Compilation.collect, Compilation.run] using h
  | cons event events ih =>
      rw [List.flatMap_cons, ← List.append_assoc] at hdistinct ⊢
      rw [Compilation.collect, ← List.append_assoc]
      have hknown : (known ++ event.discovered s).Nodup := (List.nodup_append.mp hdistinct).1
      have hnew : ∀ name ∈ event.discovered s, name ∉ known := fun name hname hearlier =>
        (List.nodup_append.mp hknown).2.2 name hearlier name hname rfl
      exact ih (h.step hnew) hdistinct

end Settled

/-- Where no visit follows a final one of the same name, each name has one final visit at most. -/
theorem length_filter_final_le_one {visits : List Visit}
    (h : visits.Pairwise fun v later => v.verdict.isFinal = true → later.name ≠ v.name)
    (name : String) :
    ((visits.filter fun v => v.name = name).filter (·.verdict.isFinal)).length ≤ 1 := by
  have hfinal {v : Visit}
      (hv : v ∈ (visits.filter fun v => v.name = name).filter (·.verdict.isFinal)) :
      v.name = name ∧ v.verdict.isFinal = true := by
    simpa using (List.mem_filter.mp hv).imp (fun hown => (List.mem_filter.mp hown).2) id
  have hpairwise := h.sublist (List.filter_sublist.trans List.filter_sublist :
    ((visits.filter fun v => v.name = name).filter (·.verdict.isFinal)).Sublist visits)
  generalize (visits.filter fun v => v.name = name).filter (·.verdict.isFinal) = finals at *
  match finals with
  | [] => exact Nat.zero_le 1
  | [v] => exact Nat.le_refl 1
  | v :: later :: rest =>
      -- Two final visits of one name would follow each other.
      obtain ⟨hv, hverdict⟩ := hfinal List.mem_cons_self
      obtain ⟨hlater, -⟩ := hfinal (List.mem_cons_of_mem v List.mem_cons_self)
      have hne := List.rel_of_pairwise_cons hpairwise List.mem_cons_self hverdict
      exact absurd (hlater.trans hv.symm) hne

/-- Visits add as many files and diagnostics as there are final verdicts among them. -/
theorem length_added_eq {visits : List Visit}
    (h : ∀ v ∈ visits,
      v.created.length + v.reported.length = if v.verdict.isFinal then 1 else 0) :
    (visits.flatMap (·.created)).length + (visits.flatMap (·.reported)).length =
      (visits.filter (·.verdict.isFinal)).length := by
  induction visits with
  | nil => rfl
  | cons v visits ih =>
      obtain ⟨hv, hrest⟩ := List.forall_mem_cons.mp h
      have hsum := ih hrest
      simp only [List.flatMap_cons, List.length_append, List.filter_cons]
      cases hfinal : v.verdict.isFinal with
      | true =>
          rw [hfinal, if_pos rfl] at hv
          rw [if_pos rfl, List.length_cons]
          omega
      | false =>
          rw [hfinal, if_neg Bool.false_ne_true] at hv
          rw [if_neg Bool.false_ne_true]
          omega

namespace Compilation

/-- In a compilation in which no two rounds discover the same name, whatever happens between the
rounds: a name is never visited again behind a final verdict on it, so each name has one final
verdict at most.  A final verdict comes with one created file or one reported diagnostic, and any
other verdict with none, so each name accounts for one file or one diagnostic at most.  All files
come from the visits, and all diagnostics from discovery and from the visits.  In the end exactly
the discovered names without a final verdict wait, in the order of their discovery. -/
theorem final_verdict_unique (s : Settings) {events : List CompilationEvent}
    (hdistinct : (events.flatMap (·.discovered s)).Nodup) :
    let visits := (start s).collect visitsAt events
    let c := (start s).run events
    visits.map (fun v => (v.name, v.verdict)) = (start s).collect verdictsAt events ∧
    visits.Pairwise (fun v later => v.verdict.isFinal = true → later.name ≠ v.name) ∧
    (∀ v ∈ visits,
      v.created.length + v.reported.length = if v.verdict.isFinal then 1 else 0) ∧
    (∀ name,
      let own := visits.filter fun v => v.name = name
      (own.filter (·.verdict.isFinal)).length ≤ 1 ∧
      (own.flatMap (·.created)).length + (own.flatMap (·.reported)).length ≤ 1) ∧
    c.host.store.files = visits.flatMap (·.created) ∧
    c.host.reporter.diagnostics = (start s).collect diagnosticsAt events ∧
    c.generator.pending.toList = (events.flatMap (·.discovered s)).filter fun name =>
      ∀ v ∈ visits, v.name = name → v.verdict.isFinal = false := by
  intro visits c
  have hstart : Settled s [] [] (start s) :=
    ⟨rfl, rfl, fun _ hnone => absurd hnone List.not_mem_nil, List.Pairwise.nil⟩
  have hend : Settled s (events.flatMap (·.discovered s)) visits c := hstart.run hdistinct
  have hadded : ∀ v ∈ visits,
      v.created.length + v.reported.length = if v.verdict.isFinal then 1 else 0 := by
    intro v hv
    obtain ⟨c', event, hv⟩ := mem_collect hv
    exact length_added_of_mem_visitsAt hv
  refine ⟨map_collect map_verdict_visitsAt _ _, hend.done, hadded, fun name => ?_,
    files_run _ _, diagnostics_run _ _, ?_⟩
  · intro own
    have hfinal : (own.filter (·.verdict.isFinal)).length ≤ 1 :=
      length_filter_final_le_one hend.done name
    refine ⟨hfinal, ?_⟩
    rw [length_added_eq fun v hv => hadded v (List.mem_of_mem_filter hv)]
    exact hfinal
  · rw [hend.pending]
    refine List.filter_congr fun name _ => ?_
    rw [Bool.eq_iff_iff, Bool.not_eq_true', ← Bool.not_eq_true, isSettled_eq_true_iff]
    simp

/-- Four targets in three rounds: a class with a type that is resolved in the second round only, an
interface, a class whose factory is refused, and a class that the host never knows. -/
def troubled : List CompilationEvent :=
  let marked (e : Element) : Element := e.withAnnotation ⟨"factoria.annotations.Factory", []⟩
  let holder (name : String) (kind : TypeKind) : Element :=
    (marked (Element.classIn "pkg" name)).withMember
      (Element.constructor.withParameter (Element.parameter "value" ⟨kind, "Baz"⟩))
  let early := holder "Late" .unresolved
  let port := marked ((Element.package "pkg").declaredIn .interfaceType "Port")
  let bar := holder "Bar" .declared
  [.insert early, .insert port, .insert bar, .refuse "pkg.BarFactory",
    .round (Round.ofRoots [early, port, bar, holder "Ghost" .declared]),
    .insert (holder "Late" .declared), .round Round.last, .round Round.last]

theorem final_verdict_unique_troubled :
    let visits := (start {}).collect visitsAt troubled
    let c := (start {}).run troubled
    (troubled.flatMap (·.discovered {})).Nodup ∧
    visits.map (fun v => (v.name, v.verdict)) =
      [("pkg.Late", .deferred), ("pkg.Port", .rejected), ("pkg.Bar", .failed),
        ("pkg.Ghost", .skipped), ("pkg.Late", .emitted), ("pkg.Ghost", .skipped),
        ("pkg.Ghost", .skipped)] ∧
    c.host.store.files = visits.flatMap (·.created) ∧
    c.generator.pending.toList = (troubled.flatMap (·.discovered {})).filter fun name =>
      ∀ v ∈ visits, v.name = name → v.verdict.isFinal = false := by
  intro visits c
  have hdistinct : (troubled.flatMap (·.discovered {})).Nodup := by decide
  obtain ⟨hverdicts, -, -, -, hfiles, -, hpending⟩ := final_verdict_unique {} hdistinct
  refine ⟨hdistinct, ?_, hfiles, hpending⟩
  rw [hverdicts]
  decide +kernel

end Compilation

end CompanionFactory
