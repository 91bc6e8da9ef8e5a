import CompanionFactory.Proofs.Round.Attempt
import CompanionFactory.Round.Generator

/-!
# What a round does

A round reports what is misplaced, lets the discovered names wait, and then attempts every waiting
name once, each attempt on the host that the one before leaves behind.  `Attempts` is such a chain
of attempts with its verdicts.  `Generator.process_spec` says what a round comes to:

* its verdicts are those of a chain that starts behind the reports;
* the chain visits the waiting names once each, in order;
* the names whose verdict is not final go on waiting.
-/

namespace CompanionFactory

/-- Attempts one after the other, each with the name it is made on and its verdict. -/
inductive Attempts (s : Settings) : MemoryHost → List (String × Verdict) → MemoryHost → Prop
  | nil (host : MemoryHost) : Attempts s host [] host
  | cons {host middle after : MemoryHost} {name : String} {verdict : Verdict}
      {verdicts : List (String × Verdict)} (first : Attempted s host name verdict middle)
      (rest : Attempts s middle verdicts after) :
      Attempts s host ((name, verdict) :: verdicts) after

namespace Attempts

variable {s : Settings} {host after : MemoryHost} {verdicts : List (String × Verdict)}

theorem types_eq (h : Attempts s host verdicts after) : after.types = host.types := by
  induction h with
  | nil => rfl
  | cons first _ ih => exact ih.trans first.types_eq

theorem refused_eq (h : Attempts s host verdicts after) :
    after.store.refused = host.store.refused := by
  induction h with
  | nil => rfl
  | cons first _ ih => exact ih.trans first.refused_eq

end Attempts

theorem Progress.sweepList_visit (s : Settings) (p : Progress MemoryStore Recorder)
    (names : List String) :
    ∃ verdicts,
      (OrderedSet.sweepList (Progress.visit s) p names).1.verdicts = p.verdicts ++ verdicts ∧
      Attempts s p.host verdicts (OrderedSet.sweepList (Progress.visit s) p names).1.host ∧
      verdicts.map (·.1) = names ∧
      (OrderedSet.sweepList (Progress.visit s) p names).2 =
        (verdicts.filter fun v => !v.2.isFinal).map (·.1) := by
  -- The visit of the first name leaves a host behind, and the rest is swept from there.
  induction names generalizing p with
  | nil => exact ⟨[], (List.append_nil _).symm, .nil p.host, rfl, rfl⟩
  | cons name names ih =>
      obtain ⟨verdicts, hverdicts, hattempts, hnames, hkept⟩ := ih (p.visit s name).1
      refine ⟨(name, (p.host.attempt s name).verdict) :: verdicts, ?_, ?_, ?_, ?_⟩
      · rw [OrderedSet.sweepList, hverdicts]
        simp [visit]
      · exact .cons (p.host.attempted s name) hattempts
      · rw [List.map_cons, hnames]
      · rw [OrderedSet.sweepList, hkept]
        cases hfinal : (p.host.attempt s name).verdict.isFinal <;> simp [visit, hfinal]

namespace Generator

/-- The names that wait when a round begins to attempt them. -/
def waiting (g : Generator) (r : Round) : List String :=
  (g.pending.enqueue (r.targetNames g.settings).toList).queue.toList

theorem mem_waiting {g : Generator} {r : Round} {name : String} :
    name ∈ g.waiting r ↔ name ∈ g.pending ∨ name ∈ r.targetNames g.settings :=
  OrderedSet.mem_insertAll

/-- The host behind the reports of what is misplaced. -/
def reported (g : Generator) (r : Round) (host : MemoryHost) : MemoryHost :=
  { host with reporter := ⟨host.reporter.diagnostics ++ r.misplaced g.settings⟩ }

variable (g : Generator) (r : Round) (host : MemoryHost)

theorem process_spec :
    Attempts g.settings (g.reported r host) (g.process r host).verdicts (g.process r host).host ∧
      (g.process r host).verdicts.map (·.1) = g.waiting r ∧
      (g.process r host).generator.pending.toList =
        ((g.process r host).verdicts.filter fun v => !v.2.isFinal).map (·.1) := by
  obtain ⟨verdicts, hverdicts, hattempts, hnames, hkept⟩ :=
    Progress.sweepList_visit g.settings { host := g.reported r host } (g.waiting r)
  have hreport : (host.report (r.misplaced g.settings)).1 = g.reported r host :=
    Host.report_eq host (r.misplaced g.settings)
  have hprocess : (g.process r host).verdicts = verdicts := by
    simpa [process, hreport, OrderedSet.sweep, waiting] using hverdicts
  rw [hprocess]
  refine ⟨?_, hnames, ?_⟩
  · simpa [process, hreport, OrderedSet.sweep, waiting] using hattempts
  · simpa [process, hreport, OrderedSet.sweep, waiting] using hkept

end Generator

end CompanionFactory
