import CompanionFactory.Proofs.Round.Files
import CompanionFactory.Proofs.Round.Pending

/-!
# The diagnostics of a round

A round reports from two places: while it discovers targets, and while it attempts them.  Every
report is an error, and none is ever taken back.

* `Attempted.unique`: the outcomes on the list of `Attempted` exclude each other;
* `Attempted.exists_accounts`: an attempt reports its fault, once, or nothing;
* `Attempts.exists_reported` follows a chain of attempts and collects what it reports;
* `diagnostics_process` puts the two places together for any generator, round and host.
-/

namespace CompanionFactory

/-! ## What an attempt reports -/

/-- The element to which a fault of the element `e` is reported. -/
def TargetFault.subject (e : Element) : TargetFault → Element
  | .notOutermost => e.enclosing.getD e
  | _ => e

theorem TargetFault.diagnostic_eq (fault : TargetFault) (e : Element) :
    fault.diagnostic e = ⟨.error, fault.message, some (fault.subject e).display⟩ := by
  cases fault <;> rfl

/-- The element `e` that `types` knows as `name` asks for a factory, but has a fault that does not
go away by itself. -/
structure Rejectable (s : Settings) (types : TypeTable) (name : String) (e : Element)
    (fault : TargetFault) : Prop where
  known : types.get? name = some e
  marked : e.carries s.factoryMarker = true
  read : Target.ofElement s e = .error fault
  lasting : fault.isDeferrable = false

/-- The element `e` that `types` knows as `name` asks for a factory and is read as the target `t`,
but `store` refuses to create the file of its factory. -/
structure Obstructed (s : Settings) (types : TypeTable) (store : MemoryStore) (name : String)
    (e : Element) (t : Target) (fault : FileFault) : Prop where
  known : types.get? name = some e
  marked : e.carries s.factoryMarker = true
  read : Target.ofElement s e = .ok t
  obstacle : store.obstacle? t.qualifiedFactoryName = some fault

namespace Attempted

variable {s : Settings} {host after after' : MemoryHost} {name : String}
variable {verdict verdict' : Verdict}

theorem eq_attempt (h : Attempted s host name verdict after) :
    verdict = (host.attempt s name).verdict ∧ after = (host.attempt s name).host := by
  cases h with
  | missing hknown => simp [Host.attempt, hknown]
  | unmarked hknown hmarked => simp [Host.attempt, hknown, hmarked]
  | deferred hknown hmarked hread =>
      simp [Host.attempt, Host.attemptElement, hknown, hmarked, hread, TargetFault.isDeferrable]
  | @rejected e fault hknown hmarked hread hfinal =>
      have hattempt : (host.attempt s name).verdict = .rejected ∧
          (host.attempt s name).host = (host.report [fault.diagnostic e]).1 := by
        simp [Host.attempt, Host.attemptElement, hknown, hmarked, hread, hfinal, Host.dismiss]
      rw [hattempt.1, hattempt.2, Host.report_singleton]
      exact ⟨rfl, rfl⟩
  | @failed e t fault hknown hmarked hread hobstacle =>
      obtain ⟨hverdict, hhost⟩ := Host.emit_of_obstacle s host hobstacle (e := e)
      simp [Host.attempt, Host.attemptElement, hknown, hmarked, hread, hverdict, hhost]
  | @emitted e t hknown hmarked hread hfree =>
      obtain ⟨hverdict, hhost⟩ := Host.emit_of_free s host hfree (e := e)
      simp [Host.attempt, Host.attemptElement, hknown, hmarked, hread, hverdict, hhost]

/-- What an attempt comes to is decided by the host it starts from. -/
theorem unique (h : Attempted s host name verdict after)
    (h' : Attempted s host name verdict' after') : verdict = verdict' ∧ after = after' := by
  obtain ⟨hverdict, hafter⟩ := h.eq_attempt
  obtain ⟨hverdict', hafter'⟩ := h'.eq_attempt
  exact ⟨hverdict.trans hverdict'.symm, hafter.trans hafter'.symm⟩

theorem rejected_iff (h : Attempted s host name verdict after) :
    verdict = .rejected ↔ ∃ e fault, Rejectable s host.types name e fault := by
  constructor
  · rintro rfl
    cases h with
    | rejected hknown hmarked hread hfinal => exact ⟨_, _, hknown, hmarked, hread, hfinal⟩
  · rintro ⟨e, fault, hknown, hmarked, hread, hfinal⟩
    exact (h.unique (.rejected hknown hmarked hread hfinal)).1

theorem failed_iff (h : Attempted s host name verdict after) :
    verdict = .failed ↔ ∃ e t fault, Obstructed s host.types host.store name e t fault := by
  constructor
  · rintro rfl
    cases h with
    | failed hknown hmarked hread hobstacle => exact ⟨_, _, _, hknown, hmarked, hread, hobstacle⟩
  · rintro ⟨e, t, fault, hknown, hmarked, hread, hobstacle⟩
    exact (h.unique (.failed hknown hmarked hread hobstacle)).1

theorem diagnostics_of_rejectable (h : Attempted s host name verdict after) {e : Element}
    {fault : TargetFault} (hfault : Rejectable s host.types name e fault) :
    after.reporter.diagnostics = host.reporter.diagnostics ++
      [⟨.error, fault.message, some (fault.subject e).display⟩] := by
  obtain ⟨hknown, hmarked, hread, hfinal⟩ := hfault
  rw [(h.unique (.rejected hknown hmarked hread hfinal)).2, TargetFault.diagnostic_eq]

theorem diagnostics_of_obstructed (h : Attempted s host name verdict after) {e : Element}
    {t : Target} {fault : FileFault} (hfault : Obstructed s host.types host.store name e t fault) :
    after.reporter.diagnostics = host.reporter.diagnostics ++
      [⟨.error, "Unable to write factory file: " ++ fault.message, none⟩] := by
  obtain ⟨hknown, hmarked, hread, hobstacle⟩ := hfault
  rw [(h.unique (.failed hknown hmarked hread hobstacle)).2, FileFault.diagnostic]

theorem reporter_eq (h : Attempted s host name verdict after) (hrejected : verdict ≠ .rejected)
    (hfailed : verdict ≠ .failed) : after.reporter = host.reporter := by
  cases h with
  | rejected => exact absurd rfl hrejected
  | failed => exact absurd rfl hfailed
  | _ => rfl

end Attempted

/-- What one attempt reports when it starts from the types `types` and the store `turn`. -/
structure Accounts (s : Settings) (types : TypeTable) (turn : MemoryStore) (name : String)
    (verdict : Verdict) (report : Option Diagnostic) : Prop where
  rejected_iff : verdict = .rejected ↔ ∃ e fault, Rejectable s types name e fault
  failed_iff : verdict = .failed ↔ ∃ e t fault, Obstructed s types turn name e t fault
  rejection : ∀ e fault, Rejectable s types name e fault →
    report = some ⟨.error, fault.message, some (fault.subject e).display⟩
  failure : ∀ e t fault, Obstructed s types turn name e t fault →
    report = some ⟨.error, "Unable to write factory file: " ++ fault.message, none⟩
  silence : verdict ≠ .rejected → verdict ≠ .failed → report = none

theorem Attempted.exists_accounts {s : Settings} {host after : MemoryHost} {name : String}
    {verdict : Verdict} (h : Attempted s host name verdict after) :
    ∃ report : Option Diagnostic, Accounts s host.types host.store name verdict report ∧
      after.reporter.diagnostics = host.reporter.diagnostics ++ report.toList := by
  -- The report is told from the host behind the attempt, whatever the reason for it.
  have haccounts (report : Option Diagnostic)
      (hafter : after.reporter.diagnostics = host.reporter.diagnostics ++ report.toList) :
      Accounts s host.types host.store name verdict report := by
    have hreport {d : Diagnostic}
        (hd : after.reporter.diagnostics = host.reporter.diagnostics ++ [d]) : report = some d := by
      have hsame : report.toList = [d] := List.append_cancel_left (hafter.symm.trans hd)
      simpa using hsame
    refine ⟨h.rejected_iff, h.failed_iff, ?_, ?_, ?_⟩
    · exact fun e fault hfault => hreport (h.diagnostics_of_rejectable hfault)
    · exact fun e t fault hfault => hreport (h.diagnostics_of_obstructed hfault)
    · intro hrejected hfailed
      rw [h.reporter_eq hrejected hfailed] at hafter
      simpa using hafter
  by_cases hrejected : verdict = .rejected
  · obtain ⟨e, fault, hfault⟩ := h.rejected_iff.mp hrejected
    exact ⟨some _, haccounts _ (h.diagnostics_of_rejectable hfault),
      h.diagnostics_of_rejectable hfault⟩
  by_cases hfailed : verdict = .failed
  · obtain ⟨e, t, fault, hfault⟩ := h.failed_iff.mp hfailed
    exact ⟨some _, haccounts _ (h.diagnostics_of_obstructed hfault),
      h.diagnostics_of_obstructed hfault⟩
  · have hafter : after.reporter.diagnostics = host.reporter.diagnostics ++ [] := by
      rw [h.reporter_eq hrejected hfailed, List.append_nil]
    exact ⟨none, haccounts none hafter, hafter⟩

/-! ## What a round reports -/

/-- The diagnostics that a chain of attempts reports, place by place, with the host at each
turn. -/
theorem Attempts.exists_reported {s : Settings} {host after : MemoryHost}
    {verdicts : List (String × Verdict)} (h : Attempts s host verdicts after) :
    ∃ reports : List (Option Diagnostic),
      reports.length = verdicts.length ∧
      after.reporter.diagnostics = host.reporter.diagnostics ++ reports.reduceOption ∧
      ∀ (i : Nat) (name : String) (verdict : Verdict), verdicts[i]? = some (name, verdict) →
        ∃ (turn : MemoryHost) (report : Option Diagnostic),
          Attempts s host (verdicts.take i) turn ∧ reports[i]? = some report ∧
          Accounts s host.types turn.store name verdict report := by
  induction h with
  | nil host =>
      refine ⟨[], rfl, by simp, ?_⟩
      intro i name verdict hi
      simp at hi
  | @cons host middle after name verdict verdicts first rest ih =>
      obtain ⟨report, hreport, hmiddle⟩ := first.exists_accounts
      obtain ⟨reports, hlength, hafter, hturns⟩ := ih
      refine ⟨report :: reports, by simp [hlength], ?_, ?_⟩
      · rw [hafter, hmiddle, reduceOption_cons, List.append_assoc]
      · intro i name' verdict' hi
        cases i with
        | zero =>
            obtain ⟨rfl, rfl⟩ := Prod.mk.inj (Option.some.inj hi)
            exact ⟨host, report, .nil host, rfl, hreport⟩
        | succ i =>
            -- The chain up to a later turn begins with the first attempt.
            obtain ⟨turn, report', hchain, hreport', hturn⟩ := hturns i name' verdict' hi
            rw [first.types_eq] at hturn
            exact ⟨turn, report', .cons first hchain, hreport', hturn⟩

theorem Round.misplaced_eq (r : Round) (s : Settings) :
    r.misplaced s = ((r.carriers s.factoryMarker).filter fun e => e.enclosingPackage?.isNone).map
      fun e => ⟨.error, "Factory annotation must be applied to outer-classes",
        some (e.enclosing.getD e).display⟩ := rfl

namespace Generator

/-- Behind a round come the earlier diagnostics, then one error for each element that asks for a
factory and is not declared directly in a package, in the order the round shows them, and then the
reports of the attempts, in the order of the queue.  At its turn, an attempt is rejected exactly
when the element known by the name has a fault that lasts, and fails exactly when the store refuses
the file; it then reports one error, attached for a rejection and free for a failure.  No other
attempt reports anything. -/
theorem diagnostics_process (g : Generator) (r : Round) (host : MemoryHost) :
    let report := g.process r host
    report.verdicts.map (·.1) = g.pending.toList ++ g.arrivals r ∧
    (report.verdicts.map (·.1)).Nodup ∧
    ∃ reports : List (Option Diagnostic),
      reports.length = report.verdicts.length ∧
      report.host.reporter.diagnostics =
        host.reporter.diagnostics ++
        ((r.carriers g.settings.factoryMarker).filter fun e => e.enclosingPackage?.isNone).map
          (fun e => ⟨.error, "Factory annotation must be applied to outer-classes",
            some (e.enclosing.getD e).display⟩) ++
        reports.reduceOption ∧
      ∀ (i : Nat) (name : String) (verdict : Verdict),
        report.verdicts[i]? = some (name, verdict) →
          ∃ (turn : MemoryHost) (found : Option Diagnostic),
            Attempts g.settings (g.reported r host) (report.verdicts.take i) turn ∧
            reports[i]? = some found ∧
            Accounts g.settings host.types turn.store name verdict found := by
  intro report
  obtain ⟨hattempts, hvisited, -⟩ := g.process_spec r host
  obtain ⟨reports, hlength, hdiagnostics, hturns⟩ := hattempts.exists_reported
  refine ⟨hvisited.trans (g.waiting_eq r), hvisited ▸ g.nodup_waiting r, reports, hlength, ?_,
    hturns⟩
  rw [hdiagnostics, reported, Round.misplaced_eq]

end Generator

end CompanionFactory
