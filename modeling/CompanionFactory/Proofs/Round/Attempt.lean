import CompanionFactory.Round.Attempt
import CompanionFactory.Proofs.File.Memory

/-!
# What an attempt comes to

An attempt on a host that keeps files in memory and records diagnostics ends in one of six ways.
`Attempted` lists them, each with its condition and with the host behind it, and `attempted` says
that every attempt is on the list.  So nothing that is proved about attempts has to look into
them again:

* `Attempted.types_eq`: an attempt never changes what the host knows;
* `Attempted.store_eq`: the files change only when a factory is emitted;
* `Attempted.emitted_of_emittable`, `Attempted.emittable_of_emitted`: a factory is emitted exactly
  when it can be, and then the store has one more file.
-/

namespace CompanionFactory

abbrev MemoryHost := Host MemoryStore Recorder

/-! ## Writing a factory into memory -/

def FactoryClass.source (k : FactoryClass) : String :=
  ({} : Layout).textAll k.steps

/-- The file of a factory generated from the element `e`. -/
def factoryFile (s : Settings) (e : Element) (t : Target) : StoredFile where
  name := t.qualifiedFactoryName
  origins := [e.display]
  contents := Bytes.ofText (FactoryClass.ofTarget s t).source

theorem FactoryClass.render?_eq_source (k : FactoryClass) : k.render? = some k.source :=
  k.render?_eq

theorem FactoryClass.session_fresh (k : FactoryClass) :
    k.session {} = ({ held := Bytes.ofText k.source }, .ok ()) := by
  -- A fresh sink has no limit, so no step fails, and closing it does not fail either.
  have hwritten := SourceWriter.writeAll_of_limit_none (w := {}) rfl k.steps
  unfold FactoryClass.session
  rw [hwritten]
  simp [SourceWriter.close, Sink.close, FactoryClass.source]

namespace Host

theorem report_singleton (host : MemoryHost) (d : Diagnostic) :
    (host.report [d]).1 = { host with reporter := ⟨host.reporter.diagnostics ++ [d]⟩ } := rfl

theorem report_eq (host : MemoryHost) (ds : List Diagnostic) :
    (host.report ds).1 = { host with reporter := ⟨host.reporter.diagnostics ++ ds⟩ } := by
  induction ds generalizing host with
  | nil => simp [report]
  | cons d ds ih =>
      unfold report
      show (report _ ds).1 = _
      rw [ih]
      simp [Reporter.report]

end Host

/-! ## The six ways -/

/-- An attempt on `name` that starts at the host `host`, with its verdict and the host behind
it. -/
inductive Attempted (s : Settings) (host : MemoryHost) (name : String) :
    Verdict → MemoryHost → Prop
  | missing (hknown : host.types.get? name = none) : Attempted s host name .skipped host
  | unmarked {e : Element} (hknown : host.types.get? name = some e)
      (hmarked : e.carries s.factoryMarker = false) : Attempted s host name .skipped host
  | deferred {e : Element} {parameter : String} (hknown : host.types.get? name = some e)
      (hmarked : e.carries s.factoryMarker = true)
      (hread : Target.ofElement s e = .error (.unresolvedType parameter)) :
      Attempted s host name .deferred host
  | rejected {e : Element} {fault : TargetFault} (hknown : host.types.get? name = some e)
      (hmarked : e.carries s.factoryMarker = true)
      (hread : Target.ofElement s e = .error fault) (hfinal : fault.isDeferrable = false) :
      Attempted s host name .rejected
        { host with reporter := ⟨host.reporter.diagnostics ++ [fault.diagnostic e]⟩ }
  | failed {e : Element} {t : Target} {fault : FileFault}
      (hknown : host.types.get? name = some e) (hmarked : e.carries s.factoryMarker = true)
      (hread : Target.ofElement s e = .ok t)
      (hobstacle : host.store.obstacle? t.qualifiedFactoryName = some fault) :
      Attempted s host name .failed
        { host with reporter := ⟨host.reporter.diagnostics ++ [fault.diagnostic]⟩ }
  | emitted {e : Element} {t : Target} (hknown : host.types.get? name = some e)
      (hmarked : e.carries s.factoryMarker = true) (hread : Target.ofElement s e = .ok t)
      (hfree : host.store.obstacle? t.qualifiedFactoryName = none) :
      Attempted s host name .emitted
        { host with store := host.store.keep (factoryFile s e t) }

namespace Host

variable (s : Settings) (host : MemoryHost) (name : String)

theorem emit_of_obstacle {e : Element} {t : Target} {fault : FileFault}
    (h : host.store.obstacle? t.qualifiedFactoryName = some fault) :
    (host.emit s e t).verdict = .failed ∧
      (host.emit s e t).host =
        { host with reporter := ⟨host.reporter.diagnostics ++ [fault.diagnostic]⟩ } := by
  simp [emit, SourceStore.create, h, dismiss, report_singleton]

theorem emit_of_free {e : Element} {t : Target}
    (h : host.store.obstacle? t.qualifiedFactoryName = none) :
    (host.emit s e t).verdict = .emitted ∧
      (host.emit s e t).host = { host with store := host.store.keep (factoryFile s e t) } := by
  simp [emit, SourceStore.create, h, FactoryClass.session_fresh, factoryFile]

theorem attempted : Attempted s host name (host.attempt s name).verdict
    (host.attempt s name).host := by
  cases hknown : host.types.get? name with
  | none =>
      simp only [attempt, hknown]
      exact .missing hknown
  | some e =>
      cases hmarked : e.carries s.factoryMarker with
      | false =>
          simp only [attempt, hknown, hmarked]
          exact .unmarked hknown hmarked
      | true =>
          simp only [attempt, hknown, hmarked, if_true, attemptElement]
          cases hread : Target.ofElement s e with
          | ok t =>
              cases hobstacle : host.store.obstacle? t.qualifiedFactoryName with
              | some fault =>
                  obtain ⟨hverdict, hhost⟩ := emit_of_obstacle s host hobstacle (e := e)
                  simp only [hverdict, hhost]
                  exact .failed hknown hmarked hread hobstacle
              | none =>
                  obtain ⟨hverdict, hhost⟩ := emit_of_free s host hobstacle (e := e)
                  simp only [hverdict, hhost]
                  exact .emitted hknown hmarked hread hobstacle
          | error fault =>
              cases hfinal : fault.isDeferrable with
              | false =>
                  simp only [hfinal, dismiss, report_singleton]
                  exact .rejected hknown hmarked hread hfinal
              | true =>
                  -- An unresolved type is the only fault that can go away by itself.
                  cases fault with
                  | unresolvedType parameter => exact .deferred hknown hmarked hread
                  | notClass => cases hfinal
                  | notOutermost => cases hfinal
                  | unknownOption key => cases hfinal
                  | malformedOption key expected => cases hfinal
                  | unknownModifier word => cases hfinal

end Host

/-! ## Effects on the files -/

/-- The element `e` that `types` knows as `name` asks for a factory, is read as the target `t`, and
`store` neither refuses nor holds a file with the name of its factory. -/
structure Emittable (s : Settings) (types : TypeTable) (store : MemoryStore) (name : String)
    (e : Element) (t : Target) : Prop where
  known : types.get? name = some e
  marked : e.carries s.factoryMarker = true
  read : Target.ofElement s e = .ok t
  not_refused : t.qualifiedFactoryName ∉ store.refused
  not_held : ∀ f ∈ store.files, f.name ≠ t.qualifiedFactoryName

theorem Emittable.unique {s : Settings} {types : TypeTable} {store : MemoryStore} {name : String}
    {e e' : Element} {t t' : Target} (h : Emittable s types store name e t)
    (h' : Emittable s types store name e' t') : e' = e ∧ t' = t := by
  have he : e' = e := Option.some.inj (h'.known.symm.trans h.known)
  subst he
  exact ⟨rfl, Except.ok.inj (h'.read.symm.trans h.read)⟩

namespace Attempted

variable {s : Settings} {host after : MemoryHost} {name : String} {verdict : Verdict}

theorem types_eq (h : Attempted s host name verdict after) : after.types = host.types := by
  cases h <;> rfl

theorem store_eq (h : Attempted s host name verdict after) (hverdict : verdict ≠ .emitted) :
    after.store = host.store := by
  cases h with
  | emitted => exact absurd rfl hverdict
  | _ => rfl

theorem refused_eq (h : Attempted s host name verdict after) :
    after.store.refused = host.store.refused := by
  cases h <;> rfl

theorem emitted_of_emittable (h : Attempted s host name verdict after) {e : Element}
    {t : Target} (hemit : Emittable s host.types host.store name e t) : verdict = .emitted := by
  have hfree : host.store.obstacle? t.qualifiedFactoryName = none :=
    MemoryStore.obstacle?_eq_none_iff.mpr ⟨hemit.not_refused, hemit.not_held⟩
  -- In every other case the attempt saw something that `Emittable` excludes.
  cases h with
  | missing hknown =>
      rw [hemit.known] at hknown
      cases hknown
  | unmarked hknown hmarked =>
      obtain rfl := Option.some.inj (hknown.symm.trans hemit.known)
      rw [hemit.marked] at hmarked
      cases hmarked
  | deferred hknown _ hread =>
      obtain rfl := Option.some.inj (hknown.symm.trans hemit.known)
      rw [hemit.read] at hread
      cases hread
  | rejected hknown _ hread _ =>
      obtain rfl := Option.some.inj (hknown.symm.trans hemit.known)
      rw [hemit.read] at hread
      cases hread
  | failed hknown _ hread hobstacle =>
      obtain rfl := Option.some.inj (hknown.symm.trans hemit.known)
      obtain rfl := Except.ok.inj (hread.symm.trans hemit.read)
      rw [hfree] at hobstacle
      cases hobstacle
  | emitted => rfl

/-- An emitted factory could be emitted, and its file is the only change to the store. -/
theorem emittable_of_emitted (h : Attempted s host name .emitted after) :
    ∃ e t, Emittable s host.types host.store name e t ∧
      after.store = host.store.keep (factoryFile s e t) := by
  cases h with
  | emitted hknown hmarked hread hfree =>
      obtain ⟨hrefused, hheld⟩ := MemoryStore.obstacle?_eq_none_iff.mp hfree
      exact ⟨_, _, ⟨hknown, hmarked, hread, hrefused, hheld⟩, rfl⟩

end Attempted

end CompanionFactory
