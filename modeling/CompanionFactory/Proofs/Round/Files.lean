import CompanionFactory.Proofs.Round.Compilation
import Mathlib.Data.List.ReduceOption

/-!
# The files of a compilation

All targets of all rounds share one store.  A round adds one file for every factory that it emits
and leaves everything else in the store alone.  Which factories it emits depends on the names
taken before, so the condition is stated for every attempt at its turn: on the files of the
earlier rounds and of the earlier attempts of the same round.

* `Attempts.exists_created` follows a chain of attempts and collects the files it creates;
* `namesDistinct_run` says that no name is ever given out twice;
* `files_process` puts both together for any round of any compilation.
-/

namespace CompanionFactory

theorem reduceOption_cons {α : Type} (first : Option α) (rest : List (Option α)) :
    (first :: rest).reduceOption = first.toList ++ rest.reduceOption := by
  cases first <;> simp

/-- What one attempt creates when it starts from the store `turn`. -/
structure Creates (s : Settings) (types : TypeTable) (turn : MemoryStore) (name : String)
    (verdict : Verdict) (created : Option StoredFile) : Prop where
  emitted_iff : verdict = .emitted ↔ ∃ e t, Emittable s types turn name e t
  nothing : verdict ≠ .emitted → created = none
  file : ∀ e t, Emittable s types turn name e t →
    ∃ text, (FactoryClass.ofTarget s t).render? = some text ∧
      created = some ⟨t.qualifiedFactoryName, [e.display], Bytes.ofText text⟩

theorem Attempted.exists_creates {s : Settings} {host after : MemoryHost} {name : String}
    {verdict : Verdict} (h : Attempted s host name verdict after) :
    ∃ created : Option StoredFile, Creates s host.types host.store name verdict created ∧
      after.store = host.store.keepAll created.toList := by
  by_cases hverdict : verdict = .emitted
  · subst hverdict
    obtain ⟨e, t, hemit, hstore⟩ := h.emittable_of_emitted
    refine ⟨some (factoryFile s e t), ⟨?_, ?_, ?_⟩, hstore⟩
    · exact ⟨fun _ => ⟨e, t, hemit⟩, fun _ => rfl⟩
    · exact fun hne => absurd rfl hne
    · intro e' t' hemit'
      obtain ⟨rfl, rfl⟩ := hemit.unique hemit'
      exact ⟨_, FactoryClass.render?_eq_source _, rfl⟩
  · refine ⟨none, ⟨?_, fun _ => rfl, ?_⟩, ?_⟩
    · exact ⟨fun hemitted => absurd hemitted hverdict,
        fun ⟨e, t, hemit⟩ => h.emitted_of_emittable hemit⟩
    · exact fun e t hemit => absurd (h.emitted_of_emittable hemit) hverdict
    · rw [h.store_eq hverdict, Option.toList_none, MemoryStore.keepAll_nil]

/-- The files that a chain of attempts creates, place by place, with the store at each turn. -/
theorem Attempts.exists_created {s : Settings} {host after : MemoryHost}
    {verdicts : List (String × Verdict)} (h : Attempts s host verdicts after) :
    ∃ created : List (Option StoredFile),
      created.length = verdicts.length ∧
      after.store = host.store.keepAll created.reduceOption ∧
      ∀ (i : Nat) (name : String) (verdict : Verdict), verdicts[i]? = some (name, verdict) →
        ∃ file, created[i]? = some file ∧
          Creates s host.types (host.store.keepAll (created.take i).reduceOption) name verdict
            file := by
  induction h with
  | nil host =>
      refine ⟨[], rfl, (MemoryStore.keepAll_nil host.store).symm, ?_⟩
      intro i name verdict hi
      simp at hi
  | @cons host middle after name verdict verdicts first rest ih =>
      obtain ⟨file, hfile, hmiddle⟩ := first.exists_creates
      obtain ⟨created, hlength, hafter, hturns⟩ := ih
      rw [hmiddle] at hafter hturns
      rw [first.types_eq] at hturns
      refine ⟨file :: created, by simp [hlength], ?_, ?_⟩
      · rw [hafter, reduceOption_cons, MemoryStore.keepAll_append]
      · intro i name' verdict' hi
        cases i with
        | zero =>
            obtain ⟨rfl, rfl⟩ := Prod.mk.inj (Option.some.inj hi)
            refine ⟨file, rfl, ?_⟩
            rw [List.take_zero, List.reduceOption_nil, MemoryStore.keepAll_nil]
            exact hfile
        | succ i =>
            -- The turn of a later attempt starts from what the first one left behind.
            obtain ⟨file', hfile', hcreates⟩ := hturns i name' verdict' hi
            refine ⟨file', hfile', ?_⟩
            rw [List.take_succ_cons, reduceOption_cons, MemoryStore.keepAll_append]
            exact hcreates

theorem Attempted.namesDistinct {s : Settings} {host after : MemoryHost} {name : String}
    {verdict : Verdict} (h : Attempted s host name verdict after)
    (hnames : host.store.NamesDistinct) : after.store.NamesDistinct := by
  by_cases hverdict : verdict = .emitted
  · subst hverdict
    obtain ⟨e, t, hemit, hstore⟩ := h.emittable_of_emitted
    rw [hstore]
    exact hnames.keep hemit.not_held
  · rw [h.store_eq hverdict]
    exact hnames

theorem Attempts.namesDistinct {s : Settings} {host after : MemoryHost}
    {verdicts : List (String × Verdict)} (h : Attempts s host verdicts after)
    (hnames : host.store.NamesDistinct) : after.store.NamesDistinct := by
  induction h with
  | nil => exact hnames
  | cons first _ ih => exact ih (first.namesDistinct hnames)

namespace Compilation

theorem namesDistinct_step (c : Compilation) (event : CompilationEvent)
    (h : c.host.store.NamesDistinct) : (c.step event).host.store.NamesDistinct := by
  cases event with
  | insert e => exact h
  | refuse name => exact h
  | round r =>
      obtain ⟨hattempts, -, -⟩ := c.generator.process_spec r c.host
      exact hattempts.namesDistinct h

theorem namesDistinct_run (s : Settings) (events : List CompilationEvent) :
    ((start s).run events).host.store.NamesDistinct := by
  have hstart : (start s).host.store.NamesDistinct := List.nodup_nil
  exact run_invariant (P := fun c => c.host.store.NamesDistinct) namesDistinct_step hstart events

/-- Every round of every compilation keeps all earlier files and adds one file for each factory
that it emits.  At its turn, an attempt emits a factory exactly when the host knows a marked
element for the name, the element is read as a target, and the factory's name is neither refused
nor taken by then; the file then has that name, the rendered source, and the element as its only
origin.  No other attempt creates a file, and the refused names stay the same. -/
theorem files_process (s : Settings) (events : List CompilationEvent) (r : Round) :
    let c := (start s).run events
    let report := c.generator.process r c.host
    report.verdicts.map (·.1) = c.generator.waiting r ∧
    report.host.store.refused = c.host.store.refused ∧
    report.host.store.NamesDistinct ∧
    (∀ f ∈ c.host.store.files, report.host.store.file? f.name = some f) ∧
    ∃ created : List (Option StoredFile),
      created.length = report.verdicts.length ∧
      report.host.store.files = c.host.store.files ++ created.reduceOption ∧
      ∀ (i : Nat) (name : String) (verdict : Verdict),
        report.verdicts[i]? = some (name, verdict) →
          ∃ file, created[i]? = some file ∧
            Creates s c.host.types (c.host.store.keepAll (created.take i).reduceOption) name
              verdict file := by
  intro c report
  obtain ⟨hattempts, hvisited, -⟩ := c.generator.process_spec r c.host
  obtain ⟨created, hlength, hstore, hturns⟩ := hattempts.exists_created
  have hsettings : c.generator.settings = s := settings_run (start s) events
  have hnames : report.host.store.NamesDistinct :=
    hattempts.namesDistinct (namesDistinct_run s events)
  have hfiles : report.host.store.files = c.host.store.files ++ created.reduceOption :=
    congrArg MemoryStore.files hstore
  refine ⟨hvisited, hattempts.refused_eq, hnames, ?_, created, hlength, hfiles, ?_⟩
  · intro f hf
    exact hnames.file?_eq (hfiles ▸ List.mem_append_left _ hf)
  · rw [← hsettings]
    exact hturns

end Compilation

end CompanionFactory
