import CompanionFactory.Target.Options
import Mathlib.Data.List.Forall2
import Mathlib.Data.List.Nodup

/-!
# Reading options

The entries of a marker are read one by one, each on its own, and the settings take effect in
order.  So a marker is accepted exactly when each of its entries is; of several entries under one
key the last one counts; and the first entry that is not acceptable decides the fault.  Inside a
list of modifiers it is again the first bad item that counts.

* `AnnotationEntry.Acceptable` and `AnnotationEntry.Refuses` say of one entry whether it can be read
  and with which fault it cannot;
* `TargetOptions.ReadFrom` says what the options owe to the entries, field by field, and
  `ReadFrom.set` is the step from one entry to the next;
* `ReadFrom.of_perm`: where no key occurs twice, the order of the entries does not matter;
* `ofUse_by_entries` puts the three together.
-/

namespace CompanionFactory

/-! ## Lists that are read item by item -/

section Traversal

variable {α β ε : Type} {f : α → Except ε β}

theorem mapM_eq_ok_iff {as : List α} {bs : List β} :
    as.mapM f = .ok bs ↔ List.Forall₂ (fun a b => f a = .ok b) as bs := by
  induction as generalizing bs with
  | nil => cases bs <;> simp [pure, Except.pure]
  | cons a as ih =>
      rw [List.mapM_cons]
      cases hfirst : f a with
      | error fault => cases bs <;> simp [bind, Except.bind, hfirst]
      | ok b =>
          cases hrest : as.mapM f with
          | error fault => cases bs <;> simp [bind, Except.bind, ← ih, hrest]
          | ok rest =>
              cases bs <;> simp [bind, Except.bind, pure, Except.pure, ← ih, hrest, hfirst]

/-- The first item that fails decides the fault. -/
theorem mapM_eq_error_iff {as : List α} {fault : ε} :
    as.mapM f = .error fault ↔ ∃ before a after, as = before ++ a :: after ∧
      (∀ earlier ∈ before, ∃ b, f earlier = .ok b) ∧ f a = .error fault := by
  induction as with
  | nil => simp [pure, Except.pure]
  | cons a as ih =>
      rw [List.mapM_cons]
      cases hfirst : f a with
      | error fault' =>
          constructor
          · rintro h
            obtain rfl : fault' = fault := Except.error.inj h
            exact ⟨[], a, as, rfl, by simp, hfirst⟩
          · rintro ⟨before, bad, after, hsplit, hbefore, hbad⟩
            rcases List.cons_eq_append_iff.mp hsplit with ⟨rfl, hcons⟩ | ⟨rest, rfl, -⟩
            · obtain ⟨rfl, -⟩ := List.cons.inj hcons
              rw [← hfirst, hbad]
              rfl
            · obtain ⟨b, hb⟩ := hbefore a List.mem_cons_self
              rw [hfirst] at hb
              cases hb
      | ok b =>
          have hrest : (do let bs ← as.mapM f; pure (b :: bs)) = Except.error fault ↔
              as.mapM f = .error fault := by
            cases as.mapM f <;> simp [bind, Except.bind, pure, Except.pure]
          refine hrest.trans (ih.trans ?_)
          constructor
          · rintro ⟨before, bad, after, rfl, hbefore, hbad⟩
            exact ⟨a :: before, bad, after, rfl,
              List.forall_mem_cons.mpr ⟨⟨b, hfirst⟩, hbefore⟩, hbad⟩
          · rintro ⟨before, bad, after, hsplit, hbefore, hbad⟩
            rcases List.cons_eq_append_iff.mp hsplit with ⟨rfl, hcons⟩ | ⟨rest, rfl, hrest⟩
            · obtain ⟨rfl, -⟩ := List.cons.inj hcons
              rw [hfirst] at hbad
              cases hbad
            · exact ⟨rest, bad, after, hrest, (List.forall_mem_cons.mp hbefore).2, hbad⟩

theorem exists_mapM_eq_ok_iff {as : List α} :
    (∃ bs, as.mapM f = .ok bs) ↔ ∀ a ∈ as, ∃ b, f a = .ok b := by
  cases has : as.mapM f with
  | error fault =>
      obtain ⟨before, bad, after, rfl, -, hbad⟩ := mapM_eq_error_iff.mp has
      simp only [reduceCtorEq, exists_false, false_iff]
      intro hall
      obtain ⟨b, hb⟩ := hall bad (List.mem_append_right before List.mem_cons_self)
      rw [hbad] at hb
      cases hb
  | ok bs =>
      simp only [Except.ok.injEq, exists_eq', true_iff]
      intro a ha
      obtain ⟨i, hi, rfl⟩ := List.mem_iff_getElem.mp ha
      have hread := List.forall₂_iff_get.mp (mapM_eq_ok_iff.mp has)
      exact ⟨_, hread.2 i hi (hread.1 ▸ hi)⟩

theorem map_eq_ok_iff {g : α → β} {answer : Except ε α} {b : β} :
    g <$> answer = .ok b ↔ ∃ a, answer = .ok a ∧ g a = b := by
  cases answer <;> simp [Functor.map, Except.map]

theorem exists_map_eq_ok_iff {g : α → β} {answer : Except ε α} :
    (∃ b, g <$> answer = .ok b) ↔ ∃ a, answer = .ok a := by
  cases answer <;> simp [Functor.map, Except.map]

theorem map_eq_error_iff {g : α → β} {answer : Except ε α} {fault : ε} :
    g <$> answer = .error fault ↔ answer = .error fault := by
  cases answer <;> simp [Functor.map, Except.map]

end Traversal

/-! ## Modifiers -/

namespace Modifier

/-- The constant spells the modifier, ASCII letters counting the same in either case. -/
def SpelledBy (m : Modifier) (constant : String) : Prop :=
  constant.toList.map Char.toLower = m.word.toList.map Char.toLower

instance (m : Modifier) (constant : String) : Decidable (m.SpelledBy constant) :=
  inferInstanceAs (Decidable (_ = _))

theorem map_toLower_word (m : Modifier) : m.word.toList.map Char.toLower = m.word.toList := by
  cases m <;> decide

theorem eq_of_word_eq {m n : Modifier} (h : m.word = n.word) : m = n := by
  have hall : ∀ m ∈ all, ∀ n ∈ all, m.word = n.word → m = n := by decide
  exact hall m (mem_all m) n (mem_all n) h

theorem SpelledBy.unique {m n : Modifier} {constant : String} (hm : m.SpelledBy constant)
    (hn : n.SpelledBy constant) : m = n := by
  have hsame : m.word.toList = n.word.toList := by
    rw [← map_toLower_word m, ← map_toLower_word n, ← hm, hn]
  exact eq_of_word_eq (String.toList_injective hsame)

theorem ofText?_eq_some_iff {m : Modifier} {constant : String} :
    ofText? constant = some m ↔ m.SpelledBy constant := by
  let reads (n : Modifier) : Bool := decide (n.word.toList = constant.toList.map Char.toLower)
  have hreads (n : Modifier) : reads n = true ↔ n.SpelledBy constant := by
    rw [decide_eq_true_iff, SpelledBy, map_toLower_word, eq_comm]
  show all.find? reads = some m ↔ m.SpelledBy constant
  constructor
  · intro h
    exact (hreads m).mp (List.find?_some h)
  · intro h
    cases hfound : all.find? reads with
    | none => exact absurd ((hreads m).mpr h) (List.find?_eq_none.mp hfound m (mem_all m))
    | some n => rw [((hreads n).mp (List.find?_some hfound)).unique h]

theorem ofText?_eq_none_iff {constant : String} :
    ofText? constant = none ↔ ∀ m : Modifier, ¬m.SpelledBy constant := by
  simp [Option.eq_none_iff_forall_ne_some, ofText?_eq_some_iff]

end Modifier

/-! ## Values -/

namespace AnnotationValue

/-- The value is a text. -/
def ReadsText (value : AnnotationValue) (text : String) : Prop :=
  value = .text text

/-- The value is a flag. -/
def ReadsFlag (value : AnnotationValue) (flag : Bool) : Prop :=
  value = .flag flag

/-- The value is a constant that spells the modifier. -/
def ReadsModifier (value : AnnotationValue) (m : Modifier) : Prop :=
  ∃ type constant, value = .enumConstant type constant ∧ m.SpelledBy constant

/-- The value is one constant, or an array of constants only, that spells the modifiers.  Each
modifier counts once, where it occurs first. -/
structure ReadsModifiers (value : AnnotationValue) (modifiers : List Modifier) : Prop where
  nodup : modifiers.Nodup
  first_occurrences : ∃ found,
    List.Forall₂ ReadsModifier (OptionSetting.items value) found ∧ modifiers = found.eraseDups

theorem ReadsText.unique {value : AnnotationValue} {s t : String} (hs : value.ReadsText s)
    (ht : value.ReadsText t) : s = t :=
  text.inj (hs.symm.trans ht)

theorem ReadsFlag.unique {value : AnnotationValue} {a b : Bool} (ha : value.ReadsFlag a)
    (hb : value.ReadsFlag b) : a = b :=
  flag.inj (ha.symm.trans hb)

theorem ReadsModifier.unique {value : AnnotationValue} {m n : Modifier}
    (hm : value.ReadsModifier m) (hn : value.ReadsModifier n) : m = n := by
  obtain ⟨type, constant, rfl, hm⟩ := hm
  obtain ⟨type', constant', hsame, hn⟩ := hn
  obtain ⟨rfl, rfl⟩ := enumConstant.inj hsame
  exact hm.unique hn

theorem ReadsModifiers.unique {value : AnnotationValue} {ms ns : List Modifier}
    (hms : value.ReadsModifiers ms) (hns : value.ReadsModifiers ns) : ms = ns := by
  obtain ⟨-, found, hfound, rfl⟩ := hms
  obtain ⟨-, found', hfound', rfl⟩ := hns
  have hunique : Relator.RightUnique ReadsModifier := fun _ _ _ hm hn => hm.unique hn
  rw [hunique.forall₂ hfound hfound']

end AnnotationValue

/-! ## Entries -/

/-- What the option of the given name accepts, if there is one. -/
def OptionShape.ofKey? : String → Option OptionShape
  | "name" => some .text
  | "modifiers" | "methodModifiers" => some .modifiers
  | "singleton" | "inject" | "providers" => some .flag
  | _ => none

/-- The value has the shape. -/
inductive OptionShape.Admits : OptionShape → AnnotationValue → Prop
  | text (value : String) : Admits .text (.text value)
  | flag (value : Bool) : Admits .flag (.flag value)
  /-- One constant. -/
  | modifier {value : AnnotationValue} {m : Modifier} (hvalue : value.ReadsModifier m) :
      Admits .modifiers value
  /-- An array of constants only. -/
  | modifiers {values : List AnnotationValue}
      (hvalues : ∀ value ∈ values, ∃ m, value.ReadsModifier m) : Admits .modifiers (.array values)

namespace AnnotationEntry

/-- There is an option of this name, and it accepts the value. -/
def Acceptable (entry : AnnotationEntry) : Prop :=
  ∃ shape, OptionShape.ofKey? entry.key = some shape ∧ shape.Admits entry.value

/-- An item is no modifier, since it is no constant or since the constant spells none. -/
inductive RefusesItem (key : String) : AnnotationValue → TargetFault → Prop
  | noConstant {item : AnnotationValue}
      (hitem : ∀ type constant, item ≠ .enumConstant type constant) :
      RefusesItem key item (.malformedOption key .modifiers)
  | noModifier {type constant : String} (hconstant : ∀ m : Modifier, ¬m.SpelledBy constant) :
      RefusesItem key (.enumConstant type constant) (.unknownModifier constant)

/-- What is wrong with an entry: there is no such option, or the value is no text or no flag, or
among modifiers there is an item that is none, and then the first one counts. -/
inductive Refuses : AnnotationEntry → TargetFault → Prop
  | unknown {key : String} {value : AnnotationValue} (hkey : OptionShape.ofKey? key = none) :
      Refuses ⟨key, value⟩ (.unknownOption key)
  | malformed {key : String} {value : AnnotationValue} {shape : OptionShape}
      (hkey : OptionShape.ofKey? key = some shape) (hshape : shape ≠ .modifiers)
      (hvalue : ¬shape.Admits value) : Refuses ⟨key, value⟩ (.malformedOption key shape)
  | item {key : String} {value item : AnnotationValue} {before after : List AnnotationValue}
      {fault : TargetFault} (hkey : OptionShape.ofKey? key = some .modifiers)
      (hitems : OptionSetting.items value = before ++ item :: after)
      (hbefore : ∀ earlier ∈ before, ∃ m, earlier.ReadsModifier m)
      (hitem : RefusesItem key item fault) : Refuses ⟨key, value⟩ fault

variable {key : String} {value : AnnotationValue} {fault : TargetFault}

theorem refuses_unknown_iff (hkey : OptionShape.ofKey? key = none) :
    Refuses ⟨key, value⟩ fault ↔ .unknownOption key = fault := by
  constructor
  · intro h
    cases h with
    | unknown => rfl
    | malformed hsome | item hsome => cases hkey.symm.trans hsome
  · rintro rfl
    exact .unknown hkey

theorem refuses_iff {shape : OptionShape} (hkey : OptionShape.ofKey? key = some shape)
    (hshape : shape ≠ .modifiers) :
    Refuses ⟨key, value⟩ fault ↔ ¬shape.Admits value ∧ .malformedOption key shape = fault := by
  constructor
  · intro h
    cases h with
    | unknown hnone => cases hkey.symm.trans hnone
    | malformed hsome _ hvalue =>
        cases hkey.symm.trans hsome
        exact ⟨hvalue, rfl⟩
    | item hsome => exact absurd (Option.some.inj (hkey.symm.trans hsome)) hshape
  · rintro ⟨hvalue, rfl⟩
    exact .malformed hkey hshape hvalue

theorem refuses_modifiers_iff (hkey : OptionShape.ofKey? key = some .modifiers) :
    Refuses ⟨key, value⟩ fault ↔
      ∃ before item after, OptionSetting.items value = before ++ item :: after ∧
        (∀ earlier ∈ before, ∃ m, earlier.ReadsModifier m) ∧ RefusesItem key item fault := by
  constructor
  · intro h
    cases h with
    | unknown hnone => cases hkey.symm.trans hnone
    | malformed hsome hne => exact absurd (Option.some.inj (hsome.symm.trans hkey)) hne
    | item _ hitems hbefore hitem => exact ⟨_, _, _, hitems, hbefore, hitem⟩
  · rintro ⟨before, item, after, hitems, hbefore, hitem⟩
    exact .item hkey hitems hbefore hitem

end AnnotationEntry

namespace OptionShape

variable {value : AnnotationValue}

theorem admits_text_iff : Admits .text value ↔ ∃ s, value.ReadsText s := by
  constructor
  · rintro ⟨⟩
    exact ⟨_, rfl⟩
  · rintro ⟨s, rfl⟩
    exact .text s

theorem admits_flag_iff : Admits .flag value ↔ ∃ b, value.ReadsFlag b := by
  constructor
  · rintro ⟨⟩
    exact ⟨_, rfl⟩
  · rintro ⟨b, rfl⟩
    exact .flag b

theorem admits_modifiers_iff :
    Admits .modifiers value ↔ ∀ item ∈ OptionSetting.items value, ∃ m, item.ReadsModifier m := by
  constructor
  · intro h
    cases h with
    | modifier hvalue =>
        obtain ⟨type, constant, rfl, hconstant⟩ := hvalue
        simpa [OptionSetting.items] using ⟨_, type, constant, rfl, hconstant⟩
    | modifiers hvalues => exact hvalues
  · intro h
    cases value with
    | array values => exact .modifiers h
    | _ =>
        obtain ⟨m, hm⟩ := h _ (List.mem_singleton_self _)
        exact .modifier hm

end OptionShape

namespace OptionSetting

open AnnotationEntry (Acceptable Refuses RefusesItem)

variable {key : String} {value : AnnotationValue} {fault : TargetFault}

theorem readText_eq_ok_iff {text : String} :
    readText key value = .ok text ↔ value.ReadsText text := by
  cases value <;> simp [readText, AnnotationValue.ReadsText]

theorem readFlag_eq_ok_iff {flag : Bool} :
    readFlag key value = .ok flag ↔ value.ReadsFlag flag := by
  cases value <;> simp [readFlag, AnnotationValue.ReadsFlag]

theorem readText_eq_error_iff : readText key value = .error fault ↔
    ¬OptionShape.Admits .text value ∧ .malformedOption key .text = fault := by
  rw [OptionShape.admits_text_iff]
  cases value <;> simp [readText, AnnotationValue.ReadsText]

theorem readFlag_eq_error_iff : readFlag key value = .error fault ↔
    ¬OptionShape.Admits .flag value ∧ .malformedOption key .flag = fault := by
  rw [OptionShape.admits_flag_iff]
  cases value <;> simp [readFlag, AnnotationValue.ReadsFlag]

theorem readModifier_eq_ok_iff {m : Modifier} :
    readModifier key value = .ok m ↔ value.ReadsModifier m := by
  cases value with
  | enumConstant type constant =>
      cases hconstant : Modifier.ofText? constant <;>
        simp [readModifier, AnnotationValue.ReadsModifier, hconstant,
          ← Modifier.ofText?_eq_some_iff]
  | _ => simp [readModifier, AnnotationValue.ReadsModifier]

theorem readModifier_eq_error_iff :
    readModifier key value = .error fault ↔ RefusesItem key value fault := by
  constructor
  · intro h
    cases value with
    | enumConstant type constant =>
        cases hconstant : Modifier.ofText? constant with
        | some m => simp [readModifier, hconstant] at h
        | none =>
            simp only [readModifier, hconstant] at h
            exact Except.error.inj h ▸ .noModifier (Modifier.ofText?_eq_none_iff.mp hconstant)
    | _ => exact Except.error.inj h ▸ .noConstant (by simp)
  · intro h
    cases h with
    | noConstant hitem =>
        cases value with
        | enumConstant type constant => exact absurd rfl (hitem type constant)
        | _ => rfl
    | noModifier hconstant =>
        simp [readModifier, Modifier.ofText?_eq_none_iff.mpr hconstant]

theorem readModifiers_eq_map (key : String) (value : AnnotationValue) :
    readModifiers key value =
      (fun found => (OrderedSet.ofList found).toList) <$>
        (items value).mapM (readModifier key) := by
  unfold readModifiers
  cases (items value).mapM (readModifier key) <;> rfl

theorem readModifiers_eq_ok_iff {ms : List Modifier} :
    readModifiers key value = .ok ms ↔ value.ReadsModifiers ms := by
  have hitems (found : List Modifier) : (items value).mapM (readModifier key) = .ok found ↔
      List.Forall₂ AnnotationValue.ReadsModifier (items value) found := by
    simp only [mapM_eq_ok_iff, readModifier_eq_ok_iff]
  rw [readModifiers_eq_map, map_eq_ok_iff]
  constructor
  · rintro ⟨found, hfound, rfl⟩
    exact ⟨(OrderedSet.ofList found).nodup, found, (hitems found).mp hfound,
      OrderedSet.toList_ofList found⟩
  · rintro ⟨-, found, hfound, rfl⟩
    exact ⟨found, (hitems found).mpr hfound, OrderedSet.toList_ofList found⟩

theorem exists_readModifiers_eq_ok_iff :
    (∃ ms, readModifiers key value = .ok ms) ↔ OptionShape.Admits .modifiers value := by
  have hitems : OptionShape.Admits .modifiers value ↔
      ∃ found, (items value).mapM (readModifier key) = .ok found := by
    simp only [OptionShape.admits_modifiers_iff, exists_mapM_eq_ok_iff, readModifier_eq_ok_iff]
  rw [hitems, readModifiers_eq_map, exists_map_eq_ok_iff]

theorem readModifiers_eq_error_iff :
    readModifiers key value = .error fault ↔
      ∃ before item after, items value = before ++ item :: after ∧
        (∀ earlier ∈ before, ∃ m, earlier.ReadsModifier m) ∧ RefusesItem key item fault := by
  rw [readModifiers_eq_map, map_eq_error_iff, mapM_eq_error_iff]
  simp only [readModifier_eq_ok_iff, readModifier_eq_error_iff]

/-- How an entry is read, by what its option accepts. -/
inductive ReadAs (key : String) (value : AnnotationValue) :
    Option OptionShape → Except TargetFault OptionSetting → Prop
  | text (setting : String → OptionSetting) :
      ReadAs key value (some .text) (setting <$> readText key value)
  | flag (setting : Bool → OptionSetting) :
      ReadAs key value (some .flag) (setting <$> readFlag key value)
  | modifiers (setting : List Modifier → OptionSetting) :
      ReadAs key value (some .modifiers) (setting <$> readModifiers key value)
  | unknown : ReadAs key value none (.error (.unknownOption key))

theorem readAs_ofEntry (key : String) (value : AnnotationValue) :
    ReadAs key value (OptionShape.ofKey? key) (ofEntry ⟨key, value⟩) := by
  unfold OptionShape.ofKey?
  split
  · exact .text .name
  · exact .modifiers .modifiers
  · exact .modifiers .methodModifiers
  · exact .flag .singleton
  · exact .flag .inject
  · exact .flag .providers
  · have h : ofEntry ⟨key, value⟩ = .error (.unknownOption key) := by
      simp [ofEntry, *]
    exact h ▸ .unknown

theorem exists_ofEntry_eq_ok_iff {entry : AnnotationEntry} :
    (∃ setting, ofEntry entry = .ok setting) ↔ entry.Acceptable := by
  obtain ⟨key, value⟩ := entry
  have hread := readAs_ofEntry key value
  unfold Acceptable
  generalize OptionShape.ofKey? key = shape, ofEntry ⟨key, value⟩ = answer at hread ⊢
  cases hread with
  | text setting =>
      simp [exists_map_eq_ok_iff, OptionShape.admits_text_iff, readText_eq_ok_iff]
  | flag setting =>
      simp only [exists_map_eq_ok_iff, readFlag_eq_ok_iff, Option.some.injEq, exists_eq_left',
        OptionShape.admits_flag_iff]
  | modifiers setting => simp [exists_map_eq_ok_iff, exists_readModifiers_eq_ok_iff]
  | unknown => simp

theorem ofEntry_eq_error_iff {entry : AnnotationEntry} :
    ofEntry entry = .error fault ↔ entry.Refuses fault := by
  obtain ⟨key, value⟩ := entry
  have hread := readAs_ofEntry key value
  generalize hkey : OptionShape.ofKey? key = shape at hread
  generalize ofEntry ⟨key, value⟩ = answer at hread
  cases hread with
  | text setting =>
      rw [map_eq_error_iff, readText_eq_error_iff, AnnotationEntry.refuses_iff hkey (by decide)]
  | flag setting =>
      rw [map_eq_error_iff, readFlag_eq_error_iff, AnnotationEntry.refuses_iff hkey (by decide)]
  | modifiers setting =>
      rw [map_eq_error_iff, readModifiers_eq_error_iff, AnnotationEntry.refuses_modifiers_iff hkey]
  | unknown => rw [Except.error.injEq, AnnotationEntry.refuses_unknown_iff hkey]

end OptionSetting

/-! ## The fields of the options -/

/-- What the entries of a marker settle for one field: what the last entry under its key is read as,
or the default when no entry has the key. -/
inductive AnnotationEntry.Settles {α : Type} (key : String) (Reads : AnnotationValue → α → Prop)
    (default : α) (entries : List AnnotationEntry) : α → Prop
  | given {before after : List AnnotationEntry} {value : AnnotationValue} {a : α}
      (hsplit : entries = before ++ ⟨key, value⟩ :: after)
      (hlast : ∀ later ∈ after, later.key ≠ key) (hvalue : Reads value a) :
      Settles key Reads default entries a
  | byDefault (habsent : ∀ entry ∈ entries, entry.key ≠ key) :
      Settles key Reads default entries default

/-- The options are those that the entries give. -/
structure TargetOptions.ReadFrom (entries : List AnnotationEntry) (options : TargetOptions) :
    Prop where
  name : AnnotationEntry.Settles "name" AnnotationValue.ReadsText "" entries options.name
  modifiers : AnnotationEntry.Settles "modifiers" AnnotationValue.ReadsModifiers [.publicAccess]
    entries options.modifiers
  methodModifiers : AnnotationEntry.Settles "methodModifiers" AnnotationValue.ReadsModifiers
    [.publicAccess] entries options.methodModifiers
  singleton : AnnotationEntry.Settles "singleton" AnnotationValue.ReadsFlag false entries
    options.singleton
  inject : AnnotationEntry.Settles "inject" AnnotationValue.ReadsFlag false entries options.inject
  providers : AnnotationEntry.Settles "providers" AnnotationValue.ReadsFlag false entries
    options.providers

namespace AnnotationEntry.Settles

variable {α : Type} {key : String} {Reads : AnnotationValue → α → Prop} {default a b : α}
  {entries : List AnnotationEntry}

/-- An entry under the key overwrites what was settled before. -/
theorem overwrite {value : AnnotationValue} (hvalue : Reads value a) :
    Settles key Reads default (entries ++ [⟨key, value⟩]) a :=
  .given rfl (by simp) hvalue

/-- An entry under another key leaves it. -/
theorem keep (h : Settles key Reads default entries a) {other : String} {value : AnnotationValue}
    (hkey : other ≠ key) : Settles key Reads default (entries ++ [⟨other, value⟩]) a := by
  cases h with
  | given hsplit hlast hvalue =>
      refine .given (by rw [hsplit, List.append_assoc, List.cons_append]) ?_ hvalue
      exact List.forall_mem_append.mpr ⟨hlast, List.forall_mem_singleton.mpr hkey⟩
  | byDefault habsent =>
      exact .byDefault (List.forall_mem_append.mpr ⟨habsent, List.forall_mem_singleton.mpr hkey⟩)

theorem iff_of_nodup (hkeys : (entries.map (·.key)).Nodup) :
    Settles key Reads default entries a ↔
      (∃ value, ⟨key, value⟩ ∈ entries ∧ Reads value a) ∨
        (∀ entry ∈ entries, entry.key ≠ key) ∧ a = default := by
  constructor
  · rintro (⟨rfl, -, hvalue⟩ | habsent)
    · exact .inl ⟨_, by simp, hvalue⟩
    · exact .inr ⟨habsent, rfl⟩
  · rintro (⟨value, hmem, hvalue⟩ | ⟨habsent, rfl⟩)
    · obtain ⟨before, after, rfl⟩ := List.append_of_mem hmem
      refine .given rfl ?_ hvalue
      rw [List.map_append, List.map_cons] at hkeys
      have hafter := (List.nodup_cons.mp (List.nodup_append.mp hkeys).2.1).1
      intro later hlater hkey
      exact hafter (List.mem_map.mpr ⟨later, hlater, hkey⟩)
    · exact .byDefault habsent

theorem of_perm {others : List AnnotationEntry} (hkeys : (entries.map (·.key)).Nodup)
    (hperm : others.Perm entries) (h : Settles key Reads default entries a) :
    Settles key Reads default others a := by
  rw [iff_of_nodup hkeys] at h
  rw [iff_of_nodup ((hperm.map _).nodup_iff.mpr hkeys)]
  simpa only [hperm.mem_iff] using h

theorem unique (hreads : ∀ value a b, Reads value a → Reads value b → a = b)
    (ha : Settles key Reads default entries a) (hb : Settles key Reads default entries b) :
    a = b := by
  -- Either way, the last entry under the key is what is found first from behind.
  have hgiven {before after : List AnnotationEntry} {value : AnnotationValue}
      (hsplit : entries = before ++ ⟨key, value⟩ :: after)
      (hlast : ∀ later ∈ after, later.key ≠ key) :
      entries.reverse.find? (fun entry => entry.key = key) = some ⟨key, value⟩ := by
    have hafter : after.reverse.find? (fun entry => entry.key = key) = none := by
      simpa using hlast
    simp [hsplit, hafter]
  have hdefault (habsent : ∀ entry ∈ entries, entry.key ≠ key) :
      entries.reverse.find? (fun entry => entry.key = key) = none := by
    simpa using habsent
  cases ha with
  | given hsplit hlast hvalue =>
      cases hb with
      | given hsplit' hlast' hvalue' =>
          have hsame := (hgiven hsplit hlast).symm.trans (hgiven hsplit' hlast')
          obtain ⟨-, rfl⟩ := AnnotationEntry.mk.inj (Option.some.inj hsame)
          exact hreads _ a b hvalue hvalue'
      | byDefault habsent => cases (hgiven hsplit hlast).symm.trans (hdefault habsent)
  | byDefault habsent =>
      cases hb with
      | given hsplit hlast => cases (hgiven hsplit hlast).symm.trans (hdefault habsent)
      | byDefault => rfl

end AnnotationEntry.Settles

namespace TargetOptions

open OptionSetting (ofEntry)

variable {entries others : List AnnotationEntry} {options : TargetOptions}

theorem readFrom_nil : ReadFrom [] {} := by
  refine ⟨?_, ?_, ?_, ?_, ?_, ?_⟩ <;> exact .byDefault (by simp)

/-- One more entry overwrites the field it is for and keeps all others. -/
theorem ReadFrom.set (h : ReadFrom entries options) {entry : AnnotationEntry}
    {setting : OptionSetting} (hentry : ofEntry entry = .ok setting) :
    ReadFrom (entries ++ [entry]) (options.set setting) := by
  obtain ⟨key, value⟩ := entry
  unfold ofEntry at hentry
  split at hentry
  · next hkey =>
      obtain rfl : key = "name" := hkey
      obtain ⟨_, hvalue, rfl⟩ := map_eq_ok_iff.mp hentry
      exact ⟨.overwrite (OptionSetting.readText_eq_ok_iff.mp hvalue), h.modifiers.keep (by decide),
        h.methodModifiers.keep (by decide), h.singleton.keep (by decide), h.inject.keep (by decide),
        h.providers.keep (by decide)⟩
  · next hkey =>
      obtain rfl : key = "modifiers" := hkey
      obtain ⟨_, hvalue, rfl⟩ := map_eq_ok_iff.mp hentry
      exact ⟨h.name.keep (by decide), .overwrite (OptionSetting.readModifiers_eq_ok_iff.mp hvalue),
        h.methodModifiers.keep (by decide), h.singleton.keep (by decide), h.inject.keep (by decide),
        h.providers.keep (by decide)⟩
  · next hkey =>
      obtain rfl : key = "methodModifiers" := hkey
      obtain ⟨_, hvalue, rfl⟩ := map_eq_ok_iff.mp hentry
      exact ⟨h.name.keep (by decide), h.modifiers.keep (by decide),
        .overwrite (OptionSetting.readModifiers_eq_ok_iff.mp hvalue), h.singleton.keep (by decide),
        h.inject.keep (by decide), h.providers.keep (by decide)⟩
  · next hkey =>
      obtain rfl : key = "singleton" := hkey
      obtain ⟨_, hvalue, rfl⟩ := map_eq_ok_iff.mp hentry
      exact ⟨h.name.keep (by decide), h.modifiers.keep (by decide),
        h.methodModifiers.keep (by decide), .overwrite (OptionSetting.readFlag_eq_ok_iff.mp hvalue),
        h.inject.keep (by decide), h.providers.keep (by decide)⟩
  · next hkey =>
      obtain rfl : key = "inject" := hkey
      obtain ⟨_, hvalue, rfl⟩ := map_eq_ok_iff.mp hentry
      exact ⟨h.name.keep (by decide), h.modifiers.keep (by decide),
        h.methodModifiers.keep (by decide), h.singleton.keep (by decide),
        .overwrite (OptionSetting.readFlag_eq_ok_iff.mp hvalue), h.providers.keep (by decide)⟩
  · next hkey =>
      obtain rfl : key = "providers" := hkey
      obtain ⟨_, hvalue, rfl⟩ := map_eq_ok_iff.mp hentry
      exact ⟨h.name.keep (by decide), h.modifiers.keep (by decide),
        h.methodModifiers.keep (by decide), h.singleton.keep (by decide), h.inject.keep (by decide),
        .overwrite (OptionSetting.readFlag_eq_ok_iff.mp hvalue)⟩
  · cases hentry

theorem ReadFrom.foldl_set {read : List AnnotationEntry} {settings : List OptionSetting}
    (hread : ReadFrom read options)
    (h : List.Forall₂ (fun entry setting => ofEntry entry = .ok setting) entries settings) :
    ReadFrom (read ++ entries) (settings.foldl TargetOptions.set options) := by
  induction h generalizing read options with
  | nil => rwa [List.append_nil]
  | cons hentry _ ih =>
      rw [List.foldl_cons, List.append_cons]
      exact ih (hread.set hentry)

theorem ReadFrom.unique {options' : TargetOptions} (h : ReadFrom entries options)
    (h' : ReadFrom entries options') : options = options' := by
  have htext (value : AnnotationValue) (s t : String) := @AnnotationValue.ReadsText.unique value s t
  have hflag (value : AnnotationValue) (a b : Bool) := @AnnotationValue.ReadsFlag.unique value a b
  have hmodifiers (value : AnnotationValue) (ms ns : List Modifier) :=
    @AnnotationValue.ReadsModifiers.unique value ms ns
  cases options
  cases options'
  rw [TargetOptions.mk.injEq]
  exact ⟨h.name.unique htext h'.name, h.modifiers.unique hmodifiers h'.modifiers,
    h.methodModifiers.unique hmodifiers h'.methodModifiers, h.singleton.unique hflag h'.singleton,
    h.inject.unique hflag h'.inject, h.providers.unique hflag h'.providers⟩

/-- Where no key occurs twice, the order of the entries does not matter. -/
theorem ReadFrom.of_perm (hkeys : (entries.map (·.key)).Nodup) (hperm : others.Perm entries)
    (h : ReadFrom entries options) : ReadFrom others options where
  name := h.name.of_perm hkeys hperm
  modifiers := h.modifiers.of_perm hkeys hperm
  methodModifiers := h.methodModifiers.of_perm hkeys hperm
  singleton := h.singleton.of_perm hkeys hperm
  inject := h.inject.of_perm hkeys hperm
  providers := h.providers.of_perm hkeys hperm

theorem ofUse_eq_map (use : AnnotationUse) :
    ofUse use = (fun settings => settings.foldl TargetOptions.set {}) <$>
      use.entries.mapM ofEntry := by
  unfold ofUse
  cases use.entries.mapM ofEntry <;> rfl

theorem exists_ofUse_eq_ok_iff {use : AnnotationUse} :
    (∃ options, ofUse use = .ok options) ↔ ∀ entry ∈ use.entries, entry.Acceptable := by
  rw [ofUse_eq_map, exists_map_eq_ok_iff, exists_mapM_eq_ok_iff]
  simp only [OptionSetting.exists_ofEntry_eq_ok_iff]

theorem ofUse_eq_ok_iff {use : AnnotationUse} :
    ofUse use = .ok options ↔
      (∀ entry ∈ use.entries, entry.Acceptable) ∧ ReadFrom use.entries options := by
  have hread {options : TargetOptions} (h : ofUse use = .ok options) :
      ReadFrom use.entries options := by
    rw [ofUse_eq_map] at h
    obtain ⟨settings, hsettings, rfl⟩ := map_eq_ok_iff.mp h
    exact readFrom_nil.foldl_set (mapM_eq_ok_iff.mp hsettings)
  constructor
  · intro h
    exact ⟨exists_ofUse_eq_ok_iff.mp ⟨options, h⟩, hread h⟩
  · rintro ⟨hall, h⟩
    obtain ⟨options', hoptions'⟩ := exists_ofUse_eq_ok_iff.mpr hall
    rw [h.unique (hread hoptions'), hoptions']

theorem ofUse_eq_error_iff {use : AnnotationUse} {fault : TargetFault} :
    ofUse use = .error fault ↔ ∃ before entry after, use.entries = before ++ entry :: after ∧
      (∀ earlier ∈ before, earlier.Acceptable) ∧ entry.Refuses fault := by
  rw [ofUse_eq_map, map_eq_error_iff, mapM_eq_error_iff]
  simp only [OptionSetting.exists_ofEntry_eq_ok_iff, OptionSetting.ofEntry_eq_error_iff]

theorem ofUse_eq_ok_iff_of_perm {use other : AnnotationUse}
    (hkeys : (use.entries.map (·.key)).Nodup) (hperm : other.entries.Perm use.entries) :
    ofUse other = .ok options ↔ ofUse use = .ok options := by
  have hkeys' : (other.entries.map (·.key)).Nodup := (hperm.map _).nodup_iff.mpr hkeys
  simp only [ofUse_eq_ok_iff, hperm.mem_iff]
  exact and_congr_right' ⟨.of_perm hkeys' hperm.symm, .of_perm hkeys hperm⟩

/-- The options of a marker can be read exactly when each of its entries is acceptable on its own.
Then every field is what the last entry under its key gives, or the default without one, and no
modifier that is read is repeated.  If they cannot be read, the first entry that is not acceptable
decides the fault, and among modifiers the first bad item.  So for pairwise distinct keys the order
of the entries changes neither whether they can be read nor what is read. -/
theorem ofUse_by_entries (use : AnnotationUse) :
    ((∃ options, ofUse use = .ok options) ↔ ∀ entry ∈ use.entries, entry.Acceptable) ∧
    (∀ options, ofUse use = .ok options → ReadFrom use.entries options) ∧
    (∀ fault, ofUse use = .error fault ↔
      ∃ before entry after, use.entries = before ++ entry :: after ∧
        (∀ earlier ∈ before, earlier.Acceptable) ∧ entry.Refuses fault) ∧
    ∀ other : AnnotationUse, (use.entries.map (·.key)).Nodup →
      other.entries.Perm use.entries →
        ((∃ options, ofUse other = .ok options) ↔ ∃ options, ofUse use = .ok options) ∧
        ∀ options, ofUse other = .ok options ↔ ofUse use = .ok options := by
  refine ⟨exists_ofUse_eq_ok_iff, fun options h => (ofUse_eq_ok_iff.mp h).2,
    fun fault => ofUse_eq_error_iff, ?_⟩
  intro other hkeys hperm
  have hsame (options : TargetOptions) : ofUse other = .ok options ↔ ofUse use = .ok options :=
    ofUse_eq_ok_iff_of_perm hkeys hperm
  exact ⟨exists_congr hsame, hsame⟩

theorem ofUse_by_entries_reordered :
    let modifier (constant : String) : AnnotationValue := .enumConstant "lang.Modifier" constant
    let marker : AnnotationUse := ⟨"factoria.annotations.Factory",
      [⟨"modifiers", .array [modifier "PUBLIC", modifier "Final", modifier "public"]⟩,
        ⟨"methodModifiers", modifier "static"⟩, ⟨"name", .text "Maker"⟩, ⟨"inject", .flag true⟩]⟩
    let other : AnnotationUse := ⟨marker.type, marker.entries.reverse⟩
    let options : TargetOptions :=
      { name := "Maker"
        modifiers := [.publicAccess, .final]
        methodModifiers := [.static]
        inject := true }
    (marker.entries.map (·.key)).Nodup ∧ other.entries.Perm marker.entries ∧
      ofUse other = .ok options ∧ ReadFrom marker.entries options := by
  intro modifier marker other options
  have hkeys : (marker.entries.map (·.key)).Nodup := by decide
  have hperm : other.entries.Perm marker.entries := List.reverse_perm _
  have hmarker : ofUse marker = .ok options := rfl
  obtain ⟨-, hread, -, horder⟩ := ofUse_by_entries marker
  exact ⟨hkeys, hperm, ((horder other hkeys hperm).2 options).mpr hmarker, hread options hmarker⟩

end TargetOptions

end CompanionFactory
