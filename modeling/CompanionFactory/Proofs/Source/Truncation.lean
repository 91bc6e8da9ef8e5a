import CompanionFactory.Factory.Source
import Mathlib.Data.Nat.Find

/-!
# Writing into a sink that fills up

Any number of calls of a writer, single steps and whole factories, are made on two sinks: one
without a limit, and one that takes `n` bytes and then fails.  Nobody stops at a failure.  From the
first failure on the two writers have different layouts, and so would write different texts.
`Truncates` is what holds between them all the same.

* `textAll_steps_eq_empty_iff`: whether a call hands anything over does not depend on the layout;
* `Truncates.call`: what a call does to both sinks, and when it fails on the smaller one;
* `callAll_truncated`: the smaller sink holds the first `n` bytes, and the calls that fail are
  exactly those that it has no room for.
-/

namespace CompanionFactory

theorem Bytes.ofText_eq_nil_iff {text : String} : Bytes.ofText text = [] ↔ text = "" := by
  constructor
  · intro h
    have hread := Bytes.text?_ofText text
    rw [h, show ([] : Bytes) = Bytes.ofText "" from rfl, Bytes.text?_ofText] at hread
    exact (Option.some.inj hread).symm
  · rintro rfl
    rfl

/-! ## Calls -/

/-- One use of a writer. -/
inductive WriterCall
  | single (step : SourceStep)
  /-- Write the factory of a target. -/
  | factory (s : Settings) (t : Target)

namespace WriterCall

def steps : WriterCall → List SourceStep
  | single step => [step]
  | factory s t => (FactoryClass.ofTarget s t).steps

/-- Nothing is to be written: a package line without a name, or a tag whose condition fails. -/
def isNoOp : WriterCall → Bool
  | single (.packageLine name) => name = ""
  | single (.tag _ condition) => !condition
  | _ => false

end WriterCall

namespace SourceWriter

def call (w : SourceWriter) (c : WriterCall) : SourceWriter × Except FileFault Unit :=
  w.writeAll c.steps

/-- Make all calls, whatever their answers are, and collect the answers. -/
def callAll (w : SourceWriter) : List WriterCall → SourceWriter × List (Except FileFault Unit)
  | [] => (w, [])
  | c :: calls =>
      let called := w.call c
      let rest := called.1.callAll calls
      (rest.1, called.2 :: rest.2)

theorem callAll_append (w : SourceWriter) (first second : List WriterCall) :
    (w.callAll (first ++ second)).1 = ((w.callAll first).1.callAll second).1 := by
  induction first generalizing w with
  | nil => rfl
  | cons c first ih => exact ih (w.call c).1

/-- Each call is answered from where the calls before it have led. -/
theorem getElem?_callAll (w : SourceWriter) {calls : List WriterCall} {i : Nat} {c : WriterCall}
    (hc : calls[i]? = some c) :
    (w.callAll calls).2[i]? = some ((w.callAll (calls.take i)).1.call c).2 := by
  induction calls generalizing w i with
  | nil => simp at hc
  | cons first calls ih =>
      cases i with
      | zero =>
          obtain rfl : first = c := by simpa using hc
          rfl
      | succ i => exact ih (w.call first).1 (by simpa using hc)

theorem length_callAll (w : SourceWriter) (calls : List WriterCall) :
    (w.callAll calls).2.length = calls.length := by
  induction calls generalizing w with
  | nil => rfl
  | cons c calls ih => exact congrArg Nat.succ (ih (w.call c).1)

theorem callAll_take_succ (w : SourceWriter) {calls : List WriterCall} {i : Nat} {c : WriterCall}
    (hc : calls[i]? = some c) :
    (w.callAll (calls.take (i + 1))).1 = ((w.callAll (calls.take i)).1.call c).1 := by
  rw [List.take_add_one, hc, callAll_append]
  rfl

end SourceWriter

/-! ## What a call hands over -/

namespace Layout

theorem line_ne_empty (l : Layout) (text : String) : l.line text ≠ "" := by
  unfold line
  split <;> simp

theorem text_eq_empty_iff (l : Layout) (step : SourceStep) :
    l.text step = "" ↔ (WriterCall.single step).isNoOp = true := by
  cases step with
  | packageLine name =>
      by_cases hname : name = "" <;> simp [text, WriterCall.isNoOp, hname, line_ne_empty]
  | tag content condition =>
      cases condition <;> simp [text, WriterCall.isNoOp, line_ne_empty]
  | openBody thrown => by_cases hthrown : thrown = [] <;> simp [text, WriterCall.isNoOp, hthrown]
  | classHead | field | constructorHead | methodHead | parameter | fieldAssignment | returnKeyword
  | newInstance | endStatement | closeBlock =>
      simp [text, WriterCall.isNoOp, line_ne_empty]

/-- At every layout a call hands something over, unless it is there to write nothing. -/
theorem textAll_steps_eq_empty_iff (l : Layout) (c : WriterCall) :
    l.textAll c.steps = "" ↔ c.isNoOp = true := by
  cases c with
  | single step =>
      rw [WriterCall.steps, textAll, textAll, String.append_empty]
      exact l.text_eq_empty_iff step
  | factory s t =>
      -- The class head alone is not empty.
      let k := FactoryClass.ofTarget s t
      have hhead (l : Layout) : l.textAll [.classHead k.name k.generator k.modifiers] ≠ "" := by
        simp [textAll, text_eq_empty_iff, WriterCall.isNoOp]
      simp only [WriterCall.isNoOp, Bool.false_eq_true, iff_false]
      show l.textAll k.steps ≠ ""
      simp only [FactoryClass.steps, textAll_append, ne_eq, String.append_eq_empty_iff, hhead,
        and_false, false_and, not_false_eq_true]

end Layout

/-! ## Two sinks side by side -/

/-- On the sink `sink`, which takes `n` bytes, `cut` has made the same calls as `whole`, whose sink
has no limit.  Once there is no room left nothing is known about the layout of `cut`. -/
structure Truncates (sink : Sink) (n : Nat) (whole cut : SourceWriter) : Prop where
  unlimited : whole.sink.limit = none
  sink_eq : cut.sink = { sink with held := whole.sink.held.take n }
  layout_eq : whole.sink.held.length ≤ n → cut.layout = whole.layout

namespace Truncates

variable {sink : Sink} {n : Nat} {whole cut : SourceWriter}

theorem held_call (h : Truncates sink n whole cut) (c : WriterCall) :
    (whole.call c).1.sink.held =
      whole.sink.held ++ Bytes.ofText (whole.layout.textAll c.steps) := by
  rw [SourceWriter.call, SourceWriter.writeAll_of_limit_none h.unlimited]

/-- The smaller sink has room for what reaches no further than the first `n` bytes. -/
theorem write_cut (h : Truncates sink n whole cut) (hlimit : sink.limit = some n)
    (bytes : Bytes) :
    cut.sink.write bytes =
      ({ sink with held := whole.sink.held.take n ++ bytes.take (n - whole.sink.held.length) },
        if whole.sink.held.length + bytes.length ≤ n ∨ bytes = [] then .ok ()
        else .error sink.overflow) := by
  have hroom : n - min n whole.sink.held.length = n - whole.sink.held.length := by omega
  have hfits : min bytes.length (n - whole.sink.held.length) = bytes.length ↔
      whole.sink.held.length + bytes.length ≤ n ∨ bytes = [] := by
    rw [← List.length_eq_zero_iff]
    omega
  have htake : bytes.take (min bytes.length (n - whole.sink.held.length)) =
      bytes.take (n - whole.sink.held.length) := by
    rw [Nat.min_comm, ← List.take_eq_take_min]
  rw [h.sink_eq]
  simp only [Sink.write, Sink.fitting, hlimit, List.length_take, hroom, hfits, htake,
    Sink.overflow]

theorem call (h : Truncates sink n whole cut) (hlimit : sink.limit = some n) (c : WriterCall) :
    Truncates sink n (whole.call c).1 (cut.call c).1 ∧
    (cut.call c).2 =
      if (whole.call c).1.sink.held.length ≤ n ∨ c.isNoOp = true then .ok ()
      else .error sink.overflow := by
  have hempty (l : Layout) : Bytes.ofText (l.textAll c.steps) = [] ↔ c.isNoOp = true := by
    rw [Bytes.ofText_eq_nil_iff, l.textAll_steps_eq_empty_iff]
  have hunlimited : (whole.call c).1.sink.limit = none := by
    rw [SourceWriter.call, SourceWriter.writeAll_of_limit_none h.unlimited]
    exact h.unlimited
  obtain ⟨hsink, hanswer, hlayout⟩ := cut.writeAll_spec c.steps
  rw [h.write_cut hlimit] at hsink hanswer
  simp only [hempty] at hanswer
  have hheld := h.held_call c
  by_cases hroom : whole.sink.held.length ≤ n
  · -- Up to here both writers have the same layout, so both hand over the same text.
    rw [h.layout_eq hroom] at hsink hanswer hlayout
    rw [← List.length_append, ← hheld] at hanswer
    refine ⟨⟨hunlimited, ?_, ?_⟩, hanswer⟩
    · rw [hheld, List.take_append]
      exact hsink
    · intro hfits
      rw [SourceWriter.call, hlayout (by rw [hanswer, if_pos (.inl hfits)]), SourceWriter.call,
        SourceWriter.writeAll_of_limit_none h.unlimited]
  · -- The sink is full, and nothing of the two different texts reaches it.
    have hfull : n - whole.sink.held.length = 0 := by omega
    have hover : ¬(whole.call c).1.sink.held.length ≤ n := by
      rw [hheld, List.length_append]
      omega
    refine ⟨⟨hunlimited, ?_, fun hfits => absurd hfits hover⟩, ?_⟩
    · rw [hheld, List.take_append, hfull]
      rw [hfull] at hsink
      exact hsink
    · show (cut.writeAll c.steps).2 = _
      rw [hanswer]
      simp [hover, show ∀ k, ¬whole.sink.held.length + k ≤ n by omega]

theorem callAll (h : Truncates sink n whole cut) (hlimit : sink.limit = some n)
    (calls : List WriterCall) :
    Truncates sink n (whole.callAll calls).1 (cut.callAll calls).1 := by
  induction calls generalizing whole cut with
  | nil => exact h
  | cons c calls ih => exact ih (h.call hlimit c).1

/-- Each call on the smaller sink is answered by where the sink without a limit ends up. -/
theorem getElem?_answers (h : Truncates sink n whole cut) (hlimit : sink.limit = some n)
    {calls : List WriterCall} {i : Nat} {c : WriterCall} (hc : calls[i]? = some c) :
    (cut.callAll calls).2[i]? = some
      (if (whole.callAll (calls.take (i + 1))).1.sink.held.length ≤ n ∨ c.isNoOp = true then .ok ()
        else .error sink.overflow) := by
  rw [cut.getElem?_callAll hc, ((h.callAll hlimit (calls.take i)).call hlimit c).2,
    whole.callAll_take_succ hc]

end Truncates

namespace SourceWriter

variable {w : SourceWriter}

theorem limit_call (h : w.sink.limit = none) (c : WriterCall) :
    (w.call c).1.sink.limit = none := by
  rw [call, writeAll_of_limit_none h]
  exact h

theorem held_prefix_callAll (h : w.sink.limit = none) (calls : List WriterCall) :
    w.sink.held <+: (w.callAll calls).1.sink.held := by
  induction calls generalizing w with
  | nil => exact List.prefix_rfl
  | cons c calls ih =>
      have hcall : w.sink.held <+: (w.call c).1.sink.held := by
        rw [call, writeAll_of_limit_none h]
        exact List.prefix_append _ _
      exact hcall.trans (ih (limit_call h c))

theorem limit_callAll (h : w.sink.limit = none) (calls : List WriterCall) :
    (w.callAll calls).1.sink.limit = none := by
  induction calls generalizing w with
  | nil => exact h
  | cons c calls ih => exact ih (limit_call h c)

/-- What a sink without a limit holds behind some of the calls stays where it is. -/
theorem held_take_prefix (h : w.sink.limit = none) (calls : List WriterCall) {i j : Nat}
    (hij : i ≤ j) :
    (w.callAll (calls.take i)).1.sink.held <+: (w.callAll (calls.take j)).1.sink.held := by
  obtain ⟨k, rfl⟩ := Nat.exists_eq_add_of_le hij
  rw [List.take_add, callAll_append]
  exact held_prefix_callAll (limit_callAll h _) _

theorem answers_of_limit_none (h : w.sink.limit = none) (calls : List WriterCall) :
    ∀ answer ∈ (w.callAll calls).2, answer = .ok () := by
  induction calls generalizing w with
  | nil => simp [callAll]
  | cons c calls ih =>
      have hfirst : (w.call c).2 = .ok () := by rw [call, writeAll_of_limit_none h]
      exact List.forall_mem_cons.mpr ⟨hfirst, ih (limit_call h c)⟩

end SourceWriter

/-! ## The first failure -/

/-- The call at place `i` is the first one that fails on the sink `sink`, which takes `n` bytes. -/
structure FirstFailure (sink : Sink) (n : Nat) (calls : List WriterCall) (i : Nat) : Prop where
  /-- Without a limit, no call before it ends with more than `n` bytes written. -/
  fits : ∀ j ≤ i, (({} : SourceWriter).callAll (calls.take j)).1.sink.held.length ≤ n
  exceeds : n < (({} : SourceWriter).callAll (calls.take (i + 1))).1.sink.held.length
  succeeds : ∀ j < i, (({ sink := sink } : SourceWriter).callAll calls).2[j]? = some (.ok ())
  fails : (({ sink := sink } : SourceWriter).callAll calls).2[i]? = some (.error sink.overflow)
  /-- From then on the sink does not change. -/
  sink_eq : ∀ j > i, (({ sink := sink } : SourceWriter).callAll (calls.take j)).1.sink =
    (({ sink := sink } : SourceWriter).callAll (calls.take (i + 1))).1.sink
  /-- Of the calls behind it only those succeed that have nothing to write. -/
  later : ∀ j > i, ∀ c, calls[j]? = some c →
    (({ sink := sink } : SourceWriter).callAll calls).2[j]? =
      some (if c.isNoOp = true then .ok () else .error sink.overflow)

theorem truncates_fresh {sink : Sink} (hempty : sink.held = []) (n : Nat) :
    Truncates sink n {} { sink := sink } := by
  refine ⟨rfl, ?_, fun _ => rfl⟩
  show sink = { sink with held := ([] : Bytes).take n }
  rw [List.take_nil, ← hempty]

theorem exists_firstFailure {sink : Sink} {n : Nat} (hlimit : sink.limit = some n)
    (hempty : sink.held = []) {calls : List WriterCall}
    (hlong : n < (({} : SourceWriter).callAll calls).1.sink.held.length) :
    ∃ i, FirstFailure sink n calls i := by
  have hstart := truncates_fresh hempty n
  have hexists : ∃ i, n < (({} : SourceWriter).callAll (calls.take (i + 1))).1.sink.held.length :=
    ⟨calls.length, by rwa [List.take_of_length_le (Nat.le_succ _)]⟩
  obtain ⟨i, hexceeds, hleast⟩ : ∃ i,
      n < (({} : SourceWriter).callAll (calls.take (i + 1))).1.sink.held.length ∧
        ∀ j < i, ¬n < (({} : SourceWriter).callAll (calls.take (j + 1))).1.sink.held.length :=
    ⟨Nat.find hexists, Nat.find_spec hexists, fun j => Nat.find_min hexists⟩
  have hfits (j : Nat) (hj : j ≤ i) :
      (({} : SourceWriter).callAll (calls.take j)).1.sink.held.length ≤ n := by
    cases j with
    | zero => exact Nat.zero_le n
    | succ j => exact Nat.le_of_not_lt (hleast j hj)
  have hi : i < calls.length := by
    by_contra hpast
    rw [List.take_of_length_le (by omega)] at hexceeds
    have hall := hfits i (Nat.le_refl i)
    rw [List.take_of_length_le (by omega)] at hall
    omega
  -- What has been written too much before a later call is still there behind it.
  have hover {j : Nat} (hj : i < j) :
      ¬(({} : SourceWriter).callAll (calls.take j)).1.sink.held.length ≤ n := by
    have hlength := (SourceWriter.held_take_prefix (w := {}) rfl calls
      (show i + 1 ≤ j from hj)).length_le
    omega
  have hlater (j : Nat) (hj : i ≤ j) (c : WriterCall) (hc : calls[j]? = some c) :
      (({ sink := sink } : SourceWriter).callAll calls).2[j]? =
        some (if c.isNoOp = true then .ok () else .error sink.overflow) := by
    rw [hstart.getElem?_answers hlimit hc]
    simp [hover (Nat.lt_succ_of_le hj)]
  refine ⟨i, hfits, hexceeds, ?_, ?_, ?_, fun j hj => hlater j (Nat.le_of_lt hj)⟩
  · intro j hj
    have hc : calls[j]? = some calls[j] := List.getElem?_eq_getElem (by omega)
    rw [hstart.getElem?_answers hlimit hc, if_pos (.inl (hfits (j + 1) hj))]
  · have hc : calls[i]? = some calls[i] := List.getElem?_eq_getElem hi
    -- A call that has nothing to write cannot be the one that writes too much.
    have hwrites : calls[i].isNoOp ≠ true := by
      intro hnoOp
      have hsame := (hstart.callAll hlimit (calls.take i)).held_call calls[i]
      rw [Bytes.ofText_eq_nil_iff.mpr ((Layout.textAll_steps_eq_empty_iff _ _).mpr hnoOp),
        List.append_nil, ← SourceWriter.callAll_take_succ _ hc] at hsame
      have hroom := hfits i (Nat.le_refl i)
      rw [hsame] at hexceeds
      omega
    rw [hlater i (Nat.le_refl i) _ hc, if_neg hwrites]
  · intro j hj
    obtain ⟨more, hmore⟩ := SourceWriter.held_take_prefix (w := {}) rfl calls
      (show i + 1 ≤ j from hj)
    rw [(hstart.callAll hlimit (calls.take j)).sink_eq,
      (hstart.callAll hlimit (calls.take (i + 1))).sink_eq, ← hmore,
      List.take_append_of_le_length (Nat.le_of_lt hexceeds)]

/-- Without a limit no call fails.  A sink that takes `n` bytes ends up with the first `n` of the
bytes that are written without a limit, and no call fails exactly when there are no more of them.
Otherwise the first call to fail is the first one behind which they are more than `n`; the sink
does not change any more, and all later calls fail but those that have nothing to write. -/
theorem callAll_truncated (calls : List WriterCall) (n : Nat) (stalls failsToFlush : Bool) :
    let sink : Sink := { limit := some n, stalls := stalls, failsToFlush := failsToFlush }
    let whole := ({} : SourceWriter).callAll calls
    let cut := ({ sink := sink } : SourceWriter).callAll calls
    (∀ answer ∈ whole.2, answer = .ok ()) ∧
    cut.1.sink.held = whole.1.sink.held.take n ∧
    ((∀ answer ∈ cut.2, answer = .ok ()) ↔ whole.1.sink.held.length ≤ n) ∧
    (n < whole.1.sink.held.length → ∃ i, FirstFailure sink n calls i) := by
  intro sink whole cut
  have hstart : Truncates sink n {} { sink := sink } := truncates_fresh rfl n
  refine ⟨SourceWriter.answers_of_limit_none rfl calls, ?_, ⟨?_, ?_⟩, exists_firstFailure rfl rfl⟩
  · exact congrArg Sink.held (hstart.callAll rfl calls).sink_eq
  · intro hall
    by_contra hlong
    have hlimit : sink.limit = some n := rfl
    obtain ⟨i, hfailure⟩ := exists_firstFailure hlimit rfl (Nat.lt_of_not_le hlong)
    exact nomatch hall _ (List.mem_of_getElem? hfailure.fails)
  · intro hfits answer hanswer
    obtain ⟨i, hi, hget⟩ := List.mem_iff_getElem.mp hanswer
    rw [SourceWriter.length_callAll] at hi
    have hwritten := (SourceWriter.held_take_prefix (w := {}) rfl calls
      (show i + 1 ≤ calls.length from hi)).length_le
    rw [List.take_length] at hwritten
    have hanswer := hstart.getElem?_answers rfl (List.getElem?_eq_getElem hi)
    rw [if_pos (.inl (Nat.le_trans hwritten hfits)),
      List.getElem?_eq_some_iff.mpr ⟨_, hget⟩] at hanswer
    exact Option.some.inj hanswer

end CompanionFactory
