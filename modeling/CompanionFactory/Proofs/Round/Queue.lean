import Mathlib.Data.List.Dedup
import CompanionFactory.Round.Queue

/-!
# Histories of the queue

A queue begins empty.  From there batches of names are let in, and sweeps visit the names that wait
and drop some of them, in any order and as often as one likes.  A name may be let in again after it
has been dropped; then it waits behind all that kept waiting.

* `OrderedSet.recorded` writes down whom a sweep visits and what is decided;
  `OrderedSet.sweepList_recorded` says what it finds there;
* `QueueHistory.InOrder` is what every call preserves: the names wait in the order of their latest
  admissions, and the log has one record for every admission;
* `QueueHistory.queue_after_run` says what holds behind any calls, and what the next call does.
-/

namespace CompanionFactory

universe u v

/-! ## Lists -/

section Lists

variable {α : Type u} [DecidableEq α]

/-- What is admitted again loses its earlier place. -/
theorem dedup_append_of_nodup {new : List α} (hnew : new.Nodup) (as : List α) :
    (as ++ new).dedup = (as.dedup.filter fun a => a ∉ new) ++ new := by
  induction as with
  | nil => simp [hnew.dedup]
  | cons a as ih =>
      by_cases hlater : a ∈ as
      · rw [List.cons_append, List.dedup_cons_of_mem (List.mem_append_left new hlater),
          List.dedup_cons_of_mem hlater, ih]
      rw [List.dedup_cons_of_notMem hlater]
      by_cases hagain : a ∈ new
      · rw [List.cons_append, List.dedup_cons_of_mem (List.mem_append_right as hagain), ih]
        simp [hagain]
      · rw [List.cons_append, List.dedup_cons_of_notMem (by simp [hlater, hagain]), ih]
        simp [hagain]

theorem eq_filter_of_sublist {as bs : List α} (h : as.Sublist bs) (hbs : bs.Nodup) :
    as = bs.filter fun b => b ∈ as := by
  induction h with
  | slnil => rfl
  | @cons as bs b h ih =>
      obtain ⟨hb, hbs⟩ := List.nodup_cons.mp hbs
      rw [List.filter_cons_of_neg (by simpa using fun hmem => hb (h.subset hmem))]
      exact ih hbs
  | @cons_cons as bs a h ih =>
      obtain ⟨ha, hbs⟩ := List.nodup_cons.mp hbs
      rw [List.filter_cons_of_pos (by simp)]
      have hrest : (bs.filter fun b => b ∈ a :: as) = bs.filter fun b => b ∈ as := by
        refine List.filter_congr fun b hb => ?_
        have hne : b ≠ a := fun h => ha (h ▸ hb)
        simp [hne]
      rw [hrest, ← ih hbs]

end Lists

/-! ## Sweeps -/

namespace OrderedSet

variable {α : Type u} {σ : Type v}

/-- A visit that also writes down the visited element and what is decided on it. -/
def recorded (visit : σ → α → σ × Bool) (state : σ × List (α × Bool)) (a : α) :
    (σ × List (α × Bool)) × Bool :=
  let visited := visit state.1 a
  ((visited.1, state.2 ++ [(a, visited.2)]), visited.2)

/-- Writing down changes nothing else.  Every element is visited once, in order, and those that are
to be kept are kept. -/
theorem sweepList_recorded (visit : σ → α → σ × Bool) (state : σ) (before : List (α × Bool))
    (as : List α) :
    ∃ decisions,
      sweepList (recorded visit) (state, before) as =
        (((sweepList visit state as).1, before ++ decisions), (sweepList visit state as).2) ∧
      decisions.map (·.1) = as ∧
      (sweepList visit state as).2 = (decisions.filter (·.2)).map (·.1) := by
  induction as generalizing state before with
  | nil => exact ⟨[], by simp [sweepList], rfl, rfl⟩
  | cons a as ih =>
      obtain ⟨decisions, hrecorded, hvisited, hkept⟩ :=
        ih (visit state a).1 (before ++ [(a, (visit state a).2)])
      refine ⟨(a, (visit state a).2) :: decisions, ?_, by simp [hvisited], ?_⟩
      · rw [sweepList, recorded, hrecorded]
        simp [sweepList]
      · rw [sweepList, hkept]
        cases (visit state a).2 <;> simp

theorem sweep_recorded (s : OrderedSet α) (visit : σ → α → σ × Bool) (state : σ) :
    ∃ decisions,
      s.sweep (recorded visit) (state, []) =
        (((s.sweep visit state).1, decisions), (s.sweep visit state).2) ∧
      decisions.map (·.1) = s.toList ∧
      (s.sweep visit state).2.toList = (decisions.filter (·.2)).map (·.1) := by
  obtain ⟨decisions, hrecorded, hvisited, hkept⟩ := sweepList_recorded visit state [] s.toList
  refine ⟨decisions, ?_, hvisited, hkept⟩
  have hstate : (s.sweep (recorded visit) (state, [])).1 = ((s.sweep visit state).1, decisions) :=
    congrArg Prod.fst hrecorded
  have hkept : (s.sweep (recorded visit) (state, [])).2 = (s.sweep visit state).2 :=
    OrderedSet.ext (congrArg Prod.snd hrecorded)
  exact Prod.ext hstate hkept

end OrderedSet

/-! ## Calls -/

namespace Queue

variable (q : Queue) (names : List String)

/-- The names that wait behind a batch and did not before. -/
theorem filter_not_mem_enqueue :
    ((q.enqueue names).queue.toList.filter fun name => name ∉ q) = q.arriving names := by
  have hwaiting : (q.toList.filter fun name => name ∉ q) = [] :=
    List.filter_eq_nil_iff.mpr fun name hname => by simpa using hname
  have harriving : ((q.arriving names).filter fun name => name ∉ q) = q.arriving names :=
    List.filter_eq_self.mpr fun name hname => by simpa using ((q.mem_arriving names).mp hname).2
  rw [toList_enqueue, List.filter_append, hwaiting, harriving, List.nil_append]

end Queue

/-! ## Histories -/

/-- A call on a queue.  The visits of a sweep decide from a state that each of them may change. -/
inductive QueueCall (σ : Type v)
  | enqueue (names : List String)
  | sweep (visit : σ → String → σ × Bool)

/-- A queue and what its calls have left behind. -/
structure QueueHistory (σ : Type v) where
  queue : Queue
  /-- What the visits carry along. -/
  state : σ
  log : Log
  /-- The names that began to wait, in order, each as often as it did. -/
  admitted : List String

namespace QueueHistory

variable {σ : Type v}

def start (state : σ) : QueueHistory σ where
  queue := ∅
  state := state
  log := []
  admitted := []

/-- A name is admitted by a call when it waits behind the call and did not before. -/
def step (h : QueueHistory σ) : QueueCall σ → QueueHistory σ
  | .enqueue names =>
      let enqueued := h.queue.enqueue names
      { h with
        queue := enqueued.queue
        log := h.log ++ enqueued.log
        admitted := h.admitted ++ enqueued.queue.toList.filter fun name => name ∉ h.queue }
  | .sweep visit =>
      let swept := h.queue.sweep visit h.state
      { h with queue := swept.2, state := swept.1 }

def run (h : QueueHistory σ) (calls : List (QueueCall σ)) : QueueHistory σ :=
  calls.foldl step h

/-- What every call preserves. -/
structure InOrder (h : QueueHistory σ) : Prop where
  /-- The queue comes from the admissions, of which only the latest of each name counts. -/
  sublist_admitted : h.queue.toList.Sublist h.admitted.dedup
  log_eq : h.log = h.admitted.map Queue.record

theorem inOrder_start (state : σ) : (start state).InOrder where
  sublist_admitted := List.Sublist.slnil
  log_eq := rfl

theorem InOrder.step {h : QueueHistory σ} (hh : h.InOrder) (call : QueueCall σ) :
    (h.step call).InOrder := by
  cases call with
  | enqueue names =>
      have hadmitted : (h.step (.enqueue names)).admitted =
          h.admitted ++ h.queue.arriving names :=
        congrArg (h.admitted ++ ·) (h.queue.filter_not_mem_enqueue names)
      refine ⟨?_, ?_⟩
      · -- The arriving names lose the places of their earlier admissions, the waiting ones do not.
        have hwaiting : (h.queue.toList.filter fun name => name ∉ h.queue.arriving names) =
            h.queue.toList :=
          List.filter_eq_self.mpr fun name hname => by
            have hnew : name ∉ h.queue.arriving names := fun harriving =>
              ((h.queue.mem_arriving names).mp harriving).2 hname
            simpa using hnew
        have hqueue : (h.step (.enqueue names)).queue.toList =
            h.queue.toList ++ h.queue.arriving names := h.queue.toList_enqueue names
        rw [hadmitted, hqueue, dedup_append_of_nodup (h.queue.nodup_arriving names), ← hwaiting]
        exact (hh.sublist_admitted.filter _).append_right _
      · have hlog : (h.step (.enqueue names)).log =
            h.log ++ (h.queue.arriving names).map Queue.record :=
          congrArg (h.log ++ ·) (h.queue.log_enqueue names)
        rw [hadmitted, hlog, hh.log_eq, List.map_append]
  | sweep visit =>
      refine ⟨?_, hh.log_eq⟩
      exact (h.queue.toList_sweep_sublist visit h.state).trans hh.sublist_admitted

theorem InOrder.run {h : QueueHistory σ} (hh : h.InOrder) (calls : List (QueueCall σ)) :
    (h.run calls).InOrder := by
  induction calls generalizing h with
  | nil => exact hh
  | cons call calls ih => exact ih (hh.step call)

/-- Behind any calls no name waits twice, and the names wait in the order of their latest admissions
(`List.dedup` keeps the last of equal names); the log has one record for every admission.

* A batch appends the first occurrences of its names that do not wait yet, in the order of the
  batch.  It answers how many they are, and the log has a record for each of them, in this order.
* A sweep visits every waiting name once, in order, and leaves those that its visits keep, in the
  same order.  A name that does not wait behind the sweep and is let in again waits behind all that
  kept waiting. -/
theorem queue_after_run (state : σ) (calls : List (QueueCall σ)) :
    let h := (start state).run calls
    h.queue.toList.Nodup ∧
    (h.queue.toList = h.admitted.dedup.filter fun name => name ∈ h.queue) ∧
    h.log = h.admitted.map Queue.record ∧
    (∀ names,
      let arriving := (names.filter fun name => name ∉ h.queue).eraseDups
      let enqueued := h.queue.enqueue names
      enqueued.queue.toList = h.queue.toList ++ arriving ∧
      enqueued.count = arriving.length ∧
      enqueued.log = arriving.map fun name => ⟨.debug, "Queued factory target " ++ name⟩) ∧
    ∀ visit : σ → String → σ × Bool,
      let swept := h.queue.sweep visit h.state
      (∃ decisions : List (String × Bool),
        h.queue.sweep (OrderedSet.recorded visit) (h.state, []) =
          ((swept.1, decisions), swept.2) ∧
        decisions.map (·.1) = h.queue.toList ∧
        swept.2.toList = (decisions.filter (·.2)).map (·.1)) ∧
      ∀ names, ∀ name ∈ names, name ∉ swept.2 →
        ∃ arriving, (Queue.enqueue swept.2 names).queue.toList = swept.2.toList ++ arriving ∧
          name ∈ arriving := by
  intro h
  have hh : h.InOrder := (inOrder_start state).run calls
  have horder : h.queue.toList = h.admitted.dedup.filter fun name => name ∈ h.queue :=
    eq_filter_of_sublist hh.sublist_admitted (List.nodup_dedup _)
  have hnodup : h.queue.toList.Nodup := horder ▸ (List.nodup_dedup _).filter _
  refine ⟨hnodup, horder, hh.log_eq, fun names => ?_, fun visit => ⟨?_, ?_⟩⟩
  · exact ⟨h.queue.toList_enqueue names, h.queue.count_enqueue names, h.queue.log_enqueue names⟩
  · exact h.queue.sweep_recorded visit h.state
  · intro names name hname hdropped
    exact ⟨_, Queue.toList_enqueue _ names, (Queue.mem_arriving _ names).mpr ⟨hname, hdropped⟩⟩

/-- Of two waiting names the first is dropped.  In the next batch it is let in again, in front of
itself and behind a new name, and waits behind both others. -/
theorem queue_after_run_readmitted :
    let visit : Unit → String → Unit × Bool := fun _ name => ((), name ≠ "a.B")
    let h := (start ()).run [.enqueue ["a.B", "a.C", "a.B"]]
    let swept := h.queue.sweep visit ()
    h.queue.toList = ["a.B", "a.C"] ∧ swept.2.toList = ["a.C"] ∧
    (Queue.enqueue swept.2 ["a.D", "a.B", "a.B"]).queue.toList = ["a.C", "a.D", "a.B"] ∧
    (∃ arriving, (Queue.enqueue swept.2 ["a.D", "a.B", "a.B"]).queue.toList =
      swept.2.toList ++ arriving ∧ "a.B" ∈ arriving) ∧
    ((start ()).run [.enqueue ["a.B", "a.C", "a.B"], .sweep visit,
      .enqueue ["a.D", "a.B", "a.B"]]).admitted = ["a.B", "a.C", "a.D", "a.B"] := by
  intro visit h swept
  obtain ⟨-, -, -, -, hsweep⟩ := queue_after_run () [.enqueue ["a.B", "a.C", "a.B"]]
  exact ⟨by decide, by decide, by decide,
    (hsweep visit).2 ["a.D", "a.B", "a.B"] "a.B" (by decide) (by decide), by decide⟩

end QueueHistory

end CompanionFactory
