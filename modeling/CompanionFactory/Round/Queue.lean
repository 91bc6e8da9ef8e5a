import CompanionFactory.Log
import CompanionFactory.OrderedSet

/-!
# The queue

The names of the targets that wait for their turn.  A name waits once, however often it is
discovered, and the log says when it begins to wait.  `Queue.arriving` are the names of a batch that
do; `Queue.toList_enqueue`, `Queue.count_enqueue` and `Queue.log_enqueue` say what comes of them.
-/

namespace CompanionFactory

/-- Names waiting for their turn, in order. -/
abbrev Queue := OrderedSet String

/-- What comes of a batch of names: the queue behind it, how many names began to wait, and a
record for each of them. -/
structure Enqueued where
  queue : Queue
  count : Nat
  log : Log

/-- Let a batch of names wait, behind those that wait already. -/
def Queue.enqueue (q : Queue) (names : List String) : Enqueued :=
  let newcomers := q.newcomers names
  { queue := q.insertAll names
    count := newcomers.length
    log := newcomers.flatMap fun name => Log.debug ("Queued factory target " ++ name) }

namespace Queue

/-- The names of a batch that begin to wait: those that do not wait yet, each at its first
occurrence. -/
def arriving (q : Queue) (names : List String) : List String :=
  (names.filter fun name => name ∉ q).eraseDups

/-- What the log says when a name begins to wait. -/
def record (name : String) : LogRecord :=
  ⟨.debug, "Queued factory target " ++ name⟩

variable (q : Queue) (names : List String)

theorem toList_enqueue : (q.enqueue names).queue.toList = q.toList ++ q.arriving names := by
  rw [enqueue, OrderedSet.toList_insertAll, OrderedSet.newcomers_eq_eraseDups, arriving]

theorem count_enqueue : (q.enqueue names).count = (q.arriving names).length := by
  rw [enqueue, OrderedSet.newcomers_eq_eraseDups, arriving]

theorem log_enqueue : (q.enqueue names).log = (q.arriving names).map record := by
  rw [enqueue, OrderedSet.newcomers_eq_eraseDups, arriving]
  exact List.map_eq_flatMap.symm

theorem mem_arriving {name : String} : name ∈ q.arriving names ↔ name ∈ names ∧ name ∉ q := by
  simp [arriving]

theorem nodup_arriving : (q.arriving names).Nodup :=
  OrderedSet.nodup_eraseDups _

/-- It makes no difference how often the batch repeats a name. -/
theorem arriving_ofList : q.arriving (OrderedSet.ofList names).toList = q.arriving names := by
  rw [arriving, arriving, OrderedSet.toList_ofList, OrderedSet.eraseDups_filter,
    OrderedSet.eraseDups_filter, OrderedSet.eraseDups_of_nodup (OrderedSet.nodup_eraseDups names)]

end Queue

end CompanionFactory
