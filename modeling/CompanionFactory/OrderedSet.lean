/-!
# Sets in order of insertion

A list without repetitions.  Inserting a member again changes nothing; a new member goes to the
end.  A sweep visits every member once, in order, while a state is threaded through the visits,
and keeps the members whose visit says so.

The view is `toList`.  `toList_insertAll` says that inserting a batch appends exactly its
newcomers, and `toList_sweep_sublist` that a sweep drops members and does nothing else.
-/

namespace CompanionFactory

universe u v

/-- A list without repetitions. -/
@[ext] structure OrderedSet (α : Type u) where
  toList : List α
  nodup : toList.Nodup
  deriving DecidableEq, Repr

namespace OrderedSet

variable {α : Type u}

def empty : OrderedSet α where
  toList := []
  nodup := List.nodup_nil

instance : Inhabited (OrderedSet α) := ⟨empty⟩

instance : EmptyCollection (OrderedSet α) := ⟨empty⟩

instance : Membership α (OrderedSet α) := ⟨fun s a => a ∈ s.toList⟩

@[simp] theorem mem_toList {s : OrderedSet α} {a : α} : a ∈ s.toList ↔ a ∈ s := Iff.rfl

@[simp] theorem toList_empty : (∅ : OrderedSet α).toList = [] := rfl

instance [DecidableEq α] (a : α) (s : OrderedSet α) : Decidable (a ∈ s) :=
  inferInstanceAs (Decidable (a ∈ s.toList))

def size (s : OrderedSet α) : Nat :=
  s.toList.length

def isEmpty (s : OrderedSet α) : Bool :=
  s.toList.isEmpty

/-! ## Inserting -/

section Insert

variable [DecidableEq α]

/-- Append `a`, unless it is a member already. -/
def insert (s : OrderedSet α) (a : α) : OrderedSet α :=
  if h : a ∈ s then s
  else
    { toList := s.toList ++ [a]
      nodup := by
        rw [List.nodup_append]
        refine ⟨s.nodup, by simp, ?_⟩
        intro b hb c hc hbc
        have hca : c = a := by simpa using hc
        exact h (hca ▸ hbc ▸ hb) }

/-- Insert the elements of a list one by one. -/
def insertAll (s : OrderedSet α) : List α → OrderedSet α
  | [] => s
  | a :: as => (s.insert a).insertAll as

/-- The set of the elements of a list, in the order of their first occurrences. -/
def ofList (as : List α) : OrderedSet α :=
  empty.insertAll as

/-- The elements that inserting a list would append, in order. -/
def newcomers (s : OrderedSet α) : List α → List α
  | [] => []
  | a :: as => if a ∈ s then s.newcomers as else a :: (s.insert a).newcomers as

theorem insert_of_mem {s : OrderedSet α} {a : α} (h : a ∈ s) : s.insert a = s := by
  simp [insert, h]

theorem toList_insert_of_not_mem {s : OrderedSet α} {a : α} (h : a ∉ s) :
    (s.insert a).toList = s.toList ++ [a] := by
  simp [insert, h]

theorem toList_insertAll (s : OrderedSet α) (as : List α) :
    (s.insertAll as).toList = s.toList ++ s.newcomers as := by
  induction as generalizing s with
  | nil => simp [insertAll, newcomers]
  | cons a as ih =>
      by_cases h : a ∈ s
      · simp [insertAll, newcomers, h, insert_of_mem h, ih]
      · simp [insertAll, newcomers, h, ih, toList_insert_of_not_mem h]

theorem mem_insert {s : OrderedSet α} {a b : α} : b ∈ s.insert a ↔ b ∈ s ∨ b = a := by
  by_cases h : a ∈ s
  · rw [insert_of_mem h]
    constructor
    · exact Or.inl
    · rintro (hb | rfl)
      · exact hb
      · exact h
  · rw [← mem_toList, toList_insert_of_not_mem h]
    simp

theorem mem_insertAll {s : OrderedSet α} {as : List α} {b : α} :
    b ∈ s.insertAll as ↔ b ∈ s ∨ b ∈ as := by
  induction as generalizing s with
  | nil => simp [insertAll]
  | cons a as ih =>
      rw [insertAll, ih, mem_insert, List.mem_cons, or_assoc]

@[simp] theorem mem_ofList {as : List α} {b : α} : b ∈ ofList as ↔ b ∈ as := by
  rw [ofList, mem_insertAll]
  constructor
  · rintro (h | h)
    · exact absurd h (List.not_mem_nil)
    · exact h
  · exact Or.inr

/-- Of the elements that are no members yet, each counts at its first occurrence. -/
theorem newcomers_eq_eraseDups (s : OrderedSet α) (as : List α) :
    s.newcomers as = (as.filter fun a => a ∉ s).eraseDups := by
  induction as generalizing s with
  | nil => rfl
  | cons a as ih =>
      by_cases h : a ∈ s
      · simp [newcomers, h, ih]
      · have hrest : (as.filter fun b => b ∉ s.insert a) =
            (as.filter fun b => b ∉ s).filter fun b => !b == a := by
          rw [List.filter_filter]
          refine List.filter_congr fun b _ => ?_
          by_cases hb : b = a <;> simp [mem_insert, hb]
        have hkept : ((a :: as).filter fun b => b ∉ s) = a :: as.filter fun b => b ∉ s := by
          simp [h]
        rw [newcomers, if_neg h, ih, hrest, hkept, List.eraseDups_cons]

theorem toList_ofList (as : List α) : (ofList as).toList = as.eraseDups := by
  have hall : (as.filter fun a => a ∉ (empty : OrderedSet α)) = as :=
    List.filter_eq_self.mpr fun a _ => decide_eq_true List.not_mem_nil
  rw [ofList, toList_insertAll, newcomers_eq_eraseDups, hall]
  rfl

theorem nodup_eraseDups (as : List α) : as.eraseDups.Nodup :=
  toList_ofList as ▸ (ofList as).nodup

theorem eraseDups_of_nodup {as : List α} (h : as.Nodup) : as.eraseDups = as := by
  induction as with
  | nil => rfl
  | cons a as ih =>
      obtain ⟨ha, has⟩ := List.nodup_cons.mp h
      have hrest : (as.filter fun b => !b == a) = as :=
        List.filter_eq_self.mpr fun b hb => by
          have hne : b ≠ a := fun hba => ha (hba ▸ hb)
          simpa using hne
      rw [List.eraseDups_cons, hrest, ih has]

/-- Of the elements that are left, each counts where it did before. -/
theorem eraseDups_filter (p : α → Bool) (as : List α) :
    (as.filter p).eraseDups = as.eraseDups.filter p := by
  match as with
  | [] => rfl
  | a :: as =>
      have hrest := eraseDups_filter p (as.filter fun b => !b == a)
      rw [List.filter_filter] at hrest
      rw [List.eraseDups_cons]
      cases ha : p a with
      | true =>
          rw [List.filter_cons_of_pos ha, List.filter_cons_of_pos ha, List.eraseDups_cons,
            List.filter_filter, ← hrest]
          simp only [Bool.and_comm]
      | false =>
          -- No later `a` is left either.
          have hkept : (as.filter fun b => p b && !b == a) = as.filter p := by
            refine List.filter_congr fun b _ => ?_
            by_cases hb : b = a
            · simp [hb, ha]
            · simp [hb]
          rw [hkept] at hrest
          rw [List.filter_cons_of_neg (by simp [ha]), List.filter_cons_of_neg (by simp [ha]), hrest]
termination_by as.length
decreasing_by exact Nat.lt_succ_of_le (List.length_filter_le _ _)

end Insert

/-! ## Sweeping -/

section Sweep

variable {σ : Type v}

/-- Visit the elements of a list in order and keep those whose visit says so. -/
def sweepList (visit : σ → α → σ × Bool) : σ → List α → σ × List α
  | state, [] => (state, [])
  | state, a :: as =>
      let visited := visit state a
      let swept := sweepList visit visited.1 as
      (swept.1, if visited.2 then a :: swept.2 else swept.2)

theorem sweepList_sublist (visit : σ → α → σ × Bool) (state : σ) (as : List α) :
    (sweepList visit state as).2.Sublist as := by
  induction as generalizing state with
  | nil => exact List.Sublist.slnil
  | cons a as ih =>
      simp only [sweepList]
      split
      · exact (ih _).cons_cons a
      · exact (ih _).cons a

/-- Visit every member once, in order, and keep the members whose visit says so. -/
def sweep (s : OrderedSet α) (visit : σ → α → σ × Bool) (state : σ) : σ × OrderedSet α :=
  let swept := sweepList visit state s.toList
  (swept.1, ⟨swept.2, (sweepList_sublist visit state s.toList).nodup s.nodup⟩)

theorem toList_sweep_sublist (s : OrderedSet α) (visit : σ → α → σ × Bool) (state : σ) :
    (s.sweep visit state).2.toList.Sublist s.toList :=
  sweepList_sublist visit state s.toList

end Sweep

end OrderedSet

end CompanionFactory
