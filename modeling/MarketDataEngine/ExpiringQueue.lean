import Mathlib.Data.List.Infix
import Mathlib.Data.List.TakeWhile

/-!
# A queue that expires at its front

Each arrival removes the entries that are out of its window, from the front of the
queue and up to the first one that is still inside, and then joins the queue. Times
need not arrive in order. What is left is the part of the arrivals after the longest
prefix that one later arrival outlived as a whole.
-/

namespace ExpiringQueue

universe u
variable {α : Type u}

def push (time : α → Nat) (window : Nat) (queue : List α) (arrival : α) : List α :=
  queue.dropWhile (fun entry => time entry + window < time arrival) ++ [arrival]

def pushAll (time : α → Nat) (window : Nat) (arrivals : List α) : List α :=
  arrivals.foldl (push time window) []

/-- One of the later arrivals has all of these entries out of its window. -/
def Outlived (time : α → Nat) (window : Nat) (entries later : List α) : Prop :=
  ∃ newer ∈ later, ∀ entry ∈ entries, time entry + window < time newer

instance (time : α → Nat) (window : Nat) (entries later : List α) :
    Decidable (Outlived time window entries later) :=
  inferInstanceAs (Decidable (∃ newer ∈ later, ∀ entry ∈ entries, _ < _))

/-- The queue is what no later arrival outlived together with everything before it. -/
structure Remains (time : α → Nat) (window : Nat) (dropped queue : List α) : Prop where
  outlived : dropped ≠ [] → Outlived time window dropped queue
  inside : ∀ front back, queue = front ++ back → front ≠ [] →
    ¬ Outlived time window (dropped ++ front) back

variable {time : α → Nat} {window : Nat} {dropped queue : List α}

theorem Outlived.mono {entries entries' later later' : List α}
    (h : Outlived time window entries later) (fewer : entries' ⊆ entries) (more : later ⊆ later') :
    Outlived time window entries' later' := by
  obtain ⟨newer, mem, past⟩ := h
  exact ⟨newer, more mem, fun entry here => past entry (fewer here)⟩

/-- The front of the queue is newer than everything that was removed. -/
theorem Remains.lt_head (remains : Remains time window dropped queue) {head : α} {rest : List α}
    (front : queue = head :: rest) {entry : α} (old : entry ∈ dropped) :
    time entry < time head := by
  obtain ⟨newer, mem, past⟩ := remains.outlived (List.ne_nil_of_mem old)
  have here := past entry old
  rw [front] at mem
  rcases List.mem_cons.mp mem with rfl | later
  · omega
  · by_contra above
    refine remains.inside [head] rest front (List.cons_ne_nil _ _) ⟨newer, later, ?_⟩
    intro other among
    rcases List.mem_append.mp among with dropped | self
    · exact past other dropped
    · obtain rfl := List.mem_singleton.mp self
      omega

/-- An arrival splits the queue at the first entry that it does not outlive. -/
theorem push_split (time : α → Nat) (window : Nat) (queue : List α) (arrival : α) :
    ∃ stale rest, queue = stale ++ rest ∧ push time window queue arrival = rest ++ [arrival] ∧
      (∀ entry ∈ stale, time entry + window < time arrival) ∧
      ∀ head ∈ rest.head?, ¬ time head + window < time arrival := by
  refine ⟨_, _, List.takeWhile_append_dropWhile.symm, rfl, ?_, ?_⟩
  · intro entry mem
    simpa using List.mem_takeWhile_imp mem
  · intro head hhead
    have kept := List.head?_dropWhile_not
      (fun entry => decide (time entry + window < time arrival)) queue
    rw [Option.mem_def.mp hhead] at kept
    simpa using kept

/-- After an arrival everything removed so far is outlived: the arrival outlives the head,
and the head was newer than all that had been removed before. -/
theorem Remains.outlived_push (remains : Remains time window dropped queue) {stale rest : List α}
    {arrival : α} (split : queue = stale ++ rest)
    (past : ∀ entry ∈ stale, time entry + window < time arrival) (removed : dropped ++ stale ≠ []) :
    Outlived time window (dropped ++ stale) (rest ++ [arrival]) := by
  cases stale with
  | nil =>
    rw [List.append_nil] at removed ⊢
    rw [List.nil_append] at split
    subst split
    exact (remains.outlived removed).mono (List.Subset.refl _) (List.subset_append_left _ _)
  | cons head others =>
    refine ⟨arrival, List.mem_append_right _ (List.mem_singleton.mpr rfl), ?_⟩
    intro entry among
    rcases List.mem_append.mp among with old | now
    · have newer := remains.lt_head split old
      have reached := past head List.mem_cons_self
      omega
    · exact past entry now

theorem Remains.push (remains : Remains time window dropped queue) (arrival : α) :
    ∃ stale rest, queue = stale ++ rest ∧
      push time window queue arrival = rest ++ [arrival] ∧
      Remains time window (dropped ++ stale) (rest ++ [arrival]) := by
  obtain ⟨stale, rest, split, pushed, past, stopped⟩ := push_split time window queue arrival
  refine ⟨stale, rest, split, pushed, remains.outlived_push split past, ?_⟩
  rintro front back whole nonempty ⟨newer, mem, all⟩
  obtain ⟨head, others, rfl⟩ := List.exists_cons_of_ne_nil nonempty
  rcases List.eq_nil_or_concat back with rfl | ⟨back, last, rfl⟩
  · cases mem
  rw [List.concat_eq_append, ← List.append_assoc] at whole
  rw [List.concat_eq_append] at mem
  obtain ⟨rfl, hlast⟩ := List.append_inj' whole rfl
  obtain rfl := List.singleton_inj.mp hlast
  rcases List.mem_append.mp mem with earlier | now
  · refine remains.inside (stale ++ head :: others) back ?_ ?_ ⟨newer, earlier, ?_⟩
    · rw [split, List.append_assoc]
    · exact List.append_ne_nil_of_right_ne_nil _ nonempty
    · rwa [← List.append_assoc]
  · obtain rfl := List.mem_singleton.mp now
    exact stopped head rfl (all head (List.mem_append_right _ List.mem_cons_self))

/-- The arrivals split into what was removed and what remains. -/
theorem remains_pushAll (time : α → Nat) (window : Nat) (arrivals : List α) :
    ∃ dropped, arrivals = dropped ++ pushAll time window arrivals ∧
      Remains time window dropped (pushAll time window arrivals) := by
  induction arrivals using List.reverseRecOn with
  | nil =>
    refine ⟨[], rfl, fun nonempty => absurd rfl nonempty, ?_⟩
    intro front back whole nonempty
    exact absurd (List.append_eq_nil_iff.mp whole.symm).1 nonempty
  | append_singleton arrivals arrival ih =>
    obtain ⟨dropped, whole, remains⟩ := ih
    obtain ⟨stale, rest, split, pushed, remains'⟩ := remains.push arrival
    rw [pushAll, List.foldl_concat, ← pushAll, pushed]
    refine ⟨dropped ++ stale, ?_, remains'⟩
    rw [← List.append_assoc, List.append_assoc dropped, ← split, ← whole]

/-- All that remains is inside the window of `latest` if and only if each arrival out of
it was outlived, together with all arrivals before it, by one later arrival. -/
theorem all_inside_iff (time : α → Nat) (window latest : Nat) (arrivals : List α) :
    (∀ entry ∈ pushAll time window arrivals, latest ≤ time entry + window) ↔
      ∀ before stale later, arrivals = before ++ stale :: later →
        time stale + window < latest → Outlived time window (before ++ [stale]) later := by
  obtain ⟨dropped, whole, remains⟩ := remains_pushAll time window arrivals
  generalize pushAll time window arrivals = queue at whole remains ⊢
  constructor
  · intro inside before stale later split old
    have outside : stale ∉ queue := fun mem => (inside stale mem).not_gt old
    rcases List.append_eq_append_iff.mp (whole.symm.trans split) with
      ⟨between, rfl, hqueue⟩ | ⟨removed, rfl, hrest⟩
    · exact absurd (hqueue ▸ List.mem_append_right _ List.mem_cons_self) outside
    · cases removed with
      | nil =>
        rw [List.nil_append] at hrest
        exact absurd (hrest ▸ List.mem_cons_self) outside
      | cons first others =>
        obtain ⟨rfl, rfl⟩ := List.cons.inj hrest
        refine (remains.outlived (by simp)).mono ?_ (List.subset_append_right _ _)
        rw [List.append_cons before stale others]
        exact List.subset_append_left _ _
  · intro outlived entry mem
    by_contra past
    obtain ⟨front, back, rfl⟩ := List.append_of_mem mem
    refine remains.inside (front ++ [entry]) back (by simp) (by simp) ?_
    rw [← List.append_assoc]
    refine outlived (dropped ++ front) entry back ?_ (not_le.mp past)
    rw [whole, List.append_assoc]

end ExpiringQueue
