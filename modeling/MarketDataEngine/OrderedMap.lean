import Mathlib.Order.RelClasses
import Mathlib.Data.Set.Card
import Mathlib.Algebra.BigOperators.Finprod

/-!
# Ordered maps under an explicit comparator

The entries are a list in strict comparator order, and the order is a field of
the map, so a map with a repeated or misplaced key cannot be built. Two keys
are the same when neither compares below the other, as for a C++ `std::map`.
-/

universe u v

/-- A finite map whose entries are listed in strict `r` order of their keys. -/
structure OrderedMap {K : Type u} (r : K → K → Prop) (V : Type v) where
  entries : List (K × V)
  sorted : entries.Pairwise (fun a b => r a.1 b.1)

namespace OrderedMap

section Entries
variable {K : Type u} {V : Type v} (r : K → K → Prop) [DecidableRel r]

/-- Overwrite the value at `k`, or put a new entry at its place in the order. -/
def insertEntry (k : K) (v : V) : List (K × V) → List (K × V)
  | [] => [(k, v)]
  | e :: rest =>
    if r k e.1 then (k, v) :: e :: rest
    else if r e.1 k then e :: insertEntry k v rest
    else (k, v) :: rest

/-- Drop the entry at `k`, if there is one. -/
def eraseEntry (k : K) : List (K × V) → List (K × V)
  | [] => []
  | e :: rest =>
    if r k e.1 then e :: rest
    else if r e.1 k then e :: eraseEntry k rest
    else rest

/-- The value at `k`, found by walking the order. -/
def findEntry (k : K) : List (K × V) → Option V
  | [] => none
  | e :: rest =>
    if r k e.1 then none
    else if r e.1 k then findEntry k rest
    else some e.2

theorem mem_insertEntry {k : K} {v : V} {entries : List (K × V)} {e : K × V}
    (h : e ∈ insertEntry r k v entries) : e = (k, v) ∨ e ∈ entries := by
  induction entries with
  | nil => exact Or.inl (List.mem_singleton.mp h)
  | cons a rest ih =>
    simp only [insertEntry] at h
    split_ifs at h
    · exact (List.mem_cons.mp h)
    · rcases List.mem_cons.mp h with rfl | h
      · exact Or.inr List.mem_cons_self
      · exact (ih h).imp_right (List.mem_cons_of_mem a)
    · exact (List.mem_cons.mp h).imp_right (List.mem_cons_of_mem a)

theorem eraseEntry_sublist (k : K) (entries : List (K × V)) :
    (eraseEntry r k entries).Sublist entries := by
  induction entries with
  | nil => exact List.Sublist.refl _
  | cons a rest ih =>
    simp only [eraseEntry]
    split_ifs
    · exact List.Sublist.refl _
    · exact ih.cons_cons a
    · exact List.sublist_cons_self a rest

variable {r}

theorem insertEntry_sorted [IsTrans K r] [Std.Trichotomous r] {k : K} {v : V}
    {entries : List (K × V)} (sorted : entries.Pairwise (fun a b => r a.1 b.1)) :
    (insertEntry r k v entries).Pairwise (fun a b => r a.1 b.1) := by
  induction entries with
  | nil => exact List.pairwise_singleton _ _
  | cons a rest ih =>
    obtain ⟨head, tail⟩ := List.pairwise_cons.mp sorted
    simp only [insertEntry]
    split_ifs with below above
    · refine List.pairwise_cons.mpr ⟨?_, sorted⟩
      intro e he
      rcases List.mem_cons.mp he with rfl | he
      · exact below
      · exact trans_of r below (head e he)
    · refine List.pairwise_cons.mpr ⟨?_, ih tail⟩
      intro e he
      rcases mem_insertEntry r he with rfl | he
      · exact above
      · exact head e he
    · have same : k = a.1 := Std.Trichotomous.trichotomous k a.1 below above
      exact List.pairwise_cons.mpr ⟨fun e he => same ▸ head e he, tail⟩

/-- A key below every entry is absent. -/
theorem findEntry_eq_none_of_below {k : K} {entries : List (K × V)}
    (below : ∀ e ∈ entries, r k e.1) : findEntry r k entries = none := by
  cases entries with
  | nil => rfl
  | cons a rest => simp [findEntry, below a List.mem_cons_self]

end Entries

section Laws
variable {K : Type u} {V : Type v} {r : K → K → Prop} [DecidableRel r] [IsStrictTotalOrder K r]

omit [DecidableRel r] in
theorem not_of_rel {a b : K} (h : r a b) : ¬ r b a :=
  fun back => Std.Irrefl.irrefl (r := r) a (trans_of r h back)

/-- Looking up `q` past an entry with a different key. -/
theorem findEntry_cons_of_ne {q : K} {a : K × V} (different : q ≠ a.1)
    (rest : List (K × V)) :
    findEntry r q (a :: rest) = if r q a.1 then none else findEntry r q rest := by
  simp only [findEntry]
  rcases trichotomous_of r q a.1 with h | h | h
  · rw [if_pos h, if_pos h]
  · exact absurd h different
  · rw [if_neg (not_of_rel h), if_neg (not_of_rel h), if_pos h]

@[simp] theorem findEntry_cons_self (a : K × V) (rest : List (K × V)) :
    findEntry r a.1 (a :: rest) = some a.2 := by
  simp [findEntry, Std.Irrefl.irrefl (r := r) a.1]

theorem findEntry_insertEntry_self (k : K) (v : V) (entries : List (K × V)) :
    findEntry r k (insertEntry r k v entries) = some v := by
  induction entries with
  | nil => exact findEntry_cons_self (k, v) []
  | cons a rest ih =>
    simp only [insertEntry]
    rcases trichotomous_of r k a.1 with below | same | above
    · rw [if_pos below]
      exact findEntry_cons_self (k, v) (a :: rest)
    · have irrefl : ¬ r k a.1 := same ▸ Std.Irrefl.irrefl (r := r) k
      have irrefl' : ¬ r a.1 k := same ▸ Std.Irrefl.irrefl (r := r) k
      rw [if_neg irrefl, if_neg irrefl']
      exact findEntry_cons_self (k, v) rest
    · have different : k ≠ a.1 := fun h => not_of_rel above (h ▸ above)
      rw [if_neg (not_of_rel above), if_pos above, findEntry_cons_of_ne different,
        if_neg (not_of_rel above), ih]

theorem findEntry_insertEntry_ne {k q : K} (different : q ≠ k) (v : V)
    (entries : List (K × V)) :
    findEntry r q (insertEntry r k v entries) = findEntry r q entries := by
  induction entries with
  | nil =>
    rw [insertEntry, findEntry_cons_of_ne different]
    exact ite_self none
  | cons a rest ih =>
    simp only [insertEntry]
    rcases trichotomous_of r k a.1 with below | same | above
    · rw [if_pos below, findEntry_cons_of_ne different]
      split_ifs with h
      · simp [findEntry, trans_of r h below]
      · rfl
    · have irrefl : ¬ r k a.1 := same ▸ Std.Irrefl.irrefl (r := r) k
      have irrefl' : ¬ r a.1 k := same ▸ Std.Irrefl.irrefl (r := r) k
      rw [if_neg irrefl, if_neg irrefl', findEntry_cons_of_ne different,
        findEntry_cons_of_ne (same ▸ different)]
      simp only [same]
    · rw [if_neg (not_of_rel above), if_pos above]
      simp only [findEntry, ih]

theorem findEntry_eraseEntry_self (k : K) {entries : List (K × V)}
    (sorted : entries.Pairwise (fun a b => r a.1 b.1)) :
    findEntry r k (eraseEntry r k entries) = none := by
  induction entries with
  | nil => rfl
  | cons a rest ih =>
    obtain ⟨head, tail⟩ := List.pairwise_cons.mp sorted
    simp only [eraseEntry]
    rcases trichotomous_of r k a.1 with below | same | above
    · rw [if_pos below]
      simp [findEntry, below]
    · have irrefl : ¬ r k a.1 := same ▸ Std.Irrefl.irrefl (r := r) k
      have irrefl' : ¬ r a.1 k := same ▸ Std.Irrefl.irrefl (r := r) k
      rw [if_neg irrefl, if_neg irrefl']
      exact findEntry_eq_none_of_below (fun e he => same ▸ head e he)
    · rw [if_neg (not_of_rel above), if_pos above]
      simp only [findEntry, if_neg (not_of_rel above), if_pos above, ih tail]

theorem findEntry_eraseEntry_ne {k q : K} (different : q ≠ k) {entries : List (K × V)}
    (sorted : entries.Pairwise (fun a b => r a.1 b.1)) :
    findEntry r q (eraseEntry r k entries) = findEntry r q entries := by
  induction entries with
  | nil => rfl
  | cons a rest ih =>
    obtain ⟨head, tail⟩ := List.pairwise_cons.mp sorted
    simp only [eraseEntry]
    rcases trichotomous_of r k a.1 with below | same | above
    · rw [if_pos below]
    · have irrefl : ¬ r k a.1 := same ▸ Std.Irrefl.irrefl (r := r) k
      have irrefl' : ¬ r a.1 k := same ▸ Std.Irrefl.irrefl (r := r) k
      rw [if_neg irrefl, if_neg irrefl', findEntry_cons_of_ne (same ▸ different)]
      split_ifs with h
      · exact findEntry_eq_none_of_below (fun e he => trans_of r h (head e he))
      · rfl
    · rw [if_neg (not_of_rel above), if_pos above]
      simp only [findEntry, ih tail]

theorem findEntry_eq_some_iff {entries : List (K × V)}
    (sorted : entries.Pairwise (fun a b => r a.1 b.1)) {k : K} {v : V} :
    findEntry r k entries = some v ↔ (k, v) ∈ entries := by
  induction entries with
  | nil => simp [findEntry]
  | cons a rest ih =>
    obtain ⟨head, tail⟩ := List.pairwise_cons.mp sorted
    by_cases same : k = a.1
    · subst same
      rw [findEntry_cons_self, List.mem_cons]
      constructor
      · intro h
        exact Or.inl (Prod.ext rfl (Option.some.inj h).symm)
      · rintro (h | h)
        · rw [← h]
        · exact absurd (head _ h) (Std.Irrefl.irrefl _)
    · rw [findEntry_cons_of_ne same, List.mem_cons]
      have notHead : ¬ (k, v) = a := fun h => same (h ▸ rfl)
      split_ifs with below
      · refine iff_of_false (by simp) ?_
        rintro (h | h)
        · exact notHead h
        · exact not_of_rel below (head _ h)
      · simp only [ih tail, notHead, false_or]

end Laws

variable {K : Type u} {V : Type v} {r : K → K → Prop}

/-- The map without entries. -/
def empty : OrderedMap r V := ⟨[], List.Pairwise.nil⟩

variable [DecidableRel r]

def erase (m : OrderedMap r V) (k : K) : OrderedMap r V :=
  ⟨eraseEntry r k m.entries, m.sorted.sublist (eraseEntry_sublist r k m.entries)⟩

def find? (m : OrderedMap r V) (k : K) : Option V := findEntry r k m.entries

variable [IsStrictTotalOrder K r]

def insert (m : OrderedMap r V) (k : K) (v : V) : OrderedMap r V :=
  ⟨insertEntry r k v m.entries, insertEntry_sorted m.sorted⟩

omit [IsStrictTotalOrder K r] in
@[simp] theorem find?_empty (k : K) : (empty : OrderedMap r V).find? k = none := rfl

@[simp] theorem find?_insert [DecidableEq K] (m : OrderedMap r V) (k : K) (v : V) (q : K) :
    (m.insert k v).find? q = if q = k then some v else m.find? q := by
  split_ifs with h
  · exact h ▸ findEntry_insertEntry_self k v m.entries
  · exact findEntry_insertEntry_ne h v m.entries

@[simp] theorem find?_erase [DecidableEq K] (m : OrderedMap r V) (k q : K) :
    (m.erase k).find? q = if q = k then none else m.find? q := by
  split_ifs with h
  · exact h ▸ findEntry_eraseEntry_self k m.sorted
  · exact findEntry_eraseEntry_ne h m.sorted

theorem find?_eq_some_iff (m : OrderedMap r V) {k : K} {v : V} :
    m.find? k = some v ↔ (k, v) ∈ m.entries :=
  findEntry_eq_some_iff m.sorted

theorem mem_entries_insert (m : OrderedMap r V) {k : K} {v : V} {e : K × V}
    (h : e ∈ (m.insert k v).entries) : e = (k, v) ∨ e ∈ m.entries :=
  mem_insertEntry r h

omit [IsStrictTotalOrder K r] in
theorem mem_entries_erase (m : OrderedMap r V) {k : K} {e : K × V}
    (h : e ∈ (m.erase k).entries) : e ∈ m.entries :=
  (eraseEntry_sublist r k m.entries).subset h

/-! ### What the entries say about the map as a partial function -/

/-- The keys a partial function has a value at. -/
def domain (f : K → Option V) : Set K := {k | f k ≠ none}

theorem mem_domain_find?_iff (m : OrderedMap r V) (k : K) :
    k ∈ domain m.find? ↔ k ∈ m.entries.map Prod.fst := by
  simp only [domain, Set.mem_ofPred_eq, ne_eq, Option.ne_none_iff_exists', List.mem_map,
    find?_eq_some_iff]
  constructor
  · rintro ⟨v, hv⟩
    exact ⟨(k, v), hv, rfl⟩
  · rintro ⟨e, he, rfl⟩
    exact ⟨e.2, he⟩

omit [DecidableRel r] in
theorem keys_nodup (m : OrderedMap r V) : (m.entries.map Prod.fst).Nodup := by
  refine List.pairwise_map.mpr (m.sorted.imp ?_)
  intro a b hab heq
  rw [heq] at hab
  exact Std.Irrefl.irrefl (r := r) b.1 hab

theorem domain_find?_eq [DecidableEq K] (m : OrderedMap r V) :
    domain m.find? = ((m.entries.map Prod.fst).toFinset : Set K) := by
  ext k
  rw [mem_domain_find?_iff]
  simp

/-- The number of entries is the number of keys with a value. -/
theorem length_entries (m : OrderedMap r V) : m.entries.length = (domain m.find?).ncard := by
  classical
  rw [domain_find?_eq, Set.ncard_coe_finset, List.toFinset_card_of_nodup m.keys_nodup,
    List.length_map]

/-- The first entry holds the first key of the order among those with a value. -/
theorem head_entries (m : OrderedMap r V) {e : K × V} (h : m.entries.head? = some e) :
    m.find? e.1 = some e.2 ∧ ∀ k ∈ domain m.find?, k = e.1 ∨ r e.1 k := by
  obtain ⟨rest, hrest⟩ := List.head?_eq_some_iff.mp h
  have sorted := m.sorted
  rw [hrest] at sorted
  have head := (List.pairwise_cons.mp sorted).1
  refine ⟨(find?_eq_some_iff m).mpr (by simp [hrest]), ?_⟩
  intro k hk
  obtain ⟨a, ha, rfl⟩ := List.mem_map.mp ((mem_domain_find?_iff m k).mp hk)
  rw [hrest] at ha
  rcases List.mem_cons.mp ha with rfl | ha
  · exact Or.inl rfl
  · exact Or.inr (head a ha)

theorem entries_eq_nil_iff (m : OrderedMap r V) :
    m.entries = [] ↔ domain m.find? = ∅ := by
  rw [Set.eq_empty_iff_forall_notMem]
  simp only [mem_domain_find?_iff]
  constructor
  · intro h k
    simp [h]
  · intro h
    cases hm : m.entries with
    | nil => rfl
    | cons e rest => exact absurd (by simp [hm]) (h e.1)

/-- The sum of the listed values is the sum of the values over all keys. -/
theorem sum_entries {A : Type v} [AddCommMonoid A] (m : OrderedMap r A) :
    (m.entries.map Prod.snd).sum = ∑ᶠ k, (m.find? k).getD 0 := by
  classical
  have support : Function.support (fun k => (m.find? k).getD 0) ⊆
      ((m.entries.map Prod.fst).toFinset : Set K) := by
    intro k hk
    rw [← domain_find?_eq]
    intro hnone
    exact hk (by simp [hnone])
  rw [finsum_eq_sum_of_support_subset _ support, List.sum_toFinset _ m.keys_nodup,
    List.map_map]
  congr 1
  refine List.map_congr_left ?_
  intro e he
  simp [(find?_eq_some_iff m).mpr he]

end OrderedMap
