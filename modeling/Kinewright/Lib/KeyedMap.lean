import Mathlib.Algebra.BigOperators.Group.Finset.Piecewise
import Mathlib.Data.List.Sort

/-!
# Finite maps without an order

A map from keys to values whose keys are a finite set. Nothing can be asked of it that depends on an
order of its entries: it is read by key, changed by key or by a predicate, and summed.
-/

/-- A finite map. The set of keys is exactly where the map is defined. -/
@[ext] structure KeyedMap (κ α : Type*) where
  keys : Finset κ
  get? : κ → Option α
  mem_keys : ∀ k, k ∈ keys ↔ (get? k).isSome

namespace KeyedMap

open Finset Option

variable {κ α β : Type*}

/-! ## Operations -/

/-- The map with no entries. -/
def empty : KeyedMap κ α where
  keys := ∅
  get? _ := none
  mem_keys k := by simp

/-- Whether the key has an entry. -/
def contains (m : KeyedMap κ α) (k : κ) : Bool := (m.get? k).isSome

/-- Keep the entries of which the predicate holds. -/
def filter (m : KeyedMap κ α) (p : κ → α → Bool) : KeyedMap κ α where
  keys := m.keys.filter fun k => ((m.get? k).filter (p k)).isSome
  get? k := (m.get? k).filter (p k)
  mem_keys k := by
    rw [mem_filter, m.mem_keys, and_iff_right_iff_imp]
    intro h
    rcases hk : m.get? k with _ | a
    · rw [hk] at h
      exact absurd h Bool.false_ne_true
    · rfl

/-- The entries that the function gives from those of the map. -/
def filterMap (m : KeyedMap κ α) (f : κ → α → Option β) : KeyedMap κ β where
  keys := m.keys.filter fun k => ((m.get? k).bind (f k)).isSome
  get? k := (m.get? k).bind (f k)
  mem_keys k := by
    rw [mem_filter, m.mem_keys, and_iff_right_iff_imp]
    intro h
    rcases hk : m.get? k with _ | a
    · rw [hk] at h
      exact absurd h Bool.false_ne_true
    · rfl

section Changes

variable [DecidableEq κ]

/-- The entries of `new`, over those of the map. -/
def extend (m : KeyedMap κ α) (new : Finset κ) (value : κ → α) : KeyedMap κ α where
  keys := m.keys ∪ new
  get? k := if k ∈ new then some (value k) else m.get? k
  mem_keys k := by
    by_cases h : k ∈ new
    · simp [h]
    · simp [h, m.mem_keys]

/-- The map with one entry more, or replaced. -/
def insert (m : KeyedMap κ α) (k : κ) (a : α) : KeyedMap κ α := m.extend {k} fun _ => a

/-- The map without the entry of the key. -/
def erase (m : KeyedMap κ α) (k : κ) : KeyedMap κ α := m.filter fun k' _ => k' ≠ k

end Changes

/-- The map with other values at the same keys. -/
def map (m : KeyedMap κ α) (f : κ → α → β) : KeyedMap κ β where
  keys := m.keys
  get? k := (m.get? k).map (f k)
  mem_keys k := by rw [m.mem_keys, isSome_map]

/-- The values of the map, each key's once, in no order. -/
def values (m : KeyedMap κ α) : Multiset α := m.keys.val.filterMap m.get?

/-- The sum of the values' weights. -/
def total (m : KeyedMap κ α) (weight : α → ℕ) : ℕ := ∑ k ∈ m.keys, ((m.get? k).map weight).getD 0

/-! ## Reading -/

variable {m : KeyedMap κ α}

theorem contains_iff {k : κ} : m.contains k ↔ ∃ a, m.get? k = some a := isSome_iff_exists

/-- Two maps with the same keys and the same values at them are the same. -/
theorem ext_get? {m' : KeyedMap κ α} (h : ∀ k, m.get? k = m'.get? k) : m = m' := by
  apply KeyedMap.ext
  · ext k
    rw [m.mem_keys, m'.mem_keys, h k]
  · funext k
    exact h k

instance [DecidableEq κ] [DecidableEq α] : DecidableEq (KeyedMap κ α) := fun m m' =>
  decidable_of_iff (m.keys = m'.keys ∧ ∀ k ∈ m.keys, m.get? k = m'.get? k) (by
    constructor
    · rintro ⟨hkeys, hvalues⟩
      refine ext_get? fun k => ?_
      by_cases hk : k ∈ m.keys
      · exact hvalues k hk
      · have hnone : m.get? k = none := by rwa [m.mem_keys, not_isSome_iff_eq_none] at hk
        have hnone' : m'.get? k = none := by
          rwa [hkeys, m'.mem_keys, not_isSome_iff_eq_none] at hk
        rw [hnone, hnone']
    · rintro rfl
      exact ⟨rfl, fun _ _ => rfl⟩)

theorem get?_eq_none_iff {k : κ} : m.get? k = none ↔ k ∉ m.keys := by
  rw [m.mem_keys, not_isSome_iff_eq_none]

@[simp] theorem get?_filter (m : KeyedMap κ α) (p : κ → α → Bool) (k : κ) :
    (m.filter p).get? k = (m.get? k).filter (p k) := rfl

theorem get?_filter_eq_some {p : κ → α → Bool} {k : κ} {a : α} :
    (m.filter p).get? k = some a ↔ m.get? k = some a ∧ p k a := by
  rw [get?_filter, filter_eq_some_iff]

@[simp] theorem get?_filterMap (m : KeyedMap κ α) (f : κ → α → Option β) (k : κ) :
    (m.filterMap f).get? k = (m.get? k).bind (f k) := rfl

@[simp] theorem get?_map (m : KeyedMap κ α) (f : κ → α → β) (k : κ) : (m.map f).get? k = (m.get? k).map (f k) := rfl

section Changes

variable [DecidableEq κ]

@[simp] theorem get?_extend (m : KeyedMap κ α) (new : Finset κ) (value : κ → α) (k : κ) :
    (m.extend new value).get? k = if k ∈ new then some (value k) else m.get? k := rfl

@[simp] theorem get?_insert (m : KeyedMap κ α) (k k' : κ) (a : α) :
    (m.insert k a).get? k' = if k' = k then some a else m.get? k' := by
  simp [insert]

/-- What holds of a new entry and of those of the map. -/
theorem forall_get?_insert {P : κ → α → Prop} {k : κ} {a : α} (hnew : P k a) (hold : ∀ k' a', m.get? k' = some a' → P k' a')
    (k' : κ) (a' : α) (h : (m.insert k a).get? k' = some a') : P k' a' := by
  rw [get?_insert] at h
  split at h
  · rename_i hsame
    obtain rfl := Option.some.inj h
    exact hsame ▸ hnew
  · exact hold k' a' h

@[simp] theorem get?_erase (m : KeyedMap κ α) (k k' : κ) :
    (m.erase k).get? k' = if k' = k then none else m.get? k' := by
  rw [erase, get?_filter]
  by_cases h : k' = k
  all_goals
    rcases m.get? k' with _ | a
    · simp
    · simp [Option.filter]

/-! ## Taking a change back -/

theorem erase_insert {k : κ} {a : α} (h : m.get? k = none) : (m.insert k a).erase k = m := by
  apply ext_get?
  intro k'
  by_cases hk : k' = k
  · simp [hk, h]
  · simp [hk]

theorem insert_insert {k : κ} {a old : α} (h : m.get? k = some old) : (m.insert k a).insert k old = m := by
  apply ext_get?
  intro k'
  by_cases hk : k' = k
  · simp [hk, h]
  · simp [hk]

theorem insert_erase {k : κ} {old : α} (h : m.get? k = some old) : (m.erase k).insert k old = m := by
  apply ext_get?
  intro k'
  by_cases hk : k' = k
  · simp [hk, h]
  · simp [hk]

end Changes

/-! ## Maps that only grow -/

/-- Every entry of the map is still there in the other, and has only changed as it may. -/
def Grows (R : κ → α → α → Prop) (m m' : KeyedMap κ α) : Prop :=
  ∀ k a, m.get? k = some a → ∃ b, m'.get? k = some b ∧ R k a b

namespace Grows

variable {R : κ → α → α → Prop} {m' m'' : KeyedMap κ α}

theorem refl (hR : ∀ k a, R k a a) (m : KeyedMap κ α) : Grows R m m := fun k a h => ⟨a, h, hR k a⟩

theorem trans (hR : ∀ k a b c, R k a b → R k b c → R k a c) (h : Grows R m m')
    (h' : Grows R m' m'') : Grows R m m'' := by
  intro k a ha
  obtain ⟨b, hb, hab⟩ := h k a ha
  obtain ⟨c, hc, hbc⟩ := h' k b hb
  exact ⟨c, hc, hR k a b c hab hbc⟩

/-- A map grows by an entry that was not there, or changes it as it may. -/
theorem insert [DecidableEq κ] (hR : ∀ k a, R k a a) {k : κ} {b : α}
    (h : ∀ a, m.get? k = some a → R k a b) : Grows R m (m.insert k b) := by
  intro k' a ha
  by_cases hk : k' = k
  · subst hk
    exact ⟨b, by simp, h a ha⟩
  · exact ⟨a, by simpa [hk] using ha, hR k' a⟩

end Grows

/-! ## The keys in order -/

section Order

variable [LinearOrder κ]

/-- The keys in ascending order, each once. -/
def sortedKeys (m : KeyedMap κ α) : List κ :=
  Quot.liftOn m.keys.val (fun keys => keys.insertionSort (· ≤ ·)) fun keys keys' h =>
    ((List.perm_insertionSort _ keys).trans (h.trans (List.perm_insertionSort _ keys').symm)).eq_of_pairwise'
        (List.pairwise_insertionSort _ keys) (List.pairwise_insertionSort _ keys')

theorem coe_sortedKeys (m : KeyedMap κ α) : (m.sortedKeys : Multiset κ) = m.keys.val := by
  rw [sortedKeys]
  generalize m.keys.val = keys
  induction keys using Quot.inductionOn with
  | h keys => exact Multiset.coe_eq_coe.mpr (List.perm_insertionSort _ keys)

@[simp] theorem mem_sortedKeys {k : κ} : k ∈ m.sortedKeys ↔ k ∈ m.keys := by
  rw [← Multiset.mem_coe, coe_sortedKeys, mem_val]

/-- The entries in ascending order of their keys. -/
def entries (m : KeyedMap κ α) : List (κ × α) := m.sortedKeys.filterMap fun k => (m.get? k).map fun a => (k, a)

@[simp] theorem mem_entries {k : κ} {a : α} : (k, a) ∈ m.entries ↔ m.get? k = some a := by
  rw [entries, List.mem_filterMap]
  constructor
  · rintro ⟨k', _, h⟩
    obtain ⟨a', ha', ⟨⟩⟩ := map_eq_some_iff.mp h
    exact ha'
  · intro h
    refine ⟨k, ?_, by rw [h]; rfl⟩
    rw [mem_sortedKeys, m.mem_keys, h]
    rfl

end Order

/-! ## Sums -/

variable {weight : α → ℕ}

/-- A sum over any finite set that has all the keys. -/
theorem total_eq_sum {s : Finset κ} (h : m.keys ⊆ s) : m.total weight = ∑ k ∈ s, ((m.get? k).map weight).getD 0 := by
  refine sum_subset h ?_
  intro k _ hk
  rw [get?_eq_none_iff.mpr hk]
  rfl

/-- What a filter keeps and what it takes out add up. -/
theorem total_filter_add (m : KeyedMap κ α) (p : κ → α → Bool) :
    (m.filter p).total weight + (m.filter fun k a => !p k a).total weight = m.total weight := by
  have hle (q : κ → α → Bool) : (m.filter q).keys ⊆ m.keys := filter_subset _ _
  rw [total_eq_sum (hle p), total_eq_sum (hle _), ← sum_add_distrib]
  refine sum_congr rfl ?_
  intro k _
  rw [get?_filter, get?_filter]
  rcases m.get? k with _ | a
  · rfl
  · rcases hp : p k a <;> simp [Option.filter, hp]

variable [DecidableEq κ]

/-- Taking one entry out takes its weight out. -/
theorem total_erase_add (m : KeyedMap κ α) (k : κ) :
    (m.erase k).total weight + ((m.get? k).map weight).getD 0 = m.total weight := by
  have hle : (m.erase k).keys ⊆ Insert.insert k m.keys := (filter_subset _ _).trans (subset_insert _ _)
  rw [total_eq_sum hle, total_eq_sum (subset_insert k m.keys), ← add_sum_erase _ _ (mem_insert_self k m.keys),
    ← add_sum_erase (Insert.insert k m.keys) _ (mem_insert_self k m.keys)]
  have hrest : ∑ j ∈ (Insert.insert k m.keys).erase k, (((m.erase k).get? j).map weight).getD 0
      = ∑ j ∈ (Insert.insert k m.keys).erase k, ((m.get? j).map weight).getD 0 := by
    refine sum_congr rfl ?_
    intro j hj
    rw [get?_erase, if_neg (ne_of_mem_erase hj)]
  rw [get?_erase, if_pos rfl]
  simp only [map_none, getD_none]
  omega

/-- New entries at keys that had none add their weights. -/
theorem total_extend {new : Finset κ} {value : κ → α} (h : ∀ k ∈ new, m.get? k = none) :
    (m.extend new value).total weight = m.total weight + ∑ k ∈ new, weight (value k) := by
  have hdisjoint : Disjoint m.keys new := by
    rw [disjoint_right]
    intro k hk
    exact get?_eq_none_iff.mp (h k hk)
  show ∑ k ∈ m.keys ∪ new, _ = _
  rw [sum_union hdisjoint]
  congr 1
  · refine sum_congr rfl ?_
    intro k hk
    rw [get?_extend, if_neg (disjoint_left.mp hdisjoint hk)]
  · refine sum_congr rfl ?_
    intro k hk
    rw [get?_extend, if_pos hk]
    rfl

omit [DecidableEq κ] in
/-- Lowering the values takes out what they are lowered by. -/
theorem total_map_add (m : KeyedMap κ ℕ) (f : κ → ℕ → ℕ) (hle : ∀ k a, f k a ≤ a) :
    (m.map f).total id + (m.map fun k a => a - f k a).total id = m.total id := by
  show ∑ k ∈ m.keys, _ + ∑ k ∈ m.keys, _ = ∑ k ∈ m.keys, _
  rw [← sum_add_distrib]
  refine sum_congr rfl ?_
  intro k _
  rw [get?_map, get?_map]
  rcases m.get? k with _ | a
  · rfl
  · have := hle k a
    simp only [map_some, getD_some, id]
    omega

end KeyedMap
