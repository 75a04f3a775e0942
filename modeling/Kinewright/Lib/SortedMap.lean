import Mathlib.Data.List.Nodup

/-!
# Sorted lists of entries

A list of entries in the strict order of their keys. What is put at a key is what is found there, and nothing else is changed.
Two such lists with the same entries are the same.
-/

namespace SortedMap

open List

variable {κ α : Type*} [DecidableEq κ]

/-- The value at a key. -/
def get? (m : List (κ × α)) (k : κ) : Option α := (m.find? fun entry => entry.1 = k).map Prod.snd

theorem get?_cons (entry : κ × α) (m : List (κ × α)) (k : κ) :
    get? (entry :: m) k = if entry.1 = k then some entry.2 else get? m k := by
  rw [get?]
  by_cases hkey : entry.1 = k
  · simp [hkey]
  · simp [hkey, get?]

theorem get?_eq_none {m : List (κ × α)} {k : κ} (h : ∀ entry ∈ m, entry.1 ≠ k) : get? m k = none := by
  rw [get?, find?_eq_none.mpr (by simpa using h), Option.map_none]

theorem mem_of_get? {m : List (κ × α)} {k : κ} {a : α} (h : get? m k = some a) : (k, a) ∈ m := by
  obtain ⟨entry, hfind, rfl⟩ := Option.map_eq_some_iff.mp h
  have hkey : entry.1 = k := by simpa using find?_some hfind
  exact hkey ▸ mem_of_find?_eq_some hfind

/-- The entries without a key. -/
def erase (k : κ) (m : List (κ × α)) : List (κ × α) := m.filter fun entry => entry.1 ≠ k

theorem get?_erase (m : List (κ × α)) (k k' : κ) : get? (erase k m) k' = if k = k' then none else get? m k' := by
  induction m with
  | nil => exact (ite_self _).symm
  | cons entry rest ih =>
    rw [erase] at ih
    rw [erase, filter_cons]
    by_cases hkey : entry.1 = k
    · rw [if_neg (by simpa using hkey), ih, get?_cons, hkey]
      split
      · rfl
      · rfl
    · rw [if_pos (by simpa using hkey), get?_cons, get?_cons, ih]
      by_cases hsame : entry.1 = k'
      · rw [if_pos hsame, if_neg fun heq => hkey (hsame.trans heq.symm), if_pos hsame]
      · rw [if_neg hsame, if_neg hsame]

section

variable {m : List (κ × α)} {k : κ}

theorem erase_eq_self (h : ∀ entry ∈ m, entry.1 ≠ k) : erase k m = m := filter_eq_self.mpr (by simpa using h)

theorem key_ne_of_get? (h : get? m k = none) : ∀ entry ∈ m, entry.1 ≠ k := by
  rw [get?] at h
  simpa using h

theorem mem_keys : k ∈ m.map Prod.fst ↔ ∃ a, get? m k = some a := by
  constructor
  · intro h
    cases hget : get? m k with
    | none =>
      obtain ⟨entry, hentry, rfl⟩ := mem_map.mp h
      exact absurd rfl (key_ne_of_get? hget entry hentry)
    | some a => exact ⟨a, rfl⟩
  · rintro ⟨a, hget⟩
    exact mem_map_of_mem (mem_of_get? hget)

end

variable (r : κ → κ → Prop)

/-- The entries are in the strict order of their keys. -/
def Sorted (m : List (κ × α)) : Prop := m.Pairwise fun entry next => r entry.1 next.1

variable [DecidableRel r]

/-- The entries with a value at a key. -/
def put (k : κ) (a : α) : List (κ × α) → List (κ × α)
  | [] => [(k, a)]
  | entry :: rest => if k = entry.1 then (entry.1, a) :: rest else if r k entry.1 then (k, a) :: entry :: rest
    else entry :: put k a rest

variable {r} {m m' : List (κ × α)} {k : κ} {a : α}

theorem put_cons (k : κ) (a : α) (entry : κ × α) (rest : List (κ × α)) : put r k a (entry :: rest) =
    if k = entry.1 then (entry.1, a) :: rest else if r k entry.1 then (k, a) :: entry :: rest else entry :: put r k a rest := rfl

theorem mem_put {entry : κ × α} (h : entry ∈ put r k a m) : entry = (k, a) ∨ entry ∈ m := by
  induction m with
  | nil => exact .inl (mem_singleton.mp h)
  | cons first rest ih =>
    rw [put_cons] at h
    split at h
    · rename_i hkey
      rcases mem_cons.mp h with rfl | h
      · exact .inl (by rw [hkey])
      · exact .inr (mem_cons_of_mem _ h)
    · split at h
      · rcases mem_cons.mp h with rfl | h
        · exact .inl rfl
        · exact .inr h
      · rcases mem_cons.mp h with rfl | h
        · exact .inr mem_cons_self
        · exact (ih h).imp_right (mem_cons_of_mem _)

/-- What is put at a key is found there, and nothing else is changed. -/
theorem get?_put (k' : κ) : get? (put r k a m) k' = if k = k' then some a else get? m k' := by
  induction m with
  | nil => exact get?_cons _ _ _
  | cons entry rest ih =>
    rw [put_cons]
    split
    · rename_i hkey
      rw [get?_cons, get?_cons]
      by_cases hsame : entry.1 = k'
      · simp [hsame, hkey]
      · simp [hsame, hkey]
    · rename_i hne
      split
      · exact get?_cons _ _ _
      · rw [get?_cons, get?_cons, ih]
        by_cases hsame : entry.1 = k'
        · rw [if_pos hsame, if_pos hsame, if_neg fun heq => hne (heq.trans hsame.symm)]
        · rw [if_neg hsame, if_neg hsame]

theorem erase_put (k : κ) (a : α) (m : List (κ × α)) : erase k (put r k a m) = erase k m := by
  induction m with
  | nil => simp [put, erase]
  | cons entry rest ih =>
    rw [erase, erase] at ih
    rw [put_cons]
    split
    · rename_i hkey
      simp [erase, ← hkey]
    · split
      · simp [erase]
      · rw [erase, erase, filter_cons, filter_cons, ih]

omit [DecidableRel r] in
theorem sorted_erase (h : Sorted r m) (k : κ) : Sorted r (erase k m) := h.filter _

variable [IsStrictTotalOrder κ r]

section

variable (h : Sorted r m)

include h

omit [DecidableEq κ] [DecidableRel r] in
theorem nodup_keys : (m.map Prod.fst).Nodup := by
  refine pairwise_map.mpr (h.imp fun {entry next} hbefore heq => ?_)
  rw [heq] at hbefore
  exact irrefl_of r _ hbefore

omit [DecidableRel r] in
/-- An entry that is found can be brought to the front. -/
theorem perm_of_get? (hget : get? m k = some a) : m.Perm ((k, a) :: erase k m) := by
  induction m with
  | nil => cases hget
  | cons entry rest ih =>
    obtain ⟨hfirst, hrest⟩ := pairwise_cons.mp h
    rw [get?_cons] at hget
    by_cases hkey : entry.1 = k
    · rw [if_pos hkey] at hget
      obtain rfl : entry = (k, a) := Prod.ext hkey (Option.some.inj hget)
      have hother : ∀ next ∈ rest, next.1 ≠ k := by
        rintro next hnext rfl
        exact irrefl_of r _ (hfirst next hnext)
      have herase : erase k ((k, a) :: rest) = rest := by
        rw [erase, filter_cons, if_neg (by simp)]
        exact erase_eq_self hother
      rw [herase]
    · rw [if_neg hkey] at hget
      have herase : erase k (entry :: rest) = entry :: erase k rest := by
        rw [erase, filter_cons, if_pos (by simpa using hkey)]
        rfl
      rw [herase]
      exact ((ih hrest hget).cons entry).trans (Perm.swap _ _ _)

theorem sorted_put : Sorted r (put r k a m) := by
  induction m with
  | nil => exact pairwise_singleton _ _
  | cons entry rest ih =>
    obtain ⟨hfirst, hrest⟩ := pairwise_cons.mp h
    rw [put_cons]
    split
    · exact pairwise_cons.mpr ⟨hfirst, hrest⟩
    · rename_i hne
      split
      · rename_i hbefore
        refine pairwise_cons.mpr ⟨forall_mem_cons.mpr ⟨hbefore, fun next hnext => ?_⟩, h⟩
        exact IsTrans.trans _ _ _ hbefore (hfirst next hnext)
      · rename_i hnot
        -- the key is neither the first one nor before it
        have hafter : r entry.1 k := not_not.mp fun hafter => hne (Std.Trichotomous.trichotomous _ _ hnot hafter)
        refine pairwise_cons.mpr ⟨fun next hnext => ?_, ih hrest⟩
        rcases mem_put hnext with rfl | hnext
        · exact hafter
        · exact hfirst next hnext

omit [DecidableRel r] in
theorem get?_eq_none_of_before (hbefore : ∀ entry ∈ m.head?, r k entry.1) : get? m k = none := by
  refine get?_eq_none fun entry hentry hkey => ?_
  cases m with
  | nil => cases hentry
  | cons first rest =>
    have hfirst := hbefore first rfl
    rcases mem_cons.mp hentry with rfl | hentry
    · exact irrefl_of r _ (hkey ▸ hfirst)
    · have hnext := (pairwise_cons.mp h).1 entry hentry
      rw [hkey] at hnext
      exact irrefl_of r k (IsTrans.trans _ _ _ hfirst hnext)

omit [DecidableRel r] in
/-- Sorted entries are determined by what is found at the keys. By induction on both, whose first keys are the same. -/
theorem ext_get? (h' : Sorted r m') (hget : ∀ k, get? m k = get? m' k) : m = m' := by
  induction m generalizing m' with
  | nil =>
    cases m' with
    | nil => rfl
    | cons entry rest =>
      have hnone := hget entry.1
      rw [get?_cons, if_pos rfl] at hnone
      cases hnone
  | cons entry rest ih =>
    cases m' with
    | nil =>
      have hnone := hget entry.1
      rw [get?_cons, if_pos rfl] at hnone
      cases hnone
    | cons entry' rest' =>
      obtain ⟨hfirst, hrest⟩ := pairwise_cons.mp h
      obtain ⟨hfirst', hrest'⟩ := pairwise_cons.mp h'
      have hkey : entry.1 = entry'.1 := by
        refine Std.Trichotomous.trichotomous (r := r) _ _ (fun hbefore => ?_) fun hbefore => ?_
        · have hnone := hget entry.1
          rw [get?_cons, if_pos rfl, get?_eq_none_of_before h' (by rintro _ ⟨⟩; exact hbefore)] at hnone
          cases hnone
        · have hnone := hget entry'.1
          rw [get?_cons entry', if_pos rfl, get?_eq_none_of_before h (by rintro _ ⟨⟩; exact hbefore)] at hnone
          cases hnone
      have hvalue : entry.2 = entry'.2 := by
        have hsame := hget entry.1
        rw [get?_cons, if_pos rfl, get?_cons, if_pos hkey.symm] at hsame
        exact Option.some.inj hsame
      obtain rfl : entry = entry' := Prod.ext hkey hvalue
      refine congrArg _ (ih hrest hrest' fun k => ?_)
      by_cases hsame : entry.1 = k
      · rw [get?_eq_none fun next hnext heq => ?_, get?_eq_none fun next hnext heq => ?_]
        · have hbehind := hfirst' next hnext
          rw [heq, hsame] at hbehind
          exact irrefl_of r k hbehind
        · have hbehind := hfirst next hnext
          rw [heq, hsame] at hbehind
          exact irrefl_of r k hbehind
      · have hnext := hget k
        rwa [get?_cons, get?_cons, if_neg hsame, if_neg hsame] at hnext

/-- An entry that is put is there in place of the one at its key. -/
theorem perm_put : (put r k a m).Perm ((k, a) :: erase k m) := by
  have hget : get? (put r k a m) k = some a := by rw [get?_put, if_pos rfl]
  have hperm := perm_of_get? (sorted_put h) hget
  rwa [erase_put] at hperm

end

end SortedMap
