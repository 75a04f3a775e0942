import Mathlib.Data.List.Nodup
import Mathlib.Data.List.Perm.Basic

/-!
# Lists with a key

A list whose elements have distinct keys is read by key.
-/

namespace List

variable {α β : Type*} [DecidableEq β] {key : α → β}

/-- An element that alone has its key is the one that is found by the key. -/
theorem find?_of_key {xs : List α} {x : α} (hx : x ∈ xs) (hkey : ∀ y ∈ xs, key y = key x → y = x) :
    (xs.find? fun y => key y = key x) = some x := by
  rcases hfind : xs.find? fun y => key y = key x with _ | y
  · have hnone := List.find?_eq_none.mp hfind x hx
    simp at hnone
  · have heq : key y = key x := by simpa using List.find?_some hfind
    rw [hkey y (List.mem_of_find?_eq_some hfind) heq]

/-- With distinct keys, an element is the one that is found by its key. -/
theorem find?_key {xs : List α} (hnodup : (xs.map key).Nodup) {x : α} (hx : x ∈ xs) :
    (xs.find? fun y => key y = key x) = some x :=
  find?_of_key hx fun _ hy heq => List.inj_on_of_nodup_map hnodup hy hx heq

/-! ## The first of its kind -/

/-- The list with the first element of which the predicate holds changed. -/
def modifyFirst (p : α → Bool) (f : α → α) : List α → List α
  | [] => []
  | a :: as => if p a then f a :: as else a :: modifyFirst p f as

variable {p : α → Bool} {f : α → α} {as : List α}

/-- Every element is one of before, or the first of its kind changed. -/
theorem mem_modifyFirst {b : α} (hb : b ∈ modifyFirst p f as) : b ∈ as ∨ ∃ a ∈ as, as.find? p = some a ∧ b = f a := by
  induction as with
  | nil => cases hb
  | cons a as ih =>
    rw [modifyFirst] at hb
    by_cases ha : p a
    · rw [if_pos ha] at hb
      rcases mem_cons.mp hb with rfl | hb
      · exact .inr ⟨a, mem_cons_self, by rw [find?_cons_of_pos ha], rfl⟩
      · exact .inl (mem_cons_of_mem a hb)
    · rw [if_neg ha] at hb
      rcases mem_cons.mp hb with rfl | hb
      · exact .inl mem_cons_self
      · rcases ih hb with hb | ⟨c, hc, hfind, rfl⟩
        · exact .inl (mem_cons_of_mem a hb)
        · exact .inr ⟨c, mem_cons_of_mem a hc, by rw [find?_cons_of_neg ha, hfind], rfl⟩

/-- Every element is still there, or it was the first of its kind and is there changed. -/
theorem mem_or_of_modifyFirst {a : α} (ha : a ∈ as) :
    a ∈ modifyFirst p f as ∨ as.find? p = some a ∧ f a ∈ modifyFirst p f as := by
  induction as with
  | nil => cases ha
  | cons b as ih =>
    rw [modifyFirst]
    by_cases hb : p b
    · rw [if_pos hb, find?_cons_of_pos hb]
      rcases mem_cons.mp ha with rfl | ha
      · exact .inr ⟨rfl, mem_cons_self⟩
      · exact .inl (mem_cons_of_mem _ ha)
    · rw [if_neg hb, find?_cons_of_neg hb]
      rcases mem_cons.mp ha with rfl | ha
      · exact .inl mem_cons_self
      · exact (ih ha).imp (mem_cons_of_mem _) (And.imp_right (mem_cons_of_mem _))

theorem mem_modifyFirst_of_find? {a : α} (h : as.find? p = some a) : f a ∈ modifyFirst p f as := by
  induction as with
  | nil => cases h
  | cons b as ih =>
    rw [modifyFirst]
    by_cases hb : p b
    · rw [find?_cons_of_pos hb] at h
      cases h
      rw [if_pos hb]
      exact mem_cons_self
    · rw [find?_cons_of_neg hb] at h
      rw [if_neg hb]
      exact mem_cons_of_mem b (ih h)

omit [DecidableEq β] in
/-- A change that keeps the key of the first of its kind keeps the list of keys. -/
theorem map_modifyFirst_of_find? (hkey : ∀ a, as.find? p = some a → key (f a) = key a) :
    (modifyFirst p f as).map key = as.map key := by
  induction as with
  | nil => rfl
  | cons a as ih =>
    rw [modifyFirst]
    by_cases ha : p a
    · rw [if_pos ha, map_cons, map_cons, hkey a (find?_cons_of_pos ha)]
    · rw [if_neg ha, map_cons, map_cons, ih]
      intro b hb
      exact hkey b ((find?_cons_of_neg ha).trans hb)

omit [DecidableEq β] in
/-- A change that keeps the key keeps the list of keys. -/
theorem map_modifyFirst (hkey : ∀ a, p a → key (f a) = key a) (as : List α) :
    (modifyFirst p f as).map key = as.map key :=
  map_modifyFirst_of_find? fun a ha => hkey a (find?_some ha)

/-- The first of a key is changed, for a change that keeps the key. -/
theorem find?_modifyFirst_key (hkey : ∀ a, key (f a) = key a) (as : List α) (k other : β) :
    (modifyFirst (fun a => key a = k) f as).find? (fun a => key a = other)
      = (as.find? fun a => key a = other).map fun a => if other = k then f a else a := by
  induction as with
  | nil => rfl
  | cons a as ih =>
    rw [modifyFirst]
    by_cases hother : key a = other
    · rw [find?_cons_of_pos (by simpa using hother), Option.map_some]
      by_cases hk : key a = k
      · rw [if_pos (by simpa using hk), find?_cons_of_pos (by simpa [hkey] using hother), if_pos (hother.symm.trans hk)]
      · have hne : ¬ other = k := fun heq => hk (hother.trans heq)
        rw [if_neg (by simpa using hk), find?_cons_of_pos (by simpa using hother), if_neg hne]
    · rw [find?_cons_of_neg (by simpa using hother)]
      by_cases hk : key a = k
      · have hne : ¬ other = k := fun heq => hother (hk.trans heq.symm)
        rw [if_pos (by simpa using hk), find?_cons_of_neg (by simpa [hkey] using hother)]
        simp [hne]
      · rw [if_neg (by simpa using hk), find?_cons_of_neg (by simpa using hother), ih]

omit [DecidableEq β] in
theorem modifyFirst_self (as : List α) : modifyFirst p (fun a => a) as = as := by
  induction as with
  | nil => rfl
  | cons a as ih =>
    rw [modifyFirst, ih]
    split
    · rfl
    · rfl

/-! ## Lists that are related element by element -/

section Related

variable {γ δ : Type*} {R : α → γ → Prop} {S : γ → δ → Prop} {T : α → δ → Prop} {as : List α}
  {bs : List γ}

theorem forall₂_trans (htrans : ∀ a b c, R a b → S b c → T a c) {cs : List δ} (hR : Forall₂ R as bs)
    (hS : Forall₂ S bs cs) : Forall₂ T as cs := by
  induction hR generalizing cs with
  | nil =>
    cases hS
    exact .nil
  | cons hab _ ih =>
    cases hS with
    | cons hbc hbcs => exact .cons (htrans _ _ _ hab hbc) (ih hbcs)

/-- A key that the relation keeps is kept by the whole list. -/
theorem map_eq_of_forall₂ {key : α → δ} {key' : γ → δ} (hkey : ∀ a b, R a b → key' b = key a)
    (h : Forall₂ R as bs) : bs.map key' = as.map key := by
  induction h with
  | nil => rfl
  | cons hab _ ih => rw [map_cons, map_cons, hkey _ _ hab, ih]

theorem exists_of_forall₂_left (h : Forall₂ R as bs) {a : α} (ha : a ∈ as) : ∃ b ∈ bs, R a b := by
  induction h with
  | nil => cases ha
  | cons hab _ ih =>
    rcases mem_cons.mp ha with rfl | ha
    · exact ⟨_, mem_cons_self, hab⟩
    · obtain ⟨b, hb, hR⟩ := ih ha
      exact ⟨b, mem_cons_of_mem _ hb, hR⟩

theorem exists_of_forall₂_right (h : Forall₂ R as bs) {b : γ} (hb : b ∈ bs) : ∃ a ∈ as, R a b := by
  induction h with
  | nil => cases hb
  | cons hab _ ih =>
    rcases mem_cons.mp hb with rfl | hb
    · exact ⟨_, mem_cons_self, hab⟩
    · obtain ⟨a, ha, hR⟩ := ih hb
      exact ⟨a, mem_cons_of_mem _ ha, hR⟩

variable {q : γ → Bool}

theorem any_eq_of_forall₂ (hkey : ∀ a b, R a b → q b = p a) (h : Forall₂ R as bs) : bs.any q = as.any p := by
  induction h with
  | nil => rfl
  | cons hab _ ih => rw [any_cons, any_cons, hkey _ _ hab, ih]

/-- The elements of a kind that the relation keeps have the same keys. -/
theorem map_filter_eq_of_forall₂ {f : α → δ} {g : γ → δ} (hkind : ∀ a b, R a b → q b = p a)
    (hkey : ∀ a b, R a b → g b = f a) (h : Forall₂ R as bs) :
    (bs.filter q).map g = (as.filter p).map f := by
  induction h with
  | nil => rfl
  | @cons a b as bs hab _ ih =>
    rw [filter_cons, filter_cons, hkind a b hab]
    split
    · rw [map_cons, map_cons, hkey a b hab, ih]
    · exact ih

/-- There are no more elements of a kind when each was of its kind before. -/
theorem length_filter_le_of_forall₂ (hkind : ∀ a b, R a b → q b = true → p a = true)
    (h : Forall₂ R as bs) : (bs.filter q).length ≤ (as.filter p).length := by
  induction h with
  | nil => exact Nat.le_refl 0
  | @cons a b as bs hab _ ih =>
    by_cases hb : q b = true
    · rw [filter_cons_of_pos hb, filter_cons_of_pos (hkind a b hab hb), length_cons, length_cons]
      omega
    · rw [filter_cons_of_neg hb, filter_cons]
      split
      · rw [length_cons]
        omega
      · exact ih

theorem forall₂_map_self {f : α → γ} (h : ∀ a ∈ as, R a (f a)) : Forall₂ R as (as.map f) :=
  forall₂_map_right_iff.mpr (forall₂_same.mpr h)

/-- A change of the first of its kind relates the lists, if it relates that element. -/
theorem forall₂_modifyFirst {R : α → α → Prop} (hrefl : ∀ a, R a a)
    (h : ∀ a, as.find? p = some a → R a (f a)) : Forall₂ R as (modifyFirst p f as) := by
  induction as with
  | nil => exact .nil
  | cons a as ih =>
    rw [modifyFirst]
    by_cases ha : p a
    · rw [if_pos ha]
      exact .cons (h a (find?_cons_of_pos ha)) (forall₂_same.mpr fun b _ => hrefl b)
    · rw [if_neg ha]
      refine .cons (hrefl a) (ih fun b hb => h b ?_)
      rwa [find?_cons_of_neg ha]

theorem forall₂_imp_of_mem {S : α → γ → Prop} (himp : ∀ a ∈ as, ∀ b, R a b → S a b)
    (h : Forall₂ R as bs) : Forall₂ S as bs := by
  induction h with
  | nil => exact .nil
  | cons hab _ ih =>
    rw [forall_mem_cons] at himp
    exact .cons (himp.1 _ hab) (ih himp.2)

/-- With distinct keys, a change of the first element of a key changes the one that has it. -/
theorem forall₂_modifyFirst_key {key : α → β} (hnodup : (as.map key).Nodup) (k : β) (f : α → α) :
    Forall₂ (fun a b => key a ≠ k ∧ b = a ∨ key a = k ∧ b = f a) as (modifyFirst (fun a => key a = k) f as) := by
  induction as with
  | nil => exact .nil
  | cons a as ih =>
    rw [map_cons, nodup_cons] at hnodup
    rw [modifyFirst]
    by_cases ha : key a = k
    · rw [if_pos (by simpa using ha)]
      refine .cons (.inr ⟨ha, rfl⟩) (forall₂_same.mpr fun b hb => .inl ⟨fun hkey => ?_, rfl⟩)
      exact hnodup.1 (mem_map.mpr ⟨b, hb, hkey.trans ha.symm⟩)
    · rw [if_neg (by simpa using ha)]
      exact .cons (.inl ⟨ha, rfl⟩) (ih hnodup.2)

end Related

/-! ## Maxima -/

theorem le_foldl_max {xs : List ℕ} {init x : ℕ} (h : x ≤ init ∨ x ∈ xs) : x ≤ xs.foldl max init := by
  induction xs generalizing init with
  | nil =>
    rcases h with h | h
    · exact h
    · cases h
  | cons y ys ih =>
    apply ih
    rcases h with h | h
    · exact .inl (Nat.le_trans h (Nat.le_max_left init y))
    · rcases mem_cons.mp h with rfl | h
      · exact .inl (Nat.le_max_right init x)
      · exact .inr h

/-! ## What is gathered from the elements -/

variable {i : ℕ}

section

variable {γ : Type*} {f : γ → List β} {as : List γ} {a : γ}

/-- An element that is replaced takes away what was gathered from it. -/
theorem flatMap_set_perm (b : γ) (h : as[i]? = some a) : (as.set i b).flatMap f ++ f a ~ as.flatMap f ++ f b := by
  induction as generalizing i with
  | nil => cases h
  | cons c cs ih =>
    rw [perm_iff_count]
    intro x
    cases i with
    | zero =>
      obtain rfl := Option.some.inj h
      simp only [set_cons_zero, flatMap_cons, count_append]
      omega
    | succ i =>
      have hcount := (perm_iff_count.mp (ih h)) x
      simp only [set_cons_succ, flatMap_cons, count_append] at hcount ⊢
      omega

/-- The first of its kind that is changed takes away what was gathered from it. -/
theorem flatMap_modifyFirst_perm {p : γ → Bool} {g : γ → γ} (h : as.find? p = some a) :
    (as.modifyFirst p g).flatMap f ++ f a ~ as.flatMap f ++ f (g a) := by
  induction as with
  | nil => cases h
  | cons c cs ih =>
    rw [perm_iff_count]
    intro x
    rw [modifyFirst]
    by_cases hc : p c
    · obtain rfl := Option.some.inj ((find?_cons_of_pos hc).symm.trans h)
      simp only [if_pos hc, flatMap_cons, count_append]
      omega
    · have hcount := (perm_iff_count.mp (ih ((find?_cons_of_neg hc).symm.trans h))) x
      simp only [if_neg hc, flatMap_cons, count_append] at hcount ⊢
      omega

/-- The first of its kind that is erased takes away what was gathered from it. -/
theorem flatMap_eraseP_perm {p : γ → Bool}
    (h : as.find? p = some a) : as.flatMap f ~ f a ++ (as.eraseP p).flatMap f := by
  induction as with
  | nil => cases h
  | cons c cs ih =>
    rw [perm_iff_count]
    intro x
    by_cases hc : p c
    · obtain rfl := Option.some.inj ((find?_cons_of_pos hc).symm.trans h)
      simp [eraseP_cons_of_pos hc]
    · have hcount := (perm_iff_count.mp (ih ((find?_cons_of_neg hc).symm.trans h))) x
      simp only [eraseP_cons_of_neg hc, flatMap_cons, count_append] at hcount ⊢
      omega

end

omit [DecidableEq β] in
/-- What is gathered, apart from the first of its kind, stays when that one is changed. -/
theorem exists_flatMap_modifyFirst {p : α → Bool} {f : α → List β} {as : List α} {a : α} (h : as.find? p = some a) :
    ∃ rest, as.flatMap f ~ f a ++ rest ∧ ∀ g, (as.modifyFirst p g).flatMap f ~ f (g a) ++ rest := by
  induction as with
  | nil => cases h
  | cons c cs ih =>
    by_cases hc : p c
    · obtain rfl := Option.some.inj ((find?_cons_of_pos hc).symm.trans h)
      refine ⟨cs.flatMap f, .refl _, fun g => ?_⟩
      rw [modifyFirst, if_pos hc, flatMap_cons]
    · obtain ⟨rest, hrest, hmodify⟩ := ih ((find?_cons_of_neg hc).symm.trans h)
      refine ⟨f c ++ rest, ?_, fun g => ?_⟩
      · rw [flatMap_cons]
        exact (hrest.append_left _).trans (perm_append_comm_assoc ..)
      · rw [modifyFirst, if_neg hc, flatMap_cons]
        exact ((hmodify g).append_left _).trans (perm_append_comm_assoc ..)

/-- Only the first of its kind matters. -/
theorem modifyFirst_congr {p : α → Bool} {f g : α → α} {as : List α} {a : α}
    (h : as.find? p = some a) (heq : f a = g a) : as.modifyFirst p f = as.modifyFirst p g := by
  induction as with
  | nil => rfl
  | cons c cs ih =>
    by_cases hc : p c
    · obtain rfl := Option.some.inj ((find?_cons_of_pos hc).symm.trans h)
      rw [modifyFirst, modifyFirst, if_pos hc, if_pos hc, heq]
    · rw [modifyFirst, modifyFirst, if_neg hc, if_neg hc, ih ((find?_cons_of_neg hc).symm.trans h)]

/-- A change of the first of its kind after another one. -/
theorem modifyFirst_modifyFirst {p : α → Bool} {f g : α → α} (hkind : ∀ a, p (f a) = p a)
    (as : List α) : (as.modifyFirst p f).modifyFirst p g = as.modifyFirst p (g ∘ f) := by
  induction as with
  | nil => rfl
  | cons a as ih =>
    by_cases ha : p a
    · simp [modifyFirst, ha, hkind]
    · simp [modifyFirst, ha, ih]

section

variable {key : α → β} {as : List α}

/-- With distinct keys, an element is changed by its key as it is by its place. -/
theorem set_eq_modifyFirst (hnodup : (as.map key).Nodup) {a : α} (h : as[i]? = some a) (f : α → α) :
    as.set i (f a) = as.modifyFirst (fun b => key b = key a) f := by
  induction as generalizing i with
  | nil => cases h
  | cons c cs ih =>
    rw [map_cons, nodup_cons] at hnodup
    cases i with
    | zero =>
      obtain rfl := Option.some.inj h
      simp [modifyFirst]
    | succ i =>
      have hne : key c ≠ key a := fun heq => hnodup.1 (heq ▸ mem_map_of_mem (mem_of_getElem? h))
      simp [modifyFirst, hne, ih hnodup.2 h]

/-- With distinct keys, an element is exchanged by its key as it is by its place. -/
theorem set_eq_map (hnodup : (as.map key).Nodup) {a : α}
    (h : as[i]? = some a) (b : α) : as.set i b = as.map fun c => if key c = key a then b else c := by
  induction as generalizing i with
  | nil => cases h
  | cons c cs ih =>
    rw [map_cons, nodup_cons] at hnodup
    cases i with
    | zero =>
      obtain rfl := Option.some.inj h
      have hrest (d : α) (hd : d ∈ cs) : (if key d = key c then b else d) = d := by
        have hne : key d ≠ key c := fun heq => hnodup.1 (heq ▸ mem_map_of_mem hd)
        exact if_neg hne
      rw [set_cons_zero, map_cons, if_pos rfl, map_congr_left hrest, map_id'']
      exact fun _ => rfl
    | succ i =>
      have hne : key c ≠ key a := fun heq => hnodup.1 (heq ▸ mem_map_of_mem (mem_of_getElem? h))
      rw [set_cons_succ, map_cons, if_neg hne, ih hnodup.2 h]

/-- With distinct keys, an element is erased by its key as it is by its place. -/
theorem eraseIdx_eq_filter (hnodup : (as.map key).Nodup) {a : α}
    (h : as[i]? = some a) : as.eraseIdx i = as.filter fun b => key b ≠ key a := by
  induction as generalizing i with
  | nil => cases h
  | cons c cs ih =>
    rw [map_cons, nodup_cons] at hnodup
    cases i with
    | zero =>
      obtain rfl := Option.some.inj h
      have hrest : ∀ b ∈ cs, key b ≠ key c := fun b hb heq => hnodup.1 (heq ▸ mem_map_of_mem hb)
      rw [filter_cons_of_neg (by simp)]
      exact (filter_eq_self.mpr fun b hb => by simpa using hrest b hb).symm
    | succ i =>
      have hne : key c ≠ key a := fun heq => hnodup.1 (heq ▸ mem_map_of_mem (mem_of_getElem? h))
      rw [eraseIdx_cons_succ, ih hnodup.2 h, filter_cons_of_pos (by simpa using hne)]

/-- With distinct keys, the first element of a key is the only one. -/
theorem eraseP_eq_filter (hnodup : (as.map key).Nodup) (k : β) :
    as.eraseP (fun b => key b = k) = as.filter fun b => key b ≠ k := by
  induction as with
  | nil => rfl
  | cons a as ih =>
    rw [map_cons, nodup_cons] at hnodup
    by_cases hkey : key a = k
    · have hrest : ∀ b ∈ as, key b ≠ k := fun b hb heq => hnodup.1 (hkey.trans heq.symm ▸ mem_map_of_mem hb)
      rw [eraseP_cons_of_pos (by simpa using hkey), filter_cons_of_neg (by simpa using hkey)]
      exact (filter_eq_self.mpr fun b hb => by simpa using hrest b hb).symm
    · rw [eraseP_cons_of_neg (by simpa using hkey), ih hnodup.2, filter_cons_of_pos (by simpa using hkey)]

/-- With distinct keys, an element comes apart from the ones of other keys. -/
theorem perm_cons_filter_key (hnodup : (as.map key).Nodup) {a : α}
    (ha : a ∈ as) : as ~ a :: as.filter fun b => key b ≠ key a := by
  obtain ⟨i, hi, rfl⟩ := getElem_of_mem ha
  rw [← eraseIdx_eq_filter hnodup (getElem?_eq_getElem hi)]
  exact (getElem_cons_eraseIdx_perm hi).symm

omit [DecidableEq β] in
/-- With distinct keys, the keys of the elements that are kept are those that are not dropped. -/
theorem mem_map_filter_false (hnodup : (as.map key).Nodup) {p : α → Bool} {k : β} :
    k ∈ (as.filter fun a => p a = false).map key ↔ k ∈ as.map key ∧ k ∉ (as.filter p).map key := by
  constructor
  · intro hk
    obtain ⟨a, ha, rfl⟩ := mem_map.mp hk
    obtain ⟨ha, hkept⟩ := mem_filter.mp ha
    refine ⟨mem_map_of_mem ha, fun hdropped => ?_⟩
    obtain ⟨b, hb, heq⟩ := mem_map.mp hdropped
    obtain ⟨hb, hdrop⟩ := mem_filter.mp hb
    obtain rfl := inj_on_of_nodup_map hnodup hb ha heq
    simp [hdrop] at hkept
  · rintro ⟨hk, hkept⟩
    obtain ⟨a, ha, rfl⟩ := mem_map.mp hk
    refine mem_map_of_mem (mem_filter.mpr ⟨ha, ?_⟩)
    by_contra hdrop
    exact hkept (mem_map_of_mem (mem_filter.mpr ⟨ha, by simpa using hdrop⟩))

end

variable {bs : List β}

section

variable {R : α → β → Prop}

omit [DecidableEq β] in
/-- The partner of a list that ends with an element ends with a partner of it. -/
theorem exists_concat_of_forall₂ {a : α} (h : Forall₂ R (as ++ [a]) bs) :
    ∃ bs' b, bs = bs' ++ [b] ∧ Forall₂ R as bs' ∧ R a b := by
  induction as generalizing bs with
  | nil =>
    obtain ⟨b, bs, hb, hnil, rfl⟩ := forall₂_cons_left_iff.mp h
    rw [forall₂_nil_left_iff.mp hnil]
    exact ⟨[], b, rfl, .nil, hb⟩
  | cons c as ih =>
    obtain ⟨d, bs, hd, hrest, rfl⟩ := forall₂_cons_left_iff.mp h
    obtain ⟨bs', b, rfl, hinit, hb⟩ := ih hrest
    exact ⟨d :: bs', b, rfl, .cons hd hinit, hb⟩

omit [DecidableEq β] in
theorem isChain_of_forall₂ {P : α → α → Prop} {Q : β → β → Prop}
    (hstep : ∀ a a' b b', R a b → R a' b' → P a a' → Q b b') (h : Forall₂ R as bs) (hchain : as.IsChain P) :
    bs.IsChain Q := by
  induction h with
  | nil => exact .nil
  | cons hab hrest ih =>
    cases hrest with
    | nil => exact .singleton _
    | cons hab' hrest =>
      obtain ⟨hrel, hchain⟩ := isChain_cons_cons.mp hchain
      exact isChain_cons_cons.mpr ⟨hstep _ _ _ _ hab hab' hrel, ih hchain⟩

omit [DecidableEq β] in
theorem exists_head?_of_forall₂ (h : Forall₂ R as bs) {b : β} (hb : b ∈ bs.head?) : ∃ a ∈ as.head?, R a b := by
  cases h with
  | nil => cases hb
  | cons hab _ =>
    obtain rfl := Option.some.inj hb
    exact ⟨_, rfl, hab⟩

omit [DecidableEq β] in
theorem exists_getLast?_of_forall₂ (h : Forall₂ R as bs) {b : β} (hb : b ∈ bs.getLast?) : ∃ a ∈ as.getLast?, R a b := by
  induction h with
  | nil => cases hb
  | cons hab hrest ih =>
    cases hrest with
    | nil =>
      obtain rfl := Option.some.inj hb
      exact ⟨_, rfl, hab⟩
    | cons hab' hrest =>
      rw [getLast?_cons_cons] at hb ⊢
      exact ih hb

omit [DecidableEq β] in
/-- A list and what a function that is defined on all of it gives. -/
theorem forall₂_filterMap {f : α → Option β}
    (h : ∀ a ∈ as, ∃ b, f a = some b ∧ R a b) : Forall₂ R as (as.filterMap f) := by
  induction as with
  | nil => exact .nil
  | cons a as ih =>
    obtain ⟨b, hb, hrel⟩ := h a mem_cons_self
    rw [filterMap_cons, hb]
    exact .cons hrel (ih fun a' ha' => h a' (mem_cons_of_mem a ha'))

end

/-! ## Distinct elements -/

/-- The elements behind those seen, each once. -/
def distinct (seen : List β) : List β → List β
  | [] => seen
  | b :: bs => if b ∈ seen then distinct seen bs else distinct (seen ++ [b]) bs

theorem mem_distinct {seen : List β} {b : β} : b ∈ distinct seen bs ↔ b ∈ seen ∨ b ∈ bs := by
  induction bs generalizing seen with
  | nil => simp [distinct]
  | cons c bs ih =>
    rw [distinct]
    by_cases hc : c ∈ seen
    · rw [if_pos hc, ih, mem_cons]
      constructor
      · exact fun h => h.imp_right .inr
      · rintro (h | rfl | h)
        · exact .inl h
        · exact .inl hc
        · exact .inr h
    · rw [if_neg hc, ih, mem_append, mem_singleton, mem_cons, or_assoc]

theorem nodup_distinct {seen : List β} (hseen : seen.Nodup) (bs : List β) : (distinct seen bs).Nodup := by
  induction bs generalizing seen with
  | nil => exact hseen
  | cons c bs ih =>
    rw [distinct]
    by_cases hc : c ∈ seen
    · rw [if_pos hc]
      exact ih hseen
    · rw [if_neg hc]
      exact ih (hseen.append (nodup_singleton c) (by simpa using hc))

end List
