import Mathlib.Data.List.Chain
import Mathlib.Data.List.Nodup

/-!
# Fallible computations

When a computation that may stop with an error has a result: every step of it had one.
-/

namespace Fallible

open List

variable {ε ε' α β : Type}

/-- `Option::ok_or`. -/
def okOr (error : ε) : Option α → Except ε α
  | some a => .ok a
  | none => .error error

@[simp] theorem okOr_some (error : ε) (a : α) : okOr error (some a) = .ok a := rfl

@[simp] theorem okOr_eq_ok {error : ε} {value : Option α} {a : α} : okOr error value = .ok a ↔ value = some a := by
  cases value with
  | none => simp [okOr]
  | some b => rw [okOr_some, Except.ok.injEq, Option.some.injEq]

@[simp] theorem ok_bind (a : α) (f : α → Except ε β) : (Except.ok a >>= f) = f a := rfl

/-- The error that a computation stopped with. -/
def error? : Except ε α → Option ε
  | .ok _ => none
  | .error error => some error

section

variable {x : Except ε α}

theorem error?_eq_none : error? x = none ↔ ∃ a, x = .ok a := by
  cases x with
  | error error | ok a => simp [error?]

theorem error?_eq_some {error : ε} : error? x = some error ↔ x = .error error := by
  cases x with
  | error other | ok a => simp [error?]

theorem bind_eq_ok {f : α → Except ε β} {b : β} : x >>= f = .ok b ↔ ∃ a, x = .ok a ∧ f a = .ok b := by
  cases x with
  | error error => simp [bind, Except.bind]
  | ok a => simp

/-- A computation fails with its first part, or after it. -/
theorem bind_eq_error {f : α → Except ε β} {error : ε} :
    x >>= f = .error error ↔ x = .error error ∨ ∃ a, x = .ok a ∧ f a = .error error := by
  cases x with
  | error other => simp [bind, Except.bind]
  | ok a => simp

end

theorem okOr_eq_error {error error' : ε} {value : Option α} :
    okOr error value = .error error' ↔ value = none ∧ error = error' := by
  cases value with
  | none => simp [okOr]
  | some b => simp

/-- A check, and then the rest of a computation. -/
theorem then_eq_ok {x : Except ε Unit} {f : Unit → Except ε β} {b : β} :
    x >>= f = .ok b ↔ x = .ok () ∧ f () = .ok b := by
  rw [bind_eq_ok]
  exact ⟨fun ⟨_, hx, hf⟩ => ⟨hx, hf⟩, fun ⟨hx, hf⟩ => ⟨(), hx, hf⟩⟩

section

variable {x : Except ε α}

theorem exists_ok (h : x.toOption.isSome) : ∃ a, x = .ok a := by
  cases x with
  | error error => cases h
  | ok a => exact ⟨a, rfl⟩

theorem mapError_eq_ok {f : ε → ε'} {a : α} : x.mapError f = .ok a ↔ x = .ok a := by
  cases x with
  | error error | ok b => simp [Except.mapError]

theorem mapError_eq_error {f : ε → ε'} {error : ε'} :
    x.mapError f = .error error ↔ ∃ cause, x = .error cause ∧ f cause = error := by
  cases x with
  | error cause | ok b => simp [Except.mapError]

/-- A check before the rest of a computation. -/
theorem unless_eq_ok {p : Prop} [Decidable p] {error : ε} {a : α} :
    (if p then .error error else x) = .ok a ↔ ¬ p ∧ x = .ok a := by
  by_cases h : p
  · simp [h]
  · simp [h]

end

/-- Stop with the error if the proposition holds. -/
def refuse (p : Prop) [Decidable p] (error : ε) : Except ε Unit := if p then .error error else .ok ()

@[simp] theorem refuse_eq_ok {p : Prop} [Decidable p] {error : ε} {u : Unit} : refuse p error = .ok u ↔ ¬ p := by
  by_cases h : p
  · simp [refuse]
  · simp [refuse]

theorem refuse_eq_error {p : Prop} [Decidable p] {error error' : ε} :
    refuse p error = .error error' ↔ p ∧ error = error' := by
  by_cases h : p
  · simp [refuse, h]
  · simp [refuse, h]

/-- A check of every element of a list. -/
def all (check : α → Except ε Unit) : List α → Except ε Unit
  | [] => .ok ()
  | a :: as => do
    check a
    all check as

variable {as : List α}

theorem all_eq_ok {check : α → Except ε Unit} : all check as = .ok () ↔ ∀ a ∈ as, check a = .ok () := by
  induction as with
  | nil => simp [all]
  | cons a as ih =>
    rw [all, bind_eq_ok, forall_mem_cons, ← ih]
    exact ⟨fun ⟨_, ha, has⟩ => ⟨ha, has⟩, fun ⟨ha, has⟩ => ⟨(), ha, has⟩⟩

/-- A check of every element of a list against the elements before it. -/
def allAfter (check : List α → α → Except ε Unit) (before : List α) : List α → Except ε Unit
  | [] => .ok ()
  | a :: as => do
    check before a
    allAfter check (before ++ [a]) as

variable {check : List α → α → Except ε Unit} {before : List α}

/-- Every element has passed the check after some elements. -/
theorem check_of_allAfter (h : allAfter check before as = .ok ()) : ∀ a ∈ as, ∃ before, check before a = .ok () := by
  induction as generalizing before with
  | nil => exact forall_mem_nil _
  | cons a as ih =>
    rw [allAfter, bind_eq_ok] at h
    obtain ⟨⟨⟩, hfirst, hrest⟩ := h
    exact forall_mem_cons.mpr ⟨⟨before, hfirst⟩, ih hrest⟩

/-- A check that refuses a key seen before leaves every key once. -/
theorem nodup_of_allAfter {κ : Type} {key : α → κ}
    (hcheck : ∀ before a, check before a = .ok () → key a ∉ before.map key)
    (hbefore : (before.map key).Nodup) (h : allAfter check before as = .ok ()) :
    ((before ++ as).map key).Nodup := by
  induction as generalizing before with
  | nil => rwa [append_nil]
  | cons a as ih =>
    rw [allAfter, bind_eq_ok] at h
    obtain ⟨⟨⟩, ha, has⟩ := h
    have hafter : before ++ a :: as = before ++ [a] ++ as := by simp
    rw [hafter]
    apply ih _ has
    rw [map_append, nodup_append]
    exact ⟨hbefore, by simp, by
      rintro key' hkey' _ (_ | ⟨_, ⟨⟩⟩) rfl
      exact hcheck before a ha hkey'⟩

/-- A check that relates an element to each one before it, and another check of each element. -/
theorem allAfter_pairwise {R : α → α → Prop} {rest : α → Prop}
    (hcheck : ∀ before a, check before a = .ok () ↔ (∀ b ∈ before, R b a) ∧ rest a) :
    allAfter check before as = .ok () ↔ (∀ b ∈ before, ∀ a ∈ as, R b a) ∧ as.Pairwise R ∧ ∀ a ∈ as, rest a := by
  induction as generalizing before with
  | nil => simp [allAfter]
  | cons a as ih =>
    rw [allAfter, bind_eq_ok, pairwise_cons]
    simp only [hcheck, ih, forall_mem_append, forall_mem_singleton, forall_mem_cons]
    constructor
    · rintro ⟨-, ⟨hbefore, ha⟩, ⟨hrest, hnext⟩, hpairs, has⟩
      exact ⟨fun b hb => ⟨hbefore b hb, hrest b hb⟩, ⟨hnext, hpairs⟩, ha, has⟩
    · rintro ⟨hbefore, ⟨hnext, hpairs⟩, ha, has⟩
      exact ⟨(), ⟨fun b hb => (hbefore b hb).1, ha⟩, ⟨fun b hb => (hbefore b hb).2, hnext⟩, hpairs, has⟩

/-- A check that relates an element to the one before it, and another check of each element. -/
theorem allAfter_chain {R : α → α → Prop} {rest : α → Prop}
    (hcheck : ∀ before a, check before a = .ok () ↔ (∀ b ∈ before.getLast?, R b a) ∧ rest a) :
    allAfter check before as = .ok () ↔
      (∀ b ∈ before.getLast?, ∀ a ∈ as.head?, R b a) ∧ as.IsChain R ∧ ∀ a ∈ as, rest a := by
  induction as generalizing before with
  | nil => simp [allAfter]
  | cons a as ih =>
    rw [allAfter, bind_eq_ok, isChain_cons, forall_mem_cons]
    simp only [hcheck, ih, getLast?_concat, head?_cons, Option.mem_some_iff, forall_eq']
    constructor
    · rintro ⟨-, ⟨hbefore, ha⟩, hnext, hchain, has⟩
      exact ⟨hbefore, ⟨hnext, hchain⟩, ha, has⟩
    · rintro ⟨hbefore, ⟨hnext, hchain⟩, ha, has⟩
      exact ⟨(), ⟨hbefore, ha⟩, hnext, hchain, has⟩

/-! ## Results over a list -/

/-- The results over a list, joined, unless one of them fails. -/
def concat (f : α → Except ε (List β)) : List α → Except ε (List β)
  | [] => .ok []
  | a :: as => do
    let first ← f a
    let rest ← concat f as
    .ok (first ++ rest)

variable {bs : List β}

section

variable {f : α → Except ε (List β)}

theorem concat_cons_eq_ok {a : α} :
    concat f (a :: as) = .ok bs ↔ ∃ first rest, f a = .ok first ∧ concat f as = .ok rest ∧ bs = first ++ rest := by
  rw [concat, bind_eq_ok]
  constructor
  · rintro ⟨first, hfirst, h⟩
    obtain ⟨rest, hrest, h⟩ := bind_eq_ok.mp h
    exact ⟨first, rest, hfirst, hrest, (Except.ok.inj h).symm⟩
  · rintro ⟨first, rest, hfirst, hrest, rfl⟩
    exact ⟨first, hfirst, bind_eq_ok.mpr ⟨rest, hrest, rfl⟩⟩

theorem concat_isOk : (∃ bs, concat f as = .ok bs) ↔ ∀ a ∈ as, ∃ bs, f a = .ok bs := by
  induction as with
  | nil => exact ⟨fun _ => forall_mem_nil _, fun _ => ⟨[], rfl⟩⟩
  | cons a as ih =>
    rw [forall_mem_cons, ← ih]
    simp only [concat_cons_eq_ok]
    constructor
    · rintro ⟨bs, first, rest, hfirst, hrest, -⟩
      exact ⟨⟨first, hfirst⟩, rest, hrest⟩
    · rintro ⟨⟨first, hfirst⟩, rest, hrest⟩
      exact ⟨first ++ rest, first, rest, hfirst, hrest, rfl⟩

theorem mem_concat (h : concat f as = .ok bs) {b : β} : b ∈ bs ↔ ∃ a ∈ as, ∃ part, f a = .ok part ∧ b ∈ part := by
  induction as generalizing bs with
  | nil =>
    obtain rfl := Except.ok.inj h
    exact ⟨fun hmem => absurd hmem not_mem_nil, fun ⟨_, ha, _⟩ => absurd ha not_mem_nil⟩
  | cons a as ih =>
    obtain ⟨first, rest, hfirst, hrest, rfl⟩ := concat_cons_eq_ok.mp h
    rw [mem_append, ih hrest, exists_mem_cons_iff]
    refine or_congr_left ⟨fun hmem => ⟨first, hfirst, hmem⟩, ?_⟩
    rintro ⟨part, hpart, hmem⟩
    exact Except.ok.inj (hfirst.symm.trans hpart) ▸ hmem

/-- Joined results are related pairwise if each result is, and the results of different elements are. -/
theorem pairwise_concat {R : β → β → Prop} (h : concat f as = .ok bs)
    (hparts : ∀ a ∈ as, ∀ part, f a = .ok part → part.Pairwise R)
    (hapart : as.Pairwise fun a a' => ∀ part part', f a = .ok part → f a' = .ok part' → ∀ b ∈ part, ∀ b' ∈ part', R b b') :
    bs.Pairwise R := by
  induction as generalizing bs with
  | nil =>
    obtain rfl := Except.ok.inj h
    exact .nil
  | cons a as ih =>
    obtain ⟨first, rest, hfirst, hrest, rfl⟩ := concat_cons_eq_ok.mp h
    obtain ⟨hparta, hparts⟩ := forall_mem_cons.mp hparts
    obtain ⟨haparta, hapart⟩ := pairwise_cons.mp hapart
    refine pairwise_append.mpr ⟨hparta first hfirst, ih hrest hparts hapart, fun b hb b' hb' => ?_⟩
    obtain ⟨a', ha', part', hpart', hb'⟩ := (mem_concat hrest).mp hb'
    exact haparta a' ha' first part' hfirst hpart' b hb b' hb'

end

/-! ## Errors that are allowed -/

section Ends

variable {allowed : ε → Prop} {post : α → Prop} {post' : β → Prop} {x : Except ε α}
  {f : α → Except ε β}

/-- A computation that stops with an allowed error only, and returns what it should otherwise. -/
def Ends (allowed : ε → Prop) (post : α → Prop) : Except ε α → Prop
  | .error error => allowed error
  | .ok a => post a

theorem Ends.bind (hx : Ends allowed post x) (hf : ∀ a, post a → Ends allowed post' (f a)) :
    Ends allowed post' (x >>= f) := by
  cases x with
  | error error => exact hx
  | ok a => exact hf a hx

theorem Ends.of_ok {a : α} (h : x = .ok a) (ha : post a) : Ends allowed post x := by
  subst h
  exact ha

/-- The error is the only one, so without it there is a result. -/
theorem Ends.exists_ok {error : ε} (h : Ends (· = error) post x) (hx : x ≠ .error error) : ∃ a, x = .ok a ∧ post a := by
  cases x with
  | error other => exact absurd (congrArg Except.error h) hx
  | ok a => exact ⟨a, rfl, h⟩

/-- A check may refuse with an allowed error. -/
theorem Ends.of_limit {p : Prop} [Decidable p] {error : ε} {f : Unit → Except ε β}
    (herror : allowed error) (hf : ¬ p → Ends allowed post' (f ())) :
    Ends allowed post' (refuse p error >>= f) := by
  by_cases h : p
  · rw [refuse, if_pos h]
    exact herror
  · rw [refuse, if_neg h]
    exact hf h

/-- A check that does not refuse can be left out. -/
theorem Ends.of_check {p : Prop} [Decidable p] {error : ε} {f : Unit → Except ε β} (hp : ¬ p)
    (hf : Ends allowed post' (f ())) : Ends allowed post' (refuse p error >>= f) := by
  rwa [refuse_eq_ok.mpr hp]

theorem ends_check {p : Prop} [Decidable p] {error : ε} (hp : ¬ p) : Ends allowed (fun _ => True) (refuse p error) :=
  .of_ok (a := ()) (refuse_eq_ok.mpr hp) trivial

theorem ends_all {check : α → Except ε Unit} {as : List α} (h : ∀ a ∈ as, Ends allowed (fun _ => True) (check a)) :
    Ends allowed (fun _ => True) (all check as) := by
  induction as with
  | nil => exact trivial
  | cons a as ih =>
    rw [forall_mem_cons] at h
    exact h.1.bind fun _ _ => ih h.2

end Ends

/-! ## What results have -/

section Returns

variable {post : α → Prop} {post' : β → Prop} {x : Except ε α} {f : α → Except ε β}

/-- The result, if there is one, has the property. -/
def Returns (post : α → Prop) (x : Except ε α) : Prop := ∀ a, x = .ok a → post a

theorem Returns.ok {a : α} (ha : post a) : Returns post (.ok a : Except ε α) := by
  rintro b ⟨⟩
  exact ha

theorem Returns.error (error : ε) : Returns post (.error error : Except ε α) := by
  rintro a ⟨⟩

theorem Returns.bind (h : ∀ a, x = .ok a → Returns post' (f a)) : Returns post' (x >>= f) := by
  intro b hb
  obtain ⟨a, ha, hb⟩ := bind_eq_ok.mp hb
  exact h a ha b hb

theorem Returns.imp {post₂ : α → Prop} (h : Returns post x) (himp : ∀ a, post a → post₂ a) :
    Returns post₂ x := fun a ha => himp a (h a ha)

theorem Returns.ite {p : Prop} [Decidable p] {y : Except ε α} (hx : p → Returns post x)
    (hy : ¬ p → Returns post y) : Returns post (if p then x else y) := by
  by_cases h : p
  · rw [if_pos h]
    exact hx h
  · rw [if_neg h]
    exact hy h

end Returns

/-! ## Computations that stop without an error -/

/-- The results over a list, joined. -/
def gather (f : α → Option (List β)) : List α → Option (List β)
  | [] => some []
  | a :: as => match f a, gather f as with
    | some bs, some rest => some (bs ++ rest)
    | _, _ => none

theorem gather_eq_some {f : α → Option (List β)} :
    gather f as = some bs ↔ (∀ a ∈ as, (f a).isSome) ∧ bs = as.flatMap fun a => (f a).getD [] := by
  induction as generalizing bs with
  | nil => exact ⟨fun h => ⟨forall_mem_nil _, (Option.some.inj h).symm⟩, fun h => congrArg some h.2.symm⟩
  | cons a as ih =>
    rw [gather, flatMap_cons, forall_mem_cons]
    cases hfa : f a with
    | none => exact ⟨fun h => (by cases h), fun h => (by cases h.1.1)⟩
    | some first =>
      cases hrest : gather f as with
      | none =>
        refine ⟨fun h => (by cases h), fun h => ?_⟩
        have hsome := ih.mpr ⟨h.1.2, rfl⟩
        rw [hrest] at hsome
        cases hsome
      | some rest =>
        obtain ⟨hall, hrest⟩ := ih.mp hrest
        simp only [Option.some.injEq, Option.isSome_some, true_and, Option.getD_some, ← hrest]
        exact ⟨fun h => ⟨hall, h.symm⟩, fun h => h.2.symm⟩

end Fallible
