import Mathlib.Data.Int.Order.Basic
import Mathlib.Data.List.Basic

/-!
# The runs of a predicate on an interval

The positions of an interval at which a predicate holds, as the half-open intervals that cover them, each as long as it can be.
-/

namespace Spans

open List

/-- The intervals are the runs of the predicate from the start up to the stop, in order. -/
structure Runs (p : ℤ → Prop) (start stop : ℤ) (runs : List (ℤ × ℤ)) : Prop where
  covers : ∀ position, (∃ run ∈ runs, run.1 ≤ position ∧ position < run.2) ↔ start ≤ position ∧ position < stop ∧ p position
  within : ∀ run ∈ runs, start ≤ run.1 ∧ run.1 < run.2 ∧ run.2 ≤ stop
  apart : runs.Pairwise fun run next => run.2 < next.1

variable {p : ℤ → Prop} {start next stop : ℤ} {runs : List (ℤ × ℤ)}

/-- The predicate holds nowhere. -/
theorem Runs.none (hnone : ∀ position, start ≤ position → position < stop → ¬ p position) : Runs p start stop [] where
  covers position := by
    refine ⟨fun ⟨run, hrun, _⟩ => absurd hrun not_mem_nil, fun ⟨hfrom, hto, hposition⟩ => ?_⟩
    exact absurd hposition (hnone position hfrom hto)
  within := forall_mem_nil _
  apart := .nil

theorem Runs.nil (hempty : stop ≤ start) : Runs p start stop [] := .none fun position hfrom hto => by omega

/-- The predicate does not hold at the start. -/
theorem Runs.skip (h : Runs p (start + 1) stop runs) (hstart : ¬ p start) : Runs p start stop runs where
  covers position := by
    rw [h.covers]
    constructor
    · rintro ⟨hfrom, hto, hposition⟩
      exact ⟨by omega, hto, hposition⟩
    · rintro ⟨hfrom, hto, hposition⟩
      have hne : position ≠ start := fun heq => hstart (heq ▸ hposition)
      exact ⟨by omega, hto, hposition⟩
  within run hrun := by
    obtain ⟨hfrom, hlt, hto⟩ := h.within run hrun
    exact ⟨by omega, hlt, hto⟩
  apart := h.apart

/-- The predicate holds from the start on up to a position where it stops to. -/
theorem Runs.cons (h : Runs p next stop runs) (hlt : start < next) (hle : next ≤ stop)
    (hall : ∀ position, start ≤ position → position < next → p position) (hnext : next < stop → ¬ p next) :
    Runs p start stop ((start, next) :: runs) where
  covers position := by
    rw [exists_mem_cons_iff, h.covers]
    constructor
    · rintro (⟨hfrom, hto⟩ | ⟨hfrom, hto, hposition⟩)
      · exact ⟨hfrom, lt_of_lt_of_le hto hle, hall position hfrom hto⟩
      · exact ⟨by omega, hto, hposition⟩
    · rintro ⟨hfrom, hto, hposition⟩
      rcases lt_or_ge position next with hbefore | hafter
      · exact .inl ⟨hfrom, hbefore⟩
      · exact .inr ⟨hafter, hto, hposition⟩
  within := by
    refine forall_mem_cons.mpr ⟨⟨le_rfl, hlt, hle⟩, fun run hrun => ?_⟩
    obtain ⟨hfrom, hne, hto⟩ := h.within run hrun
    exact ⟨by omega, hne, hto⟩
  apart := by
    refine pairwise_cons.mpr ⟨fun run hrun => ?_, h.apart⟩
    -- a run cannot start where the predicate has stopped to hold
    obtain ⟨hfrom, hne, hto⟩ := h.within run hrun
    obtain ⟨-, -, hholds⟩ := (h.covers run.1).mp ⟨run, hrun, le_rfl, hne⟩
    refine lt_of_le_of_ne hfrom fun heq => ?_
    dsimp only at heq
    exact hnext (by omega) (heq ▸ hholds)

/-- The predicate holds everywhere. -/
theorem Runs.whole (hlt : start < stop) (hall : ∀ position, start ≤ position → position < stop → p position) :
    Runs p start stop [(start, stop)] :=
  .cons (.nil le_rfl) hlt le_rfl hall fun h => absurd h (lt_irrefl stop)

theorem Runs.congr {q : ℤ → Prop} (h : Runs p start stop runs)
    (hsame : ∀ position, start ≤ position → position < stop → (p position ↔ q position)) : Runs q start stop runs where
  covers position := by
    rw [h.covers]
    exact and_congr_right fun hfrom => and_congr_right fun hto => hsame position hfrom hto
  within := h.within
  apart := h.apart

/-! ## Carving an interval out -/

/-- What an interval leaves of a run. -/
def carve (low high : ℤ) (run : ℤ × ℤ) : List (ℤ × ℤ) :=
  if high ≤ run.1 ∨ run.2 ≤ low then [run]
  else (if run.1 < low then [(run.1, min low run.2)] else []) ++ if high < run.2 then [(max high run.1, run.2)] else []

section Carve

variable {low high : ℤ} {run : ℤ × ℤ}

theorem mem_carve {piece : ℤ × ℤ} (h : piece ∈ carve low high run) :
    piece = run ∧ (high ≤ run.1 ∨ run.2 ≤ low) ∨ piece = (run.1, low) ∧ run.1 < low ∧ low < run.2 ∨
      piece = (high, run.2) ∧ run.1 < high ∧ high < run.2 := by
  rw [carve] at h
  split at h
  · rename_i hclear
    exact .inl ⟨mem_singleton.mp h, hclear⟩
  · rcases mem_append.mp h with h | h
    · obtain ⟨hleft, rfl⟩ := by simpa using h
      refine .inr (.inl ⟨?_, hleft, by omega⟩)
      rw [min_eq_left (by omega)]
    · obtain ⟨hright, rfl⟩ := by simpa using h
      refine .inr (.inr ⟨?_, by omega, hright⟩)
      rw [max_eq_left (by omega)]

theorem covers_carve (position : ℤ) : (∃ piece ∈ carve low high run, piece.1 ≤ position ∧ position < piece.2) ↔
      (run.1 ≤ position ∧ position < run.2) ∧ ¬(low ≤ position ∧ position < high) := by
  constructor
  · rintro ⟨piece, hpiece, hfrom, hto⟩
    rcases mem_carve hpiece with ⟨rfl, hclear⟩ | ⟨rfl, hleft⟩ | ⟨rfl, hright⟩
    · exact ⟨⟨hfrom, hto⟩, by omega⟩
    · exact ⟨⟨hfrom, by omega⟩, by omega⟩
    · exact ⟨⟨by omega, hto⟩, by omega⟩
  · rintro ⟨⟨hfrom, hto⟩, hout⟩
    rw [carve]
    split
    · exact ⟨run, mem_singleton_self _, hfrom, hto⟩
    · rcases lt_or_ge position low with hbefore | hafter
      · refine ⟨(run.1, min low run.2), mem_append_left _ ?_, hfrom, lt_min hbefore hto⟩
        rw [if_pos (by omega)]
        exact mem_singleton_self _
      · have hbehind : high ≤ position := not_lt.mp fun hin => hout ⟨hafter, hin⟩
        refine ⟨(max high run.1, run.2), mem_append_right _ ?_, max_le hbehind hfrom, hto⟩
        rw [if_pos (by omega)]
        exact mem_singleton_self _

/-- The runs of a predicate that holds outside an interval too are what the interval leaves. -/
theorem Runs.carve (h : Runs p start stop runs) (hlt : low < high) :
    Runs (fun position => p position ∧ ¬(low ≤ position ∧ position < high)) start stop (runs.flatMap (carve low high)) where
  covers position := by
    constructor
    · rintro ⟨piece, hpiece, hin⟩
      obtain ⟨run, hrun, hpiece⟩ := mem_flatMap.mp hpiece
      obtain ⟨hin, hout⟩ := (covers_carve position).mp ⟨piece, hpiece, hin⟩
      obtain ⟨hfrom, hto, hposition⟩ := (h.covers position).mp ⟨run, hrun, hin⟩
      exact ⟨hfrom, hto, hposition, hout⟩
    · rintro ⟨hfrom, hto, hposition, hout⟩
      obtain ⟨run, hrun, hin⟩ := (h.covers position).mpr ⟨hfrom, hto, hposition⟩
      obtain ⟨piece, hpiece, hin⟩ := (covers_carve position).mpr ⟨hin, hout⟩
      exact ⟨piece, mem_flatMap.mpr ⟨run, hrun, hpiece⟩, hin⟩
  within piece hpiece := by
    obtain ⟨run, hrun, hpiece⟩ := mem_flatMap.mp hpiece
    obtain ⟨hfrom, hproper, hto⟩ := h.within run hrun
    rcases mem_carve hpiece with ⟨rfl, -⟩ | ⟨rfl, hleft⟩ | ⟨rfl, hright⟩
    · exact ⟨hfrom, hproper, hto⟩
    · exact ⟨hfrom, hleft.1, by omega⟩
    · exact ⟨by omega, hright.2, hto⟩
  apart := by
    refine pairwise_flatMap.mpr ⟨fun run hrun => ?_, h.apart.imp_of_mem fun {run next} hrun hnext hbefore => ?_⟩
    · rw [Spans.carve]
      split
      · exact pairwise_singleton _ _
      · refine pairwise_append.mpr ⟨?_, ?_, fun piece hpiece next hnext => ?_⟩
        · split <;> simp
        · split <;> simp
        · obtain ⟨-, rfl⟩ := by simpa using hpiece
          obtain ⟨-, rfl⟩ := by simpa using hnext
          omega
    · intro piece hpiece piece' hpiece'
      have hwithin : piece.2 ≤ run.2 := by
        rcases mem_carve hpiece with ⟨rfl, -⟩ | ⟨rfl, hleft⟩ | ⟨rfl, -⟩
        · exact le_rfl
        · exact Int.le_of_lt hleft.2
        · exact le_rfl
      have hwithin' : next.1 ≤ piece'.1 := by
        rcases mem_carve hpiece' with ⟨rfl, -⟩ | ⟨rfl, -⟩ | ⟨rfl, hright⟩
        · exact le_rfl
        · exact le_rfl
        · exact Int.le_of_lt hright.1
      omega

end Carve

/-! ## Uniqueness -/

/-- The first of two first runs starts no later and ends no earlier, if what it covers is covered by the others too. -/
theorem first_within {run run' : ℤ × ℤ} {rest rest' : List (ℤ × ℤ)} (hproper : run.1 < run.2)
    (hproper' : ∀ next ∈ run' :: rest', next.1 < next.2) (hapart' : ∀ next ∈ rest', run'.2 < next.1)
    (hcovers : ∀ position, (∃ next ∈ run :: rest, next.1 ≤ position ∧ position < next.2) →
      ∃ next ∈ run' :: rest', next.1 ≤ position ∧ position < next.2) :
    run'.1 ≤ run.1 ∧ (run.1 = run'.1 → run.2 ≤ run'.2) := by
  have hcovered : ∀ position, run.1 ≤ position → position < run.2 → ∃ next ∈ run' :: rest', next.1 ≤ position ∧ position < next.2 :=
    fun position hfrom hto => hcovers position ⟨run, mem_cons_self, hfrom, hto⟩
  have hlt := hproper' run' mem_cons_self
  constructor
  · obtain ⟨next, hnext, hfrom, -⟩ := hcovered run.1 le_rfl hproper
    rcases mem_cons.mp hnext with rfl | hnext
    · exact hfrom
    · have hbehind := hapart' next hnext
      omega
  · intro hsame
    by_contra hlong
    -- where the other ends this one still covers, and the next of the others starts later
    obtain ⟨next, hnext, hfrom, hto⟩ := hcovered run'.2 (by omega) (by omega)
    rcases mem_cons.mp hnext with rfl | hnext
    · omega
    · have hbehind := hapart' next hnext
      omega

/-- Proper runs with gaps between them are determined by what they cover. By induction on them: the first runs are the same. -/
theorem eq_of_covers {runs' : List (ℤ × ℤ)} (hproper : ∀ run ∈ runs, run.1 < run.2) (hproper' : ∀ run ∈ runs', run.1 < run.2)
    (hapart : runs.Pairwise fun run next => run.2 < next.1) (hapart' : runs'.Pairwise fun run next => run.2 < next.1)
    (hcovers : ∀ position, (∃ run ∈ runs, run.1 ≤ position ∧ position < run.2) ↔
      ∃ run ∈ runs', run.1 ≤ position ∧ position < run.2) : runs = runs' := by
  induction runs generalizing runs' with
  | nil =>
    refine (eq_nil_iff_forall_not_mem.mpr fun run hrun => ?_).symm
    obtain ⟨_, hmem, -⟩ := (hcovers run.1).mpr ⟨run, hrun, le_rfl, hproper' run hrun⟩
    cases hmem
  | cons run rest ih =>
    cases runs' with
    | nil =>
      obtain ⟨_, hmem, -⟩ := (hcovers run.1).mp ⟨run, mem_cons_self, le_rfl, hproper run mem_cons_self⟩
      cases hmem
    | cons run' rest' =>
      obtain ⟨hfirst, hrest⟩ := pairwise_cons.mp hapart
      obtain ⟨hfirst', hrest'⟩ := pairwise_cons.mp hapart'
      obtain ⟨hlow, hhigh⟩ := first_within (hproper run mem_cons_self) hproper' hfirst' fun position => (hcovers position).mp
      obtain ⟨hlow', hhigh'⟩ := first_within (hproper' run' mem_cons_self) hproper hfirst fun position => (hcovers position).mpr
      obtain rfl : run = run' := Prod.ext (by omega) (by omega)
      have hpast : ∀ rest : List (ℤ × ℤ), (∀ next ∈ rest, run.2 < next.1) → ∀ position,
          (∃ next ∈ rest, next.1 ≤ position ∧ position < next.2) ↔
            run.2 ≤ position ∧ ∃ next ∈ run :: rest, next.1 ≤ position ∧ position < next.2 := by
        intro rest hfirst position
        constructor
        · rintro ⟨next, hnext, hfrom, hto⟩
          have hbehind := hfirst next hnext
          exact ⟨by omega, next, mem_cons_of_mem _ hnext, hfrom, hto⟩
        · rintro ⟨hafter, next, hnext, hfrom, hto⟩
          rcases mem_cons.mp hnext with rfl | hnext
          · omega
          · exact ⟨next, hnext, hfrom, hto⟩
      rw [ih (fun next hnext => hproper next (mem_cons_of_mem _ hnext))
        (fun next hnext => hproper' next (mem_cons_of_mem _ hnext)) hrest hrest' fun position => ?_]
      rw [hpast rest hfirst, hpast rest' hfirst', hcovers]

/-- A predicate has one list of runs. -/
theorem Runs.unique {runs' : List (ℤ × ℤ)} (h : Runs p start stop runs) (h' : Runs p start stop runs') : runs = runs' :=
  eq_of_covers (fun run hrun => (h.within run hrun).2.1) (fun run hrun => (h'.within run hrun).2.1) h.apart h'.apart
    fun position => (h.covers position).trans (h'.covers position).symm

end Spans
