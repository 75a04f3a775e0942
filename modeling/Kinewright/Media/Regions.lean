import Mathlib.Algebra.Order.Ring.Int
import Mathlib.Data.List.Sort
import Mathlib.Data.Prod.Lex
import Mathlib.Data.List.MinMax
import Mathlib.Data.List.ModifyLast

/-!
# Regions of demand

`regions` and `plan_regions` of `sched.rs`: a job's demand on each source is cut into runs of nearly
consecutive times, one reader for each, at most two a source and at most `limit` in all. Times are
`i64` in the source; none is near its bounds, and they are integers here.
-/

namespace Kinewright.Media

open List

/-- H-1: at most this many readers per source. -/
def readersPerSource : ℕ := 2

/-- A time more than this after the last one starts a new region. -/
def regionGap : ℤ := 1

/-- H-5: R = clamp(P, 1, 8). -/
def readerLimit (parallelism : ℕ) : ℕ := max 1 (min parallelism 8)

/-- H-5: a reader wants w = clamp(⌊P / n⌋, 1, 16) frame threads. -/
def want (pool readers : ℕ) : ℕ := max 1 (min (pool / max readers 1) 16)

/-- `Region`: one region of demand on a source, served by one reader. -/
structure Region where
  required : List ℤ
  lookahead : List ℤ
  merged : Bool
deriving DecidableEq

/-- `Region::default`. -/
def Region.default : Region := { required := [], lookahead := [], merged := false }

/-- `Region::first`. -/
def Region.first (region : Region) : ℤ := ((region.required ++ region.lookahead).min?).getD 0

/-- `sort_unstable` of times. -/
def sortTimes (times : List ℤ) : List ℤ := times.insertionSort (· ≤ ·)

/-- A stable sort by a Boolean key: those without it first. -/
def falseFirst {α : Type} (key : α → Bool) (xs : List α) : List α := (xs.filter fun x => !key x) ++ xs.filter key

/-! ## One source -/

/-- The order of the sort key `(t, !required)`. -/
def timeLe (a b : ℤ × Bool) : Prop := a.1 < b.1 ∨ a.1 = b.1 ∧ (b.2 → a.2)

instance : DecidableRel timeLe := fun _ _ => inferInstanceAs (Decidable (_ ∨ _ ∧ _))

/-- `dedup_by_key` on the times, after the last one that was kept. -/
def dedupTimes (last : Option ℤ) : List (ℤ × Bool) → List (ℤ × Bool)
  | [] => []
  | x :: times => if last = some x.1 then dedupTimes last times else x :: dedupTimes (some x.1) times

/-- A time joins the run that is open. -/
def Region.push (run : Region) (x : ℤ × Bool) : Region :=
  if x.2 then { run with required := run.required ++ [x.1] }
  else { run with lookahead := run.lookahead ++ [x.1] }

/-- Whether a time continues the run that ends with the last one. -/
def continues (last : Option (ℤ × Bool)) (x : ℤ × Bool) : Bool :=
  last.any fun last => x.1 - last.1 ≤ regionGap ∧ (last.2 ∨ ¬ x.2)

/-- The loop of `regions` that cuts the times into runs. -/
def runsFrom (runs : List Region) (last : Option (ℤ × Bool)) : List (ℤ × Bool) → List Region
  | [] => runs
  | x :: times => let runs := if continues last x then runs else runs ++ [.default]
    runsFrom (runs.modifyLast fun run => run.push x) (some x) times

/-- A run that takes another's times, and keeps only the lookahead past its last required time. -/
def Region.absorb (run : Region) (others : List Region) : Region :=
  let required := sortTimes (run.required ++ others.flatMap Region.required)
  let lookahead := run.lookahead ++ others.flatMap Region.lookahead
  { required
    lookahead := sortTimes (lookahead.filter fun t => required.getLast?.all fun last => last < t)
    merged := true }

/-- The runs past the second fold into it. -/
def fold (runs : List Region) : List Region × ℕ :=
  match runs with
  | first :: second :: third :: rest =>
    ([first, second.absorb (third :: rest)], (third :: rest).length)
  | runs => (runs, 0)

/-- `regions`: a source's demand in at most two regions, and how many runs folded. -/
def regions (required lookahead : List ℤ) : List Region × ℕ :=
  let times := (required.map fun t => (t, true)) ++ lookahead.map fun t => (t, false)
  let times := dedupTimes none (times.insertionSort timeLe)
  fold (falseFirst (fun run => run.required.isEmpty) (runsFrom [] none times))

/-! ## All sources -/

variable {K : Type}

/-- `Planned`. -/
structure Planned (K : Type) where
  regions : List (K × Region)
  merged : ℕ
  folded : ℕ

/-- The regions of all sources. -/
def regionCount (sources : List (K × List Region)) : ℕ := (sources.map fun source => source.2.length).sum

/-- `nearest_pair`: the two adjacent regions of one source nearest in time, as the source's index and
the later region's; ties go to the earliest. -/
def nearestPair (sources : List (K × List Region)) : Option (ℕ × ℕ) :=
  let pairs : List (ℤ ×ₗ ℕ ×ₗ ℕ) := sources.zipIdx.flatMap fun ((_, runs), source) =>
    (runs.zip runs.tail).zipIdx.map fun ((earlier, later), index) =>
      let gap := later.required.head?.getD 0 - earlier.required.getLast?.getD 0
      toLex (max gap 0, toLex (source, index + 1))
  pairs.min?.map fun pair => ofLex (ofLex pair).2

/-- Merge the region at `index` into the one before it. -/
def mergeAt (runs : List Region) (index : ℕ) : List Region :=
  match runs[index - 1]?, runs[index]? with
  | some earlier, some later => (runs.set (index - 1) (earlier.absorb [later])).eraseIdx index
  | _, _ => runs

/-- The loop of `plan_regions` that merges regions until they fit. Each round takes one region away,
so as many rounds as there are regions are enough. -/
def mergeLoop (limit : ℕ) : ℕ → ℕ → List (K × List Region) → List (K × List Region) × ℕ
  | 0, merged, sources => (sources, merged)
  | rounds + 1, merged, sources => if regionCount sources > limit then match nearestPair sources with
      | none => (sources, merged)
      | some (source, index) => mergeLoop limit rounds (merged + 1)
          (sources.modify source fun entry => (entry.1, mergeAt entry.2 index))
    else (sources, merged)

/-- Over the limit, the regions of lookahead only go first. -/
def withoutLookaheadRuns (limit : ℕ) (sources : List (K × List Region)) : List (K × List Region) :=
  if regionCount sources > limit then
    sources.map fun source => (source.1, source.2.filter fun run => ¬ run.required.isEmpty)
  else sources

/-- `plan_regions`. -/
def planRegions (demand : List (K × List ℤ × List ℤ)) (limit : ℕ) : Option (Planned K) :=
  if (demand.filter fun (_, required, _) => ¬ required.isEmpty).length > limit then none
  else
    let folded := (demand.map fun (_, required, lookahead) => (regions required lookahead).2).sum
    let sources := demand.map fun source => (source.1, (regions source.2.1 source.2.2).1)
    let sources := withoutLookaheadRuns limit sources
    let (sources, merged) := mergeLoop limit (regionCount sources) 0 sources
    let all := sources.flatMap fun source => source.2.map fun run => (source.1, run)
    some
      { regions := falseFirst (fun (_, run) => run.required.isEmpty) all
        merged
        folded }

/-! ## No required time is lookahead -/

/-- No required time of the runs is a lookahead time of one of them. -/
def Separate (runs : List Region) : Prop := ∀ run ∈ runs, ∀ t ∈ run.lookahead, ∀ run' ∈ runs, t ∉ run'.required

variable {runs : List Region}

theorem Separate.sublist {runs' : List Region} (h : Separate runs)
    (hsub : ∀ run ∈ runs', run ∈ runs) : Separate runs' :=
  fun run hrun t ht run' hrun' => h run (hsub run hrun) t ht run' (hsub run' hrun')

variable {t : ℤ}

theorem mem_sortTimes {times : List ℤ} : t ∈ sortTimes times ↔ t ∈ times := mem_insertionSort _

variable {α : Type}

theorem mem_falseFirst {key : α → Bool} {xs : List α} {x : α} : x ∈ falseFirst key xs ↔ x ∈ xs := by
  rw [falseFirst, mem_append, mem_filter, mem_filter]
  rcases key x <;> simp

variable {run : Region}

theorem mem_absorb_required {others : List Region} :
    t ∈ (run.absorb others).required ↔ t ∈ run.required ∨ ∃ r ∈ others, t ∈ r.required := by
  simp [Region.absorb, mem_sortTimes]

theorem mem_absorb_lookahead {others : List Region} (h : t ∈ (run.absorb others).lookahead) :
    t ∈ run.lookahead ∨ ∃ r ∈ others, t ∈ r.lookahead := by
  simp only [Region.absorb, mem_sortTimes, mem_filter, mem_append, mem_flatMap] at h
  exact h.1

/-- Runs that only take over times of separate runs are separate. -/
theorem Separate.of_times {runs' : List Region} (h : Separate runs)
    (hlookahead : ∀ run ∈ runs', ∀ t ∈ run.lookahead, ∃ r ∈ runs, t ∈ r.lookahead)
    (hrequired : ∀ run ∈ runs', ∀ t ∈ run.required, ∃ r ∈ runs, t ∈ r.required) :
    Separate runs' := by
  intro run hrun t ht run' hrun' ht'
  obtain ⟨r, hr, htr⟩ := hlookahead run hrun t ht
  obtain ⟨r', hr', htr'⟩ := hrequired run' hrun' t ht'
  exact h r hr t htr r' hr' htr'

theorem mem_fold_lookahead {run : Region} (hrun : run ∈ (fold runs).1) {time : ℤ} (htime : time ∈ run.lookahead) :
    ∃ r ∈ runs, time ∈ r.lookahead := by
  unfold fold at hrun
  split at hrun
  · rename_i first second third rest
    rcases mem_pair.mp hrun with rfl | rfl
    · exact ⟨run, by simp, htime⟩
    · rcases mem_absorb_lookahead htime with ht | ⟨r, hr, ht⟩
      · exact ⟨second, by simp, ht⟩
      · exact ⟨r, by simp [mem_cons.mp hr], ht⟩
  · exact ⟨run, hrun, htime⟩

theorem Separate.fold (h : Separate runs) : Separate (fold runs).1 := by
  refine h.of_times (fun run hrun t ht => mem_fold_lookahead hrun ht) fun run hrun t ht => ?_
  unfold Kinewright.Media.fold at hrun
  split at hrun
  · rename_i first second third rest
    rcases mem_pair.mp hrun with rfl | rfl
    · exact ⟨run, by simp, ht⟩
    · rcases mem_absorb_required.mp ht with ht | ⟨r, hr, ht⟩
      · exact ⟨second, by simp, ht⟩
      · exact ⟨r, by simp [mem_cons.mp hr], ht⟩
  · exact ⟨run, hrun, ht⟩

theorem Separate.mergeAt (h : Separate runs) (index : ℕ) : Separate (mergeAt runs index) := by
  unfold Kinewright.Media.mergeAt
  split
  · rename_i earlier later hearlier hlater
    have hmem : ∀ run ∈ (runs.set (index - 1) (earlier.absorb [later])).eraseIdx index,
        run ∈ runs ∨ run = earlier.absorb [later] :=
      fun run hrun => mem_or_eq_of_mem_set (mem_of_mem_eraseIdx hrun)
    have hearlier := mem_of_getElem? hearlier
    have hlater := mem_of_getElem? hlater
    refine h.of_times ?_ ?_
    · intro run hrun t ht
      rcases hmem run hrun with hrun | rfl
      · exact ⟨run, hrun, ht⟩
      · rcases mem_absorb_lookahead ht with ht | ⟨r, hr, ht⟩
        · exact ⟨earlier, hearlier, ht⟩
        · exact ⟨later, hlater, mem_singleton.mp hr ▸ ht⟩
    · intro run hrun t ht
      rcases hmem run hrun with hrun | rfl
      · exact ⟨run, hrun, ht⟩
      · rcases mem_absorb_required.mp ht with ht | ⟨r, hr, ht⟩
        · exact ⟨earlier, hearlier, ht⟩
        · exact ⟨later, hlater, mem_singleton.mp hr ▸ ht⟩
  · exact h

/-- Deduplicated times are strictly increasing. -/
theorem dedupTimes_increasing {times : List (ℤ × Bool)}
    (hsorted : times.Pairwise fun a b => a.1 ≤ b.1) (last : Option ℤ)
    (hlast : ∀ n ∈ last, ∀ x ∈ times, n ≤ x.1) :
    (dedupTimes last times).Pairwise (fun a b => a.1 < b.1) ∧ ∀ n ∈ last, ∀ x ∈ dedupTimes last times, n < x.1 := by
  induction times generalizing last with
  | nil => exact ⟨.nil, by simp [dedupTimes]⟩
  | cons x times ih =>
    obtain ⟨hfirst, hrest⟩ := pairwise_cons.mp hsorted
    rw [dedupTimes]
    by_cases hsame : last = some x.1
    · rw [if_pos hsame]
      exact ih hrest last fun n hn y hy => hlast n hn y (mem_cons_of_mem _ hy)
    · rw [if_neg hsame]
      obtain ⟨hpairwise, hbelow⟩ := ih hrest (some x.1) (by
        intro n hn y hy
        obtain rfl := Option.mem_some_iff.mp hn
        exact hfirst y hy)
      have habove := hbelow x.1 rfl
      refine ⟨pairwise_cons.mpr ⟨habove, hpairwise⟩, ?_⟩
      intro n hn y hy
      have hle := hlast n hn x mem_cons_self
      have hlt : n < x.1 := lt_of_le_of_ne hle fun heq => hsame (heq ▸ hn)
      rcases mem_cons.mp hy with rfl | hy
      · exact hlt
      · exact hlt.trans (habove y hy)

/-- A run that takes a time has it as what it is, and nothing else that it had not. -/
theorem mem_push {x : ℤ × Bool} : (t ∈ (run.push x).required → t ∈ run.required ∨ x = (t, true)) ∧
      (t ∈ (run.push x).lookahead → t ∈ run.lookahead ∨ x = (t, false)) := by
  rcases x with ⟨u, _ | _⟩
  · simp only [Region.push, Bool.false_eq_true, if_false, mem_append, mem_singleton]
    exact ⟨Or.inl, fun h => h.imp_right fun hu => by rw [hu]⟩
  · simp only [Region.push, if_true, mem_append, mem_singleton]
    exact ⟨fun h => h.imp_right fun hu => by rw [hu], Or.inl⟩

theorem mem_modifyLast {f : α → α} {xs : List α} {y : α} (h : y ∈ xs.modifyLast f) : y ∈ xs ∨ ∃ x ∈ xs, y = f x := by
  rcases eq_nil_or_concat xs with rfl | ⟨xs, x, rfl⟩
  · cases h
  · rw [concat_eq_append] at h ⊢
    rw [modifyLast_concat, mem_append, mem_singleton] at h
    rcases h with h | rfl
    · exact Or.inl (mem_append_left _ h)
    · exact Or.inr ⟨x, by simp, rfl⟩

/-- The runs hold the times that they are cut from, each as what it is. -/
theorem mem_runsFrom {last : Option (ℤ × Bool)} {times : List (ℤ × Bool)} (hrun : run ∈ runsFrom runs last times) :
    (t ∈ run.required → (∃ r ∈ runs, t ∈ r.required) ∨ (t, true) ∈ times) ∧
      (t ∈ run.lookahead → (∃ r ∈ runs, t ∈ r.lookahead) ∨ (t, false) ∈ times) := by
  induction times generalizing runs last with
  | nil => exact ⟨fun ht => Or.inl ⟨run, hrun, ht⟩, fun ht => Or.inl ⟨run, hrun, ht⟩⟩
  | cons x times ih =>
    obtain ⟨hrequired, hlookahead⟩ := ih hrun
    have hold : ∀ r ∈ (if continues last x then runs else runs ++ [.default]),
        r ∈ runs ∨ r = .default := by
      intro r hr
      split at hr
      · exact Or.inl hr
      · simpa using hr
    constructor
    · intro ht
      rcases hrequired ht with ⟨r, hr, htr⟩ | htimes
      · rcases mem_modifyLast hr with hr | ⟨r₀, hr₀, rfl⟩
        · rcases hold r hr with hr | rfl
          · exact Or.inl ⟨r, hr, htr⟩
          · cases htr
        · rcases mem_push.1 htr with htr | rfl
          · rcases hold r₀ hr₀ with hr₀ | rfl
            · exact Or.inl ⟨r₀, hr₀, htr⟩
            · cases htr
          · exact Or.inr mem_cons_self
      · exact Or.inr (mem_cons_of_mem _ htimes)
    · intro ht
      rcases hlookahead ht with ⟨r, hr, htr⟩ | htimes
      · rcases mem_modifyLast hr with hr | ⟨r₀, hr₀, rfl⟩
        · rcases hold r hr with hr | rfl
          · exact Or.inl ⟨r, hr, htr⟩
          · cases htr
        · rcases mem_push.2 htr with htr | rfl
          · rcases hold r₀ hr₀ with hr₀ | rfl
            · exact Or.inl ⟨r₀, hr₀, htr⟩
            · cases htr
          · exact Or.inr mem_cons_self
      · exact Or.inr (mem_cons_of_mem _ htimes)

instance : Std.Total timeLe where
  total a b := by
    rcases a with ⟨t, _ | _⟩ <;> rcases b with ⟨u, _ | _⟩ <;> simp only [timeLe] <;> grind

instance : IsTrans (ℤ × Bool) timeLe where
  trans a b c hab hbc := by
    rcases a with ⟨t, _ | _⟩ <;> rcases b with ⟨u, _ | _⟩ <;> rcases c with ⟨v, _ | _⟩ <;>
      simp only [timeLe] at hab hbc ⊢ <;> grind

/-- A source's demand is cut into separate runs. -/
theorem regions_separate (required lookahead : List ℤ) : Separate (regions required lookahead).1 := by
  refine Separate.fold (Separate.sublist ?_ fun run hrun => mem_falseFirst.mp hrun)
  set times := (required.map fun t => (t, true)) ++ lookahead.map fun t => (t, false)
  have hsorted : (times.insertionSort timeLe).Pairwise fun a b => a.1 ≤ b.1 := by
    refine (pairwise_insertionSort timeLe times).imp ?_
    intro a b hab
    rcases hab with hlt | ⟨heq, -⟩
    · exact hlt.le
    · exact heq.le
  have hincreasing := (dedupTimes_increasing hsorted none nofun).1
  intro run hrun t ht run' hrun' ht'
  have hlookahead := ((mem_runsFrom hrun).2 ht).resolve_left (by simp)
  have hrequired := ((mem_runsFrom hrun').1 ht').resolve_left (by simp)
  -- the two entries of `t` are different, and one of them is strictly before the other
  obtain ⟨i, hi, hti⟩ := getElem_of_mem hlookahead
  obtain ⟨j, hj, htj⟩ := getElem_of_mem hrequired
  rw [pairwise_iff_getElem] at hincreasing
  rcases lt_trichotomy i j with hij | rfl | hji
  · have hlt := hincreasing i j hi hj hij
    rw [hti, htj] at hlt
    exact lt_irrefl t hlt
  · rw [hti] at htj
    cases htj
  · have hlt := hincreasing j i hj hi hji
    rw [hti, htj] at hlt
    exact lt_irrefl t hlt

theorem mem_modify {f : α → α} {xs : List α} {i : ℕ} {y : α} (h : y ∈ xs.modify i f) : y ∈ xs ∨ ∃ x ∈ xs, y = f x := by
  obtain ⟨j, hj⟩ := mem_iff_getElem?.mp h
  rw [getElem?_modify] at hj
  obtain ⟨x, hx, hy⟩ := Option.map_eq_some_iff.mp hj
  by_cases hij : i = j
  · rw [if_pos hij] at hy
    exact Or.inr ⟨x, mem_of_getElem? hx, hy.symm⟩
  · rw [if_neg hij] at hy
    exact Or.inl (hy ▸ mem_of_getElem? hx)

theorem map_modify {β : Type} {f : α → α} {g : α → β} (hfg : ∀ x, g (f x) = g x) (xs : List α)
    (i : ℕ) : (xs.modify i f).map g = xs.map g := by
  apply ext_getElem?
  intro j
  rw [getElem?_map, getElem?_modify, getElem?_map]
  rcases xs[j]? with _ | x
  · rfl
  · by_cases hij : i = j
    · simp [hij, hfg]
    · simp [hij]

/-- Each source has one entry, and its runs are separate. -/
def AllSeparate (sources : List (K × List Region)) : Prop :=
  (sources.map Prod.fst).Nodup ∧ ∀ source ∈ sources, Separate source.2

theorem AllSeparate.mergeLoop (limit rounds merged : ℕ) {sources : List (K × List Region)}
    (h : AllSeparate sources) : AllSeparate (mergeLoop limit rounds merged sources).1 := by
  induction rounds generalizing merged sources with
  | zero => exact h
  | succ rounds ih =>
    rw [Kinewright.Media.mergeLoop]
    by_cases hover : regionCount sources > limit
    · rw [if_pos hover]
      rcases nearestPair sources with _ | ⟨source, index⟩
      · exact h
      · refine ih _ ⟨?_, ?_⟩
        · rw [map_modify (f := fun entry => (entry.1, mergeAt entry.2 index)) fun _ => rfl]
          exact h.1
        · intro entry hentry
          rcases mem_modify hentry with hentry | ⟨old, hold, rfl⟩
          · exact h.2 entry hentry
          · exact (h.2 old hold).mergeAt index
    · rw [if_neg hover]
      exact h

theorem AllSeparate.withoutLookaheadRuns {sources : List (K × List Region)}
    (h : AllSeparate sources) (limit : ℕ) : AllSeparate (withoutLookaheadRuns limit sources) := by
  unfold Kinewright.Media.withoutLookaheadRuns
  split
  · refine ⟨?_, ?_⟩
    · rw [map_map]
      exact h.1
    · intro source hsource
      obtain ⟨old, hold, rfl⟩ := mem_map.mp hsource
      exact (h.2 old hold).sublist fun run hrun => mem_of_mem_filter hrun
  · exact h

/-- In a planned job, no source has a time both required and lookahead. -/
theorem planRegions_separate {demand : List (K × List ℤ × List ℤ)} {limit : ℕ}
    (hdemand : (demand.map Prod.fst).Nodup) {planned : Planned K}
    (h : planRegions demand limit = some planned) {key : K} {region region' : Region}
    (hregion : (key, region) ∈ planned.regions) (hregion' : (key, region') ∈ planned.regions)
    (ht : t ∈ region.lookahead) : t ∉ region'.required := by
  unfold planRegions at h
  rw [Option.ite_none_left_eq_some, Option.some.injEq] at h
  obtain ⟨-, rfl⟩ := h
  have hstart : AllSeparate
      (demand.map fun source => (source.1, (regions source.2.1 source.2.2).1)) := by
    refine ⟨?_, ?_⟩
    · rw [map_map]
      exact hdemand
    · intro source hsource
      obtain ⟨entry, -, rfl⟩ := mem_map.mp hsource
      exact regions_separate _ _
  have hmerged := (hstart.withoutLookaheadRuns limit).mergeLoop limit (regionCount (withoutLookaheadRuns limit
      (demand.map fun source => (source.1, (regions source.2.1 source.2.2).1)))) 0
  rw [mem_falseFirst, mem_flatMap] at hregion hregion'
  obtain ⟨source, hsource, hregion⟩ := hregion
  obtain ⟨source', hsource', hregion'⟩ := hregion'
  obtain ⟨run, hrun, heq⟩ := mem_map.mp hregion
  obtain ⟨run', hrun', heq'⟩ := mem_map.mp hregion'
  obtain ⟨rfl, rfl⟩ := Prod.mk.inj heq
  obtain ⟨hkey, rfl⟩ := Prod.mk.inj heq'
  obtain rfl : source' = source := inj_on_of_nodup_map hmerged.1 hsource' hsource hkey
  exact hmerged.2 source' hsource run hrun t ht run' hrun'

end Kinewright.Media
