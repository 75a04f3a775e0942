import Mathlib.Data.List.Chain
import Kinewright.Lib.Lists
import Kinewright.Media.Regions

/-!
# What a plan divides

The regions of a plan divide the required times of each source: each time is in one region, and a region has no other. A region
that was not merged is a run of times, its required ones first; a merged one keeps only the lookahead past its required times.
-/

namespace Kinewright.Media

open List

/-- A time that continues a run. -/
def NextTime (t next : ℤ) : Prop := t < next ∧ next - t ≤ regionGap

/-- The times of a region, the required ones first. -/
def Region.times (region : Region) : List ℤ := region.required ++ region.lookahead

/-- A region is a run of times, or a merged one. -/
structure Region.Fits (region : Region) : Prop where
  run : region.merged = false → region.times.IsChain NextTime
  past : region.merged = true → ∀ t ∈ region.lookahead, ∀ last ∈ region.required, last < t

/-- The regions divide a source's demand. -/
structure Divides (required lookahead : List ℤ) (runs : List Region) : Prop where
  once : (runs.flatMap Region.required).Nodup
  required : ∀ t, t ∈ runs.flatMap Region.required ↔ t ∈ required
  lookahead : ∀ run ∈ runs, ∀ t ∈ run.lookahead, t ∈ lookahead
  runs : ∀ run ∈ runs, run.Fits

section

variable {required lookahead : List ℤ} {runs runs' : List Region}

/-- Runs that share out the same required times divide the demand too. -/
theorem Divides.of_perm (h : Divides required lookahead runs)
    (hperm : (runs'.flatMap Region.required).Perm (runs.flatMap Region.required))
    (hlookahead : ∀ run ∈ runs', ∀ t ∈ run.lookahead, ∃ r ∈ runs, t ∈ r.lookahead) (hfits : ∀ run ∈ runs', run.Fits) :
    Divides required lookahead runs' where
  once := hperm.nodup_iff.mpr h.once
  required t := hperm.mem_iff.trans (h.required t)
  lookahead run hrun _ ht := by
    obtain ⟨r, hr, htr⟩ := hlookahead run hrun _ ht
    exact h.lookahead r hr _ htr
  runs := hfits

theorem Divides.perm (h : Divides required lookahead runs) (hperm : runs'.Perm runs) : Divides required lookahead runs' :=
  h.of_perm (hperm.flatMap_right Region.required) (fun run hrun _ ht => ⟨run, hperm.mem_iff.mp hrun, ht⟩)
    fun run hrun => h.runs run (hperm.mem_iff.mp hrun)

/-! ## Merging -/

theorem absorb_required_perm (run : Region) (others : List Region) :
    (run.absorb others).required.Perm (run.required ++ others.flatMap Region.required) :=
  perm_insertionSort _ _

theorem absorb_fits (run : Region) (others : List Region) : (run.absorb others).Fits where
  run hmerged := by cases hmerged
  past _ t ht last hlast := by
    have hsorted : (run.absorb others).required.Pairwise (· ≤ ·) := pairwise_insertionSort _ _
    have hfilter := of_mem_filter (mem_sortTimes.mp ht)
    change ((run.absorb others).required.getLast?.all fun last => last < t) = true at hfilter
    obtain ⟨before, greatest, heq⟩ := eq_nil_or_concat _ |>.resolve_left (ne_nil_of_mem hlast)
    rw [concat_eq_append] at heq
    rw [heq] at hfilter
    rw [heq, pairwise_append] at hsorted
    rw [heq, mem_append, mem_singleton] at hlast
    have hgreatest : greatest < t := by simpa using hfilter
    rcases hlast with hbefore | rfl
    · exact lt_of_le_of_lt (hsorted.2.2 last hbefore greatest (mem_singleton_self _)) hgreatest
    · exact hgreatest

theorem Divides.fold (h : Divides required lookahead runs) : Divides required lookahead (fold runs).1 := by
  refine h.of_perm ?_ (fun run hrun t ht => mem_fold_lookahead hrun ht) ?_
  all_goals unfold Kinewright.Media.fold; split
  · simp only [flatMap_cons, flatMap_nil, append_nil]
    refine Perm.append_left _ ((absorb_required_perm _ _).trans ?_)
    rw [flatMap_cons]
  · exact .refl _
  · intro run hrun
    rcases mem_pair.mp hrun with rfl | rfl
    · exact h.runs run mem_cons_self
    · exact absorb_fits _ _
  · exact h.runs

theorem fold_length (runs : List Region) : (fold runs).1.length ≤ readersPerSource := by
  unfold Kinewright.Media.fold
  split
  · exact le_rfl
  · rename_i hshort
    rcases runs with _ | ⟨first, _ | ⟨second, _ | ⟨third, rest⟩⟩⟩
    · exact Nat.zero_le _
    · exact Nat.le_succ 1
    · exact le_rfl
    · exact absurd rfl (hshort first second third rest)

/-- Two adjacent runs are merged into one. -/
theorem mergeAt_eq (before after : List Region) (earlier later : Region) :
    mergeAt (before ++ earlier :: later :: after) (before.length + 1) = before ++ earlier.absorb [later] :: after := by
  have hearlier : (before ++ earlier :: later :: after)[before.length + 1 - 1]? = some earlier := by simp
  have hlater : (before ++ earlier :: later :: after)[before.length + 1]? = some later := by simp
  rw [mergeAt, hearlier, hlater]
  simp [eraseIdx_append]

theorem Divides.mergeAt {before after : List Region} {earlier later : Region}
    (h : Divides required lookahead (before ++ earlier :: later :: after)) :
    Divides required lookahead (before ++ earlier.absorb [later] :: after) := by
  refine h.of_perm ?_ ?_ ?_
  · simp only [flatMap_append, flatMap_cons]
    refine Perm.append_left _ ?_
    rw [← append_assoc]
    refine Perm.append_right _ ((absorb_required_perm _ _).trans ?_)
    simp
  · intro run hrun t ht
    rcases mem_append.mp hrun with hrun | hrun
    · exact ⟨run, mem_append_left _ hrun, ht⟩
    · rcases mem_cons.mp hrun with rfl | hrun
      · rcases mem_absorb_lookahead ht with ht | ⟨r, hr, ht⟩
        · exact ⟨earlier, by simp, ht⟩
        · exact ⟨later, by simp, mem_singleton.mp hr ▸ ht⟩
      · exact ⟨run, by simp [hrun], ht⟩
  · intro run hrun
    rcases mem_append.mp hrun with hrun | hrun
    · exact h.runs run (mem_append_left _ hrun)
    · rcases mem_cons.mp hrun with rfl | hrun
      · exact absorb_fits _ _
      · exact h.runs run (by simp [hrun])

/-! ## Cutting a demand into runs -/

/-- The runs of the loop, where the last time is at the end of the run that is open. -/
structure Cutting (runs : List Region) (last : Option (ℤ × Bool)) : Prop where
  chains : ∀ run ∈ runs, run.merged = false ∧ run.times.IsChain NextTime
  last : ∀ x ∈ last, ∃ before run, runs = before ++ [run] ∧ run.times.getLast? = some x.1 ∧ (x.2 = true → run.lookahead = [])

theorem push_required (run : Region) (x : ℤ × Bool) :
    (run.push x).required = run.required ++ ([x].filter Prod.snd).map Prod.fst := by
  rcases x with ⟨t, _ | _⟩
  · simp [Region.push]
  · rfl

/-- A time that may stand behind the times of a run goes to their end. -/
theorem push_times {run : Region} {x : ℤ × Bool} (hopen : x.2 = true → run.lookahead = []) :
    (run.push x).times = run.times ++ [x.1] := by
  rcases x with ⟨t, _ | _⟩
  · simp [Region.push, Region.times]
  · simp [Region.push, Region.times, hopen rfl]

/-- The run that takes the next time. -/
theorem Cutting.open {last : Option (ℤ × Bool)} (h : Cutting runs last) {x : ℤ × Bool} (hlt : ∀ l ∈ last, l.1 < x.1) :
    ∃ before run, (if continues last x then runs else runs ++ [.default]) = before ++ [run] ∧
      runs.flatMap Region.required = before.flatMap Region.required ++ run.required ∧
      (∀ r ∈ before, r.merged = false ∧ r.times.IsChain NextTime) ∧ run.merged = false ∧ run.times.IsChain NextTime ∧
      (∀ t ∈ run.times.getLast?, NextTime t x.1) ∧ (x.2 = true → run.lookahead = []) := by
  by_cases hcontinues : continues last x = true
  · rw [if_pos hcontinues]
    cases last with
    | none => cases hcontinues
    | some l =>
      obtain ⟨before, run, rfl, hend, hopen⟩ := h.last l rfl
      obtain ⟨hgap, hkind⟩ : x.1 - l.1 ≤ regionGap ∧ (l.2 = true ∨ ¬ x.2 = true) := by simpa [continues] using hcontinues
      obtain ⟨hbefore, hrun⟩ := forall_mem_append.mp h.chains
      obtain ⟨hmerged, hchain⟩ := hrun run (mem_singleton_self _)
      refine ⟨before, run, rfl, by simp, hbefore, hmerged, hchain, fun t ht => ?_, fun hx => ?_⟩
      · rw [hend] at ht
        obtain rfl := Option.some.inj ht
        exact ⟨hlt l rfl, hgap⟩
      · exact hopen (hkind.resolve_right (not_not.mpr hx))
  · rw [if_neg hcontinues]
    exact ⟨runs, .default, rfl, by simp [Region.default], h.chains, rfl, .nil, by rintro t ⟨⟩, fun _ => rfl⟩

theorem runsFrom_cuts {last : Option (ℤ × Bool)} {times : List (ℤ × Bool)} (h : Cutting runs last)
    (hlt : ∀ l ∈ last, ∀ x ∈ times, l.1 < x.1) (hincreasing : times.Pairwise fun a b => a.1 < b.1) :
    (∀ run ∈ runsFrom runs last times, run.merged = false ∧ run.times.IsChain NextTime) ∧
      (runsFrom runs last times).flatMap Region.required =
        runs.flatMap Region.required ++ (times.filter Prod.snd).map Prod.fst := by
  induction times generalizing runs last with
  | nil => exact ⟨h.chains, by simp [runsFrom]⟩
  | cons x times ih =>
    obtain ⟨hnext, hincreasing⟩ := pairwise_cons.mp hincreasing
    obtain ⟨before, run, hruns, hrequired, hbefore, hmerged, hchain, hend, hopen⟩ :=
      h.open fun l hl => hlt l hl x mem_cons_self
    have htimes := push_times hopen
    have hpushed : (run.push x).merged = false ∧ (run.push x).times.IsChain NextTime := by
      refine ⟨?_, ?_⟩
      · rw [Region.push]
        split
        · exact hmerged
        · exact hmerged
      · rw [htimes]
        refine isChain_append.mpr ⟨hchain, .singleton _, fun t ht y hy => ?_⟩
        obtain rfl := Option.some.inj hy
        exact hend t ht
    have hcutting : Cutting (before ++ [run.push x]) (some x) := by
      refine ⟨forall_mem_append.mpr ⟨hbefore, forall_mem_singleton.mpr hpushed⟩, ?_⟩
      rintro y ⟨⟩
      refine ⟨before, run.push x, rfl, by rw [htimes, getLast?_concat], fun hx => ?_⟩
      rw [Region.push, if_pos hx]
      exact hopen hx
    obtain ⟨hall, hsum⟩ := ih hcutting (by rintro l ⟨⟩; exact hnext) hincreasing
    rw [runsFrom, hruns, modifyLast_concat]
    refine ⟨hall, ?_⟩
    have hcons : ((x :: times).filter Prod.snd).map Prod.fst =
        ([x].filter Prod.snd).map Prod.fst ++ (times.filter Prod.snd).map Prod.fst := by
      rw [← map_append, ← filter_append, singleton_append]
    rw [hsum, hrequired, hcons, flatMap_append, flatMap_singleton, push_required]
    simp

theorem dedupTimes_sublist (last : Option ℤ) (times : List (ℤ × Bool)) : (dedupTimes last times).Sublist times := by
  induction times generalizing last with
  | nil => exact .slnil
  | cons x times ih =>
    rw [dedupTimes]
    split
    · exact (ih last).cons x
    · exact (ih (some x.1)).cons_cons x

/-- A required time is the first of the entries of its time, and is kept. -/
theorem mem_dedupTimes {last : Option ℤ} {times : List (ℤ × Bool)} (hsorted : times.Pairwise timeLe) {t : ℤ}
    (hlast : last ≠ some t) (h : (t, true) ∈ times) : (t, true) ∈ dedupTimes last times := by
  induction times generalizing last with
  | nil => cases h
  | cons x times ih =>
    obtain ⟨hfirst, hsorted⟩ := pairwise_cons.mp hsorted
    rw [dedupTimes]
    by_cases hsame : last = some x.1
    · rw [if_pos hsame]
      rcases mem_cons.mp h with rfl | h
      · exact absurd hsame hlast
      · exact ih hsorted hlast h
    · rw [if_neg hsame]
      rcases mem_cons.mp h with rfl | h
      · exact mem_cons_self
      · by_cases htime : x.1 = t
        · -- an entry of the same time before a required one is required too
          rcases hfirst (t, true) h with hlt | ⟨-, hrequired⟩
          · exact absurd htime (ne_of_lt hlt)
          · have hx : x = (t, true) := Prod.ext htime (hrequired rfl)
            rw [hx]
            exact mem_cons_self
        · exact mem_cons_of_mem _ (ih hsorted (by simpa using htime) h)

theorem falseFirst_perm {α : Type} (key : α → Bool) (xs : List α) : (falseFirst key xs).Perm xs :=
  perm_append_comm.trans (filter_append_perm key xs)

/-- A source's demand is divided into at most two regions. -/
theorem regions_divides (required lookahead : List ℤ) :
    Divides required lookahead (regions required lookahead).1 ∧ (regions required lookahead).1.length ≤ readersPerSource := by
  refine ⟨Divides.fold (Divides.perm ?_ (falseFirst_perm _ _)), fold_length _⟩
  set entries := (required.map fun t => (t, true)) ++ lookahead.map fun t => (t, false)
  have hsorted : (entries.insertionSort timeLe).Pairwise timeLe := pairwise_insertionSort timeLe entries
  have hweak : (entries.insertionSort timeLe).Pairwise fun a b => a.1 ≤ b.1 := by
    refine hsorted.imp fun hab => ?_
    rcases hab with hlt | ⟨heq, -⟩
    · exact hlt.le
    · exact heq.le
  obtain ⟨hincreasing, -⟩ := dedupTimes_increasing hweak none (by rintro n ⟨⟩)
  have hempty : Cutting [] none := ⟨forall_mem_nil _, by rintro x ⟨⟩⟩
  obtain ⟨hruns, hrequired⟩ := runsFrom_cuts hempty (by rintro l ⟨⟩) hincreasing
  rw [flatMap_nil, nil_append] at hrequired
  have hentries {x : ℤ × Bool} (hx : x ∈ dedupTimes none (entries.insertionSort timeLe)) : x ∈ entries :=
    (mem_insertionSort timeLe).mp ((dedupTimes_sublist none _).subset hx)
  refine ⟨?_, fun t => ?_, fun run hrun t ht => ?_, fun run hrun => ?_⟩
  · rw [hrequired]
    refine (Pairwise.filter Prod.snd hincreasing).map Prod.fst ?_
    exact fun a b hlt => ne_of_lt hlt
  · rw [hrequired, mem_map]
    constructor
    · rintro ⟨⟨u, kind⟩, hmem, rfl⟩
      obtain ⟨hmem, hkind⟩ := mem_filter.mp hmem
      obtain rfl : kind = true := hkind
      simpa [entries] using hentries hmem
    · intro ht
      have hentry : (t, true) ∈ entries.insertionSort timeLe := (mem_insertionSort timeLe).mpr (by simp [entries, ht])
      exact ⟨(t, true), mem_filter.mpr ⟨mem_dedupTimes hsorted (by simp) hentry, rfl⟩, rfl⟩
  · have hmem := ((mem_runsFrom hrun).2 ht).resolve_left (by simp)
    simpa [entries] using hentries hmem
  · obtain ⟨hmerged, hchain⟩ := hruns run hrun
    exact ⟨fun _ => hchain, fun h => by rw [hmerged] at h; cases h⟩

end

/-! ## All sources -/

variable {K : Type}

/-- The regions of each source divide its demand. -/
def AllDivide (demand : List (K × List ℤ × List ℤ)) (sources : List (K × List Region)) : Prop :=
  List.Forall₂ (fun entry source => source.1 = entry.1 ∧ Divides entry.2.1 entry.2.2 source.2 ∧
    source.2.length ≤ readersPerSource) demand sources

section

variable {demand : List (K × List ℤ × List ℤ)} {sources : List (K × List Region)}

theorem regionCount_append (before after : List (K × List Region)) :
    regionCount (before ++ after) = regionCount before + regionCount after := by
  rw [regionCount, map_append, sum_append]
  rfl

theorem regionCount_cons (source : K × List Region) (after : List (K × List Region)) :
    regionCount (source :: after) = source.2.length + regionCount after := by
  rfl

/-- A source whose regions share out no required time has none, when each of them has one. -/
theorem AllDivide.required_sources (h : AllDivide demand sources) (hrequired : ∀ source ∈ sources, ∀ run ∈ source.2, run.required ≠ []) :
    sources.countP (fun source => source.2 ≠ []) ≤ (demand.filter fun entry => ¬ entry.2.1.isEmpty).length := by
  rw [← countP_eq_length_filter]
  induction h with
  | nil => exact le_rfl
  | cons hfirst hrest ih =>
    rename_i entry source demand sources
    obtain ⟨hsource, hsources⟩ := forall_mem_cons.mp hrequired
    obtain ⟨-, hdivides, -⟩ := hfirst
    rw [countP_cons, countP_cons]
    refine Nat.add_le_add (ih hsources) ?_
    rcases hruns : source.2 with _ | ⟨run, runs⟩
    · simp
    · -- its first region has a required time
      obtain ⟨t, ht⟩ := exists_mem_of_ne_nil _ (hsource run (by rw [hruns]; exact mem_cons_self))
      have hmem := (hdivides.required t).mp (mem_flatMap.mpr ⟨run, by rw [hruns]; exact mem_cons_self, ht⟩)
      have hne : entry.2.1 ≠ [] := ne_nil_of_mem hmem
      simp [hne]

theorem regionCount_le (h : ∀ source ∈ sources, source.2.length ≤ 1) :
    regionCount sources ≤ sources.countP fun source => source.2 ≠ [] := by
  induction sources with
  | nil => exact le_rfl
  | cons source sources ih =>
    obtain ⟨hsource, hsources⟩ := forall_mem_cons.mp h
    rw [regionCount_cons, countP_cons]
    have hrest := ih hsources
    rcases hruns : source.2 with _ | ⟨run, _ | ⟨next, rest⟩⟩
    · simpa using hrest
    · have hone : (if decide ([run] ≠ ([] : List Region)) then 1 else 0) = 1 := by simp
      rw [length_singleton]
      omega
    · rw [hruns, length_cons, length_cons] at hsource
      omega

variable {α : Type}

theorem exists_split {xs : List α} {x : α} {i : ℕ} (h : xs[i]? = some x) :
    ∃ before after, xs = before ++ x :: after ∧ before.length = i := by
  obtain ⟨hlt, rfl⟩ := List.getElem?_eq_some_iff.mp h
  refine ⟨xs.take i, xs.drop (i + 1), ?_, length_take_of_le hlt.le⟩
  rw [← drop_eq_getElem_cons hlt, take_append_drop]

theorem modify_split (before after : List α) (x : α) (f : α → α) :
    (before ++ x :: after).modify before.length f = before ++ f x :: after := by
  have hlt : before.length < (before ++ x :: after).length := by simp
  rw [modify_eq_take_cons_drop hlt]
  simp

/-- Where a source has two regions, two adjacent ones of a source are the nearest pair. -/
theorem exists_nearestPair (h : ∃ source ∈ sources, 1 < source.2.length) : ∃ before key runs earlier later rest after,
    sources = before ++ (key, runs ++ earlier :: later :: rest) :: after ∧
      nearestPair sources = some (before.length, runs.length + 1) := by
  obtain ⟨⟨key, runs⟩, hmem, hlong⟩ := h
  rw [nearestPair]
  generalize hpairs : sources.zipIdx.flatMap _ = pairs
  have hne : pairs ≠ [] := by
    rw [← hpairs]
    obtain ⟨i, hi⟩ := mem_iff_getElem?.mp hmem
    rcases runs with _ | ⟨first, _ | ⟨second, rest⟩⟩
    · simp at hlong
    · simp at hlong
    · have hentry : ((key, first :: second :: rest), i) ∈ sources.zipIdx := mem_zipIdx_iff_getElem?.mpr hi
      exact ne_nil_of_mem (mem_flatMap.mpr ⟨_, hentry, mem_cons_self⟩)
  obtain ⟨pair, hpair⟩ := Option.isSome_iff_exists.mp (isSome_min?_of_ne_nil hne)
  have hmember := min?_mem hpair
  rw [← hpairs, mem_flatMap] at hmember
  obtain ⟨⟨⟨key, runs⟩, source⟩, hsource, hmember⟩ := hmember
  obtain ⟨⟨⟨earlier, later⟩, index⟩, hindex, rfl⟩ := mem_map.mp hmember
  have hsource := mem_zipIdx_iff_getElem?.mp hsource
  have hindex := mem_zipIdx_iff_getElem?.mp hindex
  obtain ⟨hearlier, hlater⟩ := getElem?_zip_eq_some.mp hindex
  rw [getElem?_tail] at hlater
  obtain ⟨before, after, rfl, rfl⟩ := exists_split hsource
  obtain ⟨front, back, hruns, rfl⟩ := exists_split hearlier
  obtain ⟨rest, hrest⟩ : ∃ rest, back = later :: rest := by
    rw [hruns] at hlater
    cases back with
    | nil => simp at hlater
    | cons next rest =>
      simp only [getElem?_append_right (Nat.le_succ front.length), Nat.succ_sub (le_refl front.length), Nat.sub_self,
        getElem?_cons_succ, getElem?_cons_zero, Option.some.injEq] at hlater
      exact ⟨rest, by rw [hlater]⟩
  refine ⟨before, key, front, earlier, later, rest, after, ?_, ?_⟩
  · rw [hruns, hrest]
  · rw [hpair]
    rfl

theorem mergeAt_length (before after : List Region) (earlier later : Region) :
    (before ++ earlier.absorb [later] :: after).length + 1 = (before ++ earlier :: later :: after).length := by
  simp only [length_append, length_cons]
  omega

theorem absorb_required_ne {run : Region} {others : List Region} (h : run.required ≠ []) : (run.absorb others).required ≠ [] := by
  obtain ⟨t, ht⟩ := exists_mem_of_ne_nil _ h
  exact ne_nil_of_mem (mem_absorb_required.mpr (.inl ht))

theorem forall₂_replace {β : Type} {R : α → β → Prop} {as : List α} {before after : List β} {b b' : β}
    (h : List.Forall₂ R as (before ++ b :: after)) (himp : ∀ a, R a b → R a b') : List.Forall₂ R as (before ++ b' :: after) := by
  induction before generalizing as with
  | nil =>
    cases h with
    | cons hfirst hrest => exact .cons (himp _ hfirst) hrest
  | cons x before ih =>
    cases h with
    | cons hfirst hrest => exact .cons hfirst (ih hrest)

/-- Merging goes on until the regions fit, where each of them has a required time and the sources fit. By induction on the rounds,
of which there are as many as regions. -/
theorem mergeLoop_fits {limit rounds : ℕ} (hdivide : AllDivide demand sources) (hrounds : regionCount sources ≤ rounds)
    (hneeded : (demand.filter fun entry => ¬ entry.2.1.isEmpty).length ≤ limit)
    (hrequired : limit < regionCount sources → ∀ source ∈ sources, ∀ run ∈ source.2, run.required ≠ []) (merged : ℕ) :
    AllDivide demand (mergeLoop limit rounds merged sources).1 ∧
      regionCount (mergeLoop limit rounds merged sources).1 ≤ limit := by
  induction rounds generalizing sources merged with
  | zero => exact ⟨hdivide, hrounds.trans (Nat.zero_le limit)⟩
  | succ rounds ih =>
    rw [mergeLoop]
    by_cases hover : regionCount sources > limit
    · rw [if_pos hover]
      have hall := hrequired hover
      obtain ⟨before, key, runs, earlier, later, rest, after, rfl, hpair⟩ : ∃ before key runs earlier later rest after,
          sources = before ++ (key, runs ++ earlier :: later :: rest) :: after ∧
            nearestPair sources = some (before.length, runs.length + 1) := by
        refine exists_nearestPair (not_forall_not.mp fun hnone => ?_)
        have hshort := regionCount_le fun source hsource => not_lt.mp fun hlong => hnone source ⟨hsource, hlong⟩
        exact absurd ((hshort.trans (hdivide.required_sources hall)).trans hneeded) (not_le.mpr hover)
      rw [hpair]
      dsimp only
      rw [modify_split]
      rw [mergeAt_eq]
      have hlength := mergeAt_length runs rest earlier later
      refine ih ?_ ?_ ?_ (merged + 1)
      · refine forall₂_replace hdivide ?_
        rintro entry ⟨hkey, hdivides, hfew⟩
        exact ⟨hkey, hdivides.mergeAt, by dsimp only at hfew ⊢; omega⟩
      · rw [regionCount_append, regionCount_cons] at hrounds ⊢
        dsimp only at hrounds ⊢
        omega
      · intro _ source hsource
        rcases mem_append.mp hsource with hsource | hsource
        · exact hall source (mem_append_left _ hsource)
        · rcases mem_cons.mp hsource with rfl | hsource
          · have hold := hall (key, runs ++ earlier :: later :: rest) (by simp)
            intro run hrun
            rcases mem_append.mp hrun with hrun | hrun
            · exact hold run (mem_append_left _ hrun)
            · rcases mem_cons.mp hrun with rfl | hrun
              · exact absorb_required_ne (hold earlier (by simp))
              · exact hold run (by simp [hrun])
          · exact hall source (by simp [hsource])
    · rw [if_neg hover]
      exact ⟨hdivide, not_lt.mp hover⟩

theorem Divides.withRequired {required lookahead : List ℤ} {runs : List Region} (h : Divides required lookahead runs) :
    Divides required lookahead (runs.filter fun run => ¬ run.required.isEmpty) := by
  have hrequired : (runs.filter fun run => ¬ run.required.isEmpty).flatMap Region.required = runs.flatMap Region.required := by
    clear h
    induction runs with
    | nil => rfl
    | cons run runs ih =>
      by_cases hempty : run.required = []
      all_goals simp [hempty, ← ih]
  refine h.of_perm (hrequired ▸ .refl _) (fun run hrun t ht => ⟨run, mem_of_mem_filter hrun, ht⟩) fun run hrun => ?_
  exact h.runs run (mem_of_mem_filter hrun)

theorem AllDivide.withoutLookaheadRuns (h : AllDivide demand sources) (limit : ℕ) :
    AllDivide demand (withoutLookaheadRuns limit sources) := by
  unfold Kinewright.Media.withoutLookaheadRuns
  split
  · rw [AllDivide, forall₂_map_right_iff]
    refine Forall₂.imp ?_ h
    rintro entry source ⟨hkey, hdivides, hfew⟩
    exact ⟨hkey, hdivides.withRequired, (length_filter_le _ _).trans hfew⟩
  · exact h

/-- Regions of lookahead only are left where all fit. -/
theorem withoutLookaheadRuns_required {limit : ℕ} (h : limit < regionCount (withoutLookaheadRuns limit sources)) :
    ∀ source ∈ withoutLookaheadRuns limit sources, ∀ run ∈ source.2, run.required ≠ [] := by
  unfold Kinewright.Media.withoutLookaheadRuns at h ⊢
  split
  · intro source hsource run hrun
    obtain ⟨old, -, rfl⟩ := mem_map.mp hsource
    simpa using of_mem_filter hrun
  · rename_i hfits
    rw [if_neg hfits] at h
    exact absurd h hfits

/-- The regions of one source in a plan. -/
def regionsOf [DecidableEq K] (regions : List (K × Region)) (key : K) : List Region :=
  (regions.filter fun entry => entry.1 = key).map Prod.snd

theorem regionsOf_flatMap [DecidableEq K] (hkeys : (sources.map Prod.fst).Nodup) {source : K × List Region} (hmem : source ∈ sources) :
    regionsOf (sources.flatMap fun source => source.2.map fun run => (source.1, run)) source.1 = source.2 := by
  have hown (key : K) (other : K × List Region) :
      regionsOf (other.2.map fun run => (other.1, run)) key = if other.1 = key then other.2 else [] := by
    rw [regionsOf, filter_map]
    by_cases hkey : other.1 = key
    all_goals simp [hkey]
  have happend (key : K) (first rest : List (K × Region)) :
      regionsOf (first ++ rest) key = regionsOf first key ++ regionsOf rest key := by
    rw [regionsOf, filter_append, map_append]
    rfl
  induction sources with
  | nil => cases hmem
  | cons first sources ih =>
    rw [map_cons, nodup_cons] at hkeys
    obtain ⟨hfirst, hrest⟩ := hkeys
    rw [flatMap_cons, happend, hown]
    rcases mem_cons.mp hmem with rfl | hmem
    · have hnone : regionsOf (sources.flatMap fun source => source.2.map fun run => (source.1, run)) source.1 = [] := by
        rw [regionsOf, map_eq_nil_iff, filter_eq_nil_iff]
        intro entry hentry hkey
        obtain ⟨other, hother, hentry⟩ := mem_flatMap.mp hentry
        obtain ⟨run, -, rfl⟩ := mem_map.mp hentry
        rw [decide_eq_true_eq] at hkey
        exact hfirst (hkey ▸ mem_map_of_mem hother)
      rw [if_pos rfl, hnone, append_nil]
    · rw [if_neg, ih hrest hmem, nil_append]
      intro hkey
      exact hfirst (hkey ▸ mem_map_of_mem hmem)

theorem falseFirst_pairwise (key : α → Bool) (xs : List α) :
    (falseFirst key xs).Pairwise fun before after => key before = true → key after = true := by
  refine pairwise_append.mpr ⟨?_, ?_, fun before _ after hafter _ => of_mem_filter hafter⟩
  · refine Pairwise.imp_of_mem ?_ (pairwise_of_forall (R := fun _ _ => True) fun _ _ => trivial)
    intro before after hbefore _ _ hkey
    have hnot := of_mem_filter hbefore
    simp [hkey] at hnot
  · refine Pairwise.imp_of_mem ?_ (pairwise_of_forall (R := fun _ _ => True) fun _ _ => trivial)
    intro before after _ hafter _ _
    exact of_mem_filter hafter

/-- A time of a divided demand is in one region only. -/
theorem Divides.filter_eq {required lookahead : List ℤ} {runs : List Region} (h : Divides required lookahead runs) {t : ℤ}
    (ht : t ∈ required) : ∃ region, runs.filter (fun region => t ∈ region.required) = [region] := by
  obtain ⟨region, hregion, htime⟩ := mem_flatMap.mp ((h.required t).mpr ht)
  obtain ⟨before, after, rfl⟩ := append_of_mem hregion
  have honce := h.once
  rw [flatMap_append, flatMap_cons, nodup_append] at honce
  obtain ⟨-, hrest, hbefore⟩ := honce
  rw [nodup_append] at hrest
  refine ⟨region, ?_⟩
  have hfront : before.filter (fun region => t ∈ region.required) = [] := by
    refine filter_eq_nil_iff.mpr fun other hother hmem => ?_
    rw [decide_eq_true_eq] at hmem
    exact hbefore t (mem_flatMap.mpr ⟨other, hother, hmem⟩) t (mem_append_left _ htime) rfl
  have hback : after.filter (fun region => t ∈ region.required) = [] := by
    refine filter_eq_nil_iff.mpr fun other hother hmem => ?_
    rw [decide_eq_true_eq] at hmem
    exact hrest.2.2 t htime t (mem_flatMap.mpr ⟨other, hother, hmem⟩) rfl
  rw [filter_append, filter_cons_of_pos (by simpa using htime), hfront, hback, nil_append]

/-- The regions of all sources as a plan lists them. -/
theorem AllDivide.plans [DecidableEq K] (h : AllDivide demand sources) (hdemand : (demand.map Prod.fst).Nodup) {limit : ℕ}
    (hcount : regionCount sources ≤ limit) {regions : List (K × Region)}
    (hregions : regions = falseFirst (fun entry => entry.2.required.isEmpty)
      (sources.flatMap fun source => source.2.map fun run => (source.1, run))) :
    regions.length ≤ limit ∧
    (∀ entry ∈ regions, entry.1 ∈ demand.map Prod.fst) ∧
    (∀ source ∈ demand, (regionsOf regions source.1).length ≤ readersPerSource ∧
      (∀ t ∈ source.2.1, ∃ region, (regionsOf regions source.1).filter (fun region => t ∈ region.required) = [region]) ∧
      ∀ region ∈ regionsOf regions source.1, (∀ t ∈ region.required, t ∈ source.2.1) ∧
        (∀ t ∈ region.lookahead, t ∈ source.2.2) ∧
        (region.merged = false → (region.required ++ region.lookahead).IsChain NextTime) ∧
        (region.merged = true → ∀ t ∈ region.lookahead, ∀ last ∈ region.required, last < t)) ∧
    regions.Pairwise fun before after => before.2.required = [] → after.2.required = [] := by
  have hkeys : sources.map Prod.fst = demand.map Prod.fst := List.map_eq_of_forall₂ (fun _ _ hentry => hentry.1) h
  have hperm : regions.Perm (sources.flatMap fun source => source.2.map fun run => (source.1, run)) :=
    hregions ▸ falseFirst_perm _ _
  refine ⟨?_, fun entry hentry => ?_, fun source hsource => ?_, ?_⟩
  · rw [hperm.length_eq]
    simpa [regionCount] using hcount
  · obtain ⟨source, hsource, hentry⟩ := mem_flatMap.mp (hperm.mem_iff.mp hentry)
    obtain ⟨run, -, rfl⟩ := mem_map.mp hentry
    exact hkeys ▸ mem_map_of_mem hsource
  · obtain ⟨own, hown, hkey, hdivides, hfew⟩ := exists_of_forall₂_left h hsource
    -- the regions of this source in the plan are those that divide its demand
    have hruns : (regionsOf regions source.1).Perm own.2 := by
      rw [← hkey, ← regionsOf_flatMap (hkeys ▸ hdemand) hown]
      exact (hperm.filter _).map Prod.snd
    have hown := hdivides.perm hruns
    refine ⟨hruns.length_eq ▸ hfew, fun t ht => hown.filter_eq ht, fun region hregion => ⟨fun t ht => ?_, ?_, ?_, ?_⟩⟩
    · exact (hown.required t).mp (mem_flatMap.mpr ⟨region, hregion, ht⟩)
    · exact hown.lookahead region hregion
    · exact (hown.runs region hregion).run
    · exact (hown.runs region hregion).past
  · rw [hregions]
    refine (falseFirst_pairwise _ _).imp ?_
    simp

end

/-- A job is planned unless more sources have required times than there may be readers. In a plan, no more regions than that,
and at most two of a source, divide the demand of each source, and those with required times come first. -/
theorem planRegions_divides [DecidableEq K] {demand : List (K × List ℤ × List ℤ)} (hdemand : (demand.map Prod.fst).Nodup)
    (limit : ℕ) :
    (planRegions demand limit = none ↔ limit < (demand.filter fun source => ¬ source.2.1.isEmpty).length) ∧
    ∀ planned, planRegions demand limit = some planned → planned.regions.length ≤ limit ∧
      (∀ entry ∈ planned.regions, entry.1 ∈ demand.map Prod.fst) ∧
      (∀ source ∈ demand, (regionsOf planned.regions source.1).length ≤ readersPerSource ∧
        (∀ t ∈ source.2.1, ∃ region, (regionsOf planned.regions source.1).filter (fun region => t ∈ region.required) = [region]) ∧
        ∀ region ∈ regionsOf planned.regions source.1, (∀ t ∈ region.required, t ∈ source.2.1) ∧
          (∀ t ∈ region.lookahead, t ∈ source.2.2) ∧
          (region.merged = false → (region.required ++ region.lookahead).IsChain NextTime) ∧
          (region.merged = true → ∀ t ∈ region.lookahead, ∀ last ∈ region.required, last < t)) ∧
      planned.regions.Pairwise fun before after => before.2.required = [] → after.2.required = [] := by
  rw [planRegions]
  constructor
  · simp
  · intro planned hplanned
    rw [Option.ite_none_left_eq_some, Option.some.injEq] at hplanned
    obtain ⟨hneeded, rfl⟩ := hplanned
    have hstart : AllDivide demand (demand.map fun source => (source.1, (regions source.2.1 source.2.2).1)) := by
      rw [AllDivide, forall₂_map_right_iff, forall₂_same]
      intro entry _
      obtain ⟨hdivides, hfew⟩ := regions_divides entry.2.1 entry.2.2
      exact ⟨rfl, hdivides, hfew⟩
    obtain ⟨hdivide, hcount⟩ := mergeLoop_fits (hstart.withoutLookaheadRuns limit) le_rfl (not_lt.mp hneeded)
      withoutLookaheadRuns_required 0
    exact hdivide.plans hdemand hcount rfl

theorem planRegions_divides_pressed : ∃ planned,
    planRegions [(1, [3, 4, 9, 20], [5, 10, 21]), (2, [7], [8])] 2 = some planned ∧ planned.regions.length ≤ 2 := by
  have hdemand : (([(1, [3, 4, 9, 20], [5, 10, 21]), (2, [7], [8])] : List (ℕ × List ℤ × List ℤ)).map Prod.fst).Nodup := by
    decide
  obtain ⟨planned, hplanned⟩ := Option.ne_none_iff_exists'.mp fun hnone =>
    absurd ((planRegions_divides hdemand 2).1.mp hnone) (by decide)
  exact ⟨planned, hplanned, ((planRegions_divides hdemand 2).2 planned hplanned).1⟩

end Kinewright.Media
