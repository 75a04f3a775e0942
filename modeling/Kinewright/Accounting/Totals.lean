import Kinewright.Accounting.Usage

/-!
# The totals of a task

The totals are added up over the turns. They are the same for samples in another order, as long as those of each turn are in theirs,
and they do not get less when samples are added. Where the tokens are complete, every turn is finished and covers what is counted.
-/

namespace Kinewright.Accounting

open Fallible Except List

/-! ## Adding the turns up -/

section

variable {turn turn' : Turn} {turns turns' : List Turn} {totals : UsageTotals} {indices : List ℕ}
  {known : List (Option UInt64)} {values : List (Option UInt64 × Bool)}

/-- What is known is not less than before. -/
theorem atMost_addKnown {new : List (Option UInt64)} (hlength : known.length = values.length) (h : addKnown known values = .ok new) :
    List.Forall₂ AtMost known new := by
  induction known generalizing values new with
  | nil =>
    obtain rfl := ok.inj h
    exact .nil
  | cons first known ih =>
    cases values with
    | nil => cases hlength
    | cons value values =>
      obtain ⟨value, covered⟩ := value
      cases value with
      | none =>
        obtain ⟨rest, hrest, h⟩ := bind_eq_ok.mp h
        obtain rfl := ok.inj h
        exact .cons (.refl first) (ih (Nat.succ.inj hlength) hrest)
      | some value =>
        obtain ⟨sum, hsum, h⟩ := bind_eq_ok.mp h
        obtain ⟨rest, hrest, h⟩ := bind_eq_ok.mp h
        obtain rfl := ok.inj h
        refine .cons ?_ (ih (Nat.succ.inj hlength) hrest)
        rintro x hx
        obtain rfl : first = some x := hx
        exact ⟨sum, rfl, le_of_checkedAdd (okOr_eq_ok.mp hsum)⟩

/-- Less is added to less. -/
theorem addKnown_mono {known' new' : List (Option UInt64)} {values' : List (Option UInt64 × Bool)}
    (hknown : List.Forall₂ AtMost known known') (hvalues : List.Forall₂ (fun old new => AtMost old.1 new.1) values values')
    (h : addKnown known' values' = .ok new') : ∃ new, addKnown known values = .ok new ∧ List.Forall₂ AtMost new new' := by
  induction hknown generalizing values values' new' with
  | nil =>
    obtain rfl := ok.inj h
    exact ⟨[], rfl, .nil⟩
  | @cons first first' known known' hfirst hknown ih =>
    cases hvalues with
    | nil =>
      obtain rfl := ok.inj h
      exact ⟨[], rfl, .nil⟩
    | @cons value value' values values' hvalue hvalues =>
      obtain ⟨value, covered⟩ := value
      obtain ⟨value', covered'⟩ := value'
      cases value' with
      | none =>
        obtain ⟨rest', hrest', h⟩ := bind_eq_ok.mp h
        obtain rfl := ok.inj h
        obtain ⟨rest, hrest, hatMost⟩ := ih hvalues hrest'
        cases value with
        | none => exact ⟨first :: rest, by rw [addKnown, hrest]; rfl, .cons hfirst hatMost⟩
        | some value =>
          obtain ⟨_, ⟨⟩, -⟩ := hvalue value rfl
      | some value' =>
        obtain ⟨sum', hsum', h⟩ := bind_eq_ok.mp h
        obtain ⟨rest', hrest', h⟩ := bind_eq_ok.mp h
        obtain rfl := ok.inj h
        obtain ⟨rest, hrest, hatMost⟩ := ih hvalues hrest'
        rw [okOr_eq_ok] at hsum'
        cases value with
        | none =>
          refine ⟨first :: rest, by rw [addKnown, hrest]; rfl, .cons (fun x hx => ?_) hatMost⟩
          obtain ⟨y, rfl, hxy⟩ := hfirst x hx
          exact ⟨sum', rfl, UInt64.le_trans hxy (le_of_checkedAdd hsum')⟩
        | some value =>
          obtain ⟨_, ⟨⟩, hle⟩ := hvalue value rfl
          obtain ⟨sum, hsum, hsums⟩ := checkedAdd_mono hfirst.getD hle hsum'
          refine ⟨some sum :: rest, by rw [addKnown, hsum, hrest]; rfl, .cons ?_ hatMost⟩
          rintro _ ⟨⟩
          exact ⟨sum', rfl, hsums⟩

theorem le_addTokens {tokens new : UInt64 × Bool} (h : addTokens turn tokens indices = .ok new) : tokens.1 ≤ new.1 := by
  induction indices generalizing tokens with
  | nil =>
    obtain rfl := ok.inj h
    exact UInt64.le_refl _
  | cons index indices ih =>
    obtain ⟨sum, hsum, h⟩ := bind_eq_ok.mp h
    exact UInt64.le_trans (le_of_checkedAdd (okOr_eq_ok.mp hsum)) (ih h)

theorem getD_atMost {values' : List (Option UInt64 × Bool)} (h : List.Forall₂ (fun old new => AtMost old.1 new.1) values values')
    (index : ℕ) : AtMost (values.getD index (none, false)).1 (values'.getD index (none, false)).1 := by
  induction h generalizing index with
  | nil => exact .refl _
  | cons hvalue _ ih =>
    cases index with
    | zero => exact hvalue
    | succ index => exact ih index

theorem addTokens_mono {tokens tokens' new' : UInt64 × Bool} (hturn : turn.Later turn') (hle : tokens.1 ≤ tokens'.1)
    (h : addTokens turn' tokens' indices = .ok new') : ∃ new, addTokens turn tokens indices = .ok new ∧ new.1 ≤ new'.1 := by
  induction indices generalizing tokens tokens' with
  | nil =>
    obtain rfl := ok.inj h
    exact ⟨tokens, rfl, hle⟩
  | cons index indices ih =>
    obtain ⟨sum', hsum', h⟩ := bind_eq_ok.mp h
    obtain ⟨sum, hsum, hsums⟩ := checkedAdd_mono hle (getD_atMost hturn.values index).getD (okOr_eq_ok.mp hsum')
    let added := (sum, tokens.2 && turn.says (turn.values.getD index (none, false)))
    obtain ⟨new, hnew, hle⟩ := ih (show added.1 ≤ _ from hsums) h
    exact ⟨new, by rw [addTokens, hsum]; exact hnew, hle⟩

/-- What is known of fewer samples, and how many tokens they have used, is not more. -/
structure UsageTotals.Within (totals totals' : UsageTotals) : Prop where
  known : List.Forall₂ AtMost totals.known.values totals'.known.values
  tokens : totals.tokenLowerBound ≤ totals'.tokenLowerBound

theorem values_fromValues {known' : List (Option UInt64)} (h : List.Forall₂ AtMost known known') :
    List.Forall₂ AtMost (UsageValues.fromValues known).values (UsageValues.fromValues known').values := by
  have hgetD (index : ℕ) : AtMost (known.getD index none) (known'.getD index none) := by
    induction h generalizing index with
    | nil => exact .refl _
    | cons hvalue _ ih =>
      cases index with
      | zero => exact hvalue
      | succ index => exact ih index
  exact .cons (hgetD 0) (.cons (hgetD 1) (.cons (hgetD 2) (.cons (hgetD 3) (.cons (hgetD 4) (.cons (hgetD 5) .nil)))))

/-- Fewer turns with less are added to less. By induction on the turns that are more. -/
theorem addTurns_mono {known' : List (Option UInt64)} {complete complete' : List Bool} {tokens tokens' : UInt64 × Bool}
    {totals' : UsageTotals} (hturns : List.SublistForall₂ Turn.Later turns turns') (hsix : ∀ turn ∈ turns', turn.values.length = 6)
    (hlength : known'.length = 6) (hknown : List.Forall₂ AtMost known known') (hle : tokens.1 ≤ tokens'.1)
    (h : addTurns known' complete' tokens' turns' = .ok totals') :
    ∃ totals, addTurns known complete tokens turns = .ok totals ∧ totals.Within totals' := by
  induction turns' generalizing turns known known' complete complete' tokens tokens' with
  | nil =>
    cases hturns
    obtain rfl := ok.inj h
    exact ⟨_, rfl, values_fromValues hknown, hle⟩
  | cons turn' turns' ih =>
    obtain ⟨hturn', hturns'⟩ := forall_mem_cons.mp hsix
    obtain ⟨new', hnew', h⟩ := bind_eq_ok.mp h
    obtain ⟨sums', hsums', h⟩ := bind_eq_ok.mp h
    have hgrows := atMost_addKnown (hlength.trans hturn'.symm) hnew'
    have hlength' : new'.length = 6 := hgrows.length_eq ▸ hlength
    have hknown' : List.Forall₂ AtMost known new' := forall₂_trans (fun _ _ _ => AtMost.trans) hknown hgrows
    have hle' : tokens.1 ≤ sums'.1 := UInt64.le_trans hle (le_addTokens hsums')
    cases hturns with
    | nil => exact ih .nil hturns' hlength' hknown' hle' h
    | cons_right hturns => exact ih hturns hturns' hlength' hknown' hle' h
    | @cons turn _ turns _ hturn hturns =>
      obtain ⟨new, hnew, hatMost⟩ := addKnown_mono hknown hturn.values hnew'
      obtain ⟨sums, hsums, hle⟩ := addTokens_mono hturn hle hsums'
      have hindices : turn'.tokenIndices = turn.tokenIndices := by
        rw [Turn.tokenIndices, hturn.cacheIncluded, hturn.reasoningIncluded]
        rfl
      rw [hindices] at hsums
      obtain ⟨totals, htotals, hwithin⟩ := ih hturns hturns' hlength' hatMost hle h
      exact ⟨totals, by rw [addTurns, hnew, hsums]; exact htotals, hwithin⟩

end

/-! ## Whole totals -/

section

variable {turn : Turn} {totals : UsageTotals}

theorem says_eq_true {value : Option UInt64 × Bool} : turn.says value ↔ turn.finished ∧ value.2 ∧ value.1.isSome := by
  unfold Turn.says
  rw [Bool.and_eq_true, Bool.and_eq_true, and_assoc]

theorem says_of_addTokens {tokens new : UInt64 × Bool} {indices : List ℕ} (h : addTokens turn tokens indices = .ok new) (hwhole : new.2) :
    tokens.2 ∧ ∀ index ∈ indices, turn.says (turn.values.getD index (none, false)) := by
  induction indices generalizing tokens with
  | nil =>
    obtain rfl := ok.inj h
    exact ⟨hwhole, forall_mem_nil _⟩
  | cons index indices ih =>
    obtain ⟨sum, -, h⟩ := bind_eq_ok.mp h
    obtain ⟨hfirst, hindices⟩ := ih h
    rw [Bool.and_eq_true] at hfirst
    exact ⟨hfirst.1, forall_mem_cons.mpr ⟨hfirst.2, hindices⟩⟩

theorem says_of_addTurns {turns : List Turn} {known : List (Option UInt64)} {complete : List Bool} {tokens : UInt64 × Bool}
    (h : addTurns known complete tokens turns = .ok totals) (hwhole : totals.tokensComplete) :
    tokens.2 ∧ ∀ turn ∈ turns, ∀ index ∈ turn.tokenIndices, turn.says (turn.values.getD index (none, false)) := by
  induction turns generalizing known complete tokens with
  | nil =>
    obtain rfl := ok.inj h
    exact ⟨hwhole, forall_mem_nil _⟩
  | cons turn turns ih =>
    obtain ⟨new, -, h⟩ := bind_eq_ok.mp h
    obtain ⟨sums, hsums, h⟩ := bind_eq_ok.mp h
    obtain ⟨hsum, hturns⟩ := ih h
    obtain ⟨htokens, hturn⟩ := says_of_addTokens hsums hsum
    exact ⟨htokens, forall_mem_cons.mpr ⟨hturn, hturns⟩⟩

end

/-! ## Normalisation -/

section

variable {samples samples' later : List UsageSample} {totals totals' : UsageTotals}

/-- Samples are normalised by adding their turns up. -/
theorem normalize_eq_ok : normalize samples = .ok totals ↔ samples.length ≤ usageEvents ∧ ∃ turns, Tallies samples turns ∧
    addTurns (List.replicate 6 none) (List.replicate 6 (turns ≠ [])) (0, turns ≠ []) (turns.map Prod.snd) = .ok totals := by
  rw [normalize, then_eq_ok, refuse_eq_ok, not_lt, bind_eq_ok]
  refine and_congr_right fun _ => exists_congr fun turns => and_congr_left fun _ => ?_
  exact takeSamples_iff tallies_nil

/-- Only the order of the samples of each turn is asked for. -/
theorem normalize_reorder (hturns : ∀ key, ofTurn samples' key = ofTurn samples key) (h : normalize samples = .ok totals) :
    normalize samples' = .ok totals := by
  have hperm := perm_of_turns hturns
  rw [normalize_eq_ok] at h ⊢
  obtain ⟨hlength, turns, htallies, hadd⟩ := h
  exact ⟨hperm.length_eq ▸ hlength, turns, htallies.reorder hperm hturns, hadd⟩

theorem turns_of_grown {turns turns' : List ((SessionId × UInt64) × Turn)} (h : Grown turns turns') :
    List.SublistForall₂ Turn.Later (turns.map Prod.snd) (turns'.map Prod.snd) := by
  induction h with
  | nil => exact .nil
  | cons hentry _ ih => exact .cons hentry.2 ih
  | cons_right _ ih => exact .cons_right ih

/-- Fewer samples have totals, which are not more. -/
theorem normalize_mono (h : normalize (samples ++ later) = .ok totals') : ∃ totals, normalize samples = .ok totals ∧ totals.Within totals' := by
  rw [normalize, then_eq_ok, refuse_eq_ok, takeSamples_append] at h
  obtain ⟨hlength, h⟩ := h
  obtain ⟨turns', hturns', hadd⟩ := bind_eq_ok.mp h
  obtain ⟨turns, hturns, hlater⟩ := bind_eq_ok.mp hturns'
  obtain ⟨hfull, -⟩ := grown_takeSamples (forall_mem_nil _) hturns
  obtain ⟨hfull', hgrown⟩ := grown_takeSamples hfull hlater
  have hsix : ∀ turn ∈ turns'.map Prod.snd, turn.values.length = 6 := forall_mem_map.mpr hfull'
  have hnone : List.Forall₂ AtMost (List.replicate 6 none) (List.replicate 6 none) := forall₂_same.mpr fun _ _ => .refl _
  have hstart : ((0, turns ≠ []) : UInt64 × Bool).1 ≤ ((0, turns' ≠ []) : UInt64 × Bool).1 := UInt64.le_refl 0
  obtain ⟨totals, htotals, hwithin⟩ : ∃ totals, addTurns (List.replicate 6 none) (List.replicate 6 (turns ≠ [])) (0, turns ≠ [])
      (turns.map Prod.snd) = .ok totals ∧ totals.Within totals' :=
    addTurns_mono (turns_of_grown hgrown) hsix rfl hnone hstart hadd
  refine ⟨totals, ?_, hwithin⟩
  rw [normalize, then_eq_ok, refuse_eq_ok]
  rw [length_append] at hlength
  exact ⟨by omega, bind_eq_ok.mpr ⟨turns, hturns, htotals⟩⟩

/-- The turn of a sample is finished, and covers what is counted of it. -/
structure Finished (samples : List UsageSample) (sample : UsageSample) : Prop where
  complete : ∃ last ∈ (ofTurn samples sample.key).getLast?, last.complete
  covers : ∀ index ∈ sample.countedIndices, Covers (ofTurn samples sample.key) index

theorem finished_of_normalize (h : normalize samples = .ok totals) (hwhole : totals.tokensComplete) : ∀ sample ∈ samples, Finished samples sample := by
  rintro sample hsample
  obtain ⟨-, turns, htallies, hadd⟩ := normalize_eq_ok.mp h
  obtain ⟨-, hwhole'⟩ := says_of_addTurns hadd hwhole
  have hown : sample ∈ ofTurn samples sample.key := mem_filter.mpr ⟨hsample, by simp⟩
  have hreplay := htallies.turn sample.key
  cases hturn : SortedMap.get? turns sample.key with
  | none =>
    rw [hturn] at hreplay
    rw [replay_eq_none hreplay] at hown
    cases hown
  | some turn =>
    rw [hturn] at hreplay
    have hturns : turn ∈ turns.map Prod.snd := mem_map_of_mem (SortedMap.mem_of_get? hturn)
    obtain ⟨⟨last, hlast, hfinished⟩, hcounted, hcovered⟩ := Turn.replays hreplay
    have hcounts (index : ℕ) (hindex : index ∈ sample.countedIndices) :
        turn.finished ∧ (turn.values.getD index (none, false)).2 := by
      have hsaid := says_eq_true.mp (hwhole' turn hturns index (hcounted sample hown ▸ hindex))
      exact ⟨hsaid.1, hsaid.2.1⟩
    refine ⟨⟨last, hlast, ?_⟩, fun index hindex => hcovered index (hcounts index hindex).2⟩
    -- the input is counted in every turn
    exact hfinished ▸ (hcounts 0 (by simp [UsageSample.countedIndices, Turn.tokenIndices])).1

end

/-- Fewer samples have totals that are not more, samples in another order have the same ones, and complete ones are of turns that are
finished. -/
theorem normalize_lawful :
    (∀ samples later totals', normalize (samples ++ later) = .ok totals' → ∃ totals, normalize samples = .ok totals ∧ totals.Within totals') ∧
      (∀ samples samples', samples'.Perm samples → (∀ key, ofTurn samples' key = ofTurn samples key) →
        ∀ totals, normalize samples' = .ok totals ↔ normalize samples = .ok totals) ∧
      ∀ samples totals, normalize samples = .ok totals → totals.tokensComplete → ∀ sample ∈ samples, Finished samples sample := by
  refine ⟨fun samples later totals' => normalize_mono, fun samples samples' _ hturns totals => ?_, fun samples totals => finished_of_normalize⟩
  exact ⟨normalize_reorder fun key => (hturns key).symm, normalize_reorder hturns⟩

section

/-- A sample of a turn of the attempt that says what the turn has used so far. -/
def cumulativeSample (turn : UInt64) (event : String) (ordinal tokens : UInt64) : UsageSample where
  attempt := "attempt"
  turn
  event
  ordinal
  mode := .cumulative
  values := ⟨some tokens, some tokens, none, none, none, none⟩
  complete := true
  inputIncludesCache := true
  outputIncludesReasoning := true

theorem normalize_lawful_samples : (∃ totals, normalize [cumulativeSample 1 "a" 1 5] = .ok totals ∧ totals.Within
      ⟨⟨some 12, some 12, none, none, none, none⟩, [true, true, false, false, false, false], 24, true⟩) ∧
    (normalize [cumulativeSample 2 "c" 1 3, cumulativeSample 1 "a" 1 5, cumulativeSample 1 "b" 2 9] = .ok
      ⟨⟨some 12, some 12, none, none, none, none⟩, [true, true, false, false, false, false], 24, true⟩) ∧
    ∀ sample ∈ [cumulativeSample 1 "a" 1 5, cumulativeSample 1 "b" 2 9, cumulativeSample 2 "c" 1 3],
      Finished [cumulativeSample 1 "a" 1 5, cumulativeSample 1 "b" 2 9, cumulativeSample 2 "c" 1 3] sample := by
  have hall : normalize ([cumulativeSample 1 "a" 1 5] ++ [cumulativeSample 1 "b" 2 9, cumulativeSample 2 "c" 1 3]) = .ok
      ⟨⟨some 12, some 12, none, none, none, none⟩, [true, true, false, false, false, false], 24, true⟩ := by decide +kernel
  refine ⟨normalize_lawful.1 _ _ _ hall, ?_, normalize_lawful.2.2 _ _ hall rfl⟩
  have hperm : [cumulativeSample 2 "c" 1 3, cumulativeSample 1 "a" 1 5, cumulativeSample 1 "b" 2 9].Perm
      ([cumulativeSample 1 "a" 1 5] ++ [cumulativeSample 1 "b" 2 9, cumulativeSample 2 "c" 1 3]) := by decide +kernel
  refine (normalize_lawful.2.1 _ _ hperm (fun key => ?_) _).mpr hall
  -- a turn is the first, the second, or none of them
  by_cases hfirst : ("attempt", 1) = key
  · subst hfirst
    decide +kernel
  · by_cases hsecond : ("attempt", 2) = key
    · subst hsecond
      decide +kernel
    · simp [ofTurn, UsageSample.key, cumulativeSample, hfirst, hsecond]

end

end Kinewright.Accounting
