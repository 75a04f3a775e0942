import Mathlib.Tactic.Ring
import Kinewright.Captions.Authored

/-!
# The cheapest division of a sentence

While a sentence is short enough for its costs to stay exact, the table reaches every division of it, and the boundaries that
are read back from it cost least of all.
-/

namespace Kinewright.Captions

open Divisions Fallible List

section

variable (table : CharTable) (words : List String) (cueCount : ℕ) (targets : List ℕ)

/-- What a cue costs that shows the words from `start` to `stop` as cue number `used` of its sentence: what does not fit on the
line, how uneven it is, how far from its target it ends, and between which words. -/
def cueCost (used start stop : ℕ) : ℕ :=
  overCharacters words start stop * overCharacters words start stop * 500 +
    ragged words cueCount start stop * ragged words cueCount start stop +
    targetDistance targets used stop * 12 + boundaryCost table words stop

/-- What it costs to divide a sentence so. -/
def divisionCost (division : List (List String)) : ℕ :=
  total (cueCost table words cueCount targets) 0 0 (stopsFrom 0 division)

end

/-- The characters of the words, each with the space behind it. -/
def weight (words : List String) : ℕ := (words.map fun word => word.length + 1).sum

theorem weight_append (words words' : List String) : weight (words ++ words') = weight words + weight words' := by
  rw [weight, map_append, sum_append, weight, weight]

theorem weight_le_of_mem {part : List String} {parts : List (List String)} (h : part ∈ parts) :
    weight part ≤ weight parts.flatten := by
  obtain ⟨before, after, rfl⟩ := append_of_mem h
  rw [flatten_append, flatten_cons, weight_append, weight_append]
  omega

theorem length_le_weight (words : List String) : words.length ≤ weight words := by
  induction words with
  | nil => exact Nat.zero_le _
  | cons word words ih =>
    rw [weight, map_cons, sum_cons, length_cons]
    rw [weight] at ih
    omega

theorem weight_eq (words : List String) : weight words = (words.map String.length).sum + words.length := by
  induction words with
  | nil => rfl
  | cons word words ih =>
    rw [weight] at ih ⊢
    rw [map_cons, sum_cons, map_cons, sum_cons, length_cons]
    omega

theorem phraseCharacters_le_weight (words : List String) : phraseCharacters words ≤ weight words := by
  rw [phraseCharacters, weight_eq]
  omega

section

variable {table : CharTable} {words : List String} {cueCount : ℕ} {targets : List ℕ} {stop : ℕ}

/-- The characters between two stops are some of the characters up to the second. -/
theorem weight_take_add (words : List String) {start : ℕ} (h : start ≤ stop) :
    weight (words.take start) + weight ((words.drop start).take (stop - start)) = weight (words.take stop) := by
  rw [← weight_append, ← take_add, Nat.add_sub_cancel' h]

theorem weight_take_le (words : List String) (stop : ℕ) : weight (words.take stop) ≤ weight words := by
  have h : weight (words.take stop) + weight (words.drop stop) = weight words := by
    rw [← weight_append, take_append_drop]
  omega

theorem absDiff_le {a b c : ℕ} (ha : a ≤ c) (hb : b ≤ c) : absDiff a b ≤ c := by
  unfold absDiff
  omega

theorem boundaryPenalty_le (table : CharTable) (previous next : String) : boundaryPenalty table previous next ≤ 4000 := by
  unfold boundaryPenalty
  repeat' split
  all_goals omega

theorem boundaryCost_le (stop : ℕ) : boundaryCost table words stop ≤ 4000 := by
  unfold boundaryCost
  split
  · omega
  · exact boundaryPenalty_le _ _ _

/-- No cue is further from the even share than the whole sentence is long. -/
theorem ragged_le (hcount : 0 < cueCount) (hwords : 0 < words.length) (start stop : ℕ)
    (hpart : weight ((words.drop start).take (stop - start)) ≤ weight words) :
    ragged words cueCount start stop ≤ weight words := by
  refine absDiff_le ((phraseCharacters_le_weight _).trans hpart) (Nat.div_le_of_le_mul ?_)
  have hweight : phraseCharacters words + 1 = weight words := by
    rw [phraseCharacters, weight_eq]
    omega
  calc phraseCharacters words + cueCount - 1 ≤ phraseCharacters words + cueCount := Nat.sub_le _ _
    _ ≤ cueCount * phraseCharacters words + cueCount := Nat.add_le_add_right (Nat.le_mul_of_pos_left _ hcount) _
    _ = cueCount * weight words := by rw [← hweight, Nat.mul_succ]

theorem targetDistance_le (htargets : ∀ target ∈ targets, target ≤ words.length) (used : ℕ)
    (hstop : stop ≤ words.length) : targetDistance targets used stop ≤ weight words := by
  refine absDiff_le (hstop.trans (length_le_weight words)) ?_
  rw [getD_eq_getElem?_getD]
  cases h : targets[used - 1]? with
  | none => exact Nat.zero_le _
  | some target => exact (htargets target (mem_of_getElem? h)).trans (length_le_weight words)

/-- What the costs of a cue are at most. What does not fit on the line is part of what the cue shows. -/
theorem cueCost_le (table : CharTable) (hcount : 0 < cueCount) (hwords : 0 < words.length)
    (htargets : ∀ target ∈ targets, target ≤ words.length) (used : ℕ) {start : ℕ} (hle : start ≤ stop)
    (hstop : stop ≤ words.length) :
    cueCost table words cueCount targets used start stop ≤
      500 * weight words * weight ((words.drop start).take (stop - start)) +
        (weight words * weight words + 12 * weight words + 4000) := by
  have hpart : weight ((words.drop start).take (stop - start)) ≤ weight words := by
    have hsome := weight_take_add words hle
    have hfront := weight_take_le words stop
    omega
  have hover : overCharacters words start stop ≤ weight ((words.drop start).take (stop - start)) :=
    (Nat.sub_le _ _).trans (phraseCharacters_le_weight _)
  have hragged := ragged_le hcount hwords start stop hpart
  have htarget := targetDistance_le htargets used hstop
  have hboundary : boundaryCost table words stop ≤ 4000 := boundaryCost_le stop
  have hsquare : overCharacters words start stop * overCharacters words start stop ≤
      weight words * weight ((words.drop start).take (stop - start)) := Nat.mul_le_mul (hover.trans hpart) hover
  have hsquare' : ragged words cueCount start stop * ragged words cueCount start stop ≤ weight words * weight words :=
    Nat.mul_le_mul hragged hragged
  rw [cueCost, Nat.mul_assoc 500]
  omega

/-- A division of a front of the sentence costs no more than its words and its cues allow. -/
theorem total_cueCost_le (table : CharTable) {extend : ℕ → ℕ → ℕ → ℕ → ℕ} (hcount : 0 < cueCount) (hwords : 0 < words.length)
    (htargets : ∀ target ∈ targets, target ≤ words.length) {used cost : ℕ} {stops : List ℕ}
    (h : Divides extend used stop stops cost) (hstop : stop ≤ words.length) :
    total (cueCost table words cueCount targets) 0 0 stops ≤ 500 * weight words * weight (words.take stop) +
      used * (weight words * weight words + 12 * weight words + 4000) := by
  induction h with
  | none => exact Nat.zero_le _
  | @part used start stop cost stops hfront hlt ih =>
    have hbefore := ih (hlt.le.trans hstop)
    have hpart := cueCost_le table hcount hwords htargets (used + 1) hlt.le hstop
    rw [total_concat, hfront.shape.1, hfront.shape.2, Nat.zero_add]
    refine (Nat.add_le_add hbefore hpart).trans_eq ?_
    rw [← weight_take_add words hlt.le]
    ring

/-- The costs of the divisions of a script of less than `2 ^ 20` characters are exact, and below the cost of a slot that is not
reached. -/
theorem total_cueCost_lt (table : CharTable) {extend : ℕ → ℕ → ℕ → ℕ → ℕ} (hcount : 0 < cueCount) (hwords : 0 < words.length)
    (htargets : ∀ target ∈ targets, target ≤ words.length) (hweight : weight words ≤ 2 ^ 20) {used cost : ℕ} {stops : List ℕ}
    (h : Divides extend used stop stops cost) (hstop : stop ≤ words.length) :
    total (cueCost table words cueCount targets) 0 0 stops < unreachable := by
  have hle := total_cueCost_le table hcount hwords htargets h hstop
  have hused : used ≤ 2 ^ 20 := (h.used_le.1.trans hstop).trans ((length_le_weight words).trans hweight)
  have hfront : weight (words.take stop) ≤ 2 ^ 20 := (weight_take_le words stop).trans hweight
  calc total (cueCost table words cueCount targets) 0 0 stops
    _ ≤ 500 * weight words * weight (words.take stop) +
        used * (weight words * weight words + 12 * weight words + 4000) := hle
    _ ≤ 500 * 2 ^ 20 * 2 ^ 20 + 2 ^ 20 * (2 ^ 20 * 2 ^ 20 + 12 * 2 ^ 20 + 4000) := by gcongr
    _ < unreachable := by decide

/-! ## What the table finds -/

theorem extend_mono (used start stop : ℕ) {previous previous' : ℕ} (h : previous ≤ previous') :
    extend table words cueCount targets used start stop previous ≤
      extend table words cueCount targets used start stop previous' := by
  unfold extend saturate
  dsimp only
  omega

/-- Costs that fit in 64 bits are added up exactly. -/
theorem extend_eq {used start previous : ℕ}
    (h : previous + cueCost table words cueCount targets used start stop < unreachable) :
    extend table words cueCount targets used start stop previous =
      previous + cueCost table words cueCount targets used start stop := by
  unfold extend saturate cueCost unreachable at *
  dsimp only
  omega

/-- A sentence with a word for each of its cues is divided among them, as cheaply as can be. -/
theorem semanticBoundaries_cheapest (table : CharTable) (hcount : 0 < cueCount) (hwords : cueCount ≤ words.length)
    (htargets : targets.length = cueCount ∧ ∀ target ∈ targets, target ≤ words.length) (hweight : weight words ≤ 2 ^ 20) :
    ∃ division : List (List String), semanticBoundaries table words cueCount targets = .ok (0 :: stopsFrom 0 division) ∧
      division.length = cueCount ∧ (∀ phrase ∈ division, phrase ≠ []) ∧ division.flatten = words ∧
      ∀ division' : List (List String), division'.length = cueCount → (∀ phrase ∈ division', phrase ≠ []) →
        division'.flatten = words →
          divisionCost table words cueCount targets division ≤ divisionCost table words cueCount targets division' := by
  have hpositive : 0 < words.length := by omega
  -- on the divisions of the fronts of the sentence, the costs are exact
  have hexact {used stop cost : ℕ} {stops : List ℕ}
      (h : Divides (extend table words cueCount targets) used stop stops cost) (hstop : stop ≤ words.length) :
      cost = total (cueCost table words cueCount targets) 0 0 stops ∧ cost < unreachable := by
    have hlt := total_cueCost_lt table hcount hpositive htargets.2 hweight h hstop
    have heq := h.cost_eq (fun _ _ _ _ => extend_eq) hlt
    exact ⟨heq, heq ▸ hlt⟩
  have hmono (used start stop cost cost' : ℕ) (h : cost ≤ cost') :
      extend table words cueCount targets used start stop cost ≤ extend table words cueCount targets used start stop cost' :=
    extend_mono used start stop h
  have hreach (used stop : ℕ) (stops : List ℕ) (cost : ℕ) (hused : used ≤ cueCount)
      (hsize : stop + (cueCount - used) ≤ words.length)
      (h : Divides (extend table words cueCount targets) used stop stops cost) : cost < unreachable :=
    (hexact h (by omega)).2
  obtain ⟨stops, hwalk, hdivides, hleast⟩ := slot_cheapest hmono hreach (le_refl cueCount) hwords
    (fun h => absurd h hcount.ne') (by rw [Nat.sub_self]; exact le_rfl)
  obtain ⟨division, hlength, hne, hflatten, rfl⟩ := hdivides.exists_parts le_rfl
  rw [take_length] at hflatten
  refine ⟨division, ?_, hlength, hne, hflatten, fun division' hlength' hne' hflatten' => ?_⟩
  · unfold semanticBoundaries
    rw [refuse, if_neg (by omega), ok_bind]
    dsimp only
    rw [refuse, if_neg (hexact hdivides le_rfl).2.ne, ok_bind, hwalk, okOr_some]
  · have hdivides' : ∃ cost, Divides (extend table words cueCount targets) division'.length division'.flatten.length
        (stopsFrom 0 division') cost := exists_divides hne'
    obtain ⟨cost, hcost⟩ := hdivides'
    rw [hlength', hflatten'] at hcost
    rw [divisionCost, divisionCost, ← (hexact hdivides le_rfl).1, ← (hexact hcost le_rfl).1]
    exact hleast _ _ hcost

end

end Kinewright.Captions
