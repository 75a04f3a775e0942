import Kinewright.Core.SaveBarrier

/-!
# The search for a floor

`floor_history` validates the history first and replays every prefix from the baseline. `find_floor_history`
replays the prefix once along its search, and finishes the validation from the cut that it takes. Here the two
agree: the search answers with the least cut that `floor_history` grants and both callbacks take.
-/

namespace Kinewright.Core

open List CoreState

variable {P : Payload} [Rules P] {before after : HistorySnapshot P} {mayFit : ℕ → ℕ → Document P → Bool}
  {accepts : HistorySnapshot P → Bool} {discard index : ℕ} {pre : CoreState P}

/-- The batches of the history replay its baseline to the history itself. -/
def HistorySnapshot.ReplaysItself (before : HistorySnapshot P) : Prop := ∃ state, CoreState.restore before = .ok state

/-- `floor_history` grants the cut, and both callbacks take it. -/
structure Takes (before : HistorySnapshot P) (mayFit : ℕ → ℕ → Document P → Bool)
    (accepts : HistorySnapshot P → Bool) (discard : ℕ) (after : HistorySnapshot P) : Prop where
  pos : 1 ≤ discard
  le : discard ≤ before.batches.length
  granted : floorHistory before discard = .ok after
  fits : ∃ pre, (CoreState.new before.baseline 0).replay (before.batches.take discard) = .ok pre ∧
    mayFit discard pre.undo.length pre.document
  accepted : accepts after

/-! ## A candidate of the search -/

/-- The cut stands at a prefix without a redo stack, so the search skips none that `floor_history` grants. -/
theorem redo_eq_nil_of_floorFromPrefix (h : floorFromPrefix before discard pre = .ok after) : pre.redo = [] := by
  obtain ⟨hopen, -⟩ := guard_eq_ok.mp h
  by_contra hredo
  exact hopen (Or.inl hredo)

theorem floorCandidate_eq_some : floorCandidate before mayFit accepts pre discard = some after ↔
    mayFit discard pre.undo.length pre.document ∧ floorFromPrefix before discard pre = .ok after ∧ accepts after := by
  rw [floorCandidate, Option.ite_none_right_eq_some]
  constructor
  · rintro ⟨⟨-, hfit⟩, h⟩
    cases hfloor : floorFromPrefix before discard pre with
    | error error =>
      rw [hfloor] at h
      cases h
    | ok found =>
      rw [hfloor] at h
      rw [Option.ite_none_right_eq_some, Option.some.injEq] at h
      obtain ⟨haccepts, rfl⟩ := h
      exact ⟨hfit, rfl, haccepts⟩
  · rintro ⟨hfit, hfloor, haccepts⟩
    refine ⟨⟨redo_eq_nil_of_floorFromPrefix hfloor, hfit⟩, ?_⟩
    rw [hfloor]
    exact if_pos haccepts

/-- In a history that replays to itself, a cut is taken if it is a candidate of the search. -/
theorem takes_iff (hreplays : before.ReplaysItself) : Takes before mayFit accepts discard after ↔
    (1 ≤ discard ∧ discard ≤ before.batches.length) ∧
      ∃ pre, (CoreState.new before.baseline 0).replay (before.batches.take discard) = .ok pre ∧
        floorCandidate before mayFit accepts pre discard = some after := by
  obtain ⟨state, hrestore⟩ := hreplays
  constructor
  · rintro ⟨hpos, hle, hgranted, ⟨pre, hpre, hfit⟩, haccepts⟩
    rw [floorHistory, guard_eq_ok] at hgranted
    obtain ⟨-, hgranted⟩ := hgranted
    obtain ⟨restored, -, hgranted⟩ := bind_eq_ok.mp hgranted
    obtain ⟨pre', hpre', hgranted⟩ := bind_eq_ok.mp hgranted
    obtain rfl := Except.ok.inj (hpre.symm.trans hpre')
    exact ⟨⟨hpos, hle⟩, pre, hpre, floorCandidate_eq_some.mpr ⟨hfit, hgranted, haccepts⟩⟩
  · rintro ⟨⟨hpos, hle⟩, pre, hpre, hcandidate⟩
    obtain ⟨hfit, hfloor, haccepts⟩ := floorCandidate_eq_some.mp hcandidate
    refine ⟨hpos, hle, ?_, ⟨pre, hpre, hfit⟩, haccepts⟩
    rw [floorHistory, guard_eq_ok]
    refine ⟨by omega, ?_⟩
    exact bind_eq_ok.mpr ⟨state, hrestore, bind_eq_ok.mpr ⟨pre, hpre, hfloor⟩⟩

/-! ## What the replay recorded -/

namespace CoreState

/-- A replay only adds batches. -/
theorem replay_prefix {batches : List (HistoryBatch P)} {s t : CoreState P} (h : s.replay batches = .ok t) :
    s.batches <+: t.batches :=
  replay_preserves (fun t => s.batches <+: t.batches)
    (fun _ _ _ _ hs _ _ => hs.trans (prefix_append _ _)) (prefix_refl _) h

theorem restore_eq_ok {state : CoreState P} : restore before = .ok state ↔ validateDocument before.baseline = .ok () ∧
      ∃ complete, (new before.baseline 0).replay before.batches = .ok complete ∧
        state = { complete with floorOffset := before.floorOffset } ∧ state.history = before := by
  rw [restore]
  cases hvalid : validateDocument before.baseline with
  | error error => exact ⟨nofun, nofun⟩
  | ok u =>
    constructor
    · intro h
      obtain ⟨complete, hcomplete, h⟩ := bind_eq_ok.mp h
      obtain ⟨hhistory, h⟩ := guard_eq_ok.mp h
      obtain rfl := Except.ok.inj h
      exact ⟨rfl, complete, hcomplete, rfl, not_not.mp hhistory⟩
    · rintro ⟨-, complete, hcomplete, rfl, hhistory⟩
      exact bind_eq_ok.mpr ⟨complete, hcomplete, guard_eq_ok.mpr ⟨not_not.mpr hhistory, rfl⟩⟩

end CoreState

variable {batches : List (HistoryBatch P)}

/-- A prefix of a history that replays to itself recorded the batches that it replayed. -/
theorem prefix_batches {complete : CoreState P} (hsplit : before.batches.drop index = batches)
    (hcomplete : pre.replay batches = .ok complete) (hsame : complete.batches = before.batches) :
    pre.batches = before.batches.take index := by
  have hprefix := CoreState.replay_prefix hcomplete
  rw [hsame] at hprefix
  have hcount := replay_length hcomplete
  rw [hsame, ← hsplit, length_drop] at hcount
  rw [prefix_iff_eq_take.mp hprefix]
  by_cases hle : index ≤ before.batches.length
  · rw [show pre.batches.length = index by omega]
  · rw [take_of_length_le (by omega), take_of_length_le (by omega)]

/-! ## The search -/

/-- The search from a replayed prefix on: it answers with the least candidate above, if there is one. -/
theorem findFloorLoop_eq_ok {complete : CoreState P} (hsplit : before.batches.drop index = batches)
    (hpre : (CoreState.new before.baseline 0).replay (before.batches.take index) = .ok pre)
    (hcomplete : pre.replay batches = .ok complete)
    (hhistory : { complete with floorOffset := before.floorOffset }.history = before)
    (hreplays : before.ReplaysItself) :
    findFloorLoop before mayFit accepts pre index batches = .ok after ↔
      ∃ discard, index < discard ∧ Takes before mayFit accepts discard after ∧
        ∀ earlier < discard, index < earlier → ∀ other, ¬ Takes before mayFit accepts earlier other := by
  have hsame : complete.batches = before.batches := congrArg HistorySnapshot.batches hhistory
  induction batches generalizing pre index with
  | nil =>
    rw [findFloorLoop]
    constructor
    · intro h
      split at h <;> cases h
    · rintro ⟨discard, hlt, htakes, -⟩
      have hle := htakes.le
      have hlength := drop_eq_nil_iff.mp hsplit
      omega
  | cons batch batches ih =>
    obtain ⟨hchanged, hrest⟩ := replay_cons hcomplete
    have hbatch : before.batches[index]? = some batch := by
      rw [← head?_drop, hsplit, head?_cons]
    have hsplit' : before.batches.drop (index + 1) = batches := by
      rw [← tail_drop, hsplit, tail_cons]
    have hpre' : (CoreState.new before.baseline 0).replay (before.batches.take (index + 1))
        = .ok (pre.executeCommand batch.command.toCommand).2 := by
      rw [take_add_one, hbatch, replay_append hpre]
      simp [replay, hchanged]
    have hrecorded := prefix_batches hsplit' hrest hsame
    rw [findFloorLoop]
    dsimp only
    generalize (pre.executeCommand batch.command.toCommand).2 = pre' at *
    have hlast : pre'.batches.getLast? = some batch := by
      rw [hrecorded, take_add_one, hbatch, Option.toList_some, getLast?_concat]
    rw [if_neg (by rw [hlast]; simp [hchanged])]
    have hnext (other : HistorySnapshot P) : Takes before mayFit accepts (index + 1) other ↔
        floorCandidate before mayFit accepts pre' (index + 1) = some other := by
      rw [takes_iff hreplays]
      have hlt := (List.getElem?_eq_some_iff.mp hbatch).1
      constructor
      · rintro ⟨-, pre'', hpre'', hcandidate⟩
        obtain rfl := Except.ok.inj (hpre'.symm.trans hpre'')
        exact hcandidate
      · exact fun hcandidate => ⟨⟨by omega, by omega⟩, pre', hpre', hcandidate⟩
    cases hcandidate : floorCandidate before mayFit accepts pre' (index + 1) with
    | some found =>
      have hfound := (hnext found).mpr hcandidate
      constructor
      · intro h
        obtain ⟨finished, -, h⟩ := bind_eq_ok.mp h
        obtain ⟨-, h⟩ := guard_eq_ok.mp h
        obtain rfl := Except.ok.inj h
        exact ⟨index + 1, by omega, hfound, fun earlier hlt hgt => absurd hgt (by omega)⟩
      · rintro ⟨discard, hlt, htakes, hleast⟩
        -- no candidate before the least one, so the least one is this one
        have hle : discard ≤ index + 1 := by
          by_contra hgt
          exact hleast (index + 1) (by omega) (by omega) found hfound
        obtain rfl : discard = index + 1 := by omega
        have hafter := (hnext after).mp htakes
        rw [hcandidate] at hafter
        obtain rfl := Option.some.inj hafter
        exact bind_eq_ok.mpr ⟨complete, hrest, guard_eq_ok.mpr ⟨not_not.mpr hhistory, rfl⟩⟩
    | none =>
      have hnone (other : HistorySnapshot P) : ¬ Takes before mayFit accepts (index + 1) other := by
        intro htakes
        have hsome := (hnext other).mp htakes
        rw [hcandidate] at hsome
        cases hsome
      refine (ih hsplit' hpre' hrest).trans ⟨?_, ?_⟩
      · rintro ⟨discard, hlt, htakes, hleast⟩
        refine ⟨discard, by omega, htakes, fun earlier hearlier hgt other => ?_⟩
        by_cases hone : earlier = index + 1
        · rw [hone]
          exact hnone other
        · exact hleast earlier hearlier (by omega) other
      · rintro ⟨discard, hlt, htakes, hleast⟩
        have hone : discard ≠ index + 1 := by
          rintro rfl
          exact hnone after htakes
        exact ⟨discard, by omega, htakes, fun earlier hearlier hgt => hleast earlier hearlier (by omega)⟩

/-- The search answers only after the whole history was replayed and compared. -/
theorem findFloorLoop_complete (h : findFloorLoop before mayFit accepts pre index batches = .ok after) :
    ∃ complete, pre.replay batches = .ok complete ∧
      { complete with floorOffset := before.floorOffset }.history = before := by
  induction batches generalizing pre index with
  | nil =>
    obtain ⟨-, h⟩ := guard_eq_ok.mp h
    cases h
  | cons batch batches ih =>
    rw [findFloorLoop] at h
    dsimp only at h
    obtain ⟨hchanged, h⟩ := guard_eq_ok.mp h
    rw [not_or, not_not] at hchanged
    rw [replay]
    simp only [hchanged.1, if_true]
    cases hcandidate : floorCandidate before mayFit accepts (pre.executeCommand batch.command.toCommand).2
        (index + 1) with
    | some found =>
      rw [hcandidate] at h
      obtain ⟨complete, hcomplete, h⟩ := bind_eq_ok.mp h
      exact ⟨complete, hcomplete, not_not.mp (guard_eq_ok.mp h).1⟩
    | none =>
      rw [hcandidate] at h
      exact ih h

theorem replaysItself_of_findFloorHistory (h : findFloorHistory before mayFit accepts = .ok after) :
    before.ReplaysItself := by
  rw [findFloorHistory] at h
  cases hvalid : validateDocument before.baseline with
  | error error =>
    rw [hvalid] at h
    cases h
  | ok u =>
    rw [hvalid] at h
    obtain ⟨complete, hcomplete, hhistory⟩ := findFloorLoop_complete h
    exact ⟨_, CoreState.restore_eq_ok.mpr ⟨hvalid, complete, hcomplete, rfl, hhistory⟩⟩

/-- The search of a history that replays to itself answers exactly when some cut is taken, and then with the least
one; it never answers on another history. -/
theorem findFloorHistory_least (before : HistorySnapshot P) (mayFit : ℕ → ℕ → Document P → Bool)
    (accepts : HistorySnapshot P → Bool) :
    (before.ReplaysItself → ((∃ after, findFloorHistory before mayFit accepts = .ok after) ↔
        ∃ discard after, Takes before mayFit accepts discard after) ∧
      ∀ after, findFloorHistory before mayFit accepts = .ok after ↔
        ∃ discard, Takes before mayFit accepts discard after ∧
          ∀ earlier < discard, ∀ other, ¬ Takes before mayFit accepts earlier other) ∧
    (¬ before.ReplaysItself → ∀ after, findFloorHistory before mayFit accepts ≠ .ok after) := by
  refine ⟨fun hreplays => ?_, fun hreplays after h => hreplays (replaysItself_of_findFloorHistory h)⟩
  have hleast (after : HistorySnapshot P) : findFloorHistory before mayFit accepts = .ok after ↔
      ∃ discard, Takes before mayFit accepts discard after ∧
        ∀ earlier < discard, ∀ other, ¬ Takes before mayFit accepts earlier other := by
    obtain ⟨state, hrestore⟩ := hreplays
    obtain ⟨hvalid, complete, hcomplete, rfl, hhistory⟩ := CoreState.restore_eq_ok.mp hrestore
    rw [findFloorHistory, hvalid, findFloorLoop_eq_ok (drop_zero) rfl hcomplete hhistory ⟨_, hrestore⟩]
    constructor
    · rintro ⟨discard, -, htakes, hleast⟩
      refine ⟨discard, htakes, fun earlier hearlier other hother => ?_⟩
      exact hleast earlier hearlier hother.pos other hother
    · rintro ⟨discard, htakes, hleast⟩
      exact ⟨discard, htakes.pos, htakes, fun earlier hearlier _ => hleast earlier hearlier⟩
  refine ⟨⟨?_, ?_⟩, hleast⟩
  · rintro ⟨after, h⟩
    obtain ⟨discard, htakes, -⟩ := (hleast after).mp h
    exact ⟨discard, after, htakes⟩
  · intro htaken
    classical
    obtain ⟨after, htakes⟩ := Nat.find_spec htaken
    refine ⟨after, (hleast after).mpr ⟨Nat.find htaken, htakes, fun earlier hearlier other hother => ?_⟩⟩
    exact Nat.find_min htaken hearlier ⟨other, hother⟩

end Kinewright.Core
