import Kinewright.Core.Floor

/-!
# The save barrier

While a save is pending, the live state keeps the whole journal and the commit will keep only its
suffix. The two move in step (`Guarded`): the suffix replays to the live document, the live redo
stack and the undo entries above the floor. So a commit always finds what it expects.
-/

namespace Kinewright.Core

open CoreState List Except

variable {P : Payload} [Rules P]

/-! ## What a floor cuts -/

/-- `after` keeps the history `before` above the first `discard` batches and the first `dropped`
undo entries. -/
structure CutAbove (before after : HistorySnapshot P) (discard dropped : ℕ) : Prop where
  discard_le : discard ≤ before.batches.length
  dropped_le : dropped ≤ before.cursor.undo.length
  replays : ∃ suffix, (CoreState.new after.baseline 0).replay (before.batches.drop discard)
    = .ok suffix ∧ { suffix.history with floorOffset := after.floorOffset } = after
  document : after.document = before.document
  undo : after.cursor.undo = before.cursor.undo.drop dropped
  redo : after.cursor.redo = before.cursor.redo
  closed : dropped = before.cursor.undo.length → ∀ entry ∈ before.cursor.undo.getLast?, entry.coalesceKey = none
  baseline_valid : before.baseline.Valid → after.baseline.Valid

namespace CutAbove

variable {before after : HistorySnapshot P} {discard dropped : ℕ}

section

variable (h : CutAbove before after discard dropped)

include h

theorem discard_eq : before.batches.length - after.batches.length = discard := by
  obtain ⟨suffix, hreplay, hafter⟩ := h.replays
  have hbatches : after.batches = suffix.batches := by rw [← hafter]; rfl
  have hlen := replay_length hreplay
  have hle := h.discard_le
  rw [length_drop] at hlen
  simp only [CoreState.new, length_nil] at hlen
  rw [hbatches]
  omega

theorem dropped_eq : before.cursor.undo.length - after.cursor.undo.length = dropped := by
  have hle := h.dropped_le
  rw [h.undo, length_drop]
  omega

/-- The replayed suffix stands above the cut of every state that exports `before`. -/
theorem above {s : CoreState P} (hs : s.history = before) :
    ∃ suffix, (CoreState.new after.baseline 0).replay (s.batches.drop discard) = .ok suffix ∧
      UndoStack.Above dropped s.undoStacks suffix.undoStacks := by
  obtain ⟨suffix, hreplay, hafter⟩ := h.replays
  subst hs
  have hundo : suffix.undo.map boundary = (s.undo.drop dropped).map boundary := by
    rw [map_drop]
    exact (congrArg (fun x => x.cursor.undo) hafter).trans h.undo
  have hredo : suffix.redo.map boundary = s.redo.map boundary :=
    (congrArg (fun x => x.cursor.redo) hafter).trans h.redo
  have hdropped : dropped ≤ s.undo.length := by
    have hle := h.dropped_le
    rwa [history, length_map] at hle
  refine ⟨suffix, hreplay, ?_, ?_, ?_, hdropped, ?_⟩
  · exact (congrArg HistorySnapshot.document hafter).trans h.document
  · exact boundary_injective.list_map hundo
  · exact boundary_injective.list_map hredo
  · intro hlen entry hentry
    refine h.closed ?_ (boundary entry) ?_
    · rw [history, length_map]; exact hlen.symm
    · rw [history, getLast?_map, show s.undo.getLast? = some entry from hentry]
      rfl

end

end CutAbove

section

variable {before after : HistorySnapshot P}

theorem floorFromPrefix_cutAbove {discard : ℕ} {pre : CoreState P} (hdiscard : discard ≤ before.batches.length)
    (hvalid : before.baseline.Valid → pre.document.Valid)
    (h : floorFromPrefix before discard pre = .ok after) :
    CutAbove before after discard pre.undo.length := by
  obtain ⟨hopen, h⟩ := guard_eq_ok.mp h
  obtain ⟨suffix, hreplay, h⟩ := bind_eq_ok.mp h
  obtain ⟨hsame, h⟩ := guard_eq_ok.mp h
  obtain ⟨floorOffset, hoffset, h⟩ := bind_eq_ok.mp h
  obtain rfl : { suffix.history with floorOffset } = after := ok.inj h
  have hbaseline : suffix.baseline = pre.document := (CoreState.replay_sameFrame hreplay).baseline
  rw [← hbaseline] at hreplay hvalid
  simp only [not_or, not_not, not_and, not_lt] at hopen hsame
  obtain ⟨hdocument, hundo, hredo⟩ := hsame
  refine ⟨hdiscard, hopen.2.1, ⟨suffix, hreplay, rfl⟩, hdocument, hundo, hredo, ?_, hvalid⟩
  intro hlen entry hentry
  have hclosed := hopen.2.2 hlen
  rw [show before.cursor.undo.getLast? = some entry from hentry] at hclosed
  simpa using hclosed

/-- `floor_history` cuts. -/
theorem floorHistory_cutAbove {discard : ℕ} (h : floorHistory before discard = .ok after) :
    ∃ dropped, CutAbove before after discard dropped := by
  obtain ⟨hdiscard, h⟩ := guard_eq_ok.mp h
  obtain ⟨restored, -, h⟩ := bind_eq_ok.mp h
  obtain ⟨pre, hreplay, h⟩ := bind_eq_ok.mp h
  refine ⟨_, floorFromPrefix_cutAbove (by omega) (fun hvalid => ?_) h⟩
  exact (Replayed.of_replay hvalid hreplay).valid.document

theorem findFloorLoop_cutAbove {mayFit : ℕ → ℕ → Document P → Bool} {accepts : HistorySnapshot P → Bool}
    {batches : List (HistoryBatch P)} {pre : CoreState P} {index : ℕ}
    (hindex : index + batches.length = before.batches.length)
    (hvalid : before.baseline.Valid → pre.Replayed)
    (h : findFloorLoop before mayFit accepts pre index batches = .ok after) :
    ∃ discard dropped, CutAbove before after discard dropped := by
  induction batches generalizing pre index with
  | nil =>
    obtain ⟨-, h⟩ := guard_eq_ok.mp h
    cases h
  | cons batch batches ih =>
    rw [length_cons] at hindex
    rw [findFloorLoop] at h
    dsimp only at h
    obtain ⟨-, h⟩ := guard_eq_ok.mp h
    have hvalid' : before.baseline.Valid →
        (pre.executeCommand batch.command.toCommand).2.Replayed :=
      fun hv => (hvalid hv).executeCommand _
    generalize (pre.executeCommand batch.command.toCommand).2 = pre' at h hvalid'
    rcases hcandidate : floorCandidate before mayFit accepts pre' (index + 1) with _ | found
    · rw [hcandidate] at h
      exact ih (by omega) hvalid' h
    · rw [hcandidate] at h
      obtain ⟨complete, -, h⟩ := bind_eq_ok.mp h
      obtain ⟨-, h⟩ := guard_eq_ok.mp h
      obtain rfl : found = after := ok.inj h
      unfold floorCandidate at hcandidate
      rw [Option.ite_none_right_eq_some] at hcandidate
      obtain ⟨-, hcandidate⟩ := hcandidate
      rcases hfloor : floorFromPrefix before (index + 1) pre' with error | after
      · rw [hfloor] at hcandidate; cases hcandidate
      · rw [hfloor] at hcandidate
        rw [Option.ite_none_right_eq_some, Option.some.injEq] at hcandidate
        obtain rfl := hcandidate.2
        exact ⟨_, _, floorFromPrefix_cutAbove (by omega)
          (fun hv => (hvalid' hv).valid.document) hfloor⟩

/-- `find_floor_history` cuts, whatever its callbacks answer. -/
theorem findFloorHistory_cutAbove {mayFit : ℕ → ℕ → Document P → Bool} {accepts : HistorySnapshot P → Bool}
    (h : findFloorHistory before mayFit accepts = .ok after) :
    ∃ discard dropped, CutAbove before after discard dropped := by
  unfold findFloorHistory at h
  rcases hvalid : validateDocument before.baseline with error | ⟨⟩
  · rw [hvalid] at h; cases h
  · rw [hvalid] at h
    exact findFloorLoop_cutAbove (Nat.zero_add _) (fun hv => replayed_new hv 0) h

/-- A recovery close keeps the floor where it is. -/
theorem recoveryClose_floorOffset {reconciled : HistorySnapshot P} (h : recoveryClose before reconciled = .ok after) :
    after.floorOffset = before.floorOffset := by
  obtain ⟨-, h⟩ := guard_eq_ok.mp h
  obtain ⟨candidate, hrestore, h⟩ := bind_eq_ok.mp h
  have hoffset : candidate.floorOffset = before.floorOffset := by
    rw [← (restore_ok hrestore).2.1]; rfl
  obtain ⟨-, h⟩ := guard_eq_ok.mp h
  obtain ⟨-, h⟩ := guard_eq_ok.mp h
  rw [← ok.inj h]
  split
  · have hundo := candidate.executeCommand_sameFrame .undo
    have hredo := (candidate.executeCommand .undo).2.executeCommand_sameFrame .redo
    exact (hundo.trans hredo).floorOffset.trans hoffset
  · exact hoffset

end

/-- A transition that raises the floor is a cut. -/
theorem HistoryTransition.cutAbove (transition : HistoryTransition P)
    (h : transition.before.floorOffset < transition.after.floorOffset) :
    ∃ discard dropped, CutAbove transition.before transition.after discard dropped := by
  obtain ⟨before, after, produced⟩ := transition
  rcases produced with ⟨discard, hfloor⟩ | ⟨mayFit, accepts, hfind⟩ | ⟨reconciled, hclose⟩
  · exact ⟨discard, floorHistory_cutAbove hfloor⟩
  · exact findFloorHistory_cutAbove hfind
  · have := recoveryClose_floorOffset hclose
    dsimp only at h
    omega

/-! ## In step while the save is pending -/

namespace CoreState

/-- The batches above the pending floor replay to the live stacks above its depth. -/
structure Guarded (s : CoreState P) (pending : PendingFloor P) : Prop where
  discard_le : pending.discard ≤ s.batches.length
  replays : ∃ base, (new pending.baseline 0).replay (s.batches.drop pending.discard) = .ok base ∧
    UndoStack.Above pending.depth s.undoStacks base.undoStacks

variable {s : CoreState P} {pending : PendingFloor P}

/-- An accepted command makes the same move on both sides of the barrier. -/
theorem Guarded.accept (h : s.Guarded pending) {c : JournalCommand P} {m : HistoryMove P}
    {effects : List (OperationIdentityEffect P)} (hc : c.Canonical)
    (hm : c.perform s.document = some (m, effects))
    (hundo : c = .undo → pending.depth < s.undo.length) :
    (s.accept c m effects).Guarded pending := by
  obtain ⟨base, hreplay, habove⟩ := h.replays
  have hdocument : base.document = s.document := habove.document
  have hm' : c.perform base.document = some (m, effects) := hdocument ▸ hm
  have hle := h.discard_le
  refine ⟨?_, base.accept c m effects, ?_, ?_⟩
  · simp only [CoreState.accept, length_append]
    omega
  · simp only [CoreState.accept]
    rw [drop_append_of_le_length hle, replay_append hreplay, replay]
    simp only [executeCommand_of_perform hc hm']
    rfl
  · refine habove.move fun hmove => ?_
    subst hmove
    have hdepth := hundo (JournalCommand.perform_eq_undo hm)
    rw [undoStacks_undo]
    omega

/-- Every actor command keeps the barrier guarded and in place. -/
theorem Guarded.executeActorCommand (h : s.Guarded pending)
    (hpending : s.pendingFloor = some pending) (attachment : AttachmentState)
    (command : Command P) :
    (s.executeActorCommand attachment command).2.Guarded pending := by
  have hspec := s.executeActorCommand_executed attachment command
  generalize s.executeActorCommand attachment command = result at hspec
  rcases hspec with ⟨-, -⟩ | ⟨-, -, -, -⟩ | ⟨-, hdepth⟩
  · exact h
  · exact h
  · have hspec := s.executeCommand_executed command
    generalize s.executeCommand command = result at hspec
    rcases hspec with ⟨form, move⟩ | ⟨-, -⟩
    · refine h.accept (Command.journalForm_canonical form) move fun hundo => ?_
      subst hundo
      exact hdepth (Command.journalForm_eq_undo form) pending hpending
    · exact ⟨h.discard_le, h.replays⟩

theorem executeActorCommand_sameFrame (s : CoreState P) (attachment : AttachmentState)
    (command : Command P) : SameFrame s (s.executeActorCommand attachment command).2 := by
  have hspec := s.executeActorCommand_executed attachment command
  generalize s.executeActorCommand attachment command = result at hspec
  rcases hspec with ⟨-, -⟩ | ⟨-, -, -, -⟩ | ⟨-, -⟩
  · exact SameFrame.refl s
  · exact SameFrame.refl s
  · exact s.executeCommand_sameFrame command

/-- The state after actor commands, each under the attachment of its turn. -/
def executeActorAll (s : CoreState P) (commands : List (AttachmentState × Command P)) : CoreState P :=
  commands.foldl (fun s (attachment, command) => (s.executeActorCommand attachment command).2) s

theorem Guarded.executeActorAll (h : s.Guarded pending) (hpending : s.pendingFloor = some pending)
    (commands : List (AttachmentState × Command P)) :
    (s.executeActorAll commands).Guarded pending ∧ SameFrame s (s.executeActorAll commands) := by
  induction commands generalizing s with
  | nil => exact ⟨h, SameFrame.refl s⟩
  | cons command commands ih =>
    obtain ⟨attachment, command⟩ := command
    have hframe := s.executeActorCommand_sameFrame attachment command
    obtain ⟨hguarded, hframe'⟩ := ih (h.executeActorCommand hpending attachment command)
      (hframe.pendingFloor.trans hpending)
    exact ⟨hguarded, hframe.trans hframe'⟩

/-- What `begin_floor` sets up. -/
theorem beginFloor_ok {s₀ : CoreState P} {actor : ActorIdentity} {transition : HistoryTransition P}
    {id : ℕ} (h : s.beginFloor actor transition = .ok (id, s₀)) :
    ∃ pending, s₀ = { s with nextFloorId := id, pendingFloor := some pending } ∧
      s.pendingFloor = none ∧ pending.save.id = id ∧ id = s.nextFloorId + 1 ∧
      pending.offset = transition.after.floorOffset ∧
      pending.baseline = transition.after.baseline ∧
      pending.depth = transition.before.cursor.undo.length - transition.after.cursor.undo.length ∧
      s₀.Guarded pending ∧ (s.baseline.Valid → pending.baseline.Valid) := by
  unfold beginFloor at h
  rcases hnone : s.pendingFloor with _ | pending
  · rw [hnone] at h
    obtain ⟨hbefore, h⟩ := guard_eq_ok.mp h
    obtain ⟨hraised, h⟩ := guard_eq_ok.mp h
    obtain ⟨id', hid, h⟩ := bind_eq_ok.mp h
    obtain ⟨-, rfl⟩ := checkedAdd_eq_some.mp (okOr_eq_ok.mp hid)
    have h := Prod.mk.inj (ok.inj h)
    obtain ⟨rfl, rfl⟩ := h
    rw [not_not] at hbefore
    have hoffset : transition.before.floorOffset = s.floorOffset := by rw [← hbefore]; rfl
    obtain ⟨discard, dropped, hcut⟩ := transition.cutAbove (by omega)
    have hdiscard := hcut.discard_eq
    have hdropped := hcut.dropped_eq
    obtain ⟨base, hreplay, habove⟩ := hcut.above hbefore
    refine ⟨_, rfl, rfl, rfl, rfl, rfl, rfl, rfl, ⟨?_, base, ?_, ?_⟩, ?_⟩
    · rw [← hbefore]
      exact Nat.sub_le _ _
    · rw [hdiscard]
      exact hreplay
    · rw [hdropped]
      exact habove
    · intro hvalid
      exact hcut.baseline_valid (by rw [← hbefore]; exact hvalid)
  · rw [hnone] at h
    cases h

/-- A guarded state commits: the suffix that is kept is the live state above the floor. -/
theorem Guarded.commitFloor (h : s.Guarded pending) (hrevision : s.revision + 1 < 2 ^ 64)
    (hepoch : s.historyEpoch + 1 < 2 ^ 64) :
    ∃ settled, s.commitFloor pending = .ok settled ∧ settled.document = s.document ∧
      settled.redo = s.redo ∧ settled.undo = s.undo.drop pending.depth ∧
      settled.pendingFloor = none := by
  obtain ⟨base, hreplay, habove⟩ := h.replays
  have htwin : Twin (new pending.baseline 0)
      { new pending.baseline 0 with floorOffset := pending.offset } := ⟨rfl, rfl, rfl, rfl, rfl⟩
  obtain ⟨candidate, hcandidate, hsame⟩ := htwin.replay hreplay
  have hdocument : candidate.document = s.document := hsame.document.trans habove.document
  have hundo : candidate.undo = s.undo.drop pending.depth := hsame.undo.trans habove.undo
  have hredo : candidate.redo = s.redo := hsame.redo.trans habove.redo
  have hdepth : ¬ s.undo.length < pending.depth := not_lt.mpr habove.depth_le
  refine ⟨{ candidate with
    revision := s.revision + 1
    nextFloorId := s.nextFloorId
    historyEpoch := s.historyEpoch + 1 }, ?_, hdocument, hredo, hundo,
    (replay_sameFrame hcandidate).pendingFloor⟩
  unfold CoreState.commitFloor
  rw [guard_eq_ok, not_lt, bind_eq_ok]
  refine ⟨h.discard_le, candidate, hcandidate, ?_⟩
  rw [guard_eq_ok, bind_eq_ok]
  refine ⟨by simp [hdocument, hundo, hredo, hdepth], s.revision + 1,
    okOr_eq_ok.mpr (checkedAdd_eq_some.mpr ⟨hrevision, rfl⟩), ?_⟩
  rw [bind_eq_ok]
  exact ⟨s.historyEpoch + 1, okOr_eq_ok.mpr (checkedAdd_eq_some.mpr ⟨hepoch, rfl⟩), rfl⟩

/-- All that settling can do to the state. -/
theorem settleFloor_cases {s' : CoreState P} {id : ℕ} {commit : Bool}
    {reply : Except HistoryError Unit} (h : s.settleFloor id commit = (reply, s')) :
    s' = s ∨ s' = s.releaseFloor ∨ ∃ pending, s.pendingFloor = some pending ∧ s.commitFloor pending = .ok s' := by
  unfold settleFloor at h
  split at h
  · exact Or.inl (Prod.mk.inj h).2.symm
  · rcases hpending : s.pendingFloor with _ | pending
    · rw [hpending] at h
      exact Or.inl (Prod.mk.inj h).2.symm
    · rw [hpending] at h
      dsimp only at h
      split at h
      · exact Or.inl (Prod.mk.inj h).2.symm
      · cases commit
        · exact Or.inr (Or.inl (Prod.mk.inj h).2.symm)
        · rcases hcommit : s.commitFloor pending with error | candidate
          · rw [hcommit] at h
            exact Or.inr (Or.inl (Prod.mk.inj h).2.symm)
          · rw [hcommit] at h
            obtain rfl := (Prod.mk.inj h).2
            exact Or.inr (Or.inr ⟨pending, rfl, hcommit⟩)

omit [Rules P] in
/-- A tag changes the pending save only. -/
theorem tagFloor_ok {s' : CoreState P} {id : ℕ} {tag : Option HistorySaveTag} {ready : Bool}
    (h : s.tagFloor id tag ready = .ok s') :
    ∃ pending save, s.pendingFloor = some pending ∧ s' = { s with pendingFloor := some { pending with save } } := by
  unfold tagFloor at h
  rcases hpending : s.pendingFloor with _ | pending
  · rw [hpending] at h; cases h
  · rw [hpending] at h
    dsimp only at h
    obtain ⟨-, h⟩ := guard_eq_ok.mp h
    obtain ⟨-, h⟩ := guard_eq_ok.mp h
    obtain ⟨-, h⟩ := guard_eq_ok.mp h
    exact ⟨pending, _, rfl, (ok.inj h).symm⟩

/-- Settling the pending ticket is its commit or its release. -/
theorem settleFloor_of_pending (h : s.pendingFloor = some pending) (commit : Bool) :
    s.settleFloor pending.save.id commit = if commit then match s.commitFloor pending with
        | .ok candidate => (.ok (), candidate)
        | .error _ => (.error .commitInvariant, s.releaseFloor)
      else (.ok (), s.releaseFloor) := by
  unfold settleFloor
  have hticket : ¬ (pending.save.id ≤ s.nextFloorId ∧
      s.pendingFloor.all fun p => p.save.id ≠ pending.save.id) := by
    rw [h]
    simp
  rw [if_neg hticket, h]
  exact (if_neg (not_not.mpr rfl)).trans rfl

/-- While a floor is pending, an `Undo` is refused exactly when no entry above it is left. -/
theorem undo_refused_iff (h : s.pendingFloor = some pending) :
    (s.executeActorCommand .live .undo).1 = .undoBlockedBySave pending.offset ↔ s.undo.length ≤ pending.depth := by
  have hspec := s.executeActorCommand_executed .live .undo
  generalize s.executeActorCommand .live .undo = result at hspec ⊢
  rcases hspec with ⟨-, hdead⟩ | ⟨-, -, hpending, hdepth⟩ | ⟨-, hdepth⟩
  · exact absurd rfl hdead
  · rw [h, Option.some.injEq] at hpending
    subst hpending
    exact ⟨fun _ => hdepth, fun _ => rfl⟩
  · refine ⟨fun hevent => ?_, fun hle => ?_⟩
    · have hspec := s.executeCommand_executed .undo
      generalize s.executeCommand .undo = result at hspec hevent
      rcases hspec with ⟨-, -⟩ | ⟨-, why⟩
      · cases hevent
      · cases why
    · have := hdepth rfl pending h
      omega

/-- For every accepted floor and every sequence of commands while it is pending: a commit succeeds
and leaves the document, the redo stack and the undo entries above the floor; a release leaves the
history; and an `Undo` is refused, changing nothing, exactly when no entry above the floor is
left. -/
theorem saveBarrier_simulation {s s₀ : CoreState P} {actor : ActorIdentity} {transition : HistoryTransition P} {id : ℕ}
    (hbegin : s.beginFloor actor transition = .ok (id, s₀))
    (commands : List (AttachmentState × Command P)) :
    let live := s₀.executeActorAll commands
    let depth := transition.before.cursor.undo.length - transition.after.cursor.undo.length
    let refusal := Event.undoBlockedBySave transition.after.floorOffset
    (live.revision + 1 < 2 ^ 64 → live.historyEpoch + 1 < 2 ^ 64 →
      ∃ settled, live.settleFloor id true = (.ok (), settled) ∧
        settled.document = live.document ∧ settled.redo = live.redo ∧
        settled.undo = live.undo.drop depth) ∧
      (∃ released, live.settleFloor id false = (.ok (), released) ∧ released.history = live.history) ∧
      depth ≤ live.undo.length ∧
      ((live.executeActorCommand .live .undo).1 = refusal ↔ live.undo.length = depth) ∧
      (live.undo.length = depth → live.executeActorCommand .live .undo = (refusal, live)) := by
  intro live depth refusal
  obtain ⟨pending, hs₀, -, hid, -, hoffset, -, hfloor, hguarded, -⟩ := beginFloor_ok hbegin
  have hdepth : pending.depth = depth := hfloor
  have hpending : s₀.pendingFloor = some pending := by rw [hs₀]
  obtain ⟨hlive, hframe⟩ := hguarded.executeActorAll hpending commands
  have hpending' : live.pendingFloor = some pending := hframe.pendingFloor.trans hpending
  have hsettle := settleFloor_of_pending hpending'
  have hle : depth ≤ live.undo.length := by
    obtain ⟨base, hreplay, habove⟩ := hlive.replays
    rw [← hdepth]
    exact habove.depth_le
  have hiff : (live.executeActorCommand .live .undo).1 = refusal ↔ live.undo.length ≤ depth := by
    rw [← hdepth, ← undo_refused_iff hpending', hoffset]
  have hrefused : (live.executeActorCommand .live .undo).1 = refusal ↔
      live.undo.length = depth := by
    rw [hiff]
    omega
  rw [hid] at hsettle
  refine ⟨fun hrevision hepoch => ?_, ⟨live.releaseFloor, hsettle false, rfl⟩, hle, hrefused, fun hlen => ?_⟩
  · obtain ⟨settled, hcommit, hdocument, hredo, hundo, -⟩ := hlive.commitFloor hrevision hepoch
    refine ⟨settled, ?_, hdocument, hredo, hdepth ▸ hundo⟩
    rw [hsettle true, hcommit]
    rfl
  · have hspec := live.executeActorCommand_executed .live .undo
    have hevent := hrefused.mpr hlen
    generalize live.executeActorCommand .live .undo = result at hspec hevent ⊢
    rcases hspec with ⟨-, hdead⟩ | ⟨-, -, -, -⟩ | ⟨-, habove⟩
    · exact absurd rfl hdead
    · rw [← hevent]
    · have := habove rfl pending hpending'
      omega

/-! Two runs: a save of the newer of two edits, and one that only drops an undo of nothing. -/

/-- A total raised twice. -/
def tallyEdited : CoreState tally :=
  (new { tracks := [], rest := (0 : ℕ) } 0).executeAll [.do_ (.other 1), .do_ (.other 2)]

/-- A total on which nothing was undone. -/
def tallyUndone : CoreState tally := (new { tracks := [], rest := (0 : ℕ) } 0).executeAll [.undo]

/-- The history after `s` drops its oldest batch. -/
def tallyAfter (s : CoreState tally) : HistorySnapshot tally :=
  match floorHistory s.history 1 with
  | .ok after => after
  | .error _ => s.history

/-- `s` while the save that drops its oldest batch is pending. -/
def tallySaving (s : CoreState tally) (transition : HistoryTransition tally) : CoreState tally :=
  match s.beginFloor 7 transition with
  | .ok (_, s) => s
  | .error _ => s

def tallyEditedFloor : HistoryTransition tally :=
  { before := tallyEdited.history, after := tallyAfter tallyEdited, produced := .floor 1 rfl }

def tallyUndoneFloor : HistoryTransition tally :=
  { before := tallyUndone.history, after := tallyAfter tallyUndone, produced := .floor 1 rfl }

/-- After the newer edit is undone and another one made, the save commits with that one alone. -/
theorem saveBarrier_simulation_tally :
    let live := (tallySaving tallyEdited tallyEditedFloor).executeActorAll
      [(.live, .undo), (.live, .undo), (.live, .do_ (.other 3))]
    ∃ settled, live.settleFloor 1 true = (.ok (), settled) ∧
      settled.document = live.document ∧ settled.redo = live.redo ∧
      settled.undo = live.undo.drop 1 := by
  have hbegin : tallyEdited.beginFloor 7 tallyEditedFloor
      = .ok (1, tallySaving tallyEdited tallyEditedFloor) := rfl
  exact (saveBarrier_simulation hbegin
    [(.live, .undo), (.live, .undo), (.live, .do_ (.other 3))]).1 (by decide) (by decide)

/-- A floor of depth zero refuses an `Undo` that would take no entry back at all. -/
theorem undo_refused_at_depth_zero : tallyUndone.beginFloor 7 tallyUndoneFloor
        = .ok (1, tallySaving tallyUndone tallyUndoneFloor) ∧
      ¬ (((tallySaving tallyUndone tallyUndoneFloor).executeActorCommand .live .undo).1 = .undoBlockedBySave 1 ↔
        ∃ pending ∈ (tallySaving tallyUndone tallyUndoneFloor).pendingFloor,
          0 < (tallySaving tallyUndone tallyUndoneFloor).undo.length ∧
          (tallySaving tallyUndone tallyUndoneFloor).undo.length ≤ pending.depth) := by
  refine ⟨rfl, fun hiff => ?_⟩
  obtain ⟨pending, -, hnonempty, -⟩ := hiff.mp (by decide)
  exact absurd hnonempty (by decide)

end CoreState

end Kinewright.Core
