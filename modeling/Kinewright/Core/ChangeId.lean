import Kinewright.Core.Turns
import Kinewright.Lib.Trace

/-!
# The identity of the accepted history

`HistoryChangeId` is the revision and the number of batches. Floors and installs shorten the batch
list, but they take a new revision; an empty undo or redo keeps the revision, but it adds a batch. So
the pair, ordered lexicographically, is a clock of the history: no turn changes the history without
advancing it. The revision alone is a clock of the document, its baseline and both stacks, which is what
a gated command relies on.
-/

namespace Kinewright.Core

open Trace CoreState ManualIngress

variable {P : Payload}

namespace CoreState

/-- The clock of the accepted history. -/
def clock (s : CoreState P) : ℕ ×ₗ ℕ := toLex (s.revision, s.batches.length)

section

variable {s t : CoreState P}

theorem clock_eq_iff : s.clock = t.clock ↔ s.historyChangeId = t.historyChangeId := by
  simp [clock, historyChangeId]

/-- The clock is read off the history and the revision. -/
theorem SameHistory.clock (h : s.SameHistory t) : t.clock = s.clock := by
  have hbatches : t.batches = s.batches := congrArg HistorySnapshot.batches h.1
  rw [CoreState.clock, CoreState.clock, hbatches, h.2]

theorem SameHistory.ticks (h : s.SameHistory t) : Ticks CoreState.clock CoreState.history s t := Or.inl ⟨h.clock, h.1⟩

/-- A new revision advances the clock, whatever happens to the batches. -/
theorem ticks_of_revision (h : t.revision = s.revision + 1) : Ticks CoreState.clock CoreState.history s t := by
  refine Or.inr (Prod.Lex.toLex_lt_toLex.mpr (Or.inl ?_))
  show s.revision < t.revision
  rw [h]
  exact Nat.lt_succ_self s.revision

end

/-- An accepted command advances the clock, even when it moves nothing. -/
theorem accept_ticks (s : CoreState P) (c : JournalCommand P) (m : HistoryMove P)
    (effects : List (OperationIdentityEffect P)) :
    Ticks CoreState.clock CoreState.history s (s.accept c m effects) := by
  have hlength : (s.accept c m effects).batches.length = s.batches.length + 1 := List.length_append
  refine Or.inr (Prod.Lex.toLex_lt_toLex.mpr ?_)
  by_cases heffective : m.Effective s.undoStacks
  · left
    show s.revision < (s.accept c m effects).revision
    rw [accept, if_pos heffective]
    exact Nat.lt_succ_self s.revision
  · right
    refine ⟨?_, ?_⟩
    · show s.revision = (s.accept c m effects).revision
      rw [accept, if_neg heffective]
    · show s.batches.length < (s.accept c m effects).batches.length
      omega

/-- What a revision stands for: the document, its baseline and both stacks. -/
def contents (s : CoreState P) : Document P × Document P × HistoryCursor P :=
  (s.history.document, s.history.baseline, s.history.cursor)

/-- An accepted command takes a new revision, or it moves nothing. -/
theorem accept_gate (s : CoreState P) (c : JournalCommand P) (m : HistoryMove P)
    (effects : List (OperationIdentityEffect P)) :
    Ticks CoreState.revision CoreState.contents s (s.accept c m effects) := by
  by_cases heffective : m.Effective s.undoStacks
  · refine .inr (Nat.lt_of_lt_of_eq (Nat.lt_succ_self _) ?_)
    rw [accept, if_pos heffective]
  · have hkept : s.undoStacks.move m = s.undoStacks := by
      cases m with
      | push | coalesce => exact absurd trivial heffective
      | undo => exact UndoStack.Stacks.undoStep_nil (not_not.mp heffective)
      | redo => exact UndoStack.Stacks.redoStep_nil (not_not.mp heffective)
    refine .inl ⟨by rw [accept, if_neg heffective], ?_⟩
    rw [contents, contents, history, history, accept]
    dsimp only
    rw [hkept]
    rfl

/-- Everything that a turn can do to the history: keep it, accept a command, or take a new revision. -/
def Moves (s t : CoreState P) : Prop :=
  s.SameHistory t ∨ (∃ c m effects, t = s.accept c m effects) ∨ t.revision = s.revision + 1

theorem Moves.ticks {s t : CoreState P} (h : s.Moves t) : Ticks CoreState.clock CoreState.history s t := by
  rcases h with hsame | ⟨c, m, effects, rfl⟩ | hrevision
  · exact hsame.ticks
  · exact s.accept_ticks c m effects
  · exact ticks_of_revision hrevision

theorem Moves.gate {s t : CoreState P} (h : s.Moves t) : Ticks CoreState.revision CoreState.contents s t := by
  rcases h with hsame | ⟨c, m, effects, rfl⟩ | hrevision
  · exact .inl ⟨hsame.2, by rw [contents, contents, hsame.1]⟩
  · exact s.accept_gate c m effects
  · exact .inr (hrevision ▸ Nat.lt_succ_self _)

variable [Rules P]

theorem executeActorCommand_moves (s : CoreState P) (attachment : AttachmentState) (command : Command P) :
    s.Moves (s.executeActorCommand attachment command).2 := by
  have hspec := s.executeActorCommand_executed attachment command
  generalize s.executeActorCommand attachment command = result at hspec ⊢
  rcases hspec with ⟨-, -⟩ | ⟨-, -, -, -⟩ | ⟨-, -⟩
  · exact .inl (.refl s)
  · exact .inl (.refl s)
  · have hspec := s.executeCommand_executed command
    generalize s.executeCommand command = result at hspec ⊢
    rcases hspec with ⟨-, -⟩ | ⟨-, -⟩
    · exact .inr (.inl ⟨_, _, _, rfl⟩)
    · exact .inl s.sameHistory_clearIdentityEffects

/-- What is passed on without being run keeps the history. -/
theorem executeActorCommand_sameHistory (s : CoreState P) {attachment : AttachmentState}
    {command : Command P} (h : command.isQuery ∨ attachment ≠ .live) :
    s.SameHistory (s.executeActorCommand attachment command).2 ∧
      (s.executeActorCommand attachment command).2.pendingFloor = s.pendingFloor := by
  rcases s.executeActorCommand_passed h with heq | heq
  · rw [heq]
    exact ⟨.refl s, rfl⟩
  · rw [heq]
    exact ⟨s.sameHistory_clearIdentityEffects, rfl⟩

end CoreState

namespace ActorState

variable [Rules P] [Wire P]

/-! ## What holds while a manual producer is bound -/

/-- A bound manual producer has the history of the state in its cache, and no save is pending. -/
def ManualCurrent (a : ActorState P) : Prop := ∀ m ∈ a.manual, m.cache.Reflects a.state ∧ a.state.pendingFloor = none

/-- Whatever a manual command does to the history, the barrier stays as it was. -/
theorem execute_moves {m : ManualIngress} {s : CoreState P} (h : m.cache.Reflects s)
    (encode : Encoder P) (attachment : AttachmentState) (command : Command P) :
    s.Moves (m.execute encode s attachment command).state ∧
      (m.execute encode s attachment command).state.pendingFloor = s.pendingFloor := by
  have hspec := ManualIngress.execute_executed (fun _ => h) encode attachment command
  generalize m.execute encode s attachment command = result at hspec
  rcases hspec with ⟨hpassed⟩ | ⟨-, -, -⟩ | ⟨-, -, -, -, -, -, -, -⟩
  · obtain ⟨hsame, hfloor⟩ := s.executeActorCommand_sameHistory hpassed
    exact ⟨.inl hsame, hfloor⟩
  · exact ⟨.inl (.refl s), rfl⟩
  · exact ⟨.inr (.inl ⟨_, _, _, rfl⟩), rfl⟩

variable {a : ActorState P}

theorem ManualCurrent.turned {a' : ActorState P} {message : CoreMessage P} (h : a.ManualCurrent)
    (hturned : Turned a message a') : a'.ManualCurrent := by
  -- a pending save and a bound producer exclude each other, so no floor is settled under a producer
  have hexcluded : a.state.pendingFloor ≠ none → a.manual = none := by
    intro hpending
    rcases hmanual : a.manual with _ | m
    · rfl
    · exact absurd (h m hmanual).2 hpending
  intro m' hm'
  rcases hturned with _ | ⟨-, -, hfloor, -, hnew⟩ | ⟨-, hmanual, hcache⟩ | ⟨-, hmanual⟩ | _ | _ |
    ⟨-, hmanual, -⟩ | ⟨-, -, hpending, -⟩ | _ | ⟨-, hmanual, -⟩ | ⟨hmanual⟩
  · exact h m' hm'
  · obtain rfl := Option.some.inj hm'
    obtain ⟨cache, hreflects, rfl⟩ := new_eq_ok hnew
    exact ⟨hreflects, hfloor⟩
  · obtain rfl := Option.some.inj hm'
    rw [hcache]
    exact h _ hmanual
  · obtain rfl := Option.some.inj hm'
    obtain ⟨hreflects, hfloor⟩ := h _ hmanual
    exact ⟨reflects_step hreflects (.execute _ _ _), (execute_moves hreflects _ _ _).2.trans hfloor⟩
  · exact h m' hm'
  · exact h m' hm'
  · have hnone : a.manual = none := hmanual.elim id hexcluded
    rw [show a.manual = some m' from hm'] at hnone
    cases hnone
  · have hnone := hexcluded (by rw [hpending]; exact Option.some_ne_none _)
    rw [show a.manual = some m' from hm'] at hnone
    cases hnone
  · cases hm'
  · rw [show a.manual = some m' from hm'] at hmanual
    cases hmanual
  · rename_i command
    have hquery : command.isQuery := by
      refine hmanual.resolve_left fun hnone => ?_
      rw [show a.manual = some m' from hm'] at hnone
      cases hnone
    obtain ⟨hreflects, hfloor⟩ := h m' hm'
    refine ⟨?_, (a.state.executeActorCommand_sameHistory (Or.inl hquery)).2.trans hfloor⟩
    have hpassed : command.isQuery ∨ a.attachment ≠ .live := Or.inl hquery
    rcases a.state.executeActorCommand_passed hpassed with heq | heq
    · rw [heq]
      exact hreflects
    · rw [heq]
      exact hreflects.clearIdentityEffects

theorem ManualCurrent.turn (h : a.ManualCurrent) (message : CoreMessage P) : (a.turn message).actor.ManualCurrent :=
  h.turned (a.turn_turned message)

/-! ## The clock of a run -/

theorem Turned.moves {a' : ActorState P} {message : CoreMessage P} (h : a.ManualCurrent)
    (hturned : Turned a message a') : a.state.Moves a'.state := by
  rcases hturned with _ | _ | _ | ⟨-, hmanual⟩ | _ | _ | ⟨-, -, hsame⟩ | ⟨-, -, -, hcommit⟩ |
    ⟨-, -, -, -, hrevision⟩ | ⟨-, -, hrevision⟩ | _
  · exact .inl (.refl a.state)
  · exact .inl (.refl a.state)
  · exact .inl (.refl a.state)
  · exact (execute_moves (h _ hmanual).1 _ _ _).1
  · exact .inl (.refl a.state)
  · exact .inl (.refl a.state)
  · exact .inl hsame
  · exact .inr (.inr (CoreState.commitFloor_ok hcommit).1)
  · exact .inr (.inr hrevision)
  · exact .inr (.inr hrevision)
  · exact a.state.executeActorCommand_moves _ _

/-- The actor after the first `k` messages. -/
def after (a : ActorState P) (messages : List (CoreMessage P)) (k : ℕ) : ActorState P :=
  trace (fun a message => (a.turn message).actor) a messages k

omit [Rules P] in
theorem manualCurrent_spawn (identity : ActorIdentity) (document : Document P)
    (revision : TimelineRevision) : (spawn identity document revision).ManualCurrent :=
  nofun

/-- What every move of the history obeys holds between any two turns of a run. -/
theorem after_relation {R : CoreState P → CoreState P → Prop} (hrefl : ∀ s, R s s) (htrans : ∀ {s t u}, R s t → R t u → R s u)
    (hmoves : ∀ {s t : CoreState P}, s.Moves t → R s t) (h : a.ManualCurrent) (messages : List (CoreMessage P)) {i j : ℕ}
    (hij : i ≤ j) : R (a.after messages i).state (a.after messages j).state :=
  relation (R := fun a b => R a.state b.state) (fun _ message hs => hs.turn message) h (fun a => hrefl a.state)
    (fun _ _ _ => htrans) (fun a message hs => hmoves (Turned.moves hs (a.turn_turned message))) hij

/-- Between any two turns of a run the clock ticks. -/
theorem after_ticks (h : a.ManualCurrent) (messages : List (CoreMessage P)) {i j : ℕ} (hij : i ≤ j) :
    Ticks CoreState.clock CoreState.history (a.after messages i).state (a.after messages j).state :=
  after_relation .refl Ticks.trans CoreState.Moves.ticks h messages hij

/-- The change identity is an identity of the accepted history: two turns of one run that observe
the same one would export the same history. -/
theorem history_eq_of_historyChangeId_eq {identity : ActorIdentity} {document : Document P}
    {revision : TimelineRevision} (messages : List (CoreMessage P)) (i j : ℕ)
    (hid : ((spawn identity document revision).after messages i).state.historyChangeId =
      ((spawn identity document revision).after messages j).state.historyChangeId) :
    ((spawn identity document revision).after messages i).state.history =
      ((spawn identity document revision).after messages j).state.history := by
  have hspawn := manualCurrent_spawn identity document revision
  rcases le_total i j with hij | hji
  · exact ((after_ticks hspawn messages hij).obs_eq (CoreState.clock_eq_iff.mpr hid.symm)).symm
  · exact (after_ticks hspawn messages hji).obs_eq (CoreState.clock_eq_iff.mpr hid)

/-- An edit is undone and redone with a refused command in between: the refused one is the only turn
that leaves the identity alone. -/
theorem history_eq_of_historyChangeId_eq_tally :
    let start : ActorState tally := spawn 1 { tracks := [], rest := (0 : ℕ) } 0
    let messages : List (CoreMessage tally) :=
      [.command (.do_ (.other 5)), .command .undo, .command (.do_ (.other 0)), .command .redo]
    (start.after messages 2).state.history = (start.after messages 3).state.history :=
  history_eq_of_historyChangeId_eq _ 2 3 (by decide)

/-- Optimistic concurrency is sound: a command that is gated by the revision of one turn and accepted at another acts on the
very document, baseline and stacks of the first. -/
theorem gated_applies (identity : ActorIdentity) (document : Document P) (revision : TimelineRevision)
    (messages : List (CoreMessage P)) (i j : ℕ) (attachment : AttachmentState) (operation : Operation P)
    (token : Option CommandToken) :
    let seen := ((spawn identity document revision).after messages i).state
    let now := ((spawn identity document revision).after messages j).state
    let result := now.executeActorCommand attachment (.doIfRevision seen.revision operation token)
    (now.revision = seen.revision → now.contents = seen.contents) ∧ (result.1.isDocumentChanged →
      now.contents = seen.contents ∧
        applyAll [operation.canonicalizeLegacyEffectNames] seen.document = .ok result.2.document) := by
  intro seen now result
  have hspawn := manualCurrent_spawn identity document revision
  have hcontents (h : now.revision = seen.revision) : now.contents = seen.contents := by
    rcases le_total i j with hij | hji
    · exact (after_relation .refl Ticks.trans CoreState.Moves.gate hspawn messages hij).obs_eq h
    · exact ((after_relation .refl Ticks.trans CoreState.Moves.gate hspawn messages hji).obs_eq h.symm).symm
  refine ⟨hcontents, fun hchanged => ?_⟩
  have hspec := now.executeActorCommand_executed attachment (.doIfRevision seen.revision operation token)
  change CoreState.ActorExecuted _ _ _ result at hspec
  generalize result = result at hspec hchanged ⊢
  rcases hspec with ⟨-, -⟩ | ⟨hundo, -, -, -⟩ | ⟨-, -⟩
  · cases hchanged
  · cases hundo
  · have hspec := now.executeCommand_executed (.doIfRevision seen.revision operation token)
    generalize now.executeCommand (.doIfRevision seen.revision operation token) = result at hspec hchanged ⊢
    rcases hspec with ⟨form, move⟩ | ⟨-, why⟩
    · obtain ⟨hgate, hform⟩ := Option.ite_none_right_eq_some.mp form
      obtain rfl := Option.some.inj hform
      obtain ⟨⟨after, effects⟩, -, hmove⟩ := Option.map_eq_some_iff.mp move
      obtain ⟨rfl, -⟩ := Prod.mk.inj hmove
      have hsame := hcontents hgate.symm
      refine ⟨hsame, ?_⟩
      rw [← show now.document = seen.document from congrArg Prod.fst hsame]
      exact (JournalCommand.perform_sound move).1
    · rw [why.not_isDocumentChanged] at hchanged
      cases hchanged

end ActorState

end Kinewright.Core
