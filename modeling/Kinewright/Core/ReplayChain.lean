import Kinewright.Core.Journal

/-!
# The history stacks are a replay chain

Every run of the core keeps its undo and redo stacks an exact replay chain: an entry's operations,
folded with `Operation::apply`, lead from its document to the next one. The chain is a fact about
moves (`UndoStack.Chain`); here every executed command is shown to be one.
-/

namespace Kinewright.Core

variable {P : Payload} [Rules P]

namespace CoreState

/-- The stacks are an exact replay chain that starts at the baseline. -/
structure InOrder (s : CoreState P) : Prop where
  chain : UndoStack.Chain Replays s.undoStacks
  bottom : UndoStack.bottom s.undo s.document = s.baseline

theorem inOrder_new (document : Document P) (revision : TimelineRevision) : (new document revision).InOrder :=
  ⟨⟨trivial, trivial⟩, rfl⟩

variable {s : CoreState P}

/-- Accepting a performed command is a sound move, so it keeps the chain and its bottom. -/
theorem InOrder.accept (h : s.InOrder) {c : JournalCommand P} {m : HistoryMove P}
    {effects : List (OperationIdentityEffect P)} (hm : c.perform s.document = some (m, effects)) :
    (s.accept c m effects).InOrder := by
  obtain ⟨hsound, -⟩ := JournalCommand.perform_sound hm
  exact ⟨h.chain.move Replays.append hsound, (UndoStack.bottom_move s.undoStacks m).trans h.bottom⟩

theorem InOrder.executeCommand (h : s.InOrder) (command : Command P) : (s.executeCommand command).2.InOrder := by
  have hspec := s.executeCommand_executed command
  generalize s.executeCommand command = result at hspec
  rcases hspec with ⟨form, move⟩ | ⟨form, -⟩
  · exact h.accept move
  · exact ⟨h.chain, h.bottom⟩

/-- The operations of the undo stack replay the baseline to the current document. -/
theorem InOrder.applyAll_appliedOperations (h : s.InOrder) :
    applyAll s.history.appliedOperations s.history.baseline = .ok s.history.document := by
  have hfold := h.chain.replays_flatMap (fun _ => rfl) Replays.append
  have hops : s.history.appliedOperations = s.undo.flatMap UndoStack.Entry.operations := by
    rw [HistorySnapshot.appliedOperations, history, List.flatMap_map]
    rfl
  have hbottom : UndoStack.bottom s.undoStacks.undo s.undoStacks.document = s.history.baseline := h.bottom
  rw [hbottom] at hfold
  rw [hops]
  exact hfold

/-- `n` undos in a row. -/
theorem executeAll_undo (s : CoreState P) (n : ℕ) : (s.executeAll (List.replicate n .undo)).undoStacks
      = UndoStack.Stacks.undoStep^[n] s.undoStacks := by
  induction n generalizing s with
  | zero => rfl
  | succ n ih =>
    rw [Function.iterate_succ_apply, ← executeCommand_undo_undoStacks]
    exact ih (s.executeCommand .undo).2

theorem InOrder.undo_all (h : s.InOrder) :
    (s.executeAll (List.replicate s.undo.length .undo)).document = s.baseline := by
  have hdoc := UndoStack.undoStep_iterate s.undoStacks
  rw [undoStacks_undo, ← executeAll_undo, undoStacks_document] at hdoc
  rw [hdoc]
  exact h.bottom

theorem baseline_executeCommand (s : CoreState P) (command : Command P) :
    (s.executeCommand command).2.baseline = s.baseline := by
  have hspec := s.executeCommand_executed command
  generalize s.executeCommand command = result at hspec
  rcases hspec with ⟨-, -⟩ | ⟨-, -⟩ <;> rfl

/-- After any run from any document, both stacks are exact replay chains; so the applied operations
replay the baseline to the current document, and undoing every entry goes back to the baseline. -/
theorem executeAll_replay_chain (document : Document P) (revision : TimelineRevision) (commands : List (Command P)) :
    let s := (new document revision).executeAll commands
    UndoStack.UndoChain Replays s.undo s.document ∧ UndoStack.RedoChain Replays s.redo s.document ∧
      s.history.baseline = document ∧
      applyAll s.history.appliedOperations s.history.baseline = .ok s.document ∧
      (s.executeAll (List.replicate s.undo.length .undo)).document = s.history.baseline := by
  intro s
  have hs : s.InOrder :=
    executeAll_preserves InOrder (fun _ command h => h.executeCommand command) commands (inOrder_new document revision)
  have hbaseline : s.baseline = document :=
    executeAll_preserves (fun s => s.baseline = document)
      (fun s command h => (s.baseline_executeCommand command).trans h) commands rfl
  exact ⟨hs.chain.undo, hs.chain.redo, hbaseline, hs.applyAll_appliedOperations, hs.undo_all⟩

open UndoStack

/-- Undo and redo only walk along the documents, in whatever order they come: after as many steps back as forth the document is
the one from before. -/
theorem executeAll_walk (s : CoreState P) (back : List Bool) :
    let t := s.executeAll (back.map fun b => if b then .undo else .redo)
    t.undoStacks.line = s.undoStacks.line ∧ (t.undo.length = s.undo.length → t.document = s.document) := by
  intro t
  have hline : t.undoStacks.line = s.undoStacks.line := by
    refine List.foldlRecOn _ _ (motive := fun t : CoreState P => t.undoStacks.line = s.undoStacks.line) rfl
      fun t ht command hcommand => ?_
    obtain ⟨b, -, rfl⟩ := List.mem_map.mp hcommand
    rw [← ht]
    cases b with
    | true =>
      rw [if_pos rfl, executeCommand_undo_undoStacks]
      exact t.undoStacks.line_undoStep
    | false =>
      rw [if_neg nofun, executeCommand_redo_undoStacks]
      exact t.undoStacks.line_redoStep
  refine ⟨hline, fun hlength => Option.some.inj ?_⟩
  have hat := t.undoStacks.getElem?_line
  rw [hline, undoStacks_undo, hlength] at hat
  exact hat.symm.trans s.undoStacks.getElem?_line

/-- A batch of the gesture either joins it or leaves the stacks alone. -/
theorem executeCommand_coalesced (t : CoreState P) (key : String) (batch : List (Operation P)) :
    (t.executeCommand (.doBatchCoalesced batch key)).2.undoStacks = t.undoStacks ∨ ∃ after operations,
      Replays operations t.document after ∧
        (t.executeCommand (.doBatchCoalesced batch key)).2.undoStacks = t.undoStacks.coalesce after operations key := by
  have hspec := t.executeCommand_executed (.doBatchCoalesced batch key)
  generalize t.executeCommand (.doBatchCoalesced batch key) = result at hspec
  rcases hspec with ⟨form, move⟩ | ⟨-, -⟩
  · obtain rfl := Option.some.inj form
    obtain ⟨⟨after, effects⟩, happly, hmove⟩ := Option.map_eq_some_iff.mp move
    obtain ⟨rfl, -⟩ := Prod.mk.inj hmove
    exact .inr ⟨after, _, (JournalCommand.perform_sound move).1, rfl⟩
  · exact .inl rfl

/-- However many batches a gesture sends, refused ones among them, it leaves one entry at most, and one undo takes it all
back. -/
theorem executeAll_gesture (s : CoreState P) (key : String) (htop : ∀ e ∈ s.undo.getLast?, e.coalesceKey ≠ some key)
    (batches : List (List (Operation P))) :
    let t := s.executeAll (batches.map (.doBatchCoalesced · key))
    OneEntry Replays s.undoStacks key t.undoStacks ∧ (t.undo ≠ s.undo →
      (t.executeCommand .undo).2.document = s.document ∧
        (t.executeCommand .undo).2.undo = s.undo.modifyLast closeGesture) := by
  intro t
  have hone : OneEntry Replays s.undoStacks key t.undoStacks := by
    refine List.foldlRecOn _ _ (motive := fun t : CoreState P => OneEntry Replays s.undoStacks key t.undoStacks) (.inl rfl)
      fun t ht command hcommand => ?_
    obtain ⟨batch, -, rfl⟩ := List.mem_map.mp hcommand
    rcases t.executeCommand_coalesced key batch with hkept | ⟨after, operations, hreplays, hjoined⟩
    · rw [hkept]
      exact ht
    · rw [hjoined]
      exact ht.coalesce Replays.append htop hreplays
  refine ⟨hone, fun hne => ?_⟩
  rcases hone with hkept | ⟨operations, -, hundo⟩
  · exact absurd (congrArg Stacks.undo hkept) hne
  · have h := executeCommand_undo_undoStacks t
    rw [Stacks.undoStep_concat hundo] at h
    exact ⟨congrArg Stacks.document h, congrArg Stacks.undo h⟩

/-- The second batch is refused, and the third joins the first. -/
theorem executeAll_gesture_tally :
    let s : CoreState tally := new { tracks := [], rest := (0 : ℕ) } 0
    let t := s.executeAll ([[.other 5], [.other 0], [.other 7]].map (.doBatchCoalesced · "drag"))
    (t.executeCommand .undo).2.document = s.document :=
  ((executeAll_gesture _ "drag" (fun _ h => by cases h) _).2 (by decide)).1

end CoreState

end Kinewright.Core
