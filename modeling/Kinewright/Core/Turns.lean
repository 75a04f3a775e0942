import Kinewright.Core.Actor

/-!
# What a turn of the core actor can do

Every invariant of the actor is about runs of arbitrary messages. The case analysis over the messages
is made once: `Turned` lists what a turn can do to the actor, with what the turn has checked.
-/

namespace Kinewright.Core

open Except ManualIngress

variable {P : Payload}

/-- The owner that a message carries. -/
def CoreMessage.requested [Rules P] : CoreMessage P → Option OwnerId
  | .bindManual requested _ => some requested
  | .manualAck requested _ _ => some requested
  | .bindOwner requested => some requested
  | .captureCut requested _ => some requested
  | .finishAttachment requested _ _ => some requested
  | .tagFloor requested _ _ _ => some requested
  | .beginFloor requested _ => some requested
  | .settleFloor requested _ _ _ => some requested
  | .installFrozen requested _ _ _ _ => some requested
  | .restoreHistory requested _ _ => requested
  | _ => none

namespace CoreState

/-- The history and the revision are those of the other state. -/
def SameHistory (s s' : CoreState P) : Prop := s'.history = s.history ∧ s'.revision = s.revision

theorem SameHistory.refl (s : CoreState P) : s.SameHistory s := ⟨rfl, rfl⟩

theorem SameHistory.trans {s t u : CoreState P} (h : s.SameHistory t) (h' : t.SameHistory u) : s.SameHistory u :=
  ⟨h'.1.trans h.1, h'.2.trans h.2⟩

/-- A cleared identity effect is not part of the history. -/
theorem sameHistory_clearIdentityEffects (s : CoreState P) : s.SameHistory s.clearIdentityEffects := ⟨rfl, rfl⟩

theorem sameHistory_releaseFloor [Rules P] (s : CoreState P) : s.SameHistory s.releaseFloor := ⟨rfl, rfl⟩

variable [Rules P]

theorem beginFloor_sameHistory {s s' : CoreState P} {actor : ActorIdentity} {transition : HistoryTransition P} {id : ℕ}
    (h : s.beginFloor actor transition = .ok (id, s')) : s.SameHistory s' := by
  unfold beginFloor at h
  rcases hpending : s.pendingFloor with _ | pending
  · rw [hpending] at h
    obtain ⟨-, h⟩ := guard_eq_ok.mp h
    obtain ⟨-, h⟩ := guard_eq_ok.mp h
    obtain ⟨id', -, h⟩ := bind_eq_ok.mp h
    obtain ⟨-, rfl⟩ := Prod.mk.inj (ok.inj h)
    exact ⟨rfl, rfl⟩
  · rw [hpending] at h
    cases h

/-- A commit takes the next revision and leaves no save. -/
theorem commitFloor_ok {s s' : CoreState P} {pending : PendingFloor P} (h : s.commitFloor pending = .ok s') :
    s'.revision = s.revision + 1 ∧ s'.historyEpoch = s.historyEpoch + 1 ∧ s'.pendingFloor = none := by
  obtain ⟨-, h⟩ := guard_eq_ok.mp h
  obtain ⟨candidate, hreplay, h⟩ := bind_eq_ok.mp h
  obtain ⟨-, h⟩ := guard_eq_ok.mp h
  obtain ⟨revision, hrevision, h⟩ := bind_eq_ok.mp h
  obtain ⟨historyEpoch, hepoch, h⟩ := bind_eq_ok.mp h
  have hnone : candidate.pendingFloor = none := (replay_sameFrame hreplay).pendingFloor
  rw [← ok.inj h]
  exact ⟨(checkedAdd_eq_some.mp (okOr_eq_ok.mp hrevision)).2, (checkedAdd_eq_some.mp (okOr_eq_ok.mp hepoch)).2, hnone⟩

omit [Rules P] in
/-- An installed candidate takes the next revision. -/
theorem install_ok {s candidate s' : CoreState P} (h : s.install candidate = .ok s') :
    s'.revision = s.revision + 1 ∧ s'.history = candidate.history ∧ s'.pendingFloor = candidate.pendingFloor := by
  obtain ⟨historyEpoch, -, h⟩ := bind_eq_ok.mp h
  obtain ⟨revision, hrevision, h⟩ := bind_eq_ok.mp h
  rw [← ok.inj h]
  exact ⟨(checkedAdd_eq_some.mp (okOr_eq_ok.mp hrevision)).2, rfl, rfl⟩

end CoreState

namespace ActorState

section Guards

variable {a : ActorState P}

theorem authorizeAttachment_eq_ok {requested : OwnerId} : a.authorizeAttachment (some requested) = .ok () ↔
      a.attachment ≠ .sealed ∧ a.owner = some requested := by
  unfold authorizeAttachment
  rw [guard_eq_ok]
  rcases a.owner with _ | owner
  · simp
  · simp

theorem permitted_eq_some {generation : ℕ} {m : ManualIngress} :
    a.permitted generation = some m ↔ a.manual = some m ∧ generation = m.generation := by
  rw [permitted, Option.filter_eq_some_iff, decide_eq_true_eq]

end Guards

variable [Rules P] [Wire P]

/-- What a turn can do to the actor. -/
inductive Turned (a : ActorState P) (message : CoreMessage P) : ActorState P → Prop
  | kept : Turned a message a
  | bound {requested : OwnerId} {recovery : Option (AcceptedCut P × Bool)} {generation : ℕ}
      {ingress : ManualIngress} (hmessage : message = .bindManual requested recovery)
      (hauthorized : a.attachment ≠ .sealed ∧ a.owner = some requested)
      (hfloor : a.state.pendingFloor = none) (hdrained : ∀ m ∈ a.manual, m.pending = [])
      (hnew : new a.state generation = .ok ingress) :
      Turned a message
        { a with manualGeneration := generation, manual := some ingress, attachment := .live }
  | acknowledged {requested : OwnerId} {generation : ℕ} {presented : List AcceptedHistory}
      {m m' : ManualIngress} (hmessage : message = .manualAck requested generation presented)
      (hmanual : a.manual = some m) (hcache : m'.cache = m.cache) :
      Turned a message { a with manual := some m' }
  | manual {generation : ℕ} {encode : Encoder P} {command : Command P} {m : ManualIngress}
      (hmessage : message = .manualCommand generation encode command)
      (hmanual : a.manual = some m) :
      Turned a message
        { a with
          state := (m.execute encode a.state a.attachment command).state
          manual := some (m.execute encode a.state a.attachment command).ingress }
  | owned {requested : OwnerId} : Turned a message { a with owner := some requested }
  | fenced {attachment : AttachmentState} (hopen : a.attachment ≠ .sealed) : Turned a message { a with attachment }
  | floored {state : CoreState P} (hopen : a.attachment ≠ .sealed)
      (hmanual : a.manual = none ∨ a.state.pendingFloor ≠ none)
      (hsame : a.state.SameHistory state) : Turned a message { a with state }
  | committed {requested : OwnerId} {pending : PendingFloor P} {state : CoreState P}
      (hrequested : message.requested = some requested)
      (hauthorized : a.attachment ≠ .sealed ∧ a.owner = some requested)
      (hfloor : a.state.pendingFloor = some pending)
      (hcommit : a.state.commitFloor pending = .ok state) : Turned a message { a with state }
  | installed {requested : OwnerId} {cut : AcceptedCut P} {after : HistorySnapshot P}
      {pending : List AcceptedHistory} {checkpoint : Bool} {state : CoreState P}
      (hmessage : message = .installFrozen requested cut after pending checkpoint)
      (hauthorized : a.attachment ≠ .sealed ∧ a.owner = some requested)
      (hfrozen : a.attachment = .frozen) (hpending : ∀ m ∈ a.manual, m.pending = pending)
      (hrevision : state.revision = a.state.revision + 1) :
      Turned a message { a with state, manual := none }
  | restored {state : CoreState P} (hlive : a.attachment = .live) (hmanual : a.manual = none)
      (hrevision : state.revision = a.state.revision + 1) : Turned a message { a with state }
  | executed {command : Command P} (hmanual : a.manual = none ∨ command.isQuery) : Turned a message
        { a with state := (a.state.executeActorCommand a.attachment command).2 }

/-! ## The handlers -/

section Handlers

variable {a a' : ActorState P} {message : CoreMessage P}

omit [Rules P] in
/-- Binding a manual producer takes a drained queue, no pending save and, on a frozen actor, the
cut of this turn. -/
theorem bindManual_eq_ok {requested : OwnerId} {recovery : Option (AcceptedCut P × Bool)}
    {generation : ℕ} (h : a.bindManual requested recovery = .ok (generation, a')) :
    (a.attachment ≠ .sealed ∧ a.owner = some requested) ∧ a.state.pendingFloor = none ∧
      (∀ m ∈ a.manual, m.pending = []) ∧
      (∀ cut live, recovery = some (cut, live) → a.attachment = .frozen ∧ a.Holds cut) ∧
      ∃ ingress, new a.state generation = .ok ingress ∧
        a' = { a with manualGeneration := generation, manual := some ingress,
                      attachment := .live } := by
  obtain ⟨⟨⟩, hauthorized, h⟩ := bind_eq_ok.mp h
  dsimp only at h
  obtain ⟨hguard, h⟩ := guard_eq_ok.mp h
  obtain ⟨generation', -, h⟩ := bind_eq_ok.mp h
  obtain ⟨ingress, hnew, h⟩ := bind_eq_ok.mp h
  obtain ⟨rfl, rfl⟩ := Prod.mk.inj (ok.inj h)
  simp only [not_or, not_not] at hguard
  obtain ⟨hvalid, hdrained, hfloor⟩ := hguard
  refine ⟨authorizeAttachment_eq_ok.mp hauthorized, ?_, ?_, ?_, ingress, hnew, rfl⟩
  · simpa using hfloor
  · intro m hm
    rw [show a.manual = some m from hm] at hdrained
    simpa using hdrained
  · rintro cut live rfl
    simp only [decide_eq_true_eq] at hvalid
    exact ⟨hvalid.1, hvalid.2.2⟩

variable {cut : AcceptedCut P}

omit [Rules P] [Wire P] in
theorem captureCut_eq_ok {requested : OwnerId} {freeze : Bool} (h : a.captureCut requested freeze = .ok (cut, a')) :
    (a.attachment ≠ .sealed ∧ a.owner = some requested) ∧ cut = a.acceptedCut ∧
      a' = if freeze then { a with attachment := .frozen } else a := by
  obtain ⟨⟨⟩, hauthorized, h⟩ := bind_eq_ok.mp h
  obtain ⟨rfl, rfl⟩ := Prod.mk.inj (ok.inj h)
  exact ⟨authorizeAttachment_eq_ok.mp hauthorized, rfl, rfl⟩

omit [Rules P] [Wire P] in
theorem finishAttachment_eq_ok {requested : OwnerId} {sealing : Bool}
    (h : a.finishAttachment requested cut sealing = .ok ((), a')) :
    (a.attachment ≠ .sealed ∧ a.owner = some requested) ∧ a.Holds cut ∧ a.attachment = .frozen ∧
      a' = { a with attachment := if sealing then .sealed else .live } := by
  obtain ⟨⟨⟩, hauthorized, h⟩ := bind_eq_ok.mp h
  obtain ⟨hholds, h⟩ := guard_eq_ok.mp h
  obtain ⟨hfrozen, h⟩ := guard_eq_ok.mp h
  obtain ⟨-, rfl⟩ := Prod.mk.inj (ok.inj h)
  exact ⟨authorizeAttachment_eq_ok.mp hauthorized, not_not.mp hholds, not_not.mp hfrozen, rfl⟩

omit [Wire P] in
theorem installFrozen_eq_ok {requested : OwnerId} {cut' : AcceptedCut P} {after : HistorySnapshot P}
    {pending : List AcceptedHistory} {checkpoint : Bool}
    (h : a.installFrozen requested cut after pending checkpoint = .ok (cut', a')) :
    (a.attachment ≠ .sealed ∧ a.owner = some requested) ∧ a.attachment = .frozen ∧ a.Holds cut ∧
      (∀ m ∈ a.manual, m.pending = pending) ∧
      ∃ state, state.revision = a.state.revision + 1 ∧ a' = { a with state, manual := none } ∧
        cut' = a'.acceptedCut := by
  obtain ⟨⟨⟩, hauthorized, h⟩ := bind_eq_ok.mp h
  obtain ⟨hguard, h⟩ := guard_eq_ok.mp h
  obtain ⟨-, h⟩ := guard_eq_ok.mp h
  obtain ⟨⟨⟩, -, h⟩ := bind_eq_ok.mp h
  obtain ⟨candidate, -, h⟩ := bind_eq_ok.mp h
  obtain ⟨state, hstate, h⟩ := bind_eq_ok.mp h
  obtain ⟨rfl, rfl⟩ := Prod.mk.inj (ok.inj h)
  simp only [not_or, not_not] at hguard
  obtain ⟨hfrozen, hholds, -, hpending⟩ := hguard
  refine ⟨authorizeAttachment_eq_ok.mp hauthorized, hfrozen, hholds, ?_, state,
    (CoreState.install_ok hstate).1, rfl, rfl⟩
  intro m hm
  rwa [show a.manual = some m from hm] at hpending

theorem restoreHistory_turned {requested : Option OwnerId} {history : HistorySnapshot P}
    {expected : Option (HistorySnapshot P)}
    (h : a.restoreHistory requested history expected = .ok ((), a')) : Turned a message a' := by
  obtain ⟨⟨⟩, hadmitted, h⟩ := bind_eq_ok.mp h
  obtain ⟨candidate, -, h⟩ := bind_eq_ok.mp h
  obtain ⟨state, hstate, h⟩ := bind_eq_ok.mp h
  obtain ⟨-, rfl⟩ := Prod.mk.inj (ok.inj h)
  obtain ⟨hsealed, hadmitted⟩ := guard_eq_ok.mp hadmitted
  obtain ⟨hfrozen, hadmitted⟩ := guard_eq_ok.mp hadmitted
  obtain ⟨hmanual, -⟩ := guard_eq_ok.mp hadmitted
  refine .restored ?_ (by simpa using hmanual) (CoreState.install_ok hstate).1
  rcases hattachment : a.attachment
  · rfl
  · exact absurd hattachment hfrozen
  · exact absurd hattachment hsealed

theorem tagFloor_turned {requested : OwnerId} {id : ℕ} {tag : Option HistorySaveTag} {ready : Bool}
    (h : a.tagFloor requested id tag ready = .ok ((), a')) : Turned a message a' := by
  obtain ⟨⟨⟩, hauthorized, h⟩ := bind_eq_ok.mp h
  obtain ⟨state, hstate, h⟩ := bind_eq_ok.mp h
  obtain ⟨-, rfl⟩ := Prod.mk.inj (ok.inj h)
  obtain ⟨pending, save, hpending, rfl⟩ := CoreState.tagFloor_ok hstate
  refine .floored (authorizeAttachment_eq_ok.mp hauthorized).1 (Or.inr ?_) ⟨rfl, rfl⟩
  rw [hpending]
  exact Option.some_ne_none pending

theorem beginFloor_turned {requested : OwnerId} {transition : HistoryTransition P} {id : ℕ}
    (h : a.beginFloor requested transition = .ok (id, a')) : Turned a message a' := by
  obtain ⟨⟨⟩, hauthorized, h⟩ := bind_eq_ok.mp h
  obtain ⟨hmanual, h⟩ := guard_eq_ok.mp h
  obtain ⟨⟨id', state⟩, hstate, h⟩ := bind_eq_ok.mp h
  obtain ⟨-, rfl⟩ := Prod.mk.inj (ok.inj h)
  exact .floored (authorizeAttachment_eq_ok.mp hauthorized).1 (Or.inl (by simpa using hmanual))
    (CoreState.beginFloor_sameHistory hstate)

theorem settleFloor_turned (requested : OwnerId) (id : ℕ) (expected : Option PendingHistorySave)
    (commit : Bool) (hrequested : message.requested = some requested) :
    Turned a message (a.settleFloor requested id expected commit).2 := by
  unfold settleFloor
  rcases hauthorized : a.authorizeAttachment (some requested) with error | ⟨⟩
  · exact .kept
  · dsimp only
    have hopen := authorizeAttachment_eq_ok.mp hauthorized
    split
    · exact .kept
    · rcases hsettle : a.state.settleFloor id commit with ⟨reply, state⟩
      rcases CoreState.settleFloor_cases hsettle with rfl | hrelease | ⟨pending, hpending, hcommit⟩
      · exact .kept
      · rcases hpending : a.state.pendingFloor with _ | pending
        · have hsame : state = a.state := by
            rw [hrelease, CoreState.releaseFloor, ← hpending]
          rw [hsame]
          exact .kept
        · refine .floored hopen.1 (Or.inr ?_) ?_
          · rw [hpending]
            exact Option.some_ne_none pending
          · rw [hrelease]
            exact CoreState.sameHistory_releaseFloor _
      · exact .committed hrequested hopen hpending hcommit

theorem manualAck_turned (requested : OwnerId) (generation : ℕ) (presented : List AcceptedHistory) :
    Turned a (.manualAck requested generation presented) (a.manualAck requested generation presented).2 := by
  unfold manualAck
  rcases hpermitted : a.permitted generation with _ | m
  · exact .kept
  · dsimp only
    split
    · exact .kept
    · exact .acknowledged rfl (permitted_eq_some.mp hpermitted).1 (acknowledge_frame m presented).1

theorem plainCommand_turned (command : Command P) : Turned a message (a.plainCommand command).2 := by
  unfold plainCommand
  by_cases hrefused : a.manual.isSome ∧ ¬ command.isQuery
  · rw [if_pos hrefused]
    exact .kept
  · rw [if_neg hrefused]
    refine .executed ?_
    by_cases hquery : command.isQuery
    · exact Or.inr hquery
    · exact Or.inl (by simpa [hquery] using hrefused)

end Handlers

/-- A message that is answered with a result turns the actor like its handler. -/
theorem answer_turned {α : Type} {a : ActorState P} {message : CoreMessage P}
    (reply : Except HistoryError α → Reply P) {result : Except HistoryError (α × ActorState P)}
    (h : ∀ value a', result = .ok (value, a') → Turned a message a') :
    Turned a message (a.answer reply result).actor := by
  rcases result with error | ⟨value, a'⟩
  · exact .kept
  · exact h value a' rfl

/-- The specification of one turn of `run_actor`. -/
theorem turn_turned (a : ActorState P) (message : CoreMessage P) : Turned a message (a.turn message).actor := by
  rcases hmessage : message with ⟨requested, recovery⟩ | ⟨generation⟩ |
    ⟨requested, generation, presented⟩ | ⟨generation, encode, command⟩ | ⟨requested⟩ | _ |
    ⟨requested, freeze⟩ | ⟨requested, cut, sealing⟩ | _ | ⟨requested, id, tag, ready⟩ |
    ⟨requested, transition⟩ | ⟨requested, id, expected, commit⟩ | _ | _ |
    ⟨requested, cut, after, pending, checkpoint⟩ | ⟨requested, history, expected⟩ | _ | _ |
    ⟨command⟩ | ⟨command⟩
  · refine answer_turned _ fun generation a' h => ?_
    obtain ⟨hauthorized, hfloor, hdrained, -, ingress, hnew, rfl⟩ := bindManual_eq_ok h
    exact .bound rfl hauthorized hfloor hdrained hnew
  · exact .kept
  · exact manualAck_turned requested generation presented
  · rw [turn, manualCommand]
    rcases hpermitted : a.permitted generation with _ | m
    · exact .kept
    · exact .manual rfl (permitted_eq_some.mp hpermitted).1
  · refine answer_turned _ fun _ a' h => ?_
    unfold bindOwner at h
    split at h
    · obtain ⟨-, rfl⟩ := Prod.mk.inj (ok.inj h)
      exact .owned
    · cases h
  · exact .kept
  · refine answer_turned _ fun cut a' h => ?_
    obtain ⟨hauthorized, -, rfl⟩ := captureCut_eq_ok h
    cases freeze
    · exact .kept
    · exact .fenced hauthorized.1
  · refine answer_turned _ fun _ a' h => ?_
    obtain ⟨hauthorized, -, -, rfl⟩ := finishAttachment_eq_ok h
    exact .fenced hauthorized.1
  · exact .kept
  · exact answer_turned _ fun _ _ h => tagFloor_turned h
  · exact answer_turned _ fun _ _ h => beginFloor_turned h
  · exact settleFloor_turned requested id expected commit rfl
  · exact .kept
  · exact .kept
  · refine answer_turned _ fun _ a' h => ?_
    obtain ⟨hauthorized, hfrozen, -, hpending, state, hrevision, rfl, -⟩ := installFrozen_eq_ok h
    exact .installed rfl hauthorized hfrozen hpending hrevision
  · exact answer_turned _ fun _ _ h => restoreHistory_turned h
  · exact .kept
  · exact .kept
  all_goals exact plainCommand_turned command

end ActorState

end Kinewright.Core
