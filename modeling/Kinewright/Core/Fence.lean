import Kinewright.Core.ChangeId

/-!
# The attachment fence

A sealed actor never changes again. A frozen actor changes its history only for the bound owner. And
whoever resumes, seals, installs or rebinds with a cut has the cut of this actor, with nothing
accepted since it was taken.
-/

namespace Kinewright.Core

open Trace

variable {P : Payload} [Rules P]

/-- The cut that a message presents. -/
def CoreMessage.presents : CoreMessage P → Option (AcceptedCut P)
  | .bindManual _ (some (cut, _)) => some cut
  | .finishAttachment _ cut _ => some cut
  | .installFrozen _ cut _ _ _ => some cut
  | _ => none

/-- The messages that carry a command: of a plain client, or of a permit holder. -/
def CoreMessage.IsCommand : CoreMessage P → Prop
  | .command _ | .request _ | .manualCommand .. => True
  | _ => False

omit [Rules P] in
/-- A reply that grants what its message asked for. -/
def Reply.granted : Reply P → Bool
  | .done (.ok _) | .generation (.ok _) | .cut (.ok _) | .floor (.ok _) => true
  | _ => false

namespace ActorState

variable [Wire P]

/-- An ingress that is not live passes every command on, and it is refused there. -/
theorem execute_of_not_live {m : ManualIngress} {s : CoreState P} {attachment : AttachmentState}
    (h : attachment ≠ .live) (encode : Encoder P) (command : Command P) :
    (m.execute encode s attachment command).state = (s.executeActorCommand attachment command).2 := by
  unfold ManualIngress.execute
  rw [if_pos (Or.inr h)]

variable {a : ActorState P} {message : CoreMessage P}

theorem Turned.identity {a' : ActorState P} (h : Turned a message a') : a'.identity = a.identity := by
  cases h <;> rfl

theorem after_identity (a : ActorState P) (messages : List (CoreMessage P)) (k : ℕ) :
    (a.after messages k).identity = a.identity :=
  invariant (I := fun b : ActorState P => b.identity = a.identity)
    (fun b message hb => (turn_turned b message).identity.trans hb) rfl k

/-! ## Sealed -/

/-- If the first actor is sealed, so is the second, with nothing changed. -/
def KeepsSealed (a b : ActorState P) : Prop :=
  a.attachment = .sealed → b.attachment = .sealed ∧ a.state.SameHistory b.state ∧
    b.state.pendingFloor = a.state.pendingFloor

omit [Rules P] [Wire P] in
theorem KeepsSealed.trans {b c : ActorState P} (h : KeepsSealed a b) (h' : KeepsSealed b c) : KeepsSealed a c := by
  intro hsealed
  obtain ⟨hsealed', hsame, hfloor⟩ := h hsealed
  obtain ⟨hsealed'', hsame', hfloor'⟩ := h' hsealed'
  exact ⟨hsealed'', hsame.trans hsame', hfloor'.trans hfloor⟩

theorem Turned.keepsSealed {a' : ActorState P} (h : Turned a message a') : KeepsSealed a a' := by
  intro hsealed
  have hdead : a.attachment ≠ .live := by
    rw [hsealed]
    exact nofun
  rcases h with _ | ⟨-, hauthorized⟩ | _ | _ | _ | ⟨hopen⟩ | ⟨hopen, -, -⟩ |
    ⟨-, hauthorized, -, -⟩ | ⟨-, hauthorized⟩ | ⟨hlive, -, -⟩ | _
  · exact ⟨hsealed, .refl _, rfl⟩
  · exact absurd hsealed hauthorized.1
  · exact ⟨hsealed, .refl _, rfl⟩
  · refine ⟨hsealed, ?_⟩
    rw [execute_of_not_live hdead]
    exact a.state.executeActorCommand_sameHistory (Or.inr hdead)
  · exact ⟨hsealed, .refl _, rfl⟩
  · exact absurd hsealed hopen
  · exact absurd hsealed hopen
  · exact absurd hsealed hauthorized.1
  · exact absurd hsealed hauthorized.1
  · exact absurd hlive hdead
  · exact ⟨hsealed, a.state.executeActorCommand_sameHistory (Or.inr hdead)⟩

theorem after_keepsSealed (a : ActorState P) (messages : List (CoreMessage P)) {i j : ℕ}
    (hij : i ≤ j) : KeepsSealed (a.after messages i) (a.after messages j) :=
  relation (I := fun _ => True) (R := KeepsSealed) (fun _ _ _ => trivial) trivial
    (fun _ hsealed => ⟨hsealed, .refl _, rfl⟩) (fun _ _ _ => KeepsSealed.trans)
    (fun b message _ => (b.turn_turned message).keepsSealed) hij

/-! ## Frozen -/

/-- What changes the history of a frozen actor carries its owner. -/
theorem Turned.frozen {a' : ActorState P} (h : Turned a message a') (hfrozen : a.attachment = .frozen) :
    a.state.SameHistory a'.state ∨ ∃ owner, a.owner = some owner ∧ message.requested = some owner := by
  have hdead : a.attachment ≠ .live := by
    rw [hfrozen]
    exact nofun
  rcases h with _ | _ | _ | _ | _ | _ | ⟨-, -, hsame⟩ | ⟨hrequested, hauthorized, -, -⟩ |
    ⟨hmessage, hauthorized⟩ | ⟨hlive, -, -⟩ | _
  · exact Or.inl (.refl _)
  · exact Or.inl (.refl _)
  · exact Or.inl (.refl _)
  · left
    rw [execute_of_not_live hdead]
    exact (a.state.executeActorCommand_sameHistory (Or.inr hdead)).1
  · exact Or.inl (.refl _)
  · exact Or.inl (.refl _)
  · exact Or.inl hsame
  · exact Or.inr ⟨_, hauthorized.2, hrequested⟩
  · exact Or.inr ⟨_, hauthorized.2, congrArg CoreMessage.requested hmessage⟩
  · exact absurd hlive hdead
  · exact Or.inl (a.state.executeActorCommand_sameHistory (Or.inr hdead)).1

omit [Wire P] in
theorem requested_of_isCommand (h : message.IsCommand) : message.requested = none := by
  cases message <;> first | rfl | exact h.elim

/-! ## Cuts -/

omit [Rules P] [Wire P] in
theorem answer_reply {α : Type} (a : ActorState P) (reply : Except HistoryError α → Reply P)
    (result : Except HistoryError (α × ActorState P)) :
    (a.answer reply result).reply = reply (result.map Prod.fst) := by
  rcases result with error | ⟨value, a'⟩
  · rfl
  · rfl

variable {cut : AcceptedCut P}

/-- Whoever is granted something for a cut has presented the cut of that turn. -/
theorem holds_of_granted (hpresents : message.presents = some cut) (hgranted : (a.turn message).reply.granted) :
    a.Holds cut := by
  rcases message with ⟨requested, _ | ⟨cut', live⟩⟩ | _ | _ | _ | _ | _ | _ |
    ⟨requested, cut', sealing⟩ | _ | _ | _ | _ | _ | _ |
    ⟨requested, cut', after, pending, checkpoint⟩ | _ | _ | _ | _ | _
  case bindManual.some =>
    obtain rfl := Option.some.inj hpresents
    rw [turn] at hgranted
    rcases hresult : a.bindManual requested (some (cut', live)) with error | ⟨generation, a'⟩
    · rw [hresult] at hgranted
      cases hgranted
    · obtain ⟨-, -, -, hrecovery, -⟩ := bindManual_eq_ok hresult
      exact (hrecovery cut' live rfl).2
  case finishAttachment =>
    obtain rfl := Option.some.inj hpresents
    rw [turn] at hgranted
    rcases hresult : a.finishAttachment requested cut' sealing with error | ⟨⟨⟩, a'⟩
    · rw [hresult] at hgranted
      cases hgranted
    · exact (finishAttachment_eq_ok hresult).2.1
  case installFrozen =>
    obtain rfl := Option.some.inj hpresents
    rw [turn] at hgranted
    rcases hresult : a.installFrozen requested cut' after pending checkpoint with
      error | ⟨cut, a'⟩
    · rw [hresult] at hgranted
      cases hgranted
    · exact (installFrozen_eq_ok hresult).2.2.1
  all_goals cases hpresents

/-- A replied cut is the cut of the turn after it. -/
theorem acceptedCut_of_reply (h : (a.turn message).reply = .cut (.ok cut)) :
    (a.turn message).actor.acceptedCut = cut := by
  rcases message with _ | _ | _ | ⟨generation, encode, command⟩ | _ | _ | ⟨requested, freeze⟩ |
    _ | _ | _ | _ | _ | _ | _ | ⟨requested, cut', after, pending, checkpoint⟩ | _ | _ | _ | _ | _
  case captureCut =>
    rw [turn] at h ⊢
    rcases hresult : a.captureCut requested freeze with error | ⟨cut', a'⟩
    · rw [hresult] at h
      cases h
    · rw [hresult] at h
      obtain ⟨-, hcut, ha'⟩ := captureCut_eq_ok hresult
      obtain rfl : cut' = cut := by
        simpa [answer] using h
      rw [hcut, answer]
      rw [ha']
      cases freeze <;> rfl
  case installFrozen =>
    rw [turn] at h ⊢
    rcases hresult : a.installFrozen requested cut' after pending checkpoint with
      error | ⟨cut'', a'⟩
    · rw [hresult] at h
      cases h
    · rw [hresult] at h
      obtain ⟨-, -, -, -, state, -, -, hcut⟩ := installFrozen_eq_ok hresult
      obtain rfl : cut'' = cut := by
        simpa [answer] using h
      exact hcut.symm
  case manualCommand =>
    rw [turn, manualCommand] at h
    rcases hpermitted : a.permitted generation with _ | m
    all_goals
      rw [hpermitted] at h
      cases h
  all_goals first | cases h | (rw [turn, answer_reply] at h; cases h)

/-- The reply to the message at `k`. -/
def replyAt (a : ActorState P) (messages : List (CoreMessage P)) (k : ℕ) : Option (Reply P) :=
  messages[k]?.map fun message => ((a.after messages k).turn message).reply

/-- Nobody forges a cut: one that names the actor is the reply to an earlier message. The fields of
`AcceptedCut` are private to the crate, which builds one in the replies of an actor only, under the
identity that no other actor has. -/
def Genuine (a : ActorState P) (messages : List (CoreMessage P)) (k : ℕ) (cut : AcceptedCut P) :
    Prop :=
  cut.actor = a.identity → ∃ j < k, a.replyAt messages j = some (.cut (.ok cut))

/-- Between the reply with a cut and a turn at which the cut holds, nothing is accepted. -/
theorem unchanged_since_cut (ha : a.ManualCurrent) {messages : List (CoreMessage P)} {j k : ℕ}
    (hreply : a.replyAt messages j = some (.cut (.ok cut)))
    (hholds : (a.after messages k).Holds cut) {i : ℕ} (hji : j < i) (hik : i ≤ k) :
    (a.after messages i).state.history = cut.history ∧ (a.after messages i).state.revision = cut.revision := by
  obtain ⟨message, hmessage, hreply⟩ := Option.map_eq_some_iff.mp hreply
  have htaken : (a.after messages (j + 1)).acceptedCut = cut := by
    rw [after, trace_succ hmessage]
    exact acceptedCut_of_reply hreply
  have hsame : (a.after messages (j + 1)).state.SameHistory (a.after messages k).state := by
    obtain ⟨-, hrevision, hhistory⟩ := hholds
    rw [← htaken] at hrevision hhistory
    exact ⟨hhistory.symm, hrevision.symm⟩
  obtain ⟨hclock, hhistory⟩ := (after_ticks ha messages (Nat.succ_le_of_lt hji)).between
    (after_ticks ha messages hik) hsame.clock
  have hrevision := congrArg HistoryChangeId.revision (CoreState.clock_eq_iff.mp hclock)
  rw [← htaken]
  exact ⟨hhistory, hrevision⟩

/-- In every run of an actor: sealed is final; while it is frozen no command changes the history,
and what changes it carries the owner; and what is granted for a cut is granted for a cut of this
actor, with no change of revision or history since the cut was taken. -/
theorem attachment_fenced {identity : ActorIdentity} {document : Document P}
    {revision : TimelineRevision} (messages : List (CoreMessage P)) :
    let start : ActorState P := spawn identity document revision
    (∀ i j, i ≤ j → (start.after messages i).attachment = .sealed → (start.after messages j).attachment = .sealed ∧
      (start.after messages j).state.history = (start.after messages i).state.history ∧
      (start.after messages j).state.revision = (start.after messages i).state.revision ∧
      (start.after messages j).state.pendingFloor = (start.after messages i).state.pendingFloor) ∧
    (∀ k message, messages[k]? = some message → (start.after messages k).attachment = .frozen → (message.IsCommand →
        (start.after messages (k + 1)).state.history = (start.after messages k).state.history) ∧
      ((start.after messages (k + 1)).state.history ≠ (start.after messages k).state.history →
        ∃ owner, (start.after messages k).owner = some owner ∧ message.requested = some owner)) ∧
    (∀ k message cut, messages[k]? = some message → message.presents = some cut → start.Genuine messages k cut →
      ((start.after messages k).turn message).reply.granted →
        cut.actor = identity ∧ ∃ j < k, start.replyAt messages j = some (.cut (.ok cut)) ∧
          ∀ i, j < i → i ≤ k → (start.after messages i).state.history = cut.history ∧
            (start.after messages i).state.revision = cut.revision) := by
  intro start
  have hstart : start.ManualCurrent := manualCurrent_spawn identity document revision
  refine ⟨?_, ?_, ?_⟩
  · intro i j hij hsealed
    obtain ⟨hsealed', hsame, hfloor⟩ := start.after_keepsSealed messages hij hsealed
    exact ⟨hsealed', hsame.1, hsame.2, hfloor⟩
  · intro k message hmessage hfrozen
    have hstep : start.after messages (k + 1) = ((start.after messages k).turn message).actor := trace_succ hmessage
    have hturned := (turn_turned (start.after messages k) message).frozen hfrozen
    rw [← hstep] at hturned
    refine ⟨fun hcommand => ?_, fun hchanged => ?_⟩
    · rcases hturned with hsame | ⟨owner, -, hrequested⟩
      · exact hsame.1
      · rw [requested_of_isCommand hcommand] at hrequested
        cases hrequested
    · rcases hturned with hsame | howner
      · exact absurd hsame.1 hchanged
      · exact howner
  · intro k message cut hmessage hpresents hgenuine hgranted
    have hholds := holds_of_granted hpresents hgranted
    have hactor : cut.actor = start.identity := hholds.1.trans (start.after_identity messages k)
    obtain ⟨j, hjk, hreply⟩ := hgenuine hactor
    exact ⟨hactor, j, hjk, hreply, fun i => unchanged_since_cut hstart hreply hholds⟩

/-- An edited total is frozen and sealed at its cut; later commands find it as it was. -/
theorem attachment_fenced_tally :
    let start : ActorState tally := spawn 1 { tracks := [], rest := (0 : ℕ) } 0
    let cut : AcceptedCut tally := (start.after [.bindOwner 7, .command (.do_ (.other 5))] 2).acceptedCut
    let messages : List (CoreMessage tally) :=
      [.bindOwner 7, .command (.do_ (.other 5)), .captureCut 7 true, .command .undo,
        .finishAttachment 7 cut true, .command .undo]
    (start.after messages 6).state.history = (start.after messages 5).state.history ∧
      (start.after messages 4).state.history = (start.after messages 3).state.history ∧
      cut.actor = 1 := by
  intro start cut messages
  obtain ⟨hsealed, hfrozen, hcut⟩ := @attachment_fenced tally _ _ 1 { tracks := [], rest := (0 : ℕ) } 0 messages
  have hgenuine : start.Genuine messages 4 cut := fun _ => ⟨2, by decide, rfl⟩
  exact ⟨(hsealed 5 6 (by decide) rfl).2.1, (hfrozen 3 _ rfl rfl).1 trivial, (hcut 4 _ cut rfl rfl hgenuine rfl).1⟩

end ActorState

end Kinewright.Core
