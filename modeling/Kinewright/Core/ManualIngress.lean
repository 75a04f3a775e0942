import Kinewright.Core.CandidateDelta
import Kinewright.Core.HistoryJson

/-!
# Manual admission

`ManualIngress` of `manual_history.rs`. A manual command runs on the live state, its history is
hashed from the cache, and an external encoder turns it into an item of the pending queue; on any
refusal the state and the cache are rolled back. The encoder is arbitrary and may answer differently
on every call, so each call of `execute` is given the answer function of that call.
-/

namespace Kinewright.Core

open CandidateDelta HistoryJson

variable {P : Payload}

/-- `MANUAL_COMMANDS`. -/
def manualCommands : ℕ := 64

/-- `MANUAL_BYTES`. -/
def manualBytes : ℕ := 256 * 1024

/-- The arguments of `ManualHistoryEncoder::encode`, with the fields of its candidate. -/
structure EncodeRequest (P : Payload) where
  sequence : ℕ
  revision : TimelineRevision
  predecessor : Option String
  document : Document P
  batch : HistoryBatch P
  beforeSha256 : String
  afterSha256 : String
  cursorSha256 : String
deriving DecidableEq

/-- One call of the encoder. -/
abbrev Encoder (P : Payload) := EncodeRequest P → Except HistoryError AcceptedHistory

/-- `ManualIngress`, without its encoder. -/
structure ManualIngress where
  generation : ℕ
  nextSequence : ℕ
  predecessor : Option String
  pending : List AcceptedHistory
  bytes : ℕ
  cache : HistoryJson
deriving DecidableEq

/-- What `execute` leaves, with what the encoder was asked for the item it admitted. -/
structure Admission (P : Payload) where
  event : Event P
  ingress : ManualIngress
  state : CoreState P
  admitted : Option (EncodeRequest P × AcceptedHistory)
deriving DecidableEq

/-- `manual_refusal`. -/
def manualRefusal (command : Command P) (reason : CoreMutationRefusal) : Event P :=
  .mutationRefused reason command.token

/-- The reason of a refusal by the encoder. -/
def refusalReason : HistoryError → CoreMutationRefusal
  | .mutationRefused reason => reason
  | _ => .manualBackpressure

/-- `manual_message_bytes`. -/
def manualMessageBytes (P : Payload) [Wire P] (item : AcceptedHistory) : Except HistoryError ℕ :=
  (okOr (Wire.message P item) .capacity).map List.length

namespace ManualIngress

section Definitions

variable [Rules P] [Wire P]

/-- `ManualIngress::new`. -/
def new (s : CoreState P) (generation : ℕ) : Except HistoryError ManualIngress := do
  let cache ← HistoryJson.new s
  return { generation, nextSequence := 1, predecessor := none, pending := [], bytes := 0, cache }

/-- Rebuild a cache of another epoch. -/
def refresh (m : ManualIngress) (s : CoreState P) : Except HistoryError ManualIngress :=
  if m.cache.epoch ≠ s.historyEpoch then do
    let cache ← HistoryJson.new s
    return { m with cache }
  else .ok m

/-- A refusal that leaves the ingress and the state as given. -/
def refuse (m : ManualIngress) (s : CoreState P) (command : Command P) (reason : CoreMutationRefusal) : Admission P :=
  { event := manualRefusal command reason, ingress := m, state := s, admitted := none }

/-- The closure of `execute` that asks the encoder: the request, the item, its size and the next
sequence number. -/
def admitRequest (m : ManualIngress) (encode : Encoder P) (revision : TimelineRevision) (s : CoreState P) :
    Except HistoryError (EncodeRequest P × AcceptedHistory × ℕ × ℕ) := do
  let (afterSha256, cursorSha256) ← m.cache.identities s
  let batch ← okOr s.batches.getLast? .corrupt
  let request : EncodeRequest P :=
    { sequence := m.nextSequence
      revision
      predecessor := m.predecessor
      document := s.document
      batch
      beforeSha256 := m.cache.sha256
      afterSha256
      cursorSha256 }
  let item ← encode request
  let bytes ← manualMessageBytes P item
  let nextSequence ← okOr (checkedAdd m.nextSequence 1) .capacity
  if item.sequence ≠ m.nextSequence ∨ bytes > manualBytes - m.bytes then .error .capacity
  else return (request, item, bytes, nextSequence)

/-- The part of `execute` that runs the command and admits it, or takes it back. -/
def executeLive (m : ManualIngress) (encode : Encoder P) (s : CoreState P) (command : Command P) : Admission P :=
  let delta := begin s command
  let (event, after) := (opened s command).executeActorCommand .live command
  if event.journaled = none then
    { event, ingress := m, state := delta.rollback after, admitted := none }
  else
    let (undoPre, redoPre) := delta.cachePrefixes after
    match m.cache.update after undoPre redoPre with
    | (.error _, cache) =>
      refuse { m with cache } (delta.rollback after) command .manualBackpressure
    | (.ok patch, cache) =>
      match admitRequest { m with cache } encode delta.revision after with
      | .ok (request, item, bytes, nextSequence) =>
        { event
          ingress :=
            { m with
              nextSequence
              predecessor := some item.batchId
              bytes := m.bytes + bytes
              pending := m.pending ++ [item]
              cache := { cache with sha256 := request.afterSha256 } }
          state := after
          admitted := some (request, item) }
      | .error error =>
        refuse { m with cache := cache.rollback patch } (delta.rollback after) command (refusalReason error)

/-- `ManualIngress::execute`. -/
def execute (m : ManualIngress) (encode : Encoder P) (s : CoreState P)
    (attachment : AttachmentState) (command : Command P) : Admission P :=
  if command.isQuery ∨ attachment ≠ .live then
    let (event, after) := s.executeActorCommand attachment command
    { event, ingress := m, state := after, admitted := none }
  else if m.pending.length ≥ manualCommands then m.refuse s command .manualBackpressure
  else match m.refresh s with
    | .error _ => m.refuse s command .manualBackpressure
    | .ok m => m.executeLive encode s command

/-- The loop of `ManualAck`: one item leaves for each presented one. -/
def acknowledgeLoop (P : Payload) [Wire P] (m : ManualIngress) :
    List AcceptedHistory → Except HistoryError Unit × ManualIngress
  | [] => (.ok (), m)
  | _ :: rest =>
    match m.pending with
    | [] => (.error .barrierInvariant, m)
    | item :: pending =>
      let m := { m with pending }
      match manualMessageBytes P item with
      | .error error => (.error error, m)
      | .ok bytes => acknowledgeLoop P { m with bytes := m.bytes - bytes } rest

/-- `ManualAck` for the right owner and generation: the presented items must be the front of the
queue. -/
def acknowledge (P : Payload) [Wire P] (m : ManualIngress) (presented : List AcceptedHistory) :
    Except HistoryError Unit × ManualIngress :=
  if presented.length > m.pending.length ∨ ¬ (presented.zip m.pending).all fun (a, b) => a = b then
    (.error .barrierInvariant, m)
  else acknowledgeLoop P m presented

end Definitions

/-! ## What one call can do -/

variable [Wire P]

/-- The cache reflects the state, if it is of the state's epoch. -/
def Current (m : ManualIngress) (s : CoreState P) : Prop := m.cache.epoch = s.historyEpoch → m.cache.Reflects s

variable {s : CoreState P} {m : ManualIngress}

theorem new_eq_ok {generation : ℕ} (h : ManualIngress.new s generation = .ok m) :
    ∃ cache : HistoryJson, cache.Reflects s ∧
      m = { generation, nextSequence := 1, predecessor := none, pending := [], bytes := 0,
            cache } := by
  obtain ⟨cache, hcache, h⟩ := bind_eq_ok.mp h
  exact ⟨cache, new_reflects hcache, (Except.ok.inj h).symm⟩

/-- A refresh changes at most the cache, which then reflects the state. -/
theorem refresh_eq_ok {m' : ManualIngress} (hcurrent : m.Current s) (h : m.refresh s = .ok m') :
    m'.cache.Reflects s ∧ (m' = m ∨ m.cache.epoch ≠ s.historyEpoch ∧
        ∃ cache, HistoryJson.new s = .ok cache ∧ m' = { m with cache }) := by
  unfold refresh at h
  by_cases hepoch : m.cache.epoch = s.historyEpoch
  · rw [if_neg (not_not.mpr hepoch), Except.ok.injEq] at h
    exact ⟨h ▸ hcurrent hepoch, Or.inl h.symm⟩
  · rw [if_pos hepoch] at h
    obtain ⟨cache, hcache, h⟩ := bind_eq_ok.mp h
    obtain rfl := Except.ok.inj h
    exact ⟨new_reflects hcache, Or.inr ⟨hepoch, cache, hcache, rfl⟩⟩

variable [Rules P]

/-- What an admitted command was asked of the encoder, and what the encoder may answer. -/
structure Asked (m : ManualIngress) (s after : CoreState P) (request : EncodeRequest P)
    (item : AcceptedHistory) (bytes : ℕ) : Prop where
  sequence : request.sequence = m.nextSequence
  revision : request.revision = s.revision
  predecessor : request.predecessor = m.predecessor
  document : request.document = after.document
  batch : after.batches.getLast? = some request.batch
  beforeSha256 : request.beforeSha256 = m.cache.sha256
  item_sequence : item.sequence = m.nextSequence
  item_bytes : manualMessageBytes P item = .ok bytes
  fits : bytes ≤ manualBytes - m.bytes
  next : m.nextSequence + 1 < 2 ^ 64

/-- Everything that one call of `execute` can do. -/
inductive Executed (m : ManualIngress) (s : CoreState P) (attachment : AttachmentState)
    (command : Command P) : Admission P → Prop
  | passed (hpassed : command.isQuery ∨ attachment ≠ .live) : Executed m s attachment command
        { event := (s.executeActorCommand attachment command).1
          ingress := m
          state := (s.executeActorCommand attachment command).2
          admitted := none }
  | refused {event : Event P} {m' : ManualIngress} (hlive : ¬ command.isQuery ∧ attachment = .live)
      (hquiet : event.journaled = none) (hingress : m' = m ∨ m.refresh s = .ok m') :
      Executed m s attachment command { event, ingress := m', state := s, admitted := none }
  | admitted {m₁ : ManualIngress} {cache : HistoryJson} {c : JournalCommand P}
      {move : HistoryMove P} {effects : List (OperationIdentityEffect P)}
      {request : EncodeRequest P} {item : AcceptedHistory} {bytes : ℕ}
      (hlive : ¬ command.isQuery ∧ attachment = .live)
      (hroom : m.pending.length < manualCommands) (hrefresh : m.refresh s = .ok m₁)
      (form : command.journalForm s.revision = some c)
      (hmove : c.perform s.document = some (move, effects))
      (hasked : m₁.Asked s (s.accept c move effects) request item bytes)
      (hcache : cache.Reflects (s.accept c move effects))
      (hafter : cache.sha256 = request.afterSha256) :
      Executed m s attachment command
        { event := .documentChanged (s.accept c move effects).document
            (s.accept c move effects).revision c.lastOp (some c) command.token
          ingress :=
            { m with
              nextSequence := m.nextSequence + 1
              predecessor := some item.batchId
              bytes := m.bytes + bytes
              pending := m.pending ++ [item]
              cache }
          state := s.accept c move effects
          admitted := some (request, item) }

omit [Rules P] in
theorem admitRequest_eq_ok {encode : Encoder P} {revision : TimelineRevision} {after : CoreState P}
    {request : EncodeRequest P} {item : AcceptedHistory} {bytes nextSequence : ℕ}
    (hrevision : revision = s.revision)
    (h : m.admitRequest encode revision after = .ok (request, item, bytes, nextSequence)) :
    m.Asked s after request item bytes ∧ nextSequence = m.nextSequence + 1 ∧
      ∃ written cursor, m.cache.writeHistory after = some (written, cursor) ∧
        request.afterSha256 = Wire.sha256 P written := by
  unfold admitRequest at h
  obtain ⟨⟨afterSha256, cursorSha256⟩, hidentities, h⟩ := bind_eq_ok.mp h
  obtain ⟨batch, hbatch, h⟩ := bind_eq_ok.mp h
  obtain ⟨item', -, h⟩ := bind_eq_ok.mp h
  obtain ⟨bytes', hbytes, h⟩ := bind_eq_ok.mp h
  obtain ⟨next, hnext, h⟩ := bind_eq_ok.mp h
  obtain ⟨hfits, h⟩ := guard_eq_ok.mp h
  obtain ⟨rfl, rfl, rfl, rfl⟩ : _ ∧ item' = item ∧ bytes' = bytes ∧ next = nextSequence := by
    simpa using Except.ok.inj h
  obtain ⟨hlt, hsucc⟩ := checkedAdd_eq_some.mp (okOr_eq_ok.mp hnext)
  obtain ⟨written, hwrite, hafter⟩ := identities_eq_ok.mp hidentities
  simp only [not_or, not_not, not_lt] at hfits
  exact ⟨⟨rfl, hrevision, rfl, rfl, okOr_eq_ok.mp hbatch, rfl, hfits.1, hbytes, hfits.2, hlt⟩,
    hsucc, written, cursorSha256, hwrite, hafter⟩

/-- A command that is run either leaves everything as it was, or is admitted. -/
theorem executeLive_cases (h : m.cache.Reflects s) (encode : Encoder P) (command : Command P) :
    (∃ event : Event P, event.journaled = none ∧ m.executeLive encode s command
        = { event, ingress := m, state := s, admitted := none }) ∨
      ∃ (cache : HistoryJson) (c : JournalCommand P) (move : HistoryMove P)
        (effects : List (OperationIdentityEffect P)) (request : EncodeRequest P)
        (item : AcceptedHistory) (bytes : ℕ),
        command.journalForm s.revision = some c ∧ c.perform s.document = some (move, effects) ∧
        m.Asked s (s.accept c move effects) request item bytes ∧
        cache.Reflects (s.accept c move effects) ∧ cache.sha256 = request.afterSha256 ∧
        m.executeLive encode s command =
          { event := .documentChanged (s.accept c move effects).document
              (s.accept c move effects).revision c.lastOp (some c) command.token
            ingress :=
              { m with
                nextSequence := m.nextSequence + 1
                predecessor := some item.batchId
                bytes := m.bytes + bytes
                pending := m.pending ++ [item]
                cache }
            state := s.accept c move effects
            admitted := some (request, item) } := by
  have hrevision : (opened s command).revision = s.revision := by
    cases command <;> rfl
  have hdocument : (opened s command).document = s.document := by
    cases command <;> rfl
  have hspec := (opened s command).executeActorCommand_executed .live command
  have hdelta : (begin s command).revision = s.revision := rfl
  obtain ⟨hback, hback'⟩ := rollback_opened s command
  unfold executeLive
  generalize (opened s command).executeActorCommand .live command = result at hspec ⊢
  rcases hspec with ⟨-, hdead⟩ | ⟨-, -, -, -⟩ | ⟨-, -⟩
  · exact absurd rfl hdead
  · rename_i pending
    left
    refine ⟨.undoBlockedBySave pending.offset, rfl, ?_⟩
    simp [Event.journaled, hback]
  · have hspec := (opened s command).executeCommand_executed command
    generalize (opened s command).executeCommand command = result at hspec ⊢
    rcases hspec with ⟨form, hmove⟩ | ⟨-, why⟩
    · rename_i c move effects
      rw [hrevision] at form
      rw [hdocument] at hmove
      have hafter := accept_opened form hmove
      have hrollback := rollback_accept form hmove
      have hprefixes := cachePrefixes_accept form hmove
      dsimp only at hprefixes ⊢
      rw [hafter] at hrollback hprefixes ⊢
      simp only [Event.journaled, reduceCtorEq, if_false]
      generalize (begin s command).cachePrefixes (s.accept c move effects) = pre at hprefixes ⊢
      obtain ⟨⟨hundoLe, hundo⟩, hredoLe, hredo⟩ := hprefixes
      have hkeeps : Keeps s (s.accept c move effects) pre.1 pre.2 :=
        ⟨rfl, rfl, rfl, List.take_left, hundoLe, hundo, hredoLe, hredo⟩
      rcases hupdate : m.cache.update (s.accept c move effects) pre.1 pre.2 with ⟨reply, cache⟩
      obtain ⟨hfailed, hupdated⟩ := h.cached.update hkeeps hupdate
      rcases reply with error | patch
      · left
        rw [hfailed error rfl, hrollback]
        exact ⟨manualRefusal command .manualBackpressure, rfl, rfl⟩
      · obtain ⟨hmatches, hundone, hidentity⟩ := hupdated patch rfl
        rcases hadmitted : admitRequest { m with cache } encode (begin s command).revision
            (s.accept c move effects) with error | ⟨request, item, bytes, nextSequence⟩
        · left
          dsimp only
          rw [hadmitted, hrollback, hundone]
          exact ⟨manualRefusal command (refusalReason error), rfl, rfl⟩
        · right
          obtain ⟨hasked, hnext, written, cursor, hwrite, hsha⟩ := admitRequest_eq_ok hdelta hadmitted
          obtain ⟨h₁, h₂, h₃, h₄, h₅, h₆, h₇, h₈, h₉, h₁₀⟩ := hasked
          refine ⟨{ cache with sha256 := request.afterSha256 }, c, move, effects, request, item,
            bytes, form, hmove, ⟨h₁, h₂, h₃, h₄, h₅, h₆.trans hidentity, h₇, h₈, h₉, h₁₀⟩,
            ⟨?_, written, cursor, hwrite, hsha⟩, rfl, ?_⟩
          · exact ⟨hmatches.epoch, hmatches.header, hmatches.batches, hmatches.undo, hmatches.redo⟩
          · dsimp only
            rw [hadmitted, hnext]
    · left
      refine ⟨_, why.journaled, ?_⟩
      simp [why.journaled, hback']

/-- The specification of `ManualIngress::execute`. -/
theorem execute_executed (hcurrent : m.Current s) (encode : Encoder P)
    (attachment : AttachmentState) (command : Command P) :
    Executed m s attachment command (m.execute encode s attachment command) := by
  unfold execute
  by_cases hpassed : command.isQuery ∨ attachment ≠ .live
  · rw [if_pos hpassed]
    exact .passed hpassed
  · rw [if_neg hpassed]
    have hlive : ¬ command.isQuery ∧ attachment = .live := by
      simpa only [not_or, not_not] using hpassed
    by_cases hfull : m.pending.length ≥ manualCommands
    · rw [if_pos hfull]
      exact .refused hlive rfl (Or.inl rfl)
    · rw [if_neg hfull]
      rcases hrefresh : m.refresh s with error | m₁
      · exact .refused hlive rfl (Or.inl rfl)
      · obtain ⟨hreflects, hsame⟩ := refresh_eq_ok hcurrent hrefresh
        dsimp only
        rcases executeLive_cases hreflects encode command with
          ⟨event, hquiet, heq⟩ |
          ⟨cache, c, move, effects, request, item, bytes, form, hmove, hasked, hcache, hafter, heq⟩
        · rw [heq]
          exact .refused hlive hquiet (Or.inr hrefresh)
        · rw [heq]
          have hadmitted := Executed.admitted hlive (not_le.mp hfull) hrefresh form hmove hasked hcache hafter
          rcases hsame with rfl | ⟨-, cache₁, -, rfl⟩
          · exact hadmitted
          · exact hadmitted

end ManualIngress

end Kinewright.Core
