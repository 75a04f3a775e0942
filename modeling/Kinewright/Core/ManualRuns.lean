import Kinewright.Core.ManualIngress

/-!
# Runs of manual admission

Over any run of commands and acknowledgements, with an encoder that answers as it likes, the cached
byte stream is the whole serialized history; and a command that is not accepted changes nothing but
a cache of another epoch.
-/

namespace Kinewright.Core

variable {P : Payload}

/-- A cleared identity effect is not part of the history. -/
theorem HistoryJson.Reflects.clearIdentityEffects [Wire P] {cache : HistoryJson} {s : CoreState P}
    (h : cache.Reflects s) : cache.Reflects s.clearIdentityEffects :=
  ⟨⟨h.cached.epoch, h.cached.header, h.cached.batches, h.cached.undo, h.cached.redo⟩, h.written⟩

/-- A query, and any command while the attachment is not live, leaves the history alone. -/
theorem CoreState.executeActorCommand_passed [Rules P] (s : CoreState P)
    {attachment : AttachmentState} {command : Command P}
    (h : command.isQuery ∨ attachment ≠ .live) :
    (s.executeActorCommand attachment command).2 = s ∨
      (s.executeActorCommand attachment command).2 = s.clearIdentityEffects := by
  have hspec := s.executeActorCommand_executed attachment command
  generalize s.executeActorCommand attachment command = result at hspec
  rcases hspec with ⟨-, -⟩ | ⟨-, -, -, -⟩ | ⟨hattachment, -⟩
  · exact Or.inl rfl
  · exact Or.inl rfl
  · have hquery : command.isQuery := by
      rcases hattachment with hquery | hlive
      · exact hquery
      · exact h.resolve_right (not_not.mpr hlive)
    have hspec := s.executeCommand_executed command
    generalize s.executeCommand command = result at hspec
    rcases hspec with ⟨form, -⟩ | ⟨-, -⟩
    · rw [Command.journalForm_of_isQuery hquery] at form
      cases form
    · exact Or.inr rfl

namespace ManualIngress

variable [Rules P] [Wire P]

omit [Rules P] in
theorem acknowledgeLoop_frame (presented : List AcceptedHistory) (m : ManualIngress) :
    (acknowledgeLoop P m presented).2.cache = m.cache ∧ (acknowledgeLoop P m presented).2.generation = m.generation ∧
      (acknowledgeLoop P m presented).2.nextSequence = m.nextSequence ∧
      (acknowledgeLoop P m presented).2.predecessor = m.predecessor := by
  induction presented generalizing m with
  | nil => exact ⟨rfl, rfl, rfl, rfl⟩
  | cons head rest ih =>
    rw [acknowledgeLoop]
    rcases m.pending with _ | ⟨item, pending⟩
    · exact ⟨rfl, rfl, rfl, rfl⟩
    · dsimp only
      rcases manualMessageBytes P item with error | bytes
      · exact ⟨rfl, rfl, rfl, rfl⟩
      · exact ih _

omit [Rules P] in
/-- An acknowledgement touches the queue and its size only. -/
theorem acknowledge_frame (m : ManualIngress) (presented : List AcceptedHistory) :
    (m.acknowledge P presented).2.cache = m.cache ∧ (m.acknowledge P presented).2.generation = m.generation ∧
      (m.acknowledge P presented).2.nextSequence = m.nextSequence ∧
      (m.acknowledge P presented).2.predecessor = m.predecessor := by
  unfold acknowledge
  split
  · exact ⟨rfl, rfl, rfl, rfl⟩
  · exact acknowledgeLoop_frame presented m

/-! ## The cache is the history -/

/-- One step of the ingress. -/
inductive Step (P : Payload)
  | execute (encode : Encoder P) (attachment : AttachmentState) (command : Command P)
  | acknowledge (presented : List AcceptedHistory)

/-- The ingress and the state after a step. -/
def step (m : ManualIngress) (s : CoreState P) : Step P → ManualIngress × CoreState P
  | .execute encode attachment command => let admission := m.execute encode s attachment command
    (admission.ingress, admission.state)
  | .acknowledge presented => ((m.acknowledge P presented).2, s)

/-- The ingress and the state after a list of steps. -/
def run (m : ManualIngress) (s : CoreState P) : List (Step P) → ManualIngress × CoreState P
  | [] => (m, s)
  | x :: steps => run (m.step s x).1 (m.step s x).2 steps

variable {m : ManualIngress} {s : CoreState P}

theorem reflects_step (h : m.cache.Reflects s) (x : Step P) : (m.step s x).1.cache.Reflects (m.step s x).2 := by
  rcases x with ⟨encode, attachment, command⟩ | presented
  · have hspec := execute_executed (fun _ => h) encode attachment command
    simp only [step]
    generalize m.execute encode s attachment command = result at hspec
    rcases hspec with ⟨hpassed⟩ | ⟨-, -, hingress⟩ | ⟨-, -, -, -, -, -, hcache, -⟩
    · rcases s.executeActorCommand_passed hpassed with heq | heq
      · rw [heq]
        exact h
      · rw [heq]
        exact h.clearIdentityEffects
    · rcases hingress with rfl | hrefresh
      · exact h
      · exact (refresh_eq_ok (fun _ => h) hrefresh).1
    · exact hcache
  · rw [step, (acknowledge_frame m presented).1]
    exact h

theorem reflects_run (h : m.cache.Reflects s) (steps : List (Step P)) :
    (m.run s steps).1.cache.Reflects (m.run s steps).2 := by
  induction steps generalizing m s with
  | nil => exact h
  | cons x steps ih => exact ih (reflects_step h x)

/-- After any run from any core state, what the cache writes is the serialized history of the state,
its identity is the hash of those bytes, and the cursor's is the hash of the serialized cursor. -/
theorem run_writeHistory {s₀ : CoreState P} {generation : ℕ} {m₀ : ManualIngress}
    (hnew : ManualIngress.new s₀ generation = .ok m₀) (steps : List (Step P)) :
    let m := (m₀.run s₀ steps).1
    let s := (m₀.run s₀ steps).2
    ∃ bytes cursor, m.cache.writeHistory s = some (bytes, cursor) ∧
      snapshotJson s.history = some bytes ∧ m.cache.sha256 = Wire.sha256 P bytes ∧
      (cursorJson s.history.cursor).map (Wire.sha256 P) = some cursor := by
  intro m s
  obtain ⟨cache, hreflects, hm₀⟩ := new_eq_ok hnew
  have hstart : m₀.cache.Reflects s₀ := by
    rw [hm₀]
    exact hreflects
  obtain ⟨hcached, bytes, cursor, hwrite, hsha256⟩ := reflects_run hstart steps
  obtain ⟨hsnapshot, hcursor⟩ := hcached.writeHistory hwrite
  exact ⟨bytes, cursor, hwrite, hsnapshot, hsha256, hcursor⟩

/-! A tally with a wire format: the total as a number, and a digest that counts. -/

instance : Wire tally where
  document doc := some (utf8 (Nat.repr doc.rest))
  gesture doc operations _ := some (utf8 (Nat.repr doc.rest) ++ utf8 (Nat.repr operations.length))
  batch batch := some (utf8 (Nat.repr batch.order))
  message item := some item.envelope
  sha256 bytes := Nat.repr bytes.length

/-- An encoder that numbers its envelopes. -/
def tallyEncoder : Encoder tally := fun request =>
  .ok { sequence := request.sequence, batchId := request.afterSha256, digest := "", envelope := [1] }

/-- The ingress bound to an empty total. -/
def tallyIngress : ManualIngress :=
  match ManualIngress.new (CoreState.new (P := tally) { tracks := [], rest := (0 : ℕ) } 0) 1 with
  | .ok m => m
  | .error _ =>
    { generation := 0, nextSequence := 0, predecessor := none, pending := [], bytes := 0
      cache := { epoch := 0, header := [], batches := .empty, undo := .empty, redo := .empty,
                 sha256 := "" } }

/-- A coalesced edit, a refused one and an undo. -/
theorem run_writeHistory_tally :
    let s₀ : CoreState tally := CoreState.new { tracks := [], rest := (0 : ℕ) } 0
    let result := tallyIngress.run s₀
      [.execute tallyEncoder .live (.doBatchCoalesced [.other 5] "drag"),
        .execute (fun _ => .error .capacity) .live (.do_ (.other 1)),
        .execute tallyEncoder .live .undo]
    ∃ bytes cursor, result.1.cache.writeHistory result.2 = some (bytes, cursor) ∧
      snapshotJson result.2.history = some bytes ∧
      result.1.cache.sha256 = Wire.sha256 tally bytes ∧
      (cursorJson result.2.history.cursor).map (Wire.sha256 tally) = some cursor :=
  run_writeHistory (show ManualIngress.new _ 1 = .ok tallyIngress from rfl) _

/-! ## A refused command changes nothing -/

/-- An ingress with the state it may be asked to execute on: bound to it, moved by executions and
acknowledgements, or left behind when the state is replaced, which takes a new epoch. -/
inductive Bound : ManualIngress → CoreState P → Prop
  | bind {s : CoreState P} {generation : ℕ} {m : ManualIngress}
      (hnew : ManualIngress.new s generation = .ok m) : Bound m s
  | step {m : ManualIngress} {s : CoreState P} (h : Bound m s) (x : Step P) : Bound (m.step s x).1 (m.step s x).2
  | replace {m : ManualIngress} {s s' : CoreState P} (h : Bound m s)
      (hepoch : m.cache.epoch ≠ s'.historyEpoch) : Bound m s'

theorem current_step (h : m.Current s) (x : Step P) : (m.step s x).1.Current (m.step s x).2 := by
  rcases x with ⟨encode, attachment, command⟩ | presented
  · have hspec := execute_executed h encode attachment command
    simp only [step]
    generalize m.execute encode s attachment command = result at hspec
    rcases hspec with ⟨hpassed⟩ | ⟨-, -, hingress⟩ | ⟨-, -, -, -, -, -, hcache, -⟩
    · rcases s.executeActorCommand_passed hpassed with heq | heq
      · rw [heq]
        exact h
      · rw [heq]
        exact fun hepoch => (h hepoch).clearIdentityEffects
    · rcases hingress with rfl | hrefresh
      · exact h
      · exact fun _ => (refresh_eq_ok h hrefresh).1
    · exact fun _ => hcache
  · rw [step, Current, (acknowledge_frame m presented).1]
    exact h

theorem Bound.current (h : Bound m s) : m.Current s := by
  induction h with
  | bind hnew =>
    obtain ⟨cache, hreflects, rfl⟩ := new_eq_ok hnew
    exact fun _ => hreflects
  | step h x ih => exact current_step ih x
  | replace h hepoch ih => exact fun heq => absurd heq hepoch

/-- A command whose event is not an accepted change leaves the whole state and the whole ingress as
they were, but for a cache of another epoch, which is rebuilt for the state. -/
theorem execute_atomic {m : ManualIngress} {s : CoreState P} (h : Bound m s) (encode : Encoder P)
    {command : Command P} (hcommand : command.isQuery = false)
    (hquiet : (m.execute encode s .live command).event.journaled = none) :
    (m.execute encode s .live command).state = s ∧ ((m.execute encode s .live command).ingress = m ∨
        m.cache.epoch ≠ s.historyEpoch ∧ ∃ cache, HistoryJson.new s = .ok cache ∧ cache.Reflects s ∧
            (m.execute encode s .live command).ingress = { m with cache }) := by
  have hspec := execute_executed h.current encode .live command
  generalize m.execute encode s .live command = result at hspec hquiet ⊢
  rcases hspec with ⟨hpassed⟩ | ⟨-, -, hingress⟩ | ⟨-, -, -, -, -, -, -, -⟩
  · rw [hcommand] at hpassed
    exact absurd rfl (hpassed.resolve_left Bool.false_ne_true)
  · refine ⟨rfl, ?_⟩
    rcases hingress with hsame | hrefresh
    · exact Or.inl hsame
    · rcases (refresh_eq_ok h.current hrefresh).2 with hsame | ⟨hepoch, cache, hcache, heq⟩
      · exact Or.inl hsame
      · exact Or.inr ⟨hepoch, cache, hcache, HistoryJson.new_reflects hcache, heq⟩
  · cases hquiet

/-- The encoder refuses a coalesced edit: the total and the queue are untouched. -/
theorem execute_atomic_tally :
    let s : CoreState tally := CoreState.new { tracks := [], rest := (0 : ℕ) } 0
    let refused := tallyIngress.execute (fun _ => .error .capacity) s .live
      (.doBatchCoalesced [.other 5] "drag")
    refused.state = s ∧ (refused.ingress = tallyIngress ∨ tallyIngress.cache.epoch ≠ s.historyEpoch ∧
        ∃ cache, HistoryJson.new s = .ok cache ∧ cache.Reflects s ∧
          refused.ingress = { tallyIngress with cache }) :=
  execute_atomic (.bind (show ManualIngress.new _ 1 = .ok tallyIngress from rfl)) _ rfl (by decide)

end ManualIngress

end Kinewright.Core
