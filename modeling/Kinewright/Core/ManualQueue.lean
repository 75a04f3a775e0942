import Kinewright.Core.ChangeId
import Mathlib.Data.List.Chain

/-!
# The manual queue

The accepted items of a manual generation form a chain: each one is numbered after the one before it,
names it as its predecessor and starts from the hash that it ended with. The queue holds the part of
the chain that is not acknowledged yet. A ledger that remembers the whole chain, and what has been
acknowledged of it, says so for every run of the actor.
-/

namespace Kinewright.Core

open Trace List ManualIngress

variable {P : Payload}

/-- What a run has accepted and acknowledged since the current producer was bound. -/
structure Ledger (P : Payload) where
  admitted : List (EncodeRequest P × AcceptedHistory)
  acknowledged : List AcceptedHistory

/-- The ledger after a turn. -/
def Ledger.record [Rules P] (l : Ledger P) (message : CoreMessage P) (turn : Turn P) : Ledger P :=
  match message, turn.reply with
  | .bindManual .., .generation (.ok _) => { admitted := [], acknowledged := [] }
  | .manualAck _ _ presented, .done (.ok ()) =>
    { l with acknowledged := l.acknowledged ++ presented }
  | _, _ => { l with admitted := l.admitted ++ turn.admitted.toList }

/-- An accepted item and the one accepted after it. -/
def Linked (x y : EncodeRequest P × AcceptedHistory) : Prop :=
  y.1.predecessor = some x.2.batchId ∧ y.1.beforeSha256 = x.1.afterSha256

namespace ManualIngress

variable [Wire P]

/-- The items of the queue have these encoded sizes. -/
def Sized (P : Payload) [Wire P] (pending : List AcceptedHistory) (sizes : List ℕ) : Prop :=
  List.Forall₂ (fun item size => manualMessageBytes P item = .ok size) pending sizes

/-- The ingress holds what the ledger has admitted and not yet acknowledged. -/
structure Follows (m : ManualIngress) (l : Ledger P) : Prop where
  room : m.pending.length ≤ manualCommands
  sized : ∃ sizes, Sized P m.pending sizes ∧ m.bytes = sizes.sum
  fits : m.bytes ≤ manualBytes
  kept : l.acknowledged ++ m.pending = l.admitted.map Prod.snd
  numbered : ∀ k x, l.admitted[k]? = some x → x.1.sequence = k + 1 ∧ x.2.sequence = k + 1
  next : m.nextSequence = l.admitted.length + 1
  linked : l.admitted.IsChain Linked
  first : ∀ x ∈ l.admitted.head?, x.1.predecessor = none
  predecessor : m.predecessor = l.admitted.getLast?.map fun x => x.2.batchId
  sha256 : ∀ x ∈ l.admitted.getLast?, m.cache.sha256 = x.1.afterSha256

/-! ## Acknowledgements -/

variable {presented : List AcceptedHistory}

theorem zip_all_eq_iff {pending : List AcceptedHistory} :
    (presented.length ≤ pending.length ∧ (presented.zip pending).all fun (a, b) => a = b) ↔ presented <+: pending := by
  induction presented generalizing pending with
  | nil => simp
  | cons head presented ih =>
    rcases pending with _ | ⟨item, pending⟩
    · simp
    · rw [cons_prefix_cons, ← ih]
      simp only [length_cons, zip_cons_cons, all_cons, Bool.and_eq_true, decide_eq_true_eq, Nat.add_le_add_iff_right]
      exact ⟨fun ⟨hle, heq, hall⟩ => ⟨heq, hle, hall⟩, fun ⟨heq, hle, hall⟩ => ⟨hle, heq, hall⟩⟩

variable {m : ManualIngress}

/-- The loop takes the presented front, with the bytes of its items. -/
theorem acknowledgeLoop_eq {sizes : List ℕ} (hfront : presented <+: m.pending)
    (hsized : Sized P m.pending sizes) (hbytes : m.bytes = sizes.sum) :
    acknowledgeLoop P m presented =
      (.ok (), { m with
        pending := m.pending.drop presented.length
        bytes := (sizes.drop presented.length).sum }) := by
  induction presented generalizing m sizes with
  | nil =>
    rw [acknowledgeLoop, length_nil, drop_zero, drop_zero, ← hbytes]
  | cons head presented ih =>
    rcases hpending : m.pending with _ | ⟨item, pending⟩
    · rw [hpending] at hfront
      exact absurd hfront (by simp)
    · rw [hpending] at hfront hsized
      obtain ⟨size, sizes', hitem, hrest, rfl⟩ := forall₂_cons_left_iff.mp hsized
      rw [sum_cons] at hbytes
      have hleft : m.bytes - size = sizes'.sum := by omega
      rw [acknowledgeLoop, hpending]
      dsimp only
      rw [hitem]
      dsimp only
      rw [ih (m := { m with pending, bytes := m.bytes - size }) (cons_prefix_cons.mp hfront).2 hrest hleft]
      rfl

/-- An acknowledgement of the exact front removes it; of anything else, changes nothing. -/
theorem acknowledge_eq {sizes : List ℕ} (hsized : Sized P m.pending sizes) (hbytes : m.bytes = sizes.sum) :
    m.acknowledge P presented = if presented <+: m.pending then
        (.ok (), { m with
          pending := m.pending.drop presented.length
          bytes := (sizes.drop presented.length).sum })
      else (.error .barrierInvariant, m) := by
  unfold acknowledge
  by_cases hfront : presented <+: m.pending
  · obtain ⟨hle, hall⟩ := zip_all_eq_iff.mpr hfront
    rw [if_pos hfront, if_neg (by rw [not_or, not_not]; exact ⟨by omega, hall⟩)]
    exact acknowledgeLoop_eq hfront hsized hbytes
  · rw [if_neg hfront, if_pos]
    by_contra hbad
    rw [not_or, not_not] at hbad
    exact hfront (zip_all_eq_iff.mp ⟨not_lt.mp hbad.1, hbad.2⟩)

/-- The bytes that an acknowledgement leaves fit as well. -/
theorem sum_drop_le (sizes : List ℕ) (n : ℕ) : (sizes.drop n).sum ≤ sizes.sum := by
  have hsum : (sizes.take n).sum + (sizes.drop n).sum = sizes.sum := by
    rw [← sum_append, take_append_drop]
  omega

variable {l : Ledger P}

theorem Follows.acknowledge (h : m.Follows l) (hfront : presented <+: m.pending) :
    (m.acknowledge P presented).1 = .ok () ∧ (m.acknowledge P presented).2.pending = m.pending.drop presented.length ∧
      (m.acknowledge P presented).2.Follows { l with acknowledged := l.acknowledged ++ presented } := by
  obtain ⟨sizes, hsized, hbytes⟩ := h.sized
  rw [acknowledge_eq hsized hbytes, if_pos hfront]
  have hfit : sizes.sum ≤ manualBytes := hbytes ▸ h.fits
  refine ⟨rfl, rfl, ?_, ⟨_, ?_, rfl⟩, (sum_drop_le sizes _).trans hfit, ?_, h.numbered, h.next,
    h.linked, h.first, h.predecessor, h.sha256⟩
  · have hroom := h.room
    show (m.pending.drop presented.length).length ≤ manualCommands
    rw [length_drop]
    omega
  · exact forall₂_drop _ hsized
  · obtain ⟨rest, hrest⟩ := hfront
    rw [← h.kept, ← hrest, drop_left, append_assoc]

theorem Follows.acknowledge_refused (h : m.Follows l) (hfront : ¬ presented <+: m.pending) :
    m.acknowledge P presented = (.error .barrierInvariant, m) := by
  obtain ⟨sizes, hsized, hbytes⟩ := h.sized
  rw [acknowledge_eq hsized hbytes, if_neg hfront]

/-! ## Admissions -/

/-- A new ingress follows the empty ledger. -/
theorem follows_new {s : CoreState P} {generation : ℕ} (h : ManualIngress.new s generation = .ok m) :
    m.Follows ({ admitted := [], acknowledged := [] } : Ledger P) := by
  obtain ⟨cache, -, rfl⟩ := new_eq_ok h
  exact ⟨Nat.zero_le _, ⟨[], .nil, rfl⟩, Nat.zero_le _, rfl, by simp, rfl, .nil, by simp, rfl, by simp⟩

/-- An admitted item is the next of the chain. -/
theorem Follows.admitRequest (h : m.Follows l) (hroom : m.pending.length < manualCommands)
    {s after : CoreState P} {request : EncodeRequest P} {item : AcceptedHistory} {bytes : ℕ}
    (hasked : m.Asked s after request item bytes) {cache : HistoryJson}
    (hafter : cache.sha256 = request.afterSha256) :
    ManualIngress.Follows
      { m with
        nextSequence := m.nextSequence + 1
        predecessor := some item.batchId
        bytes := m.bytes + bytes
        pending := m.pending ++ [item]
        cache }
      { l with admitted := l.admitted ++ [(request, item)] } := by
  obtain ⟨sizes, hsized, hbytes⟩ := h.sized
  have hfits := h.fits
  have hbudget := hasked.fits
  have hnext := h.next
  refine ⟨?_, ⟨sizes ++ [bytes], ?_, ?_⟩, ?_, ?_, ?_, ?_, ?_, ?_, ?_, ?_⟩
  · show (m.pending ++ [item]).length ≤ manualCommands
    rw [length_append, length_singleton]
    omega
  · exact rel_append hsized (.cons hasked.item_bytes .nil)
  · rw [sum_append, sum_singleton, ← hbytes]
  · show m.bytes + bytes ≤ manualBytes
    omega
  · rw [map_append, ← h.kept, append_assoc]
    rfl
  · intro k x hx
    rcases lt_or_ge k l.admitted.length with hlt | hge
    · rw [getElem?_append_left hlt] at hx
      exact h.numbered k x hx
    · rw [getElem?_append_right hge, getElem?_singleton] at hx
      by_cases hk : k - l.admitted.length = 0
      · rw [if_pos hk, Option.some.injEq] at hx
        subst hx
        have hlast : k = l.admitted.length := by omega
        rw [hasked.sequence, hasked.item_sequence, hnext, hlast]
        exact ⟨rfl, rfl⟩
      · rw [if_neg hk] at hx
        cases hx
  · show m.nextSequence + 1 = (l.admitted ++ [(request, item)]).length + 1
    rw [length_append, length_singleton, hnext]
  · rw [isChain_append]
    refine ⟨h.linked, .singleton _, ?_⟩
    intro x hx y hy
    obtain rfl : (request, item) = y := by simpa using hy
    refine ⟨?_, hasked.beforeSha256.trans (h.sha256 x hx)⟩
    rw [hasked.predecessor, h.predecessor, Option.mem_def.mp hx]
    rfl
  · intro x hx
    rcases hadmitted : l.admitted with _ | ⟨y, rest⟩
    · obtain rfl : (request, item) = x := by simpa [hadmitted] using hx
      rw [hasked.predecessor, h.predecessor, hadmitted]
      rfl
    · refine h.first x ?_
      rw [hadmitted] at hx ⊢
      exact hx
  · rw [getLast?_concat]
    rfl
  · intro x hx
    rw [getLast?_concat, Option.mem_some_iff] at hx
    rw [← hx]
    exact hafter

/-- One call of `execute` appends what it admits. -/
theorem Follows.execute [Rules P] (h : m.Follows l) {s : CoreState P}
    (hreflects : m.cache.Reflects s) (encode : Encoder P) (attachment : AttachmentState)
    (command : Command P) :
    (m.execute encode s attachment command).ingress.Follows
      { l with
        admitted := l.admitted ++ (m.execute encode s attachment command).admitted.toList } := by
  have hsame : m.refresh s = .ok m := by
    rw [refresh, if_neg (not_not.mpr hreflects.cached.epoch)]
  have hspec := execute_executed (fun _ => hreflects) encode attachment command
  generalize m.execute encode s attachment command = result at hspec
  have hquiet : m.Follows { l with admitted := l.admitted ++ [] } := by
    rw [append_nil]
    exact h
  rcases hspec with ⟨-⟩ | ⟨-, -, hingress⟩ | ⟨-, hroom, hrefresh, -, -, hasked, -, hafter⟩
  · exact hquiet
  · rcases hingress with rfl | hrefresh
    · exact hquiet
    · obtain rfl := Except.ok.inj (hsame.symm.trans hrefresh)
      exact hquiet
  · obtain rfl := Except.ok.inj (hsame.symm.trans hrefresh)
    exact h.admitRequest hroom hasked hafter

end ManualIngress

/-! ## Runs of the actor -/

/-- The messages that touch a bound ingress. -/
def CoreMessage.IsManual [Rules P] : CoreMessage P → Prop
  | .bindManual .. | .manualAck .. | .manualCommand .. => True
  | _ => False

namespace ActorState

variable [Rules P] [Wire P]

/-- A turn with the ledger that records it. -/
def observe (x : ActorState P × Ledger P) (message : CoreMessage P) : ActorState P × Ledger P :=
  ((x.1.turn message).actor, x.2.record message (x.1.turn message))

/-- The actor and its ledger after the first `k` messages. -/
def observed (a : ActorState P) (messages : List (CoreMessage P)) (k : ℕ) : ActorState P × Ledger P :=
  trace observe (a, { admitted := [], acknowledged := [] }) messages k

theorem observed_fst (a : ActorState P) (messages : List (CoreMessage P)) (k : ℕ) :
    (a.observed messages k).1 = a.after messages k := by
  induction k with
  | zero => rfl
  | succ k ih =>
    rw [observed, after] at ih ⊢
    rcases hmessage : messages[k]? with _ | message
    · rw [trace_succ_of_none hmessage, trace_succ_of_none hmessage, ih]
    · rw [trace_succ hmessage, trace_succ hmessage, ← ih]
      rfl

omit [Rules P] [Wire P] in
theorem record_nothing (l : Ledger P) : { l with admitted := l.admitted ++ [] } = l := by
  rw [append_nil]

omit [Rules P] [Wire P] in
theorem answer_admitted {α : Type} (a : ActorState P) (reply : Except HistoryError α → Reply P)
    (result : Except HistoryError (α × ActorState P)) : (a.answer reply result).admitted = none := by
  rcases result with error | ⟨value, a'⟩
  · rfl
  · rfl

variable {message : CoreMessage P}

omit [Wire P] in
theorem record_other (h : ¬ message.IsManual) (l : Ledger P) (t : Turn P) :
    l.record message t = { l with admitted := l.admitted ++ t.admitted.toList } := by
  cases message <;> first | rfl | exact (h trivial).elim

variable {a : ActorState P}

theorem admitted_other (h : ¬ message.IsManual) : (a.turn message).admitted = none := by
  cases message <;> first | rfl | exact (h trivial).elim | exact answer_admitted _ _ _

/-- Other messages record nothing, and they leave the ingress alone or remove it. -/
theorem turn_other (h : ¬ message.IsManual) (l : Ledger P) : l.record message (a.turn message) = l ∧
      ((a.turn message).actor.manual = a.manual ∨ (a.turn message).actor.manual = none) := by
  constructor
  · rw [record_other h, admitted_other h]
    exact record_nothing l
  · have hturned := a.turn_turned message
    generalize (a.turn message).actor = a' at hturned
    rcases hturned with _ | ⟨rfl, -⟩ | ⟨rfl, -⟩ | ⟨rfl, -⟩ | _ | _ | _ | _ | _ | _ | _
    · exact Or.inl rfl
    · exact (h trivial).elim
    · exact (h trivial).elim
    · exact (h trivial).elim
    · exact Or.inl rfl
    · exact Or.inl rfl
    · exact Or.inl rfl
    · exact Or.inl rfl
    · exact Or.inr rfl
    · exact Or.inl rfl
    · exact Or.inl rfl

omit [Rules P] in
/-- An acknowledgement by the owner, for the bound generation, of the exact front of the queue takes
that front. Any other acknowledgement changes nothing at all. -/
theorem manualAck_cases {m : ManualIngress} {l : Ledger P} (hmanual : a.manual = some m)
    (hfollows : m.Follows l) (requested : OwnerId) (generation : ℕ)
    (presented : List AcceptedHistory) :
    (a.owner = some requested ∧ generation = m.generation ∧ presented <+: m.pending ∧
      a.manualAck requested generation presented = (.ok (), { a with manual := some (m.acknowledge P presented).2 })) ∨
    (¬ (a.owner = some requested ∧ generation = m.generation ∧ presented <+: m.pending) ∧
      a.manualAck requested generation presented = (.error .barrierInvariant, a)) := by
  unfold manualAck
  by_cases hgeneration : generation = m.generation
  · rw [permitted_eq_some.mpr ⟨hmanual, hgeneration⟩]
    dsimp only
    by_cases howner : a.owner = some requested
    · rw [if_neg (not_not.mpr howner)]
      by_cases hfront : presented <+: m.pending
      · left
        refine ⟨howner, hgeneration, hfront, ?_⟩
        rw [(hfollows.acknowledge hfront).1]
      · right
        refine ⟨fun h => hfront h.2.2, ?_⟩
        rw [hfollows.acknowledge_refused hfront, ← hmanual]
    · rw [if_pos howner]
      exact Or.inr ⟨fun h => howner h.1, rfl⟩
  · right
    refine ⟨fun h => hgeneration h.2.1, ?_⟩
    rcases hpermitted : a.permitted generation with _ | m'
    · rfl
    · obtain ⟨hmanual', hgeneration'⟩ := permitted_eq_some.mp hpermitted
      rw [hmanual, Option.some.injEq] at hmanual'
      subst hmanual'
      exact absurd hgeneration' hgeneration

/-- What every run keeps: the cache of a bound producer is current, and its queue follows the
ledger. -/
def QueueFollows (x : ActorState P × Ledger P) : Prop := x.1.ManualCurrent ∧ ∀ m ∈ x.1.manual, m.Follows x.2

theorem QueueFollows.observe {x : ActorState P × Ledger P} (h : QueueFollows x)
    (message : CoreMessage P) : QueueFollows (observe x message) := by
  obtain ⟨hcurrent, hfollows⟩ := h
  refine ⟨hcurrent.turn message, ?_⟩
  rcases x with ⟨a, l⟩
  have hquiet : ∀ m : ManualIngress, m.Follows l →
      m.Follows { l with admitted := l.admitted ++ [] } := by
    intro m hm
    rw [record_nothing]
    exact hm
  by_cases hmanual : message.IsManual
  · rcases message with ⟨requested, recovery⟩ | _ | ⟨requested, generation, presented⟩ |
      ⟨generation, encode, command⟩ | _ | _ | _ | _ | _ | _ | _ | _ | _ | _ | _ | _ | _ | _ | _ | _
    case bindManual =>
      intro m hm
      rw [ActorState.observe, turn] at hm ⊢
      rcases hresult : a.bindManual requested recovery with error | ⟨generation, a'⟩
      · rw [hresult] at hm
        exact hquiet m (hfollows m hm)
      · rw [hresult] at hm
        obtain ⟨-, -, -, -, ingress, hnew, rfl⟩ := bindManual_eq_ok hresult
        obtain rfl := Option.some.inj hm
        exact ManualIngress.follows_new hnew
    case manualAck =>
      intro m hm
      rcases hbound : a.manual with _ | m₀
      · have hnone : a.manualAck requested generation presented
            = (.error .barrierInvariant, a) := by
          unfold manualAck permitted
          rw [hbound]
          rfl
        rw [ActorState.observe, turn, hnone] at hm
        rw [show a.manual = some m from hm] at hbound
        cases hbound
      · rcases manualAck_cases hbound (hfollows m₀ hbound) requested generation presented with
          ⟨-, -, hfront, hack⟩ | ⟨-, hack⟩
        · rw [ActorState.observe, turn, hack] at hm ⊢
          obtain rfl := Option.some.inj hm
          exact ((hfollows m₀ hbound).acknowledge hfront).2.2
        · rw [ActorState.observe, turn, hack] at hm ⊢
          exact hquiet m (hfollows m hm)
    case manualCommand =>
      intro m hm
      rw [ActorState.observe, turn, manualCommand] at hm ⊢
      rcases hpermitted : a.permitted generation with _ | m₀
      · rw [hpermitted] at hm
        exact hquiet m (hfollows m hm)
      · rw [hpermitted] at hm
        obtain rfl := Option.some.inj hm
        obtain ⟨hbound, -⟩ := permitted_eq_some.mp hpermitted
        exact (hfollows m₀ hbound).execute (hcurrent m₀ hbound).1 encode a.attachment command
    all_goals exact hmanual.elim
  · obtain ⟨hrecord, hkept⟩ := turn_other (a := a) hmanual l
    intro m hm
    rw [ActorState.observe, hrecord]
    rcases hkept with heq | hnone
    · exact hfollows m (heq ▸ hm)
    · rw [ActorState.observe, hnone] at hm
      cases hm

/-- An ingress leaves with nothing in its queue, or with its whole queue presented to an install. -/
theorem ingress_leaves {m : ManualIngress} (hmanual : a.manual = some m) (message : CoreMessage P) :
    (∀ requested recovery, message = .bindManual requested recovery →
      (a.turn message).actor.manual = a.manual ∨ m.pending = []) ∧
      ((a.turn message).actor.manual = none → ∃ requested cut after checkpoint,
        message = .installFrozen requested cut after m.pending checkpoint) := by
  have hturned := a.turn_turned message
  generalize (a.turn message).actor = a' at hturned
  refine ⟨fun requested recovery hbind => ?_, fun hnone => ?_⟩
  · subst hbind
    generalize hmessage : CoreMessage.bindManual requested recovery = message at hturned
    rcases hturned with _ | ⟨-, -, -, hdrained, -⟩ | ⟨rfl, -⟩ | ⟨rfl, -⟩ | _ | _ | _ | _ | ⟨rfl, -⟩ | _ | _
    · exact Or.inl rfl
    · exact Or.inr (hdrained m hmanual)
    · cases hmessage
    · cases hmessage
    · exact Or.inl rfl
    · exact Or.inl rfl
    · exact Or.inl rfl
    · exact Or.inl rfl
    · cases hmessage
    · exact Or.inl rfl
    · exact Or.inl rfl
  · rcases hturned with _ | _ | _ | _ | _ | _ | _ | _ | ⟨hmessage, -, -, hpending, -⟩ | _ | _
    case installed =>
      rw [← hpending m hmanual] at hmessage
      exact ⟨_, _, _, _, hmessage⟩
    case bound => cases hnone
    case acknowledged => cases hnone
    case manual => cases hnone
    all_goals
      rw [show a.manual = none from hnone] at hmanual
      cases hmanual

def tallyStart : ActorState tally := spawn 1 { tracks := [], rest := (0 : ℕ) } 0

def tallyMessages : List (CoreMessage tally) :=
  [.bindOwner 7, .bindManual 7 none, .manualCommand 1 tallyEncoder (.do_ (.other 5)),
    .manualCommand 1 tallyEncoder .undo]

def tallyBound : ManualIngress := (tallyStart.after tallyMessages 4).manual.getD tallyIngress

end ActorState

end Kinewright.Core
