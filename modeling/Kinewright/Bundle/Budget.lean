import Mathlib.Algebra.BigOperators.Group.Multiset.Basic
import Kinewright.Bundle.Errors
import Kinewright.Core.History
import Kinewright.Lib.Runs

/-!
# The storage ledger

`storage_budget.rs`: reservations charge the counters of a usage ledger while they are held. A charge is taken off when its
reservation is dropped, becomes a physical one when it is sealed, and stays when it is retained; what a reservation holds is
left out, for no charge depends on it. The lock of the ledger makes each call a step, and no call panics inside of it.
-/

namespace Kinewright.Storage

open Fallible Bundle Multiset
open Core (checkedAdd checkedSub checkedAdd_eq_some)

/-- `StorageLimits`, of which only the limits of reservations are kept. -/
structure StorageLimits where
  liveHistoryBytes : ℕ
  decodedRecordBytes : ℕ
  metadataBytes : ℕ
  decoderBytes : ℕ
  ownedBytes : ℕ
  copyOverlapBytes : ℕ

/-- `StorageUsage`, of which only what reservations read or change is kept. -/
structure StorageUsage where
  physicalBytes : ℕ
  metadataBytes : ℕ
  copyBytes : ℕ
  reservedBytes : ℕ
  reservedCopyBytes : ℕ
  decodedBytes : ℕ
  decoderBytes : ℕ
  liveHistoryBytes : ℕ
  peakPhysicalBytes : ℕ
  peakReservedBytes : ℕ
  peakDecodedBytes : ℕ
  peakDecoderBytes : ℕ
  peakLiveHistoryBytes : ℕ
  damagedAccounting : Bool
  unsettled : Bool

inductive ReservationKind
  | record
  | transientDecoder
deriving DecidableEq

/-- `StorageReservation`. What it charges for codecs is part of what it charges for decoding. -/
structure StorageReservation where
  bytes : ℕ
  decoded : ℕ
  decoder : ℕ
  history : ℕ
  copy : Bool
  active : Bool
  decoder_le : decoder ≤ decoded
deriving DecidableEq

/-! ## Reserving -/

/-- `reserve_kind`. -/
def reserveKind (usage : StorageUsage) (limits : StorageLimits) (bytes decoded history : ℕ) (copy : Bool) (free : ℕ)
    (cleanupOnly : Bool) (kind : ReservationKind) : Except BundleError (StorageReservation × StorageUsage) := do
  refuse (usage.unsettled ∧ ¬ cleanupOnly) .unsettled
  refuse usage.damagedAccounting (.capacity "accounting damaged")
  let physical ← okOr (.capacity "physical overflow")
    ((checkedAdd usage.physicalBytes usage.reservedBytes).bind fun v => checkedAdd v bytes)
  let allowance ← okOr (.capacity "overlap overflow")
    (((checkedAdd limits.ownedBytes limits.metadataBytes).bind fun n => checkedAdd n limits.copyOverlapBytes).bind fun n =>
      checkedAdd n limits.metadataBytes)
  let reserved ← okOr (.capacity "reservation overflow") (checkedAdd usage.reservedBytes bytes)
  let decodedTotal ← okOr (.capacity "decoded overflow") (checkedAdd usage.decodedBytes decoded)
  let codecCharge := if kind = .transientDecoder then decoded else 0
  let codecTotal ← okOr (.capacity "decoder overflow") (checkedAdd usage.decoderBytes codecCharge)
  let metadataDecoded ← okOr (.capacity "decoder subset exceeds decoded bytes") (checkedSub decodedTotal codecTotal)
  let historyTotal ← okOr (.capacity "history overflow") (checkedAdd usage.liveHistoryBytes history)
  refuse (kind = .record ∧ free < reserved) (.capacity "disk reserve")
  refuse (allowance < physical) (.capacity "physical overlap bytes")
  refuse (kind = .record ∧ limits.decodedRecordBytes < decoded) (.capacity "decoded record bytes")
  refuse ((checkedAdd usage.metadataBytes metadataDecoded).all fun n => decide (limits.metadataBytes < n))
    (.capacity "metadata and decoded bytes")
  refuse (limits.decoderBytes < codecTotal) (.capacity "decoder bytes")
  refuse (limits.liveHistoryBytes < historyTotal) (.capacity "live history bytes")
  refuse (¬ copy ∧ ((checkedSub usage.physicalBytes usage.copyBytes).bind fun v => checkedAdd v reserved).all fun v =>
    decide ((checkedAdd limits.ownedBytes limits.metadataBytes).getD 0 < v)) (.capacity "owned media allowance")
  let reservedCopies ← okOr (.capacity "copy reserve overflow")
    (checkedAdd usage.reservedCopyBytes (if copy then bytes else 0))
  refuse ((checkedAdd usage.copyBytes reservedCopies).all fun v =>
    decide ((checkedAdd limits.copyOverlapBytes limits.metadataBytes).getD 0 < v)) (.capacity "copy overlap")
  return (
    { bytes, decoded, decoder := codecCharge, history, copy, active := true
      decoder_le := by dsimp only [codecCharge]; split <;> omega },
    { usage with
      reservedBytes := reserved
      reservedCopyBytes := reservedCopies
      decodedBytes := decodedTotal
      decoderBytes := codecTotal
      liveHistoryBytes := historyTotal
      peakLiveHistoryBytes := max usage.peakLiveHistoryBytes historyTotal
      peakReservedBytes := max usage.peakReservedBytes reserved
      peakDecodedBytes := max usage.peakDecodedBytes decodedTotal
      peakDecoderBytes := max usage.peakDecoderBytes codecTotal })

/-- `reserve_for_retained_read`. -/
def reserveForRetainedRead (usage : StorageUsage) (limits : StorageLimits) (bytes decoded history : ℕ) (copy : Bool)
    (free : ℕ) (cleanupOnly : Bool) : Except BundleError (StorageReservation × StorageUsage) :=
  reserveKind usage limits bytes decoded history copy free cleanupOnly .record

/-- `reserve`. -/
def reserve (usage : StorageUsage) (limits : StorageLimits) (bytes decoded history : ℕ) (copy : Bool) (free : ℕ) :
    Except BundleError (StorageReservation × StorageUsage) :=
  reserveForRetainedRead usage limits bytes decoded history copy free false

/-- `reserve_decoder`. -/
def reserveDecoder (usage : StorageUsage) (limits : StorageLimits) (decoded free : ℕ) :
    Except BundleError (StorageReservation × StorageUsage) :=
  reserveKind usage limits 0 decoded 0 false free true .transientDecoder

namespace StorageReservation

/-- `reserve_copy_growth`. -/
def reserveCopyGrowth (r : StorageReservation) (usage : StorageUsage) (targetBytes : ℕ) (limits : StorageLimits)
    (free : ℕ) : Except BundleError (StorageReservation × StorageUsage) := do
  refuse (¬ r.active ∨ ¬ r.copy ∨ r.decoded ≠ 0 ∨ r.history ≠ 0)
    (.capacity "snapshot overlap reservation is not active")
  reserveForRetainedRead usage limits (targetBytes - r.bytes) 0 0 true free true

/-! ## Handing over -/

/-- What is left of a reservation whose charge another value answers for. -/
def disarmed (r : StorageReservation) : StorageReservation := { r with active := false }

/-- `absorb_copy_growth`: the grown reservation, and what is left of the extension. -/
def absorbCopyGrowth (r extension : StorageReservation) : Except BundleError (StorageReservation × StorageReservation) := do
  refuse (¬ r.active ∨ ¬ extension.active ∨ ¬ r.copy ∨ ¬ extension.copy ∨ r.decoded ≠ 0 ∨ extension.decoded ≠ 0 ∨
    r.history ≠ 0 ∨ extension.history ≠ 0) (.capacity "snapshot overlap extension owner differs")
  let bytes ← okOr (.capacity "snapshot overlap growth overflow") (checkedAdd r.bytes extension.bytes)
  return ({ r with bytes }, extension.disarmed)

/-- `retain_charge`. -/
def retainCharge (r : StorageReservation) : StorageReservation := r.disarmed

/-- `hold`: the holding reservation, and what is left of the first one. -/
def hold (r : StorageReservation) : StorageReservation × StorageReservation := (r, r.disarmed)

/-- `map`, of a transformation that returns. -/
def map (r : StorageReservation) : StorageReservation × StorageReservation := (r, r.disarmed)

/-- `seal`: the ledger, and what is left of the reservation. -/
def sealAs (r : StorageReservation) (usage : StorageUsage) (measured : ℕ) :
    Except BundleError (StorageReservation × StorageUsage) := do
  refuse (r.decoded ≠ 0 ∨ r.history ≠ 0) (.capacity "a live decode reservation cannot be sealed as physical storage")
  refuse (r.bytes < measured) (.capacity "stream exceeded reservation")
  let physical ← okOr (.capacity "seal overflow") (checkedAdd usage.physicalBytes measured)
  let reserved ← okOr (.capacity "reservation underflow") (checkedSub usage.reservedBytes r.bytes)
  let copies ← okOr (.capacity "copy seal overflow") (checkedAdd usage.copyBytes (if r.copy then measured else 0))
  let reservedCopies ← okOr (.capacity "copy reservation underflow")
    (checkedSub usage.reservedCopyBytes (if r.copy then r.bytes else 0))
  let decoded ← okOr (.capacity "decode underflow") (checkedSub usage.decodedBytes r.decoded)
  let history ← okOr (.capacity "history underflow") (checkedSub usage.liveHistoryBytes r.history)
  return (r.disarmed,
    { usage with
      physicalBytes := physical
      reservedBytes := reserved
      copyBytes := copies
      reservedCopyBytes := reservedCopies
      decodedBytes := decoded
      liveHistoryBytes := history
      peakPhysicalBytes := max usage.peakPhysicalBytes physical })

/-- `Drop::drop`. -/
def drop (r : StorageReservation) (usage : StorageUsage) : StorageUsage :=
  if ¬ r.active then usage
  else
    match checkedSub usage.reservedBytes r.bytes, checkedSub usage.decodedBytes r.decoded,
      checkedSub usage.decoderBytes r.decoder, checkedSub usage.liveHistoryBytes r.history,
      checkedSub usage.reservedCopyBytes (if r.copy then r.bytes else 0) with
    | some bytes, some decoded, some decoder, some history, some copies =>
      { usage with
        reservedBytes := bytes
        decodedBytes := decoded
        decoderBytes := decoder
        liveHistoryBytes := history
        reservedCopyBytes := copies }
    | _, _, _, _, _ => { usage with damagedAccounting := true }

end StorageReservation

/-! ## Runs -/

/-- A ledger with the reservations that are charged to it: those that are held, and those whose charge was retained. -/
structure Ledger where
  usage : StorageUsage
  live : Multiset StorageReservation
  retained : Multiset StorageReservation

/-- The calls. The caller owns the reservations that it names. -/
inductive Call
  | reserve (limits : StorageLimits) (bytes decoded history : ℕ) (copy : Bool) (free : ℕ)
  | reserveForRetainedRead (limits : StorageLimits) (bytes decoded history : ℕ) (copy : Bool) (free : ℕ) (cleanupOnly : Bool)
  | reserveDecoder (limits : StorageLimits) (decoded free : ℕ)
  | reserveCopyGrowth (r : StorageReservation) (targetBytes : ℕ) (limits : StorageLimits) (free : ℕ)
  | absorbCopyGrowth (r extension : StorageReservation)
  | retainCharge (r : StorageReservation)
  | hold (r : StorageReservation)
  | map (r : StorageReservation)
  | sealAs (r : StorageReservation) (measured : ℕ)
  | drop (r : StorageReservation)

/-- The reservations that a call names. -/
def Call.named : Call → Multiset StorageReservation
  | .reserve .. | .reserveForRetainedRead .. | .reserveDecoder .. => 0
  | .absorbCopyGrowth r extension => {r, extension}
  | .reserveCopyGrowth r _ _ _ | .retainCharge r | .hold r | .map r | .sealAs r _ | .drop r => {r}

namespace Ledger

/-- What a call that reserves comes back with. -/
def admitted (s : Ledger) : Except BundleError (StorageReservation × StorageUsage) → Option BundleError × Ledger
  | .ok (r, usage) => (none, { s with usage, live := r ::ₘ s.live })
  | .error error => (some error, s)

/-- One reservation becomes another one, and what is left of it is dropped. -/
def handedOver (s : Ledger) (r : StorageReservation) (handed : StorageReservation × StorageReservation) :
    Option BundleError × Ledger :=
  (none, { s with usage := handed.2.drop s.usage, live := handed.1 ::ₘ s.live.erase r })

/-- What a call on reservations that are held comes back with. -/
def call (s : Ledger) : Call → Option BundleError × Ledger
  | .reserve limits bytes decoded history copy free =>
    s.admitted (reserve s.usage limits bytes decoded history copy free)
  | .reserveForRetainedRead limits bytes decoded history copy free cleanupOnly =>
    s.admitted (reserveForRetainedRead s.usage limits bytes decoded history copy free cleanupOnly)
  | .reserveDecoder limits decoded free => s.admitted (reserveDecoder s.usage limits decoded free)
  | .reserveCopyGrowth r targetBytes limits free => s.admitted (r.reserveCopyGrowth s.usage targetBytes limits free)
  | .absorbCopyGrowth r extension => match r.absorbCopyGrowth extension with
    | .ok (grown, left) =>
      (none, { s with usage := left.drop s.usage, live := grown ::ₘ (s.live.erase r).erase extension })
    | .error error => (some error, { s with usage := extension.drop s.usage, live := s.live.erase extension })
  | .retainCharge r =>
    (none, { usage := r.retainCharge.drop s.usage, live := s.live.erase r, retained := r ::ₘ s.retained })
  | .hold r => s.handedOver r r.hold
  | .map r => s.handedOver r r.map
  | .sealAs r measured =>
    match r.sealAs s.usage measured with
    | .ok (left, usage) => (none, { s with usage := left.drop usage, live := s.live.erase r })
    | .error error => (some error, { s with usage := r.drop s.usage, live := s.live.erase r })
  | .drop r => (none, { s with usage := r.drop s.usage, live := s.live.erase r })

/-- A step of the ledger: a call whose reservations are held. -/
def step (s : Ledger) (call : Call) : Option Ledger := if call.named ≤ s.live then some (s.call call).2 else none

end Ledger

/-! ## What the counters count -/

/-- The counters of a ledger that reservations charge. -/
inductive Counter
  | reserved
  | reservedCopies
  | decoded
  | decoder
  | history

def StorageUsage.counter (usage : StorageUsage) : Counter → ℕ
  | .reserved => usage.reservedBytes
  | .reservedCopies => usage.reservedCopyBytes
  | .decoded => usage.decodedBytes
  | .decoder => usage.decoderBytes
  | .history => usage.liveHistoryBytes

/-- What a reservation charges. -/
def StorageReservation.charge (r : StorageReservation) : Counter → ℕ
  | .reserved => r.bytes
  | .reservedCopies => if r.copy then r.bytes else 0
  | .decoded => r.decoded
  | .decoder => r.decoder
  | .history => r.history

/-- Every counter is the sum over the reservations that are held or retained. -/
def Ledger.Balanced (s : Ledger) : Prop :=
  ∀ counter, s.usage.counter counter = ((s.live + s.retained).map fun r => r.charge counter).sum

/-- No limit is beyond the one of the others. -/
structure StorageLimits.Within (limits most : StorageLimits) : Prop where
  liveHistoryBytes : limits.liveHistoryBytes ≤ most.liveHistoryBytes
  metadataBytes : limits.metadataBytes ≤ most.metadataBytes
  decoderBytes : limits.decoderBytes ≤ most.decoderBytes
  ownedBytes : limits.ownedBytes ≤ most.ownedBytes
  copyOverlapBytes : limits.copyOverlapBytes ≤ most.copyOverlapBytes

/-- The counters are within the limits. -/
structure StorageUsage.Bounded (usage : StorageUsage) (limits : StorageLimits) : Prop where
  physical : usage.physicalBytes + usage.reservedBytes ≤
    limits.ownedBytes + limits.metadataBytes + limits.copyOverlapBytes + limits.metadataBytes
  copies : usage.copyBytes + usage.reservedCopyBytes ≤ limits.copyOverlapBytes + limits.metadataBytes
  decoder : usage.decoderBytes ≤ limits.decoderBytes
  history : usage.liveHistoryBytes ≤ limits.liveHistoryBytes

/-- The limits with which a call is checked. -/
def Call.Within (most : StorageLimits) : Call → Prop
  | .reserve limits .. | .reserveForRetainedRead limits .. | .reserveDecoder limits .. | .reserveCopyGrowth _ _ limits _ =>
    limits.Within most
  | _ => True

/-- The ledger without the charge of a reservation. -/
def StorageUsage.released (usage : StorageUsage) (r : StorageReservation) : StorageUsage :=
  { usage with
    reservedBytes := usage.reservedBytes - r.bytes
    reservedCopyBytes := usage.reservedCopyBytes - if r.copy then r.bytes else 0
    decodedBytes := usage.decodedBytes - r.decoded
    decoderBytes := usage.decoderBytes - r.decoder
    liveHistoryBytes := usage.liveHistoryBytes - r.history }

/-- The ledger after a refused call, which releases the reservation that it consumed. -/
def Ledger.released (s : Ledger) : Call → Ledger
  | .absorbCopyGrowth _ r | .sealAs r _ => { s with usage := s.usage.released r, live := s.live.erase r }
  | _ => s

/-! ## What a call does -/

variable {usage : StorageUsage} {limits most : StorageLimits} {r extension : StorageReservation}

/-- What a reservation does to a ledger. -/
structure Admits (most : StorageLimits) (usage : StorageUsage) (admitted : StorageReservation × StorageUsage) : Prop where
  active : admitted.1.active = true
  charged : ∀ counter, admitted.2.counter counter = usage.counter counter + admitted.1.charge counter
  undamaged : admitted.2.damagedAccounting = usage.damagedAccounting
  bounded : admitted.2.Bounded most

/-- A sum that fits is not over a limit. -/
theorem le_of_all {n m limit : ℕ} (h : ¬ (checkedAdd n m).all (fun v => decide (limit < v)) = true) : n + m ≤ limit := by
  rw [checkedAdd] at h
  split at h
  · simpa using h
  · exact absurd rfl h

theorem getD_checkedAdd_le (n m : ℕ) : (checkedAdd n m).getD 0 ≤ n + m := by
  rw [checkedAdd]
  split
  · exact Nat.le_refl _
  · exact Nat.zero_le _

theorem reserveKind_admits {bytes decoded history free : ℕ} {copy cleanupOnly : Bool} {kind : ReservationKind}
    {admitted : StorageReservation × StorageUsage}
    (h : reserveKind usage limits bytes decoded history copy free cleanupOnly kind = .ok admitted)
    (hlimits : limits.Within most) : Admits most usage admitted := by
  simp only [reserveKind, bind_eq_ok, okOr_eq_ok, refuse_eq_ok, Option.bind_eq_some_iff, checkedAdd_eq_some] at h
  obtain ⟨-, -, -, -, physical, ⟨_, ⟨-, rfl⟩, -, rfl⟩, allowance, ⟨_, ⟨_, ⟨-, rfl⟩, -, rfl⟩, -, rfl⟩, reserved, ⟨-, rfl⟩,
    decodedTotal, ⟨-, rfl⟩, codecTotal, ⟨-, rfl⟩, -, -, historyTotal, ⟨-, rfl⟩, -, -, -, hphysical, -, -, -, -, -, hdecoder,
    -, hhistory, -, -, reservedCopies, ⟨-, rfl⟩, -, hcopies, h⟩ := h
  obtain rfl := Except.ok.inj h
  have hcopies := le_of_all hcopies
  have hsum := getD_checkedAdd_le limits.copyOverlapBytes limits.metadataBytes
  obtain ⟨hhistoryLe, hmetadataLe, hdecoderLe, hownedLe, hoverlapLe⟩ := hlimits
  refine ⟨rfl, fun counter => by cases counter <;> rfl, rfl, ?_, ?_, ?_, ?_⟩
  all_goals dsimp only
  all_goals omega

theorem reserveCopyGrowth_admits {targetBytes free : ℕ} {admitted : StorageReservation × StorageUsage}
    (h : r.reserveCopyGrowth usage targetBytes limits free = .ok admitted) (hlimits : limits.Within most) :
    Admits most usage admitted := by
  rw [StorageReservation.reserveCopyGrowth, then_eq_ok] at h
  exact reserveKind_admits h.2 hlimits

/-- An extension whose charge is absorbed is charged as part of the grown reservation. -/
theorem absorbCopyGrowth_charge {grown left : StorageReservation} (h : r.absorbCopyGrowth extension = .ok (grown, left)) :
    grown.active = true ∧ left = extension.disarmed ∧
      ∀ counter, grown.charge counter = r.charge counter + extension.charge counter := by
  simp only [StorageReservation.absorbCopyGrowth, bind_eq_ok, okOr_eq_ok, refuse_eq_ok, checkedAdd_eq_some, not_or,
    not_not] at h
  obtain ⟨-, ⟨hactive, -, hcopy, hcopies, hdecoded, hdecodes, hhistory, hhistories⟩, bytes, ⟨-, rfl⟩, h⟩ := h
  obtain ⟨rfl, rfl⟩ := Prod.mk.inj (Except.ok.inj h)
  have hle := r.decoder_le
  have hles := extension.decoder_le
  refine ⟨hactive, rfl, fun counter => ?_⟩
  cases counter <;> simp only [StorageReservation.charge, hcopy, hcopies, if_true] <;> omega

theorem counter_released (counter : Counter) :
    (usage.released r).counter counter = usage.counter counter - r.charge counter := by
  cases counter <;> rfl

/-- A dropped reservation is released where its charge is part of the counters. -/
theorem drop_eq_released (hactive : r.active = true) (h : ∀ counter, r.charge counter ≤ usage.counter counter) :
    r.drop usage = usage.released r := by
  have hcheck (counter : Counter) :
      checkedSub (usage.counter counter) (r.charge counter) = some (usage.counter counter - r.charge counter) :=
    if_pos (h counter)
  rw [StorageReservation.drop, if_neg (not_not.mpr hactive), show checkedSub usage.reservedBytes r.bytes = _ from hcheck .reserved,
    show checkedSub usage.decodedBytes r.decoded = _ from hcheck .decoded,
    show checkedSub usage.decoderBytes r.decoder = _ from hcheck .decoder,
    show checkedSub usage.liveHistoryBytes r.history = _ from hcheck .history,
    show checkedSub usage.reservedCopyBytes (if r.copy then r.bytes else 0) = _ from hcheck .reservedCopies]
  rfl

theorem drop_disarmed : r.disarmed.drop usage = usage := if_pos Bool.false_ne_true

/-- What is sealed leaves the counters and is physical, up to its charge. -/
theorem sealAs_spec {measured : ℕ} {left : StorageReservation} {after : StorageUsage}
    (h : r.sealAs usage measured = .ok (left, after)) (hbounded : usage.Bounded most) :
    left = r.disarmed ∧ (∀ counter, after.counter counter = usage.counter counter - r.charge counter) ∧
      after.damagedAccounting = usage.damagedAccounting ∧ after.Bounded most := by
  simp only [StorageReservation.sealAs, bind_eq_ok, okOr_eq_ok, refuse_eq_ok, checkedAdd_eq_some, checkedSub,
    Option.ite_none_right_eq_some, Option.some.injEq, not_or, not_not] at h
  obtain ⟨-, ⟨hdecoded, hhistory⟩, -, hmeasured, physical, ⟨-, rfl⟩, reserved, ⟨hreserved, rfl⟩, copies, ⟨-, rfl⟩,
    reservedCopies, ⟨hcopies, rfl⟩, decoded, ⟨-, rfl⟩, history, ⟨-, rfl⟩, h⟩ := h
  obtain ⟨rfl, rfl⟩ := Prod.mk.inj (Except.ok.inj h)
  have hle := r.decoder_le
  obtain ⟨hphysical, hcopied, hdecoder, hlive⟩ := hbounded
  refine ⟨rfl, fun counter => ?_, rfl, ?_, ?_, hdecoder, ?_⟩
  · cases counter
    case decoder =>
      simp only [StorageUsage.counter, StorageReservation.charge]
      omega
    all_goals rfl
  all_goals dsimp only
  · omega
  · cases hcopy : r.copy
    · exact hcopied
    · rw [hcopy] at hcopies
      simp only [if_true] at hcopies ⊢
      omega
  · omega

/-! ## Runs -/

/-- What holds of a ledger after every step. -/
structure Ledger.Sound (most : StorageLimits) (s : Ledger) : Prop where
  balanced : s.Balanced
  active : ∀ r ∈ s.live, r.active = true
  undamaged : s.usage.damagedAccounting = false
  bounded : s.usage.Bounded most

namespace Ledger.Sound

variable {s : Ledger}

section

variable (h : s.Sound most) (hr : r ∈ s.live)

include h hr

theorem charge_le (counter : Counter) : r.charge counter ≤ s.usage.counter counter := by
  obtain ⟨rest, hrest⟩ := exists_cons_of_mem hr
  rw [h.balanced counter, hrest, cons_add, map_cons, sum_cons]
  exact Nat.le_add_right _ _

theorem drop_eq : r.drop s.usage = s.usage.released r := drop_eq_released (h.active r hr) (h.charge_le hr)

/-- A reservation is no longer held, and its charge is taken off. -/
theorem release (hcounter : ∀ counter, usage.counter counter = s.usage.counter counter - r.charge counter)
    (hundamaged : usage.damagedAccounting = s.usage.damagedAccounting) (hbounded : usage.Bounded most) :
    Ledger.Sound most { s with usage, live := s.live.erase r } where
  balanced counter := by
    have hbalanced := h.balanced counter
    rw [← cons_erase hr, cons_add, map_cons, sum_cons] at hbalanced
    rw [hcounter, hbalanced, Nat.add_sub_cancel_left]
  active other hother := h.active other (mem_of_mem_erase hother)
  undamaged := hundamaged.trans h.undamaged
  bounded := hbounded

theorem released : Ledger.Sound most { s with usage := s.usage.released r, live := s.live.erase r } := by
  refine h.release hr (fun _ => counter_released _) rfl ?_
  obtain ⟨hphysical, hcopies, hdecoder, hhistory⟩ := h.bounded
  constructor <;> dsimp only [StorageUsage.released] <;> omega

end

theorem admitted (h : s.Sound most) {result : Except BundleError (StorageReservation × StorageUsage)}
    (hresult : ∀ admitted, result = .ok admitted → Admits most s.usage admitted) : (s.admitted result).2.Sound most := by
  cases result with
  | error error => exact h
  | ok admitted =>
    obtain ⟨hactive, hcharged, hundamaged, hbounded⟩ := hresult admitted rfl
    refine ⟨fun counter => ?_, forall_mem_cons.mpr ⟨hactive, h.active⟩, hundamaged.trans h.undamaged, hbounded⟩
    show admitted.2.counter counter = _
    rw [hcharged, h.balanced, Ledger.admitted, cons_add, map_cons, sum_cons, Nat.add_comm]

/-- A reservation becomes another one of the same charge. -/
theorem handedOver (hr : r ∈ s.live) : (s.handedOver r (r, r.disarmed)).2 = s := by
  rw [Ledger.handedOver, drop_disarmed, cons_erase hr]

theorem absorbed (h : s.Sound most) (hle : {r, extension} ≤ s.live) {grown left : StorageReservation}
    (habsorb : r.absorbCopyGrowth extension = .ok (grown, left)) :
    Ledger.Sound most { s with live := grown ::ₘ (s.live.erase r).erase extension } := by
  obtain ⟨hactive, -, hcharge⟩ := absorbCopyGrowth_charge habsorb
  obtain ⟨rest, hrest⟩ := Multiset.le_iff_exists_add.mp hle
  have hlive : s.live = r ::ₘ extension ::ₘ rest := by simpa using hrest
  have herase : (s.live.erase r).erase extension = rest := by
    rw [hlive, erase_cons_head, erase_cons_head]
  refine ⟨fun counter => ?_, forall_mem_cons.mpr ⟨hactive, fun other hother => h.active other ?_⟩, h.undamaged,
    h.bounded⟩
  · have hbalanced := h.balanced counter
    rw [hlive, cons_add, cons_add, map_cons, map_cons, sum_cons, sum_cons, ← Nat.add_assoc] at hbalanced
    rw [herase, cons_add, map_cons, sum_cons, hcharge]
    exact hbalanced
  · exact mem_of_mem_erase (mem_of_mem_erase hother)

theorem retained (h : s.Sound most) (hr : r ∈ s.live) :
    Ledger.Sound most { s with live := s.live.erase r, retained := r ::ₘ s.retained } where
  balanced counter := by
    have hbalanced := h.balanced counter
    rw [← cons_erase hr, cons_add, ← add_cons] at hbalanced
    exact hbalanced
  active other hother := h.active other (mem_of_mem_erase hother)
  undamaged := h.undamaged
  bounded := h.bounded

end Ledger.Sound

/-- A call keeps what holds of the ledger, and a refused one only releases the reservation that it consumed. -/
theorem call_spec {s : Ledger} (h : s.Sound most) {call : Call} (hheld : call.named ≤ s.live) :
    (call.Within most → (s.call call).2.Sound most) ∧
      ∀ error, (s.call call).1 = some error → (s.call call).2 = s.released call := by
  have hadmits (result : Except BundleError (StorageReservation × StorageUsage)) (error : BundleError)
      (herror : (s.admitted result).1 = some error) : (s.admitted result).2 = s := by
    cases result with
    | error error => rfl
    | ok admitted => cases herror
  cases call with
  | reserve limits bytes decoded history copy free
  | reserveForRetainedRead limits bytes decoded history copy free cleanupOnly
  | reserveDecoder limits decoded free =>
    exact ⟨fun hlimits => h.admitted fun _ hok => reserveKind_admits hok hlimits, hadmits _⟩
  | reserveCopyGrowth r targetBytes limits free =>
    exact ⟨fun hlimits => h.admitted fun _ hok => reserveCopyGrowth_admits hok hlimits, hadmits _⟩
  | absorbCopyGrowth r extension =>
    rw [Ledger.call]
    split
    · rename_i grown left habsorb
      rw [(absorbCopyGrowth_charge habsorb).2.1, drop_disarmed]
      exact ⟨fun _ => h.absorbed hheld habsorb, fun _ herror => by cases herror⟩
    · have hr : extension ∈ s.live := mem_of_le hheld (by simp [Call.named])
      rw [h.drop_eq hr]
      exact ⟨fun _ => h.released hr, fun _ _ => rfl⟩
  | retainCharge r =>
    have hr : r ∈ s.live := singleton_le.mp hheld
    rw [Ledger.call, StorageReservation.retainCharge, drop_disarmed]
    exact ⟨fun _ => h.retained hr, fun _ herror => by cases herror⟩
  | hold r =>
    rw [Ledger.call, StorageReservation.hold, Ledger.Sound.handedOver (singleton_le.mp hheld)]
    exact ⟨fun _ => h, fun _ herror => by cases herror⟩
  | map r =>
    rw [Ledger.call, StorageReservation.map, Ledger.Sound.handedOver (singleton_le.mp hheld)]
    exact ⟨fun _ => h, fun _ herror => by cases herror⟩
  | sealAs r measured =>
    have hr : r ∈ s.live := singleton_le.mp hheld
    rw [Ledger.call]
    split
    · rename_i left after hseal
      obtain ⟨rfl, hcounter, hundamaged, hbounded⟩ := sealAs_spec hseal h.bounded
      rw [drop_disarmed]
      exact ⟨fun _ => h.release hr hcounter hundamaged hbounded, fun _ herror => by cases herror⟩
    · rw [h.drop_eq hr]
      exact ⟨fun _ => h.released hr, fun _ _ => rfl⟩
  | drop r =>
    have hr : r ∈ s.live := singleton_le.mp hheld
    rw [Ledger.call, h.drop_eq hr]
    exact ⟨fun _ => h.released hr, fun _ herror => by cases herror⟩

/-- A ledger before any reservation, with what is stored within the limits. -/
structure StorageUsage.Opens (usage : StorageUsage) (limits : StorageLimits) : Prop where
  unreserved : ∀ counter, usage.counter counter = 0
  undamaged : usage.damagedAccounting = false
  bounded : usage.Bounded limits

/-- A limit of a hundred bytes of each kind. -/
def hundred : StorageLimits := ⟨100, 100, 100, 100, 100, 100⟩

/-- A store that keeps twenty bytes. -/
def twentyStored : StorageUsage := ⟨20, 0, 0, 0, 0, 0, 0, 0, 20, 0, 0, 0, 0, false, false⟩

/-- A copy of ten bytes. -/
def tenCopied : StorageReservation := ⟨10, 0, 0, 0, true, true, Nat.le_refl 0⟩

end Kinewright.Storage
