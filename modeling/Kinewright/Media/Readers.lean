import Kinewright.Lib.KeyedMap
import Kinewright.Media.Regions

/-!
# The readers' shared state

`Readers` of `sched.rs`: the plans, the states of the readers, the rings of decoded frames and the
failures of the current plan version, with the byte ledger (K-1). Every method runs under one lock,
so an event of the scheduler is one call.

Maps and sets that the source hashes have no order here. The rings are one map by source and time.
Byte counts are natural numbers: the counts of a posted job fit in the budget (K-3), and the source
panics in its debug builds where they would not. What the source remembers of each source's travel
only ranks the victims of an eviction, which takes its victims in any order here.
-/

namespace Kinewright.Media

/-- `QUIESCENCE`, in nanoseconds. -/
def quiescence : ℕ := 5 * 10 ^ 9

def i64Min : ℤ := -2 ^ 63

def i64Max : ℤ := 2 ^ 63 - 1

def u64Max : ℕ := 2 ^ 64 - 1

/-- `Weighed`: the bytes of a frame's reservation. Whether it is pinned is the renderer's to say. -/
class Weighed (F : Type) where
  bytes : F → ℕ

/-- `ReaderState`. -/
inductive ReaderState
  | idle (since : ℕ)
  | budgetWait (since : ℕ)
  | permitWait
  | decoding (time : ℤ) (version : ℕ)
  | retiring
deriving DecidableEq

/-- `Plan`: one reader's decode plan. -/
structure Plan where
  version : ℕ
  required : List ℤ
  lookahead : List ℤ
  merged : Bool
  window : Option (ℤ × ℤ)
deriving DecidableEq

/-- `Slot`. -/
structure Slot (K : Type) where
  id : ℕ
  key : K
  plan : Plan
  state : ReaderState
  cursor : Option ℤ
  last : Option ℤ
  floor : Option ℤ
  lookaheadFailed : Option ℕ
  threads : ℕ
  cancelled : Bool
  flight : ℕ
  retained : Finset ℤ
  converting : Bool
  discard : Option (ℤ × ℤ)
  discarding : ℕ
  dropping : Finset ℤ
  dispatched : Finset ℤ
deriving DecidableEq

/-- `obsolete`: the reader has nothing to do in the current plan. -/
def Slot.obsolete {K : Type} (slot : Slot K) : Bool := slot.plan.required.isEmpty && slot.plan.lookahead.isEmpty

/-- The time that the reader decodes. -/
def ReaderState.flying : ReaderState → Option ℤ
  | .decoding time _ => some time
  | _ => none

/-- `Next`: what a reader does next. -/
inductive Next
  | decode (time : ℤ) (version bytes : ℕ) (start : Option ℤ) (size : ℕ) (discard : Option (ℤ × ℤ))
  | openFor (want : ℕ)
  | close
  | discard (keep : ℤ × ℤ) (bytes : ℕ)
  | wait (time : ℕ)
  | retire
deriving DecidableEq

/-- `Posted`: readers to start, tickets to cancel, whether an idle reader retired, and what was
removed, in no order. -/
structure Posted (K F E : Type) where
  spawn : List (ℕ × K)
  cancel : List ℕ
  retired : Bool
  frames : Multiset F
  errors : Multiset E

/-- `Admission`. -/
inductive Admission (F : Type)
  | ready (generated : ℕ)
  | wait (evicted : List F) (stop : List ℕ)

/-- `Readers`. -/
structure Readers (K F E : Type) where
  version : ℕ
  pool : ℕ
  limit : ℕ
  want : ℕ
  nextId : ℕ
  slots : List (Slot K)
  rings : KeyedMap (K × ℤ) F
  failures : KeyedMap (K × ℤ) (ℕ × E)
  required : Finset (K × ℤ)
  continuation : Finset (K × ℤ)
  wanted : KeyedMap K (Finset ℤ)
  pending : List (K × Region)
  budget : ℕ
  live : ℕ
  peak : ℕ
  sizes : KeyedMap K ℕ
  reserved : KeyedMap (K × ℤ) ℕ
  draining : Bool
  generated : ℕ
  requiredBytes : ℕ
  starved : ℕ
  regionsMerged : ℕ
  regionsFolded : ℕ
  mergedRewinds : ℕ
  starvedKeys : Finset K
  windows : KeyedMap K (ℤ × ℤ)
  keptSizes : KeyedMap K ℕ
  handoff : Finset (K × ℤ)
  keptHandoffs : ℕ

namespace Readers

variable {K F E : Type}

/-- `Readers::new` for P = `pool`, `with_budget` C. -/
def new (pool budget : ℕ) : Readers K F E :=
  { version := 0
    pool := max pool 1
    limit := readerLimit pool
    want := 1
    nextId := 0
    slots := []
    rings := .empty
    failures := .empty
    required := ∅
    continuation := ∅
    wanted := .empty
    pending := []
    budget
    live := 0
    peak := 0
    sizes := .empty
    reserved := .empty
    draining := false
    generated := 0
    requiredBytes := 0
    starved := 0
    regionsMerged := 0
    regionsFolded := 0
    mergedRewinds := 0
    starvedKeys := ∅
    windows := .empty
    keptSizes := .empty
    handoff := ∅
    keptHandoffs := 0 }

/-! ## The ledger -/

/-- `release`: a drop guard's bytes come back. -/
def release (r : Readers K F E) (bytes : ℕ) : Readers K F E := { r with live := r.live - bytes }

/-- `reserve` bytes if they fit beside everything live. -/
def reserve (r : Readers K F E) (bytes limit : ℕ) : Bool × Readers K F E :=
  if r.live + bytes ≤ limit then
    (true, { r with live := r.live + bytes, peak := max r.peak (r.live + bytes) })
  else (false, r)

/-- `adopt`: charge rasters that another path cached. -/
def adopt (r : Readers K F E) (bytes : ℕ) : Bool × Readers K F E :=
  if r.draining then (false, r) else r.reserve bytes r.budget

/-- Take the reservations of which the predicate holds: what is left, and their bytes. -/
def takeReserved (reserved : KeyedMap (K × ℤ) ℕ) (p : K × ℤ → ℕ → Bool) : KeyedMap (K × ℤ) ℕ × ℕ :=
  (reserved.filter fun frame bytes => !p frame bytes, (reserved.filter p).total id)

/-- Lower the reservations: what is left, and the bytes that came back. -/
def lowerReserved (reserved : KeyedMap (K × ℤ) ℕ) (most : K × ℤ → ℕ → ℕ) : KeyedMap (K × ℤ) ℕ × ℕ :=
  (reserved.map fun frame bytes => min bytes (most frame bytes),
    (reserved.map fun frame bytes => bytes - min bytes (most frame bytes)).total id)

/-! ## Slots -/

/-- The reader `id`. -/
def slot? (r : Readers K F E) (id : ℕ) : Option (Slot K) := r.slots.find? fun slot => slot.id = id

/-- Change the first slot of the reader. -/
def updateSlots (slots : List (Slot K)) (id : ℕ) (f : Slot K → Slot K) : List (Slot K) :=
  match slots with
  | [] => []
  | slot :: slots => if slot.id = id then f slot :: slots else slot :: updateSlots slots id f

/-- Change the reader `id`. -/
def updateSlot (r : Readers K F E) (id : ℕ) (f : Slot K → Slot K) : Readers K F E :=
  { r with slots := updateSlots r.slots id f }

/-- Remove the reader `id`. -/
def removeSlot (r : Readers K F E) (id : ℕ) : Readers K F E :=
  { r with slots := r.slots.eraseP fun slot => slot.id = id }

variable [DecidableEq K]

/-- Whether some reader keeps the time decoded. -/
def keeps (slots : List (Slot K)) (frame : K × ℤ) : Bool :=
  slots.any fun slot => slot.key = frame.1 ∧ frame.2 ∈ slot.retained

/-! ## Charges -/

/-- `charge`: a required frame below the end of its source's held window may be kept decoded, and is
charged for that. -/
def charge (windows : KeyedMap K (ℤ × ℤ)) (kept : KeyedMap K ℕ) (f : ℕ) (key : K) (time : ℤ) : ℕ :=
  if (windows.get? key).any fun (start, t) => start ≤ time ∧ time < t then
    max f ((kept.get? key).getD 0)
  else f

omit [DecidableEq K] in
/-- `frame_bytes`. -/
def frameBytes (r : Readers K F E) (key : K) (time : ℤ) : ℕ :=
  charge r.windows r.keptSizes ((r.sizes.get? key).getD 0) key time

/-- `kept_charge`: a frame's charge, while a reader keeps it decoded. -/
def keptCharge (r : Readers K F E) (key : K) (time : ℤ) : ℕ :=
  let charge := r.frameBytes key time
  if keeps r.slots (key, time) then max charge ((r.keptSizes.get? key).getD 0) else charge

omit [DecidableEq K] in
/-- `required_set_bytes`. -/
def requiredSetBytes (r : Readers K F E) : ℕ := ∑ frame ∈ r.required, r.frameBytes frame.1 frame.2

/-- `unkept`: the decoder dropped these frames of the source, and their reservations shrink to their
charge once no reader keeps them. -/
def unkept (r : Readers K F E) (key : K) (times : Finset ℤ) : Readers K F E :=
  let gone := times.filter fun time => ¬ keeps r.slots (key, time)
  let (reserved, excess) := lowerReserved r.reserved fun frame bytes =>
    if frame.1 = key ∧ frame.2 ∈ gone then r.frameBytes key frame.2 else bytes
  { r with reserved }.release excess

/-- `room`: C less what the detached readers hold. -/
def room (r : Readers K F E) (detached : List ℕ) : ℕ :=
  let stuck := r.slots.filter fun slot => slot.id ∈ detached
  r.budget - (stuck.map fun slot => slot.flight + slot.discarding).sum

end Readers

end Kinewright.Media
