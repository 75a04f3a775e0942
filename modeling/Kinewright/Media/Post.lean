import Mathlib.Order.Lattice.Nat
import Kinewright.Media.Readers

/-!
# Posting a plan

`post_within` of `sched.rs`, one definition for each of its phases: a new plan version replaces the
old one while decodes of the old one are still in flight. Reservations that are no longer required
return, kept frames outside the plan go to a discard, and each region goes to the reader that keeps
its times, to the nearest free reader, or waits.
-/

namespace Kinewright.Media

namespace Readers

variable {K F E : Type} [DecidableEq K]

/-- A half-open range of times, ascending. -/
def timesFrom (start bound : ℤ) : List ℤ := (List.range (bound - start).toNat).map fun n : ℕ => start + n

/-! ## What the job wants -/

/-- The required times of the source in a list of regions. -/
def requiredOf (regions : List (K × Region)) (key : K) : List ℤ :=
  (regions.filter fun entry => entry.1 = key).flatMap fun entry => entry.2.required

/-- All times of the source in a list of regions. -/
def timesOf (regions : List (K × Region)) (key : K) : List ℤ :=
  (regions.filter fun entry => entry.1 = key).flatMap fun entry =>
    entry.2.required ++ entry.2.lookahead

/-- A new plan version and what it requires and wants. -/
def announce (r : Readers K F E) (regions : List (K × Region)) (sizes : KeyedMap K ℕ) (generated : ℕ) : Readers K F E :=
  { r with
    version := r.version + 1
    required := (regions.flatMap fun entry =>
      entry.2.required.map fun time => (entry.1, time)).toFinset
    wanted := KeyedMap.empty.extend (regions.map Prod.fst).toFinset fun key =>
      (timesOf regions key).toFinset
    sizes
    generated
    starvedKeys := ∅
    failures := .empty }

/-! ## Continued windows -/

/-- The bound of a held window's source that the job requires only inside its window: the largest
time that it requires of it. -/
def continuedBound (regions : List (K × Region)) (key : K) (window : ℤ × ℤ) : Option ℤ :=
  let own := requiredOf regions key
  own.max?.filter fun _ => own.all fun time => window.1 ≤ time ∧ time ≤ window.2

/-- The window times below the bound that a reader keeps decoded and the ring lacks, descending. -/
def continuedTimes (r : Readers K F E) (regions : List (K × Region)) (key : K) (start bound : ℤ) : List ℤ :=
  ((timesFrom start bound).filter fun time =>
    keeps r.slots (key, time) ∧ time ∉ requiredOf regions key ∧ ¬ r.rings.contains (key, time)).reverse

/-- `continued`: per held window, the kept times that stay required, and the bound. -/
def continued (r : Readers K F E) (regions : List (K × Region)) : KeyedMap K (List ℤ) × KeyedMap K ℤ :=
  let bounds := r.windows.filterMap fun key window => continuedBound regions key window
  (r.windows.filterMap fun key window =>
      (continuedBound regions key window).bind fun bound =>
        let kept := r.continuedTimes regions key window.1 bound
        if kept = [] then none else some kept,
    bounds)

/-- How many steps of every source fit, one of each source at a time. -/
def fitLevels (r : Readers K F E) (continued : KeyedMap K (List ℤ)) (room set level : ℕ) : ℕ → ℕ
  | 0 => level
  | left + 1 =>
    let bytes := ∑ key ∈ continued.keys,
      ((((continued.get? key).getD [])[level]?).map (r.keptCharge key)).getD 0
    if set + bytes ≤ room then fitLevels r continued room (set + bytes) (level + 1) left
    else level

/-- `fit_continued`: the continued windows as far as they fit in the room beside the job's own
required set, and per source the kept times that stay. -/
def fitContinued (r : Readers K F E) (continued : KeyedMap K (List ℤ)) (bounds : KeyedMap K ℤ)
    (room : ℕ) : KeyedMap K (List ℤ) × KeyedMap K (ℤ × ℤ) :=
  let set := r.generated + ∑ frame ∈ r.required, r.keptCharge frame.1 frame.2
  let depth := continued.keys.sup fun key => ((continued.get? key).getD []).length
  let fit := r.fitLevels continued room set 0 depth
  let keep := bounds.map fun key bound =>
    let own := ((r.required.filter fun frame => frame.1 = key).image Prod.snd).min
    match continued.get? key with
    | some kept =>
      if kept.length > fit then
        (((kept.take fit).getLast?).getD (own.untopD bound), bound)
      else (i64Min, bound)
    | none => (i64Min, bound)
  ((continued.map fun _ kept => kept.take fit).filter fun _ kept => kept ≠ [], keep)

/-- The continuation joins the required set and what is wanted. -/
def joinContinuation (r : Readers K F E) (continued : KeyedMap K (List ℤ)) : Readers K F E :=
  let frames := continued.keys.biUnion fun key =>
    ((continued.get? key).getD []).toFinset.image fun time => (key, time)
  { r with
    continuation := frames.filter fun frame => frame ∉ r.required
    required := r.required ∪ frames
    wanted := r.wanted.extend continued.keys fun key =>
      (r.wanted.get? key).getD ∅ ∪ ((continued.get? key).getD []).toFinset }

/-! ## Discards -/

/-- The kept frames `gone` of a slot move to its discard, with their reservations. -/
def discardKept (reserved : KeyedMap (K × ℤ) ℕ) (slot : Slot K) (gone : Finset ℤ)
    (range : ℤ × ℤ) : KeyedMap (K × ℤ) ℕ × Slot K :=
  let (reserved, bytes) := takeReserved reserved fun frame _ => frame.1 = slot.key ∧ frame.2 ∈ gone
  (reserved,
    { slot with
      retained := slot.retained \ gone
      dropping := slot.dropping ∪ gone
      discarding := slot.discarding + bytes
      discard := some (match slot.discard with
        | some (low, bound) => (max low range.1, min bound range.2)
        | none => range) })

/-- The kept times of a slot outside a range. -/
def keptOutside (slot : Slot K) (range : ℤ × ℤ) : Finset ℤ :=
  slot.retained.filter fun time => ¬ (range.1 ≤ time ∧ time ≤ range.2)

/-- A pass over the slots that threads a state. -/
def threadSlots {σ : Type} (f : σ → Slot K → σ × Slot K) (s : σ) : List (Slot K) → σ × List (Slot K)
  | [] => (s, [])
  | slot :: slots =>
    let (s, slot) := f s slot
    let (s, slots) := threadSlots f s slots
    (s, slot :: slots)

/-- The body of `discard_outside`: a retiring reader's kept frames stay with it. -/
def discardOutsideSlot (keep : KeyedMap K (ℤ × ℤ)) (reserved : KeyedMap (K × ℤ) ℕ)
    (slot : Slot K) : KeyedMap (K × ℤ) ℕ × Slot K :=
  match keep.get? slot.key with
  | none => (reserved, slot)
  | some range =>
    if slot.state = .retiring ∨ keptOutside slot range = ∅ then (reserved, slot)
    else discardKept reserved slot (keptOutside slot range) range

/-- `discard_outside`. -/
def discardOutside (r : Readers K F E) (keep : KeyedMap K (ℤ × ℤ)) : Readers K F E :=
  let (reserved, slots) := threadSlots (discardOutsideSlot keep) r.reserved r.slots
  { r with reserved, slots }

/-- The reservations of frames no longer required return at once. -/
def returnUnrequired (r : Readers K F E) : Readers K F E :=
  let (reserved, released) := takeReserved r.reserved fun frame _ => frame ∉ r.required
  { r with reserved }.release released

/-- `recharge`: a reservation below the plan's charge returns, and one above it returns the
excess. -/
def recharge (r : Readers K F E) : Readers K F E :=
  let (reserved, raised) := takeReserved r.reserved fun frame bytes =>
    bytes < r.frameBytes frame.1 frame.2
  let r := { r with reserved }.release raised
  let (reserved, excess) := lowerReserved r.reserved fun frame _ => r.keptCharge frame.1 frame.2
  { r with reserved }.release excess

/-- The windows of sources that the plan does not want go. -/
def dropWindows (r : Readers K F E) : Readers K F E :=
  { r with windows := r.windows.filter fun key _ => r.wanted.contains key }

omit [DecidableEq K] in
/-- H is counted again. -/
def countRequired (r : Readers K F E) : Readers K F E := { r with requiredBytes := r.requiredSetBytes }

/-! ## Rings and plans -/

/-- Whether the ring keeps a frame: the plan wants it, or a held window has it. -/
def ringKept (r : Readers K F E) (frame : K × ℤ) : Bool :=
  match r.wanted.get? frame.1 with
  | none => false
  | some wanted =>
    frame.2 ∈ wanted ∨ (r.windows.get? frame.1).any fun (start, t) => start ≤ frame.2 ∧ frame.2 ≤ t

/-- The ring frames that the plan does not keep go. -/
def trimRings (r : Readers K F E) : Readers K F E :=
  { r with rings := r.rings.filter fun frame _ => r.ringKept frame }

/-- The empty plan of a version. -/
def emptyPlan (version : ℕ) : Plan := { version, required := [], lookahead := [], merged := false, window := none }

/-- Every slot's plan is replaced by the empty one of this version. -/
def clearPlans (r : Readers K F E) : Readers K F E :=
  { r with
    slots := r.slots.map fun slot => { slot with plan := emptyPlan r.version, floor := none }
    pending := [] }

omit [DecidableEq K] in
/-- `plan`: the plan of a region. A step inside a held window converts its own times first, then the
window's kept frames; a refill walks its window down from its end. -/
def planOf (version : ℕ) (region : Region) (window : Option (ℤ × ℤ)) (kept : Option (List ℤ)) :
    Plan :=
  let required := sortTimes region.required
  let lookahead := sortTimes region.lookahead
  match kept with
  | some kept =>
    { version
      required := required.reverse.filter (fun time => time ∉ kept) ++ kept
      lookahead
      merged := region.merged
      window := none }
  | none =>
    let window := window.filter fun (start, t) =>
      ¬ region.merged ∧ required.length > 1 ∧ t ∈ required ∧ required.all fun time => start ≤ time ∧ time ≤ t
    { version
      required := if window.isSome then required.reverse else required
      lookahead
      merged := region.merged
      window }

/-- A continued window's kept times join the source's first region with required times. -/
def joinRegions (continued : KeyedMap K (List ℤ)) : List (K × Region) → List (K × Region × Option (List ℤ))
  | [] => []
  | (key, region) :: regions => match if region.required = [] then none else continued.get? key with
    | none => (key, region, none) :: joinRegions continued regions
    | some kept => (key, { region with required := region.required ++ kept }, some kept) ::
        joinRegions (continued.erase key) regions

/-! ## Who serves a region -/

/-- A reader that keeps times of a region: how many required ones, how many in all, and the
indices. -/
structure Keeping where
  required : ℕ
  all : ℕ
  index : ℕ
  id : ℕ
deriving DecidableEq

/-- The order of the sort: most required first, then most kept, then the first. -/
def Keeping.le (a b : Keeping) : Prop :=
  toLex (b.required, toLex (b.all, toLex (a.index, a.id))) ≤ toLex (a.required, toLex (a.all, toLex (b.index, b.id)))

instance : DecidableRel Keeping.le := fun a b =>
  inferInstanceAs (Decidable (toLex (b.required, toLex (b.all, toLex (a.index, a.id)))
      ≤ toLex (a.required, toLex (a.all, toLex (b.index, b.id)))))

/-- What the readers keep of the regions. -/
def keepings (slots : List (Slot K)) (regions : List (K × Region × Option (List ℤ)))
    (detached : List ℕ) : List Keeping :=
  regions.zipIdx.flatMap fun ((key, region, _), index) =>
    slots.filterMap fun slot =>
      let kept (times : List ℤ) := times.countP fun time => time ∈ slot.retained
      let required := kept region.required
      let all := required + kept region.lookahead
      if slot.key = key ∧ slot.state ≠ .retiring ∧ slot.id ∉ detached ∧ all > 0 then
        some { required, all, index, id := slot.id }
      else none

omit [DecidableEq K] in
/-- Each reader takes one region, and each region one reader. -/
def takeKeepers (taken : List (ℕ × ℕ)) : List Keeping → List (ℕ × ℕ)
  | [] => taken
  | x :: keepings => if x.index ∈ taken.map Prod.fst ∨ x.id ∈ taken.map Prod.snd then takeKeepers taken keepings
    else takeKeepers (taken ++ [(x.index, x.id)]) keepings

/-- `keepers`: pairs of a region's index and the reader that it goes to. -/
def keepers (slots : List (Slot K)) (regions : List (K × Region × Option (List ℤ)))
    (detached : List ℕ) : List (ℕ × ℕ) :=
  takeKeepers [] ((keepings slots regions detached).insertionSort Keeping.le)

omit [DecidableEq K] in
/-- The first least element. -/
def firstMin {α : Type} (le : α → α → Bool) : List α → Option α
  | [] => none
  | x :: xs => match firstMin le xs with
    | none => some x
    | some y => if le x y then some x else some y

/-- How near a free reader is to a region's first time. -/
def nearness (slot : Slot K) (first : ℤ) : Bool ×ₗ ℕ :=
  toLex (decide (first ∉ slot.retained), slot.cursor.elim u64Max fun c => (c - first).natAbs)

/-- The reader that a region goes to, if one can take it. -/
def freeFor (slots : List (Slot K)) (keepers : List (ℕ × ℕ)) (index : ℕ) (key : K)
    (region : Region) : Option (Slot K) :=
  match keepers.find? fun pair => pair.1 = index with
  | some (_, id) => slots.find? fun slot => slot.id = id
  | none =>
    firstMin (fun a b => nearness a region.first ≤ nearness b region.first)
      (slots.filter fun slot => slot.key = key ∧ slot.state ≠ .retiring ∧
        slot.id ∉ keepers.map Prod.snd ∧ slot.obsolete)

/-- The loop that gives each region to a reader, or to the waiting ones. -/
def placeRegions (keepers : List (ℕ × ℕ)) (r : Readers K F E) (index : ℕ) :
    List (K × Region × Option (List ℤ)) → Readers K F E
  | [] => r
  | (key, region, kept) :: regions =>
    let r := match freeFor r.slots keepers index key region with
      | some slot => r.updateSlot slot.id fun slot =>
        { slot with plan := planOf r.version region (r.windows.get? key) kept }
      | none => { r with pending := r.pending ++ [(key, region)] }
    placeRegions keepers r (index + 1) regions

/-! ## Handing kept times off -/

/-- The times of its plan that a reader keeps decoded. -/
def ownKept (slot : Slot K) : List ℤ :=
  (slot.plan.required ++ slot.plan.lookahead).filter fun time => time ∈ slot.retained

/-- Whether the plan wants a time of the reader's source from another one. -/
def elsewhere (wanted : KeyedMap K (Finset ℤ)) (slot : Slot K) (time : ℤ) : Bool :=
  time ∉ ownKept slot ∧ time ∈ (wanted.get? slot.key).getD ∅

/-- The kept times of a slot that the plan gave elsewhere. -/
def handedKept (wanted : KeyedMap K (Finset ℤ)) (slot : Slot K) : Finset ℤ :=
  slot.retained.filter fun time => elsewhere wanted slot time

/-- The times that a slot's discards drop and the plan gave elsewhere, unless its own plan wants
them back. -/
def handedDropped (wanted : KeyedMap K (Finset ℤ)) (slot : Slot K) : Finset ℤ :=
  (slot.dropping ∪ slot.dispatched).filter fun time =>
    time ∉ slot.plan.required ++ slot.plan.lookahead ∧ elsewhere wanted slot time

/-- From the least to the largest of its own kept times. -/
def ownRange (slot : Slot K) : ℤ × ℤ := ((ownKept slot).min?.getD i64Max, (ownKept slot).max?.getD i64Min)

/-- The body of `hand_off`: a retiring or detached reader's kept times stay with it. -/
def handOffSlot (wanted : KeyedMap K (Finset ℤ)) (detached : List ℕ)
    (s : KeyedMap (K × ℤ) ℕ × Finset (K × ℤ)) (slot : Slot K) :
    (KeyedMap (K × ℤ) ℕ × Finset (K × ℤ)) × Slot K :=
  let handoff := s.2 ∪ (handedDropped wanted slot ∪ handedKept wanted slot).image fun time => (slot.key, time)
  if handedKept wanted slot = ∅ ∨ slot.state = .retiring ∨ slot.id ∈ detached then
    ((s.1, handoff), slot)
  else
    let (reserved, slot) := discardKept s.1 slot (keptOutside slot (ownRange slot)) (ownRange slot)
    ((reserved, handoff), slot)

/-- `hand_off`. -/
def handOff (r : Readers K F E) (detached : List ℕ) : Readers K F E :=
  let ((reserved, handoff), slots) := threadSlots (handOffSlot r.wanted detached) (r.reserved, ∅) r.slots
  { r with reserved, handoff, slots }

/-! ## Assignment -/

/-- A reader that is started for a region. -/
def newSlot (id : ℕ) (key : K) (plan : Plan) (now : ℕ) : Slot K :=
  { id
    key
    plan
    state := .idle now
    cursor := none
    last := none
    floor := none
    lookaheadFailed := none
    threads := 0
    cancelled := false
    flight := 0
    retained := ∅
    converting := false
    discard := none
    discarding := 0
    dropping := ∅
    dispatched := ∅ }

/-- The loop of `assign`: start readers for the waiting regions while slots are free. The state has
the slots and the next id, the regions that still wait and the readers to start. -/
def startReaders (r : Readers K F E) (now : ℕ) (waiting : List (K × Region)) (spawn : List (ℕ × K)) :
    List (K × Region) → Readers K F E × List (K × Region) × List (ℕ × K)
  | [] => (r, waiting, spawn)
  | (key, region) :: regions =>
    -- H-1: a retiring reader of the source counts too
    if r.slots.length ≥ r.limit ∨
        (r.slots.countP fun slot => slot.key = key) ≥ readersPerSource then
      startReaders r now (waiting ++ [(key, region)]) spawn regions
    else
      let plan := planOf r.version region (r.windows.get? key) none
      startReaders
        { r with slots := r.slots ++ [newSlot r.nextId key plan now], nextId := r.nextId + 1 }
        now waiting (spawn ++ [(r.nextId, key)]) regions

/-- An obsolete idle reader retires. -/
def retireObsolete (slot : Slot K) : Slot K :=
  match slot.state with
  | .idle _ => if slot.obsolete then { slot with state := .retiring } else slot
  | _ => slot

/-- Whether the reader's ticket is to be cancelled: it waits for permits for nothing. -/
def cancels (slot : Slot K) : Bool := slot.state = .permitWait ∧ slot.obsolete ∧ ¬ slot.cancelled

/-- `assign`. -/
def assign (r : Readers K F E) (now : ℕ) : Posted K F E × Readers K F E :=
  let (r, waiting, spawn) := startReaders r now [] [] r.pending
  let pending := waiting.filter fun entry => entry.2.required ≠ []
  let slots := if pending = [] then r.slots else r.slots.map retireObsolete
  let retired := pending ≠ [] ∧ r.slots.any fun slot => retireObsolete slot ≠ slot
  let cancel := (slots.filter cancels).map Slot.id
  ({ spawn, cancel, retired, frames := 0, errors := 0 }, { r with
      pending
      slots := slots.map fun slot => if cancels slot then { slot with cancelled := true } else slot })

/-! ## The post -/

/-- `hold`: the windows that the next post holds. -/
def hold (r : Readers K F E) (windows : KeyedMap K (ℤ × ℤ)) (kept : KeyedMap K ℕ) : Readers K F E :=
  { r with windows, keptSizes := kept }

/-- The continued windows of an announced plan, as far as they fit beside the detached readers. -/
def fitted (r : Readers K F E) (regions : List (K × Region)) (detached : List ℕ) :
    KeyedMap K (List ℤ) × KeyedMap K (ℤ × ℤ) :=
  let (found, bounds) := r.continued regions
  r.fitContinued found bounds (r.room detached)

/-- The ledger and the windows under an announced plan with its continued windows. -/
def settle (r : Readers K F E) (continued : KeyedMap K (List ℤ)) (keep : KeyedMap K (ℤ × ℤ)) : Readers K F E :=
  (((r.joinContinuation continued).discardOutside keep).returnUnrequired).dropWindows.recharge
    |>.countRequired

omit [DecidableEq K] in
/-- How many permits each reader of a plan with so many regions wants. -/
def wantFor (r : Readers K F E) (regions : ℕ) : Readers K F E := { r with want := Media.want r.pool regions }

/-- The regions of the plan go to their readers. -/
def placePlan (r : Readers K F E) (regions : List (K × Region)) (continued : KeyedMap K (List ℤ))
    (detached : List ℕ) : Readers K F E :=
  let joined := joinRegions continued regions
  (placeRegions (keepers r.slots joined detached) r 0 joined).handOff detached

/-- `post_within`. -/
def postWithin (r : Readers K F E) (regions : List (K × Region)) (sizes : KeyedMap K ℕ)
    (generated : ℕ) (detached : List ℕ) (now : ℕ) : Posted K F E × Readers K F E :=
  let errors := (r.failures.map fun _ failure => failure.2).values
  let r := r.announce regions sizes generated
  let (continued, keep) := r.fitted regions detached
  let r := r.settle continued keep
  let frames := (r.rings.filter fun frame _ => ¬ r.ringKept frame).values
  let r := r.trimRings.clearPlans.placePlan regions continued detached
  let (posted, r) := (r.wantFor regions.length).assign now
  ({ posted with frames, errors }, r)

/-- `post`. -/
def post (r : Readers K F E) (regions : List (K × Region)) (sizes : KeyedMap K ℕ)
    (generated : ℕ) (now : ℕ) : Posted K F E × Readers K F E :=
  r.postWithin regions sizes generated [] now

/-- `post_planned`. -/
def postPlanned (r : Readers K F E) (planned : Planned K) (sizes : KeyedMap K ℕ) (generated : ℕ)
    (detached : List ℕ) (now : ℕ) : Posted K F E × Readers K F E :=
  { r with
    regionsMerged := r.regionsMerged + planned.merged
    regionsFolded := r.regionsFolded + planned.folded }.postWithin planned.regions sizes generated detached now

end Readers

end Kinewright.Media
