import Kinewright.Media.Decode

/-!
# Calls of the scheduler

Everything that the preview and its readers ask of `Readers`, each under the lock, and what they get
back. The bytes of a decode, of a discard, of a job's generated rasters and of adopted rasters leave
the scheduler with an owner, whose drop guard calls `release`.
-/

namespace Kinewright.Media

/-- A call under the lock. What pins a frame and in which order victims are evicted is the
preview's. -/
inductive Call (K F E : Type)
  | hold (windows : KeyedMap K (ℤ × ℤ)) (kept : KeyedMap K ℕ)
  | post (planned : Planned K) (sizes : KeyedMap K ℕ) (generated : ℕ) (detached : List ℕ) (now : ℕ)
  | assign (now : ℕ)
  | next (id now : ℕ) (shutdown : Bool)
  | granted (id : ℕ) (permits : Option ℕ) (now : ℕ)
  | closed (id : ℕ)
  | deliver (id : ℕ) (time : ℤ) (version : ℕ) (result : Except E F) (now : ℕ)
  | refilledExact (id : ℕ) (t : ℤ) (version : ℕ) (keptFrom : Option ℤ) (kept : Finset ℤ)
  | stopped (id now : ℕ)
  | failStart (id : ℕ) (error : E)
  | exited (id : ℕ)
  | admitRequired (generated : ℕ) (pinned : F → Bool) (victims : List (K × ℤ))
  | adopt (bytes : ℕ)
  | forget (keep : K → Bool)
  | clearCache (active : Bool) (now : ℕ)
  | clearRings
  | retireAll

/-- What a call returns. -/
inductive Answer (K F E : Type)
  | done
  | posted (posted : Posted K F E)
  | next (step : Next)
  | delivered (frame : Option F) (error : Option E)
  | admission (admission : Admission F)
  | adopted (bytes : ℕ) (fits : Bool)
  | forgot (retired : List ℕ) (posted : Posted K F E)
  | frames (frames : Multiset F)

/-- The bytes that a step hands to an owner outside. -/
def Next.handed : Next → ℕ
  | .decode _ _ bytes _ _ _ => bytes
  | .discard _ bytes => bytes
  | _ => 0

/-- The bytes that a call hands to an owner outside. -/
def Answer.handed {K F E : Type} : Answer K F E → ℕ
  | .next step => step.handed
  | .admission (.ready generated) => generated
  | .adopted bytes true => bytes
  | _ => 0

namespace Readers

variable {K F E : Type} [DecidableEq K] [Weighed F]

/-- One call. `none` where the source panics. -/
def call (r : Readers K F E) : Call K F E → Option (Answer K F E × Readers K F E)
  | .hold windows kept => some (.done, r.hold windows kept)
  | .post planned sizes generated detached now =>
    let result := r.postPlanned planned sizes generated detached now
    some (.posted result.1, result.2)
  | .assign now => some (.posted (r.assign now).1, (r.assign now).2)
  | .next id now shutdown =>
    some (.next (r.next id now shutdown).1, (r.next id now shutdown).2)
  | .granted id permits now => some (.done, r.granted id permits now)
  | .closed id => some (.done, r.closed id)
  | .deliver id time version result now =>
    let result := r.deliver id time version result now
    some (.delivered result.1.1 result.1.2, result.2)
  | .refilledExact id t version keptFrom kept =>
    some (.done, r.refilledExact id t version keptFrom kept)
  | .stopped id now => some (.done, r.stopped id now)
  | .failStart id error => some (.done, r.failStart id error)
  | .exited id => some (.done, r.exited id)
  | .admitRequired generated pinned victims =>
    (r.admitRequired generated pinned victims).map fun result => (.admission result.1, result.2)
  | .adopt bytes => some (.adopted bytes (r.adopt bytes).1, (r.adopt bytes).2)
  | .forget keep => some (.forgot (r.forget keep).1.1 (r.forget keep).1.2, (r.forget keep).2)
  | .clearCache active now =>
    let result := r.clearCache active now
    some (.forgot result.1.1 result.1.2, result.2)
  | .clearRings => some (.frames r.clearRings.1, r.clearRings.2)
  | .retireAll => some (.done, r.retireAll)

end Readers

end Kinewright.Media
