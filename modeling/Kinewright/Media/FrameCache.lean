import Mathlib.Algebra.Order.Ring.Int
import Kinewright.Lib.KeyedMap
import Kinewright.Lib.SortedMap

/-!
# The frame cache

`FrameCache` of `cache.rs`: frames by their time, with the order in which they were last used. Frames that share a buffer are charged
once. The frame shown at a demand point is pinned.
-/

namespace Kinewright.Media

/-- A frame that names the allocation behind it. -/
class CachedFrame (T : Type) where
  byteLen : T → ℕ
  sharedBufferId : T → ℕ

/-- The direction the demand on one source travels in. -/
inductive Travel
  | forward
  | backward
deriving DecidableEq

/-- `usize::saturating_add`. -/
def saturatingAdd (a b : ℕ) : ℕ := min (a + b) (2 ^ 64 - 1)

/-- The first least element. -/
def minBy? {α : Type} (le : α → α → Bool) : List α → Option α
  | [] => none
  | a :: as => some (as.foldl (fun best next => if le best next then best else next) a)

/-- The last greatest element. -/
def maxBy? {α : Type} (le : α → α → Bool) : List α → Option α
  | [] => none
  | a :: as => some (as.foldl (fun best next => if le best next then next else best) a)

/-- Steps ordered smallest first, a forward step before an equal backward one. -/
def forwardFirst (a b : ℤ) : Bool := a.natAbs < b.natAbs || (a.natAbs = b.natAbs && (!decide (a < 0) || decide (b < 0)))

/-- The direction after demand moves: the smallest non-zero step of a point from its nearest previous point. -/
def follow (travel : Travel) (last points : List ℤ) : Travel :=
  let steps := points.filterMap fun point => minBy? forwardFirst (last.map fun previous => point - previous)
  match minBy? forwardFirst (steps.filter (· ≠ 0)) with
  | some step => if 0 < step then .forward else .backward
  | none => travel

structure FrameCache (T : Type) where
  capacity : ℕ
  byteLen : ℕ
  frames : List (ℤ × T)
  order : List ℤ
  /-- Live entry count per distinct shared pixel allocation. -/
  residency : KeyedMap ℕ ℕ
  demand : List ℤ
  lastDemand : List ℤ
  travel : Travel

namespace FrameCache

variable {T : Type} [CachedFrame T]

open CachedFrame

def new (capacity : ℕ) : FrameCache T where
  capacity
  byteLen := 0
  frames := []
  order := []
  residency := .empty
  demand := []
  lastDemand := []
  travel := .forward

def setDemand (cache : FrameCache T) (points : List ℤ) : FrameCache T :=
  { cache with
    travel := follow cache.travel cache.lastDemand points
    demand := points
    lastDemand := if points = [] then cache.lastDemand else points }

def clearDemand (cache : FrameCache T) : FrameCache T := { cache with demand := [] }

/-- The last key at or before a time. -/
def shown (cache : FrameCache T) (point : ℤ) : Option ℤ := (cache.frames.filter fun entry => entry.1 ≤ point).getLast?.map Prod.fst

/-- The frame shown at each demand point: the one at or before it. -/
def pinned (cache : FrameCache T) : List ℤ := cache.demand.filterMap cache.shown

/-- Record one more cache entry for a frame's buffer, charging its bytes only when this is the buffer's first entry. -/
def retainBytes (cache : FrameCache T) (frame : T) : FrameCache T :=
  let entries := saturatingAdd ((cache.residency.get? (sharedBufferId frame)).getD 0) 1
  { cache with
    residency := cache.residency.insert (sharedBufferId frame) entries
    byteLen := if entries = 1 then saturatingAdd cache.byteLen (CachedFrame.byteLen frame) else cache.byteLen }

/-- Drop one cache entry for a frame's buffer, releasing its bytes only when the last entry referencing that buffer is gone. -/
def releaseBytes (cache : FrameCache T) (frame : T) : FrameCache T :=
  match cache.residency.get? (sharedBufferId frame) with
  | none => cache
  | some entries =>
    if entries - 1 = 0 then { cache with
      residency := cache.residency.erase (sharedBufferId frame)
      byteLen := cache.byteLen - CachedFrame.byteLen frame }
    else { cache with residency := cache.residency.insert (sharedBufferId frame) (entries - 1) }

def removeEntry (cache : FrameCache T) (key : ℤ) : FrameCache T :=
  match SortedMap.get? cache.frames key with
  | none => cache
  | some frame => { cache with frames := SortedMap.erase key cache.frames }.releaseBytes frame

/-- Capacity eviction takes the oldest unpinned entry. Where there is one of a key, it is the first one of it. -/
def evictUnpinned (pinned : List ℤ) : ℕ → FrameCache T → FrameCache T
  | 0, cache => cache
  | fuel + 1, cache => if cache.frames.length ≤ cache.capacity then cache
    else match cache.order.find? fun key => key ∉ pinned with
      | none => cache
      | some oldest => evictUnpinned pinned fuel ({ cache with order := cache.order.erase oldest }.removeEntry oldest)

/-- The cache with the frame at its time, before anything is evicted. -/
def place (cache : FrameCache T) (key : ℤ) (frame : T) : FrameCache T :=
  let retained := cache.retainBytes frame
  let placed := { retained with frames := SortedMap.put (· < ·) key frame retained.frames }
  let released := match SortedMap.get? retained.frames key with
    | none => placed
    | some replaced =>
      let released := placed.releaseBytes replaced
      { released with order := released.order.filter (· ≠ key) }
  { released with order := released.order ++ [key] }

def insert (cache : FrameCache T) (key : ℤ) (frame : T) : FrameCache T :=
  let placed := cache.place key frame
  if placed.frames.length ≤ placed.capacity then placed
  else evictUnpinned placed.pinned placed.order.length placed

def frameAtOrBefore (cache : FrameCache T) (time : ℤ) : Option T × FrameCache T :=
  match cache.shown time with
  | none => (none, cache)
  | some key =>
    match SortedMap.get? cache.frames key with
    | none => (none, cache)
    | some frame => (some frame, { cache with order := cache.order.filter (· ≠ key) ++ [key] })

/-- Return the most recent frame without retaining a single entry larger than the caller's aggregate cache budget. -/
def frameAtOrBeforeBounded (cache : FrameCache T) (time : ℤ) (maxRetainedBytes : ℕ) : Option T × FrameCache T :=
  match cache.shown time with
  | none => (none, cache)
  | some key =>
    if ¬ ∃ frame ∈ SortedMap.get? cache.frames key, maxRetainedBytes < CachedFrame.byteLen frame then cache.frameAtOrBefore time
    else
      let forgotten := { cache with order := cache.order.filter (· ≠ key) }
      match SortedMap.get? forgotten.frames key with
      | none => (none, forgotten)
      | some frame => (some frame, { forgotten with frames := SortedMap.erase key forgotten.frames }.releaseBytes frame)

/-- How far a frame is from the nearest demand point, and whether it is behind it. -/
def rank (cache : FrameCache T) (key : ℤ) : Option (Bool × ℕ) :=
  (minBy? (fun a b => (key - a).natAbs ≤ (key - b).natAbs) cache.demand).map fun point =>
    (match cache.travel with
      | .forward => decide (key < point)
      | .backward => decide (point < key), (key - point).natAbs)

/-- The order of the ranks. -/
def rankLe : Option (Bool × ℕ) → Option (Bool × ℕ) → Bool
  | none, _ => true
  | some _, none => false
  | some (behind, distance), some (behind', distance') => (!behind && behind') || (behind == behind' && distance ≤ distance')

/-- Evict the frame farthest from every demand point, frames behind travel first. -/
def evictFarthest (cache : FrameCache T) : Bool × FrameCache T :=
  match maxBy? (fun a b => rankLe (cache.rank a) (cache.rank b)) ((cache.frames.map Prod.fst).filter fun key => key ∉ cache.pinned) with
  | none => (false, cache)
  | some victim => (true, { cache with order := cache.order.filter (· ≠ victim) }.removeEntry victim)

def evictOldest (cache : FrameCache T) : Bool × FrameCache T :=
  match cache.order with
  | [] => (false, cache)
  | oldest :: order => (true, { cache with order }.removeEntry oldest)

end FrameCache

/-- A call on a frame cache. -/
inductive CacheCall (T : Type)
  | insert (key : ℤ) (frame : T)
  | setDemand (points : List ℤ)
  | clearDemand
  | frameAtOrBefore (time : ℤ)
  | frameAtOrBeforeBounded (time : ℤ) (maxRetainedBytes : ℕ)
  | evictFarthest
  | evictOldest

variable {T : Type} [CachedFrame T]

/-- The cache after a call. -/
def FrameCache.after (cache : FrameCache T) : CacheCall T → FrameCache T
  | .insert key frame => cache.insert key frame
  | .setDemand points => cache.setDemand points
  | .clearDemand => cache.clearDemand
  | .frameAtOrBefore time => (cache.frameAtOrBefore time).2
  | .frameAtOrBeforeBounded time maxRetainedBytes => (cache.frameAtOrBeforeBounded time maxRetainedBytes).2
  | .evictFarthest => cache.evictFarthest.2
  | .evictOldest => cache.evictOldest.2

/-- The cache after the calls. -/
def FrameCache.afterAll (cache : FrameCache T) (calls : List (CacheCall T)) : FrameCache T := calls.foldl FrameCache.after cache

end Kinewright.Media
