import Kinewright.Lib.Charges
import Kinewright.Media.FrameCache

/-!
# Runs of the frame cache

The order of a cache is that of its keys, and its bytes are those of the distinct buffers that are resident, as long as they fit their
integer. A call that evicts spares the frames that are shown at a demand point.
-/

namespace Kinewright.Media

open List SortedMap

variable {T : Type}

open CachedFrame Charges

/-- The buffer behind a frame, with its size. -/
def buffer [CachedFrame T] (frame : T) : ℕ × ℕ := (sharedBufferId frame, CachedFrame.byteLen frame)

namespace FrameCache

/-- The times of the resident frames. -/
def keys (cache : FrameCache T) : List ℤ := cache.frames.map Prod.fst

/-- The order of the cache is that of its keys. -/
structure Arranged (cache : FrameCache T) : Prop where
  sorted : SortedMap.Sorted (· < ·) cache.frames
  order : cache.order.Perm cache.keys

/-- The frames that the first cache shows at its demand points are in the second one, which shows them there. -/
def Spares (cache cache' : FrameCache T) : Prop := ∀ point ∈ cache.demand, ∀ key, cache.shown point = some key →
  SortedMap.get? cache'.frames key = SortedMap.get? cache.frames key ∧ cache'.shown point = some key

section

variable {cache cache' : FrameCache T} {key point : ℤ} {frame : T}

theorem Arranged.nodup (h : cache.Arranged) : cache.order.Nodup := h.order.nodup_iff.mpr (nodup_keys h.sorted)

theorem mem_order (h : cache.Arranged) : key ∈ cache.order ↔ ∃ frame, SortedMap.get? cache.frames key = some frame :=
  h.order.mem_iff.trans SortedMap.mem_keys

theorem mem_of_maxBy? {le : ℤ → ℤ → Bool} {as : List ℤ} {a : ℤ} (h : maxBy? le as = some a) : a ∈ as := by
  have hfold (as : List ℤ) (best : ℤ) : as.foldl (fun best next => if le best next then next else best) best ∈ best :: as := by
    induction as generalizing best with
    | nil => exact mem_singleton_self _
    | cons next as ih =>
      rw [foldl_cons]
      rcases mem_cons.mp (ih (if le best next then next else best)) with heq | hmem
      · rw [heq]
        split
        · exact mem_cons_of_mem _ mem_cons_self
        · exact mem_cons_self
      · exact mem_cons_of_mem _ (mem_cons_of_mem _ hmem)
  cases as with
  | nil => cases h
  | cons first as =>
    obtain rfl := Option.some.inj h
    exact hfold as first

/-- What is shown at a point is the resident frame with the greatest time at or before it. -/
theorem shown_eq_some (h : SortedMap.Sorted (· < ·) cache.frames) : cache.shown point = some key ↔
    key ∈ cache.keys ∧ key ≤ point ∧ ∀ other ∈ cache.keys, other ≤ point → other ≤ key := by
  have hlast (entry : ℤ × T) (hentry : (cache.frames.filter fun entry => entry.1 ≤ point).getLast? = some entry) :
      entry.1 ∈ cache.keys ∧ entry.1 ≤ point ∧ ∀ other ∈ cache.keys, other ≤ point → other ≤ entry.1 := by
    obtain ⟨before, hbefore⟩ := getLast?_eq_some_iff.mp hentry
    have hmem : entry ∈ cache.frames.filter fun entry => entry.1 ≤ point := hbefore ▸ mem_append_right _ (mem_singleton_self _)
    obtain ⟨hresident, hle⟩ := mem_filter.mp hmem
    refine ⟨mem_map_of_mem hresident, of_decide_eq_true hle, fun other hother hpoint => ?_⟩
    obtain ⟨entry', hentry', rfl⟩ := mem_map.mp hother
    have hmem' : entry' ∈ before ++ [entry] := hbefore ▸ mem_filter.mpr ⟨hentry', decide_eq_true hpoint⟩
    have hsorted : SortedMap.Sorted (· < ·) (before ++ [entry]) := hbefore ▸ h.filter _
    rcases mem_append.mp hmem' with hearlier | hsame
    · exact (pairwise_append.mp hsorted).2.2 entry' hearlier entry (mem_singleton_self _) |>.le
    · rw [mem_singleton.mp hsame]
  rw [shown, Option.map_eq_some_iff]
  constructor
  · rintro ⟨entry, hentry, rfl⟩
    exact hlast entry hentry
  · rintro ⟨hkey, hpoint, hgreatest⟩
    obtain ⟨entry, hentry, rfl⟩ := mem_map.mp hkey
    have hne : (cache.frames.filter fun entry => entry.1 ≤ point) ≠ [] :=
      ne_nil_of_mem (mem_filter.mpr ⟨hentry, decide_eq_true hpoint⟩)
    obtain ⟨last, hlast'⟩ := Option.isSome_iff_exists.mp (getLast?_isSome.mpr hne)
    obtain ⟨hresident, hle, hlatest⟩ := hlast last hlast'
    exact ⟨last, hlast', le_antisymm (hgreatest _ hresident hle) (hlatest _ hkey hpoint)⟩

theorem shown_eq_none : cache.shown point = none ↔ ∀ other ∈ cache.keys, ¬ other ≤ point := by
  rw [shown, Option.map_eq_none_iff, getLast?_eq_none_iff, filter_eq_nil_iff, keys, forall_mem_map]
  simp only [decide_eq_true_eq]

theorem mem_pinned : key ∈ cache.pinned ↔ ∃ point ∈ cache.demand, cache.shown point = some key := mem_filterMap

/-- A cache spares what is shown if it keeps what is pinned. -/
theorem spares_of_keeps (h : SortedMap.Sorted (· < ·) cache.frames) (h' : SortedMap.Sorted (· < ·) cache'.frames)
    (hkeeps : ∀ key ∈ cache.pinned, SortedMap.get? cache'.frames key = SortedMap.get? cache.frames key)
    (hfewer : ∀ key ∈ cache'.keys, key ∈ cache.keys) : cache.Spares cache' := by
  intro point hpoint key hkey
  have hget := hkeeps key (mem_pinned.mpr ⟨point, hpoint, hkey⟩)
  obtain ⟨hresident, hle, hgreatest⟩ := (shown_eq_some h).mp hkey
  refine ⟨hget, (shown_eq_some h').mpr ⟨?_, hle, fun other hother => hgreatest other (hfewer other hother)⟩⟩
  rw [keys, SortedMap.mem_keys, hget]
  exact SortedMap.mem_keys.mp hresident

end

variable [CachedFrame T]

/-- The buffers of the resident frames. -/
def buffers (cache : FrameCache T) : List (ℕ × ℕ) := cache.frames.map fun entry => buffer entry.2

/-- The bytes of the cache are those of the distinct resident buffers. -/
def Accounted (cache : FrameCache T) : Prop := Charged cache.buffers cache.residency cache.byteLen

/-- A frame shares a buffer only with frames of its size, and it fits the integers together with what is resident. -/
structure Fits (cache : FrameCache T) (frame : T) : Prop where
  agree : ∀ entry ∈ cache.frames, sharedBufferId entry.2 = sharedBufferId frame → CachedFrame.byteLen entry.2 = CachedFrame.byteLen frame
  bytes : total (buffer frame :: cache.buffers) < 2 ^ 64
  frames : cache.frames.length + 1 < 2 ^ 64

section

variable {cache cache' : FrameCache T} {frame : T} {key point : ℤ} {held : List (ℕ × ℕ)}

/-! ## Retaining and releasing bytes -/

theorem retainBytes_charged (h : Charged held cache.residency cache.byteLen) (hagree : ∀ other ∈ held, other.1 = sharedBufferId frame → other = buffer frame)
    (hbytes : total (buffer frame :: held) < 2 ^ 64) (hcount : held.length + 1 < 2 ^ 64) :
    Charged (buffer frame :: held) (cache.retainBytes frame).residency (cache.retainBytes frame).byteLen := by
  have hretained : Charged (buffer frame :: held) _ _ := h.retain hagree
  have hholders : holders held (sharedBufferId frame) ≤ held.length := countP_le_length
  have hentries : saturatingAdd ((cache.residency.get? (sharedBufferId frame)).getD 0) 1 = holders held (sharedBufferId frame) + 1 := by
    rw [h.get?_getD, saturatingAdd]
    omega
  have hcharge := hretained.charge
  rw [retainBytes]
  simp only [hentries]
  rw [← hcharge] at hbytes
  by_cases hfirst : holders held (sharedBufferId frame) + 1 = 1
  · rw [if_pos hfirst]
    have hfirst' : holders held (buffer frame).1 + 1 = 1 := hfirst
    rw [if_pos hfirst'] at hretained hbytes
    have hsum : saturatingAdd cache.byteLen (CachedFrame.byteLen frame) = cache.byteLen + (buffer frame).2 := by
      rw [saturatingAdd, min_eq_left (by exact Nat.le_sub_one_of_lt hbytes)]
      rfl
    rw [hsum]
    exact hretained
  · rw [if_neg hfirst]
    have hfirst' : ¬ holders held (buffer frame).1 + 1 = 1 := hfirst
    rw [if_neg hfirst'] at hretained
    exact hretained

theorem releaseBytes_charged (h : Charged (buffer frame :: held) cache.residency cache.byteLen) :
    Charged held (cache.releaseBytes frame).residency (cache.releaseBytes frame).byteLen := by
  obtain ⟨hentries, hreleased⟩ := h.release
  have hget : cache.residency.get? (sharedBufferId frame) = some (holders held (sharedBufferId frame) + 1) := hentries
  rw [releaseBytes, hget]
  simp only [Nat.add_sub_cancel]
  by_cases hlast : holders held (sharedBufferId frame) = 0
  · have hlast' : holders held (buffer frame).1 = 0 := hlast
    rw [if_pos hlast', if_pos hlast'] at hreleased
    rw [if_pos hlast]
    exact hreleased
  · have hlast' : ¬ holders held (buffer frame).1 = 0 := hlast
    rw [if_neg hlast', if_neg hlast'] at hreleased
    rw [if_neg hlast]
    exact hreleased

/-- Releasing bytes changes only what is charged. -/
theorem releaseBytes_eq (cache : FrameCache T) (frame : T) : cache.releaseBytes frame =
    { cache with residency := (cache.releaseBytes frame).residency, byteLen := (cache.releaseBytes frame).byteLen } := by
  rw [releaseBytes]
  split
  · rfl
  · split
    · rfl
    · rfl

/-! ## Removing an entry -/

@[simp] theorem releaseBytes_frames : (cache.releaseBytes frame).frames = cache.frames := by rw [releaseBytes_eq]

@[simp] theorem releaseBytes_order : (cache.releaseBytes frame).order = cache.order := by rw [releaseBytes_eq]

@[simp] theorem releaseBytes_demand : (cache.releaseBytes frame).demand = cache.demand := by rw [releaseBytes_eq]

@[simp] theorem releaseBytes_capacity : (cache.releaseBytes frame).capacity = cache.capacity := by rw [releaseBytes_eq]

omit [CachedFrame T] in
theorem keys_erase (key : ℤ) (frames : List (ℤ × T)) : (SortedMap.erase key frames).map Prod.fst = (frames.map Prod.fst).filter (· ≠ key) := by
  rw [SortedMap.erase, filter_map]
  rfl

/-- What a call that evicts leaves of a cache. -/
structure Evicts (pinned : List ℤ) (cache cache' : FrameCache T) : Prop where
  arranged : cache'.Arranged
  accounted : cache.Accounted → cache'.Accounted
  frames : ∀ key, SortedMap.get? cache'.frames key = SortedMap.get? cache.frames key ∨
    key ∉ pinned ∧ SortedMap.get? cache'.frames key = none
  demand : cache'.demand = cache.demand
  capacity : cache'.capacity = cache.capacity

variable {pinned : List ℤ}

theorem Evicts.refl (h : cache.Arranged) : Evicts pinned cache cache := ⟨h, id, fun _ => .inl rfl, rfl, rfl⟩

theorem Evicts.trans {cache'' : FrameCache T} (h : Evicts pinned cache cache') (h' : Evicts pinned cache' cache'') :
    Evicts pinned cache cache'' where
  arranged := h'.arranged
  accounted := h'.accounted ∘ h.accounted
  frames key := by
    rcases h'.frames key with hsame | hgone
    · rw [hsame]
      exact h.frames key
    · exact .inr hgone
  demand := h'.demand.trans h.demand
  capacity := h'.capacity.trans h.capacity

/-- What is shown is pinned, so an eviction spares it. -/
theorem Evicts.spares (h : Evicts cache.pinned cache cache') (harranged : cache.Arranged) : cache.Spares cache' := by
  refine spares_of_keeps harranged.sorted h.arranged.sorted (fun key hkey => ?_) fun key hkey => ?_
  · exact (h.frames key).resolve_right fun hgone => hgone.1 hkey
  · rw [keys, SortedMap.mem_keys] at hkey ⊢
    obtain ⟨frame, hframe⟩ := hkey
    rcases h.frames key with hsame | ⟨-, hgone⟩
    · exact ⟨frame, hsame ▸ hframe⟩
    · cases hgone.symm.trans hframe

/-- A resident frame is removed, with its place in the order. -/
theorem evicts_removeEntry {order : List ℤ} (h : cache.Arranged) (horder : order = cache.order.filter (· ≠ key)) (hkey : key ∉ pinned) :
    Evicts pinned cache ({ cache with order }.removeEntry key) := by
  subst horder
  rw [removeEntry]
  split
  · rename_i hnone
    have horder : cache.order.filter (· ≠ key) = cache.order := by
      refine filter_eq_self.mpr fun other hother => ?_
      obtain ⟨frame, hframe⟩ := (mem_order h).mp hother
      rw [decide_eq_true_eq]
      rintro rfl
      cases hnone.symm.trans hframe
    rw [horder]
    exact .refl h
  · rename_i frame hframe
    have hperm := perm_of_get? h.sorted hframe
    refine ⟨⟨?_, ?_⟩, fun haccounted => ?_, fun other => ?_, releaseBytes_demand, releaseBytes_capacity⟩
    · rw [releaseBytes_frames]
      exact sorted_erase h.sorted key
    · rw [releaseBytes_order, keys, releaseBytes_frames, keys_erase]
      exact h.order.filter _
    · rw [Accounted, buffers, releaseBytes_frames]
      exact releaseBytes_charged (haccounted.perm (hperm.map fun entry : ℤ × T => buffer entry.2))
    · rw [releaseBytes_frames, get?_erase]
      by_cases hother : key = other
      · subst hother
        exact .inr ⟨hkey, if_pos rfl⟩
      · exact .inl (if_neg hother)

/-- Unpinned entries are evicted until the rest fits or is pinned. By induction on the entries that are left. -/
theorem evicts_evictUnpinned (pinned : List ℤ) {fuel : ℕ} (h : cache.Arranged) (hfuel : cache.order.length ≤ fuel) :
    Evicts pinned cache (evictUnpinned pinned fuel cache) ∧
      ((evictUnpinned pinned fuel cache).frames.length ≤ cache.capacity ∨ ∀ key ∈ (evictUnpinned pinned fuel cache).keys, key ∈ pinned) := by
  induction fuel generalizing cache with
  | zero =>
    have hnone : cache.order = [] := length_eq_zero_iff.mp (Nat.le_zero.mp hfuel)
    have hkeys : cache.keys = [] := (hnone ▸ h.order).nil_eq.symm
    refine ⟨.refl h, .inr ?_⟩
    rw [evictUnpinned, hkeys]
    exact forall_mem_nil _
  | succ fuel ih =>
    rw [evictUnpinned]
    by_cases hroom : cache.frames.length ≤ cache.capacity
    · rw [if_pos hroom]
      exact ⟨.refl h, .inl hroom⟩
    · rw [if_neg hroom]
      split
      · rename_i hall
        refine ⟨.refl h, .inr fun key hkey => ?_⟩
        rw [find?_eq_none] at hall
        simpa using hall key (h.order.mem_iff.mpr hkey)
      · rename_i oldest holdest
        have hunpinned : oldest ∉ pinned := by simpa using find?_some holdest
        have hmem := mem_of_find?_eq_some holdest
        have horder : cache.order.erase oldest = cache.order.filter (· ≠ oldest) := by
          rw [h.nodup.erase_eq_filter]
          exact filter_congr fun _ _ => Bool.eq_iff_iff.mpr (by simp)
        have hremoved := evicts_removeEntry h horder hunpinned
        have hlength : (({ cache with order := cache.order.erase oldest }.removeEntry oldest).order).length ≤ fuel := by
          have horder : ({ cache with order := cache.order.erase oldest }.removeEntry oldest).order = cache.order.erase oldest := by
            rw [removeEntry]
            split
            · rfl
            · rw [releaseBytes_order]
          rw [horder, length_erase_of_mem hmem]
          omega
        obtain ⟨hevicts, hends⟩ := ih hremoved.arranged hlength
        refine ⟨hremoved.trans hevicts, ?_⟩
        rwa [hremoved.capacity] at hends

/-! ## The calls -/

section

variable (h : cache.Arranged)

include h

/-- The cache with a frame at its time. -/
theorem place_spec (key : ℤ) (frame : T) : (cache.place key frame).Arranged ∧
    (cache.place key frame).frames = SortedMap.put (· < ·) key frame cache.frames ∧
    (cache.place key frame).demand = cache.demand ∧ (cache.place key frame).capacity = cache.capacity ∧
    (cache.Accounted → cache.Fits frame → (cache.place key frame).Accounted) := by
  have hperm := perm_put (a := frame) (k := key) h.sorted
  have hsorted : SortedMap.Sorted (· < ·) (SortedMap.put (· < ·) key frame cache.frames) := sorted_put h.sorted
  have horder : (cache.order.filter (· ≠ key) ++ [key]).Perm ((SortedMap.put (· < ·) key frame cache.frames).map Prod.fst) := by
    refine (perm_append_singleton key _).trans ((hperm.map Prod.fst).trans ?_).symm
    rw [map_cons, keys_erase]
    exact (h.order.filter _).symm.cons key
  have hbuffers : (buffer frame :: (SortedMap.erase key cache.frames).map fun entry => buffer entry.2).Perm
      ((SortedMap.put (· < ·) key frame cache.frames).map fun entry => buffer entry.2) :=
    (hperm.map fun entry : ℤ × T => buffer entry.2).symm
  have hretained (haccounted : cache.Accounted) (hfits : cache.Fits frame) :
      Charged (buffer frame :: cache.buffers) (cache.retainBytes frame).residency (cache.retainBytes frame).byteLen := by
    refine retainBytes_charged haccounted (forall_mem_map.mpr fun entry hentry hid => ?_) hfits.bytes ?_
    · exact Prod.ext hid (hfits.agree entry hentry hid)
    · rw [buffers, length_map]
      exact hfits.frames
  rw [place]
  cases hget : SortedMap.get? cache.frames key with
  | none =>
    have hframes : SortedMap.get? (cache.retainBytes frame).frames key = none := hget
    have hkept : cache.order.filter (· ≠ key) = cache.order := by
      refine filter_eq_self.mpr fun other hother => ?_
      obtain ⟨frame', hframe'⟩ := (mem_order h).mp hother
      rw [decide_eq_true_eq]
      rintro rfl
      cases hget.symm.trans hframe'
    have herase : SortedMap.erase key cache.frames = cache.frames := erase_eq_self (key_ne_of_get? hget)
    rw [hkept] at horder
    rw [herase] at hbuffers
    simp only [hframes]
    exact ⟨⟨hsorted, horder⟩, rfl, rfl, rfl, fun haccounted hfits => (hretained haccounted hfits).perm hbuffers⟩
  | some replaced =>
    have hframes : SortedMap.get? (cache.retainBytes frame).frames key = some replaced := hget
    simp only [hframes]
    refine ⟨⟨?_, ?_⟩, releaseBytes_frames, releaseBytes_demand, releaseBytes_capacity, fun haccounted hfits => ?_⟩
    · rw [releaseBytes_frames]
      exact hsorted
    · rw [releaseBytes_frames, releaseBytes_order]
      exact horder
    · rw [releaseBytes_frames]
      have hold : cache.buffers.Perm (buffer replaced :: (SortedMap.erase key cache.frames).map fun entry => buffer entry.2) :=
        (perm_of_get? h.sorted hget).map fun entry : ℤ × T => buffer entry.2
      have hboth := ((hretained haccounted hfits).perm (hold.cons (buffer frame))).perm (Perm.swap _ _ _)
      refine Charged.perm (releaseBytes_charged ?_) hbuffers
      exact hboth

/-- An insertion spares what is shown once the frame is there, and leaves no more than the capacity besides. -/
theorem insert_spec (key : ℤ) (frame : T) :
    (cache.insert key frame).Arranged ∧ (cache.place key frame).Spares (cache.insert key frame) ∧
      (cache.insert key frame).capacity = cache.capacity ∧
      ((cache.insert key frame).frames.length ≤ cache.capacity ∨ ∀ resident ∈ (cache.insert key frame).keys, resident ∈ (cache.insert key frame).pinned) ∧
      (cache.Accounted → cache.Fits frame → (cache.insert key frame).Accounted) := by
  obtain ⟨harranged, -, -, hcapacity, haccounted⟩ := place_spec h key frame
  rw [insert]
  by_cases hroom : (cache.place key frame).frames.length ≤ (cache.place key frame).capacity
  · simp only [if_pos hroom]
    exact ⟨harranged, fun _ _ _ hshown => ⟨rfl, hshown⟩, hcapacity, .inl (hcapacity ▸ hroom), haccounted⟩
  · simp only [if_neg hroom]
    obtain ⟨hevicts, hends⟩ := evicts_evictUnpinned (cache.place key frame).pinned harranged le_rfl
    have hspares := hevicts.spares harranged
    refine ⟨hevicts.arranged, hspares, hevicts.capacity.trans hcapacity, ?_, fun hbefore hfits => hevicts.accounted (haccounted hbefore hfits)⟩
    rw [hcapacity] at hends
    refine hends.imp_right fun hall resident hresident => ?_
    obtain ⟨point, hpoint, hshown⟩ := mem_pinned.mp (hall resident hresident)
    exact mem_pinned.mpr ⟨point, hevicts.demand.symm ▸ hpoint, (hspares point hpoint resident hshown).2⟩

theorem evictFarthest_spec : Evicts cache.pinned cache cache.evictFarthest.2 := by
  rw [evictFarthest]
  split
  · exact .refl h
  · rename_i victim hvictim
    refine evicts_removeEntry h rfl ?_
    have hmem := mem_of_maxBy? hvictim
    simpa using (mem_filter.mp hmem).2

theorem evictOldest_spec : Evicts [] cache cache.evictOldest.2 := by
  rw [evictOldest]
  split
  · exact .refl h
  · rename_i oldest order horder
    refine evicts_removeEntry h ?_ not_mem_nil
    have hnodup := h.nodup
    rw [horder] at hnodup ⊢
    rw [filter_cons, if_neg (by simp)]
    refine (filter_eq_self.mpr fun other hother => ?_).symm
    rw [decide_eq_true_eq]
    rintro rfl
    exact (nodup_cons.mp hnodup).1 hother

/-- A key that is used goes to the end of the order. -/
theorem evicts_use (hkey : key ∈ cache.keys) : Evicts [] cache { cache with order := cache.order.filter (· ≠ key) ++ [key] } where
  arranged := by
    refine ⟨h.sorted, (perm_append_singleton key _).trans ?_⟩
    have hmem : key ∈ cache.order := h.order.mem_iff.mpr hkey
    have herase : cache.order.erase key = cache.order.filter (· ≠ key) := by
      rw [h.nodup.erase_eq_filter]
      exact filter_congr fun _ _ => Bool.eq_iff_iff.mpr (by simp)
    rw [← herase]
    exact (perm_cons_erase hmem).symm.trans h.order
  accounted := id
  frames _ := .inl rfl
  demand := rfl
  capacity := rfl

theorem frameAtOrBefore_spec (time : ℤ) : Evicts [] cache (cache.frameAtOrBefore time).2 := by
  rw [frameAtOrBefore]
  split
  · exact .refl h
  · rename_i key hkey
    split
    · exact .refl h
    · exact evicts_use h ((shown_eq_some h.sorted).mp hkey).1

theorem frameAtOrBeforeBounded_spec (time : ℤ) (maxRetainedBytes : ℕ) :
    Evicts [] cache (cache.frameAtOrBeforeBounded time maxRetainedBytes).2 := by
  rw [frameAtOrBeforeBounded]
  split
  · exact .refl h
  · rename_i key hkey
    split
    · exact frameAtOrBefore_spec h time
    · obtain ⟨frame, hframe⟩ := SortedMap.mem_keys.mp ((shown_eq_some h.sorted).mp hkey).1
      have hremoved := evicts_removeEntry h rfl (not_mem_nil (a := key))
      rw [removeEntry] at hremoved
      simp only [hframe] at hremoved ⊢
      exact hremoved

end

/-! ## Runs -/

/-- Every frame that the calls insert fits the cache that it is inserted into. -/
def AllFit (cache : FrameCache T) (calls : List (CacheCall T)) : Prop :=
  ∀ before key frame after, calls = before ++ .insert key frame :: after → (cache.afterAll before).Fits frame

theorem arranged_after (h : cache.Arranged) (call : CacheCall T) : (cache.after call).Arranged ∧ (cache.after call).capacity = cache.capacity ∧
    ((∀ key frame, call = .insert key frame → cache.Fits frame) → cache.Accounted → (cache.after call).Accounted) := by
  have hevicts {pinned : List ℤ} {cache' : FrameCache T} (hspec : Evicts pinned cache cache') (hafter : cache.after call = cache') :
      (cache.after call).Arranged ∧ (cache.after call).capacity = cache.capacity ∧
        ((∀ key frame, call = .insert key frame → cache.Fits frame) → cache.Accounted → (cache.after call).Accounted) :=
    hafter ▸ ⟨hspec.arranged, hspec.capacity, fun _ => hspec.accounted⟩
  cases call with
  | insert key frame =>
    obtain ⟨harranged, -, hcapacity, -, haccounted⟩ := insert_spec h key frame
    exact ⟨harranged, hcapacity, fun hfits hbefore => haccounted hbefore (hfits key frame rfl)⟩
  | setDemand points | clearDemand => exact ⟨⟨h.sorted, h.order⟩, rfl, fun _ => id⟩
  | frameAtOrBefore time => exact hevicts (frameAtOrBefore_spec h time) rfl
  | frameAtOrBeforeBounded time maxRetainedBytes => exact hevicts (frameAtOrBeforeBounded_spec h time maxRetainedBytes) rfl
  | evictFarthest => exact hevicts (evictFarthest_spec h) rfl
  | evictOldest => exact hevicts (evictOldest_spec h) rfl

theorem arranged_afterAll (h : cache.Arranged) (calls : List (CacheCall T)) : (cache.afterAll calls).Arranged ∧
    (cache.afterAll calls).capacity = cache.capacity ∧ (cache.AllFit calls → cache.Accounted → (cache.afterAll calls).Accounted) := by
  induction calls generalizing cache with
  | nil => exact ⟨h, rfl, fun _ => id⟩
  | cons call calls ih =>
    obtain ⟨harranged, hcapacity, haccounted⟩ := arranged_after h call
    obtain ⟨hall, hcapacity', haccounted'⟩ := ih harranged
    refine ⟨hall, hcapacity'.trans hcapacity, fun hfit hbefore => haccounted' ?_ (haccounted ?_ hbefore)⟩
    · rintro before key frame after rfl
      exact hfit (call :: before) key frame after rfl
    · rintro key frame rfl
      exact hfit [] key frame calls rfl

omit [CachedFrame T] in
theorem frameAtOrBefore_eq_some (h : cache.Arranged) {time : ℤ} : (cache.frameAtOrBefore time).1 = some frame ↔
    ∃ key, SortedMap.get? cache.frames key = some frame ∧ key ≤ time ∧ ∀ other ∈ cache.keys, other ≤ time → other ≤ key := by
  rw [frameAtOrBefore]
  split
  · rename_i hnone
    constructor
    · intro hsome
      cases hsome
    · rintro ⟨key, hkey, hle, -⟩
      exact absurd hle (shown_eq_none.mp hnone key (SortedMap.mem_keys.mpr ⟨frame, hkey⟩))
  · rename_i key hshown
    obtain ⟨hresident, hle, hgreatest⟩ := (shown_eq_some h.sorted).mp hshown
    obtain ⟨found, hfound⟩ := SortedMap.mem_keys.mp hresident
    simp only [hfound, Option.some.injEq]
    constructor
    · rintro rfl
      exact ⟨key, hfound, hle, hgreatest⟩
    · rintro ⟨other, hother, hle', hgreatest'⟩
      have hmem : other ∈ cache.keys := SortedMap.mem_keys.mpr ⟨frame, hother⟩
      obtain rfl := le_antisymm (hgreatest other hmem hle') (hgreatest' key hresident hle)
      exact Option.some.inj (hfound.symm.trans hother)

end

/-- A cache after any calls. Its bytes are those of the resident buffers if the frames that were inserted fit. An insertion spares the
frames that are shown once the new one is at its time. -/
theorem afterAll_new (capacity : ℕ) (calls : List (CacheCall T)) :
    let cache := (new capacity : FrameCache T).afterAll calls
    (cache.order.Perm cache.keys ∧ cache.order.Nodup) ∧
      ((new capacity : FrameCache T).AllFit calls → cache.byteLen = total cache.buffers) ∧
      (∀ key frame, ((cache.place key frame).frames = SortedMap.put (· < ·) key frame cache.frames ∧ (cache.place key frame).demand = cache.demand) ∧
        (cache.place key frame).Spares (cache.insert key frame) ∧
        ((cache.insert key frame).frames.length ≤ capacity ∨
          ∀ resident ∈ (cache.insert key frame).keys, resident ∈ (cache.insert key frame).pinned)) ∧
      cache.Spares cache.evictFarthest.2 ∧
      ∀ time frame, (cache.frameAtOrBefore time).1 = some frame ↔
        ∃ key, SortedMap.get? cache.frames key = some frame ∧ key ≤ time ∧ ∀ other ∈ cache.keys, other ≤ time → other ≤ key := by
  intro cache
  have hnew : (new capacity : FrameCache T).Arranged := ⟨.nil, .nil⟩
  obtain ⟨harranged, hcapacity, haccounted⟩ := arranged_afterAll hnew calls
  refine ⟨⟨harranged.order, harranged.nodup⟩, fun hfit => (haccounted hfit charged_nil).charge, fun key frame => ?_,
    (evictFarthest_spec harranged).spares harranged, fun time frame => frameAtOrBefore_eq_some harranged⟩
  obtain ⟨-, hframes, hdemand, -, -⟩ := place_spec harranged key frame
  obtain ⟨-, hspares, -, hends, -⟩ := insert_spec harranged key frame
  rw [hcapacity] at hends
  exact ⟨⟨hframes, hdemand⟩, hspares, hends⟩

/-- A frame that is its buffer. -/
structure SharedFrame where
  id : ℕ
  bytes : ℕ
deriving DecidableEq

instance : CachedFrame SharedFrame := ⟨SharedFrame.bytes, SharedFrame.id⟩

/-- The frame that is shown at a point is evicted by an insertion that takes the point over. The bytes of two frames need not fit. -/
theorem taken_over : (¬ ∀ (capacity : ℕ) (calls : List (CacheCall SharedFrame)) (key : ℤ) (frame : SharedFrame),
      ((new capacity).afterAll calls).Spares (((new capacity).afterAll calls).insert key frame)) ∧
    ¬ ∀ (capacity : ℕ) (calls : List (CacheCall SharedFrame)),
      (∀ key frame key' frame', .insert key frame ∈ calls → .insert key' frame' ∈ calls → frame.id = frame'.id → frame.bytes = frame'.bytes) →
        ((new capacity).afterAll calls).byteLen = total ((new capacity).afterAll calls).buffers := by
  constructor
  · intro h
    let cache : FrameCache SharedFrame := (new 1).afterAll [.setDemand [5], .insert 3 ⟨0, 4⟩]
    have hshown : cache.shown 5 = some 3 := by decide +kernel
    have hkept := (h 1 [.setDemand [5], .insert 3 ⟨0, 4⟩] 4 ⟨1, 4⟩ 5 (by decide) 3 hshown).1
    revert hkept
    decide +kernel
  · intro h
    have hbytes (key : ℤ) (frame : SharedFrame) (hframe : CacheCall.insert key frame ∈ [.insert 0 ⟨0, 2 ^ 63⟩, .insert 1 ⟨1, 2 ^ 63⟩]) :
        frame.bytes = 2 ^ 63 := by
      rcases mem_pair.mp hframe with heq | heq
      all_goals
        cases heq
        rfl
    have hsum := h 2 _ fun key frame key' frame' hframe hframe' _ => (hbytes key frame hframe).trans (hbytes key' frame' hframe').symm
    revert hsum
    decide +kernel

end FrameCache

end Kinewright.Media
