import Mathlib.Algebra.Order.Ring.Int
import Mathlib.Data.List.Induction

/-!
# Cheapest divisions of a list

A list is divided into a number of nonempty parts, at the stops behind them. The cost of a division grows part by part. The
cheapest division of every front of the list, into every number of parts, fills a table row by row, and parents in the table
lead back from the whole list.
-/

namespace Divisions

open List

variable {α : Type*}

/-! ## Parts and stops -/

/-- The stops behind the parts, from where the first one starts. -/
def stopsFrom (start : ℕ) : List (List α) → List ℕ
  | [] => []
  | part :: parts => (start + part.length) :: stopsFrom (start + part.length) parts

/-- The parts of a list in front of the stops. -/
def cutFrom (xs : List α) (start : ℕ) : List ℕ → List (List α)
  | [] => []
  | stop :: stops => (xs.drop start).take (stop - start) :: cutFrom xs stop stops

theorem stopsFrom_append (start : ℕ) (parts parts' : List (List α)) :
    stopsFrom start (parts ++ parts') = stopsFrom start parts ++ stopsFrom (start + parts.flatten.length) parts' := by
  induction parts generalizing start with
  | nil => rfl
  | cons part parts ih =>
    rw [cons_append, stopsFrom, ih, stopsFrom, cons_append, flatten_cons, length_append, Nat.add_assoc]

theorem map_add_stopsFrom (offset start : ℕ) (parts : List (List α)) :
    (stopsFrom start parts).map (offset + ·) = stopsFrom (offset + start) parts := by
  induction parts generalizing start with
  | nil => rfl
  | cons part parts ih => rw [stopsFrom, map_cons, ih, stopsFrom, Nat.add_assoc]

theorem length_stopsFrom (start : ℕ) (parts : List (List α)) : (stopsFrom start parts).length = parts.length := by
  induction parts generalizing start with
  | nil => rfl
  | cons part parts ih => rw [stopsFrom, length_cons, ih, length_cons]

/-- Cutting a list behind the parts that it is made of gives back the parts. -/
theorem cutFrom_stopsFrom (front : List α) (parts : List (List α)) (rest : List α) :
    cutFrom (front ++ (parts.flatten ++ rest)) front.length (stopsFrom front.length parts) = parts := by
  induction parts generalizing front with
  | nil => rfl
  | cons part parts ih =>
    have hwhole : front ++ ((part :: parts).flatten ++ rest) = (front ++ part) ++ (parts.flatten ++ rest) := by
      simp
    have hlength : front.length + part.length = (front ++ part).length := length_append.symm
    rw [stopsFrom, cutFrom, hlength, hwhole, ih (front ++ part), append_assoc, drop_left', length_append,
      Nat.add_sub_cancel_left, take_left']
    · rfl
    · rfl

/-! ## Costs -/

/-- What a division costs whose parts cost each by itself. -/
def total (part : ℕ → ℕ → ℕ → ℕ) (used start : ℕ) : List ℕ → ℕ
  | [] => 0
  | stop :: stops => part (used + 1) start stop + total part (used + 1) stop stops

theorem total_concat (part : ℕ → ℕ → ℕ → ℕ) (used start : ℕ) (stops : List ℕ) (stop : ℕ) :
    total part used start (stops ++ [stop]) =
      total part used start stops + part (used + stops.length + 1) (stops.getLastD start) stop := by
  induction stops generalizing used start with
  | nil => simp [total]
  | cons s stops ih =>
    have hused : used + 1 + stops.length + 1 = used + (s :: stops).length + 1 := by rw [length_cons]; omega
    rw [cons_append, total, ih, total, hused, getLastD_cons]
    omega

section

variable (extend : ℕ → ℕ → ℕ → ℕ → ℕ)

/-- A front of the list is divided, part by part. `extend used start stop cost` is what it costs with the part from `start` to
`stop` as its part number `used`. -/
inductive Divides : ℕ → ℕ → List ℕ → ℕ → Prop
  | none : Divides 0 0 [] 0
  | part {used start stop cost : ℕ} {stops : List ℕ} : Divides used start stops cost → start < stop →
        Divides (used + 1) stop (stops ++ [stop]) (extend (used + 1) start stop cost)

variable {extend} {stops : List ℕ}

theorem Divides.used_le {used stop cost : ℕ} (h : Divides extend used stop stops cost) :
    used ≤ stop ∧ (used = 0 → stop = 0) := by
  induction h with
  | none => exact ⟨le_rfl, fun _ => rfl⟩
  | part _ hlt ih => exact ⟨by omega, fun h => absurd h (Nat.succ_ne_zero _)⟩

theorem Divides.shape {used stop cost : ℕ} (h : Divides extend used stop stops cost) :
    stops.length = used ∧ stops.getLastD 0 = stop := by
  induction h with
  | none => exact ⟨rfl, rfl⟩
  | part _ _ ih => exact ⟨by rw [length_append, ih.1, length_singleton], getLastD_concat⟩

/-- While the costs stay below a limit up to which they add up, a division costs what its parts cost. -/
theorem Divides.cost_eq {part : ℕ → ℕ → ℕ → ℕ} {limit : ℕ}
    (hextend : ∀ used start stop cost, cost + part used start stop < limit →
      extend used start stop cost = cost + part used start stop) {used stop cost : ℕ}
    (h : Divides extend used stop stops cost) (hlimit : total part 0 0 stops < limit) :
    cost = total part 0 0 stops := by
  induction h with
  | none => rfl
  | part hfront _ ih =>
    rw [total_concat, hfront.shape.1, hfront.shape.2, Nat.zero_add] at hlimit ⊢
    have hcost := ih (by omega)
    rw [← hcost] at hlimit ⊢
    exact hextend _ _ _ _ hlimit

/-- The stops of nonempty parts divide a list. -/
theorem exists_divides {parts : List (List α)} (hne : ∀ part ∈ parts, part ≠ []) :
    ∃ cost, Divides extend parts.length parts.flatten.length (stopsFrom 0 parts) cost := by
  induction parts using List.reverseRecOn with
  | nil => exact ⟨0, .none⟩
  | append_singleton parts part ih =>
    obtain ⟨cost, hcost⟩ := ih fun p hp => hne p (mem_append_left _ hp)
    have hpos : 0 < part.length := length_pos_iff.mpr (hne part (by simp))
    have hlt : parts.flatten.length < parts.flatten.length + part.length := by omega
    rw [stopsFrom_append, length_append, flatten_append, length_append, flatten_singleton, Nat.zero_add]
    exact ⟨_, .part hcost hlt⟩

/-- What is divided at stops is divided into nonempty parts. -/
theorem Divides.exists_parts {used stop cost : ℕ} (h : Divides extend used stop stops cost) {xs : List α}
    (hlen : stop ≤ xs.length) : ∃ parts : List (List α), parts.length = used ∧ (∀ part ∈ parts, part ≠ []) ∧
      parts.flatten = xs.take stop ∧ stops = stopsFrom 0 parts := by
  induction h with
  | none => exact ⟨[], rfl, fun part h => absurd h not_mem_nil, rfl, rfl⟩
  | @part used start stop cost stops _ hlt ih =>
    obtain ⟨parts, hused, hne, hflatten, rfl⟩ := ih (by omega)
    have hpart : ((xs.take stop).drop start).length = stop - start := by
      rw [length_drop, length_take, Nat.min_eq_left hlen]
    have hfront : parts.flatten.length = start := by
      rw [hflatten, length_take]
      omega
    have htake : xs.take start = (xs.take stop).take start := by rw [take_take, Nat.min_eq_left hlt.le]
    refine ⟨parts ++ [(xs.take stop).drop start], ?_, ?_, ?_, ?_⟩
    · rw [length_append, hused, length_singleton]
    · intro part hmem
      rcases mem_append.mp hmem with hmem | hmem
      · exact hne part hmem
      · rw [mem_singleton.mp hmem]
        exact ne_nil_of_length_pos (by omega)
    · rw [flatten_append, flatten_singleton, hflatten, htake, take_append_drop]
    · rw [stopsFrom_append]
      congr 2
      omega

end

/-! ## The table -/

/-- What is known of the divisions of a front of the list: the least cost, and where the last part starts. -/
structure Slot where
  cost : ℕ
  parent : Option ℕ

section

variable (extend : ℕ → ℕ → ℕ → ℕ → ℕ) (unreachable parts size : ℕ)

def slotAt (row : List Slot) (stop : ℕ) : Slot := row.getD stop ⟨unreachable, none⟩

/-- The last part may start at `start`. -/
def settle (used stop : ℕ) (previous : List Slot) (slot : Slot) (start : ℕ) : Slot :=
  let cost := (slotAt unreachable previous start).cost
  if cost = unreachable then slot
  else if extend used start stop cost < slot.cost then ⟨extend used start stop cost, some start⟩ else slot

/-- The divisions into `used` parts, from those into one part less. Of the list enough is left for the parts to come. -/
def nextRow (used : ℕ) (previous : List Slot) : List Slot :=
  (List.range (size + 1)).map fun stop =>
    if used ≤ stop ∧ stop ≤ size - (parts - used) then
      (List.range' (used - 1) (stop - (used - 1))).foldl (settle extend unreachable used stop previous) ⟨unreachable, none⟩
    else ⟨unreachable, none⟩

/-- The row of the table for `used` parts. -/
def row : ℕ → List Slot
  | 0 => (List.range (size + 1)).map fun stop => ⟨if stop = 0 then 0 else unreachable, none⟩
  | used + 1 => nextRow extend unreachable parts size (used + 1) (row used)

def slot (used stop : ℕ) : Slot := slotAt unreachable (row extend unreachable parts size used) stop

/-- The boundaries that the parents lead back along. -/
def walkBack : ℕ → ℕ → Option (List ℕ)
  | 0, stop => some [stop]
  | used + 1, stop => match (slot extend unreachable parts size (used + 1) stop).parent with
    | none => none
    | some start => (walkBack used start).map (· ++ [stop])

end

section

variable {extend : ℕ → ℕ → ℕ → ℕ → ℕ} {unreachable parts size : ℕ} {stop : ℕ}

theorem slotAt_map (f : ℕ → Slot) (h : stop ≤ size) :
    slotAt unreachable ((List.range (size + 1)).map f) stop = f stop := by
  rw [slotAt, getD_eq_getElem?_getD, getElem?_map, getElem?_range (Nat.lt_succ_of_le h), Option.map_some,
    Option.getD_some]

theorem slot_zero (h : stop ≤ size) :
    slot extend unreachable parts size 0 stop = ⟨if stop = 0 then 0 else unreachable, none⟩ := slotAt_map _ h

theorem slot_succ (extend : ℕ → ℕ → ℕ → ℕ → ℕ) (unreachable : ℕ) {used : ℕ} (hsize : stop ≤ size) (hlow : used + 1 ≤ stop)
    (hhigh : stop ≤ size - (parts - (used + 1))) :
    slot extend unreachable parts size (used + 1) stop = (List.range' used (stop - used)).foldl
      (settle extend unreachable (used + 1) stop (row extend unreachable parts size used)) ⟨unreachable, none⟩ := by
  rw [slot, row, nextRow, slotAt_map _ hsize, if_pos ⟨hlow, hhigh⟩, Nat.add_sub_cancel]

/-- Settling leaves the least cost over the starts that are reached, with where the last part starts that has it. -/
theorem foldl_settle (extend : ℕ → ℕ → ℕ → ℕ → ℕ) (unreachable used stop : ℕ) (previous : List Slot) (starts : List ℕ) (s : Slot) :
    ((starts.foldl (settle extend unreachable used stop previous) s = s) ∨
      ∃ start ∈ starts, (slotAt unreachable previous start).cost ≠ unreachable ∧
        starts.foldl (settle extend unreachable used stop previous) s =
          ⟨extend used start stop (slotAt unreachable previous start).cost, some start⟩) ∧
    (starts.foldl (settle extend unreachable used stop previous) s).cost ≤ s.cost ∧
    ∀ start ∈ starts, (slotAt unreachable previous start).cost ≠ unreachable →
      (starts.foldl (settle extend unreachable used stop previous) s).cost ≤
        extend used start stop (slotAt unreachable previous start).cost := by
  induction starts generalizing s with
  | nil => exact ⟨.inl rfl, le_rfl, fun _ h => absurd h not_mem_nil⟩
  | cons start starts ih =>
    obtain ⟨hfrom, hle, hall⟩ := ih (settle extend unreachable used stop previous s start)
    -- one step keeps the slot, or takes the cost of the start when it is less
    have hstep : (settle extend unreachable used stop previous s start = s ∨
          (slotAt unreachable previous start).cost ≠ unreachable ∧ settle extend unreachable used stop previous s start =
            ⟨extend used start stop (slotAt unreachable previous start).cost, some start⟩) ∧
        (settle extend unreachable used stop previous s start).cost ≤ s.cost ∧
        ((slotAt unreachable previous start).cost ≠ unreachable →
          (settle extend unreachable used stop previous s start).cost ≤
            extend used start stop (slotAt unreachable previous start).cost) := by
      unfold settle
      dsimp only
      split
      · next h => exact ⟨.inl rfl, le_rfl, fun hne => absurd h hne⟩
      · next hreach =>
        split
        · next hless => exact ⟨.inr ⟨hreach, rfl⟩, hless.le, fun _ => le_rfl⟩
        · next hmore => exact ⟨.inl rfl, le_rfl, fun _ => Nat.le_of_not_lt hmore⟩
    refine ⟨?_, hle.trans hstep.2.1, fun start' hmem hreach => ?_⟩
    · rcases hfrom with heq | ⟨start', hmem, hreach, heq⟩
      · rcases hstep.1 with hkeep | ⟨hreach, htake⟩
        · exact .inl (heq.trans hkeep)
        · exact .inr ⟨start, mem_cons_self, hreach, heq.trans htake⟩
      · exact .inr ⟨start', mem_cons_of_mem _ hmem, hreach, heq⟩
    · rcases mem_cons.mp hmem with rfl | hmem
      · exact hle.trans (hstep.2.2 hreach)
      · exact hall start' hmem hreach

/-- The slot of a front holds the least cost of its divisions, and the parents lead back along one that has it. -/
theorem slot_cheapest
    (hmono : ∀ used start stop cost cost', cost ≤ cost' → extend used start stop cost ≤ extend used start stop cost')
    (hreach : ∀ used stop stops cost, used ≤ parts → stop + (parts - used) ≤ size →
      Divides extend used stop stops cost → cost < unreachable) {used : ℕ} (hused : used ≤ parts)
    (hlow : used ≤ stop) (hzero : used = 0 → stop = 0) (hhigh : stop + (parts - used) ≤ size) :
    ∃ stops, walkBack extend unreachable parts size used stop = some (0 :: stops) ∧
      Divides extend used stop stops (slot extend unreachable parts size used stop).cost ∧
      ∀ stops' cost, Divides extend used stop stops' cost → (slot extend unreachable parts size used stop).cost ≤ cost := by
  induction used generalizing stop with
  | zero =>
    obtain rfl := hzero rfl
    rw [slot_zero (Nat.zero_le size)]
    exact ⟨[], rfl, .none, fun _ _ _ => Nat.zero_le _⟩
  | succ used ih =>
    obtain ⟨hfrom, -, hall⟩ := foldl_settle extend unreachable (used + 1) stop (row extend unreachable parts size used)
      (List.range' used (stop - used)) ⟨unreachable, none⟩
    rw [← slot_succ extend unreachable (by omega) hlow (by omega)] at hfrom hall
    -- every division has a last part, whose start is among those settled
    have hleast {stops' : List ℕ} {cost : ℕ} (h : Divides extend (used + 1) stop stops' cost) :
        (slot extend unreachable parts size (used + 1) stop).cost ≤ cost := by
      cases h with
      | @part _ start _ cost stops' hfront hlt =>
        obtain ⟨hle, hstart⟩ := hfront.used_le
        obtain ⟨_, -, hdivides, hmin⟩ := ih (by omega) hle hstart (by omega)
        have hcost := hreach _ _ _ _ (by omega) (by omega) hdivides
        have hmem : start ∈ List.range' used (stop - used) := mem_range'_1.mpr (by omega)
        exact (hall start hmem hcost.ne).trans (hmono _ _ _ _ _ (hmin _ _ hfront))
    rcases hfrom with hnone | ⟨start, hmem, hreached, heq⟩
    · -- the shortest parts there are divide the front, so it is reached
      obtain ⟨_, -, hdivides, -⟩ := ih (by omega) (le_refl used) (by omega) (by omega)
      have hshort := Divides.part hdivides (show used < stop by omega)
      have hcost := hreach _ _ _ _ hused hhigh hshort
      have hle := hleast hshort
      rw [hnone] at hle
      exact absurd hcost (Nat.not_lt.mpr hle)
    · obtain ⟨hfront, hbefore⟩ := mem_range'_1.mp hmem
      have hstart : used = 0 → start = 0 := by
        rintro rfl
        by_contra hne
        have hempty : slotAt unreachable (row extend unreachable parts size 0) start = ⟨unreachable, none⟩ := by
          have hslot : slot extend unreachable parts size 0 start = _ := slot_zero (by omega)
          rwa [if_neg hne] at hslot
        exact hreached (congrArg Slot.cost hempty)
      obtain ⟨stops, hwalk, hdivides, -⟩ := ih (by omega) hfront hstart (by omega)
      refine ⟨stops ++ [stop], ?_, ?_, fun _ _ => hleast⟩
      · rw [walkBack, heq]
        dsimp only
        rw [hwalk, Option.map_some, cons_append]
      · rw [heq]
        exact .part hdivides (by omega)

end

end Divisions
