import Mathlib.Data.List.Chain

/-!
# Cutting a list into chunks

A list is cut in two ways: where one element breaks off from the element before it, and by a rule that says how many elements
the next chunk takes.
-/

namespace Chunks

open List

variable {α : Type*}

/-! ## Breaks between elements -/

/-- The walk over a list, with the segment that is open. A segment ends in front of an element that breaks off from its last
one, and behind an element that ends it. -/
def segmentsFrom (breaks : α → α → Bool) (ends : α → Bool) (segment : List α) : List α → List (List α)
  | [] => [segment]
  | x :: xs => let broken := segment.getLast?.any fun previous => breaks previous x
    let segment' := (if broken then [] else segment) ++ [x]
    (if broken then [segment] else []) ++
      if ends x then segment' :: segmentsFrom breaks ends [] xs else segmentsFrom breaks ends segment' xs

/-- The segments of a list, in order. -/
def segments (breaks : α → α → Bool) (ends : α → Bool) (xs : List α) : List (List α) := segmentsFrom breaks ends [] xs

section

variable {breaks : α → α → Bool} {ends : α → Bool}

theorem flatten_segmentsFrom (segment xs : List α) : (segmentsFrom breaks ends segment xs).flatten = segment ++ xs := by
  induction xs generalizing segment with
  | nil => simp [segmentsFrom]
  | cons x xs ih =>
    simp only [segmentsFrom, flatten_append]
    split <;> split <;> simp [ih]

theorem flatten_segments (xs : List α) : (segments breaks ends xs).flatten = xs := flatten_segmentsFrom [] xs

variable {chunk : List α}

/-- No element of a segment breaks off from the one before it. -/
theorem isChain_of_mem_segmentsFrom {segment : List α} (hsegment : segment.IsChain fun x y => breaks x y = false)
    {xs : List α} (h : chunk ∈ segmentsFrom breaks ends segment xs) :
    chunk.IsChain fun x y => breaks x y = false := by
  induction xs generalizing segment with
  | nil =>
    obtain rfl := mem_singleton.mp h
    exact hsegment
  | cons x xs ih =>
    -- the open segment grows by an element that does not break off from its last one
    have hgrown : ((if segment.getLast?.any fun previous => breaks previous x then [] else segment) ++ [x]).IsChain
        fun x y => breaks x y = false := by
      split
      · exact .singleton x
      · next hbroken =>
        refine isChain_append.mpr ⟨hsegment, .singleton x, fun previous hprevious y hy => ?_⟩
        obtain rfl := Option.some.inj hy
        rw [Option.mem_def.mp hprevious] at hbroken
        simpa using hbroken
    simp only [segmentsFrom, mem_append] at h
    rcases h with h | h
    · split at h
      · obtain rfl := mem_singleton.mp h
        exact hsegment
      · cases h
    · split at h
      · rcases mem_cons.mp h with rfl | h
        · exact hgrown
        · exact ih .nil h
      · exact ih hgrown h

/-- Only the last element of a segment ends it. -/
theorem ends_of_mem_segmentsFrom {segment : List α} (hsegment : ∀ x ∈ segment, ends x = false) {xs : List α}
    (h : chunk ∈ segmentsFrom breaks ends segment xs) : ∀ x ∈ chunk.dropLast, ends x = false := by
  induction xs generalizing segment with
  | nil =>
    obtain rfl := mem_singleton.mp h
    exact fun x hx => hsegment x (dropLast_subset _ hx)
  | cons y ys ih =>
    have hopen : ∀ x ∈ (if segment.getLast?.any fun previous => breaks previous y then [] else segment), ends x = false := by
      split
      · exact forall_mem_nil _
      · exact hsegment
    simp only [segmentsFrom, mem_append] at h
    rcases h with h | h
    · split at h
      · obtain rfl := mem_singleton.mp h
        exact fun x hx => hsegment x (dropLast_subset _ hx)
      · cases h
    · split at h
      · rcases mem_cons.mp h with rfl | h
        · rwa [dropLast_concat]
        · exact ih (forall_mem_nil _) h
      · next hends =>
        exact ih (forall_mem_append.mpr ⟨hopen, forall_mem_singleton.mpr (by simpa using hends)⟩) h

theorem ends_of_mem_segments {xs : List α} (h : chunk ∈ segments breaks ends xs) :
    ∀ x ∈ chunk.dropLast, ends x = false :=
  ends_of_mem_segmentsFrom (forall_mem_nil _) h

theorem isChain_of_mem_segments {xs : List α} (h : chunk ∈ segments breaks ends xs) :
    chunk.IsChain fun x y => breaks x y = false :=
  isChain_of_mem_segmentsFrom .nil h

end

/-! ## Chunks by a rule -/

/-- Chunks off the front of a list until it or the fuel is used up. -/
def chunksFrom (cut : List α → ℕ) : ℕ → List α → List (List α)
  | 0, _ => []
  | _ + 1, [] => []
  | fuel + 1, x :: xs => (x :: xs).take (cut (x :: xs)) :: chunksFrom cut fuel ((x :: xs).drop (cut (x :: xs)))

/-- The chunks of a list. The rule says how many elements the next chunk takes of the list that is left. -/
def chunks (cut : List α → ℕ) (xs : List α) : List (List α) := chunksFrom cut xs.length xs

section

variable {cut : List α → ℕ}

/-- As many rounds as the list has elements are enough, since no chunk is empty. -/
theorem flatten_chunksFrom (hcut : ∀ xs ≠ [], 0 < cut xs) (fuel : ℕ) (xs : List α) (hfuel : xs.length ≤ fuel) :
    (chunksFrom cut fuel xs).flatten = xs := by
  induction fuel generalizing xs with
  | zero => rw [length_eq_zero_iff.mp (Nat.le_zero.mp hfuel), chunksFrom, flatten_nil]
  | succ fuel ih =>
    cases xs with
    | nil => rfl
    | cons x xs =>
      have hpos : 0 < cut (x :: xs) := hcut _ (cons_ne_nil x xs)
      have hrest : ((x :: xs).drop (cut (x :: xs))).length ≤ fuel := by
        rw [length_drop] at *
        omega
      rw [chunksFrom, flatten_cons, ih _ hrest, take_append_drop]

theorem flatten_chunks (hcut : ∀ xs ≠ [], 0 < cut xs) (xs : List α) : (chunks cut xs).flatten = xs :=
  flatten_chunksFrom hcut _ _ le_rfl

/-- A chunk is the front of what is left of the list when it is cut off. -/
theorem exists_suffix_of_mem_chunksFrom {fuel : ℕ} {xs chunk : List α} (h : chunk ∈ chunksFrom cut fuel xs) :
    ∃ rest ≠ [], rest <:+ xs ∧ chunk = rest.take (cut rest) := by
  induction fuel generalizing xs with
  | zero => cases h
  | succ fuel ih =>
    cases xs with
    | nil => cases h
    | cons x xs =>
      rcases mem_cons.mp h with rfl | h
      · exact ⟨x :: xs, cons_ne_nil x xs, suffix_refl _, rfl⟩
      · obtain ⟨rest, hne, hsuffix, hchunk⟩ := ih h
        exact ⟨rest, hne, hsuffix.trans (drop_suffix _ _), hchunk⟩

theorem exists_suffix_of_mem_chunks {xs chunk : List α} (h : chunk ∈ chunks cut xs) :
    ∃ rest ≠ [], rest <:+ xs ∧ chunk = rest.take (cut rest) :=
  exists_suffix_of_mem_chunksFrom h

end

end Chunks
