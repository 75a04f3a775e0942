import Kinewright.Captions.Division

/-!
# The sentences of a script

Every sentence gets one cue or more, and no more than it has words: as long as that holds for the sentences that are left, the
next one can be given its cues.
-/

namespace Kinewright.Captions

open Divisions Fallible List

/-- The sentences of the words. The last one may lack its full stop. -/
def sentences (words : List String) : List (List String) :=
  (Chunks.segments (fun _ _ => false) endsSentence words).filter fun sentence => !sentence.isEmpty

theorem flatten_filter_nonempty (parts : List (List String)) :
    (parts.filter fun part => !part.isEmpty).flatten = parts.flatten := by
  induction parts with
  | nil => rfl
  | cons part parts ih =>
    cases part with
    | nil => rw [filter_cons_of_neg (by simp), ih, flatten_cons, nil_append]
    | cons word part => rw [filter_cons_of_pos (by simp), flatten_cons, ih, flatten_cons]

theorem flatten_sentences (words : List String) : (sentences words).flatten = words := by
  rw [sentences, flatten_filter_nonempty, Chunks.flatten_segments]

variable {words : List String}

theorem ne_nil_of_mem_sentences {sentence : List String} (h : sentence ∈ sentences words) : sentence ≠ [] := by
  simpa using (mem_filter.mp h).2

theorem one_of_mem_sentences {sentence : List String} (h : sentence ∈ sentences words) :
    ∀ word ∈ sentence.dropLast, endsSentence word = false :=
  Chunks.ends_of_mem_segments (mem_filter.mp h).1

/-! ## Where they end -/

/-- The ends of the sentences, from the word with the index on. -/
def endsFrom (index : ℕ) (words : List String) : List ℕ :=
  (words.zipIdx index).filterMap fun x => if endsSentence x.1 then some (x.2 + 1) else none

/-- The last sentence lacks its full stop. -/
def unended (segment words : List String) : Bool :=
  match words.getLast? with
  | none => !segment.isEmpty
  | some word => !endsSentence word

theorem endsFrom_cons (index : ℕ) (word : String) (words : List String) : endsFrom index (word :: words) =
      if endsSentence word then (index + 1) :: endsFrom (index + 1) words else endsFrom (index + 1) words := by
  rw [endsFrom, zipIdx_cons, filterMap_cons]
  by_cases h : endsSentence word = true
  · simp only [h, if_true]
    rfl
  · simp only [h]
    rfl

theorem unended_cons (segment : List String) (word : String) (words : List String) :
    unended segment (word :: words) = unended (if endsSentence word then [] else segment ++ [word]) words := by
  cases words with
  | nil =>
    cases h : endsSentence word <;> simp [unended, h]
  | cons next words => rfl

theorem unended_concat (segment front : List String) (last : String) :
    unended segment (front ++ [last]) = !endsSentence last := by
  rw [unended, getLast?_concat]

/-- The stops of the sentences are the ends that are found, and the end of a sentence that lacks its full stop. -/
theorem stopsFrom_segments (start : ℕ) (segment words : List String) :
    stopsFrom start ((Chunks.segmentsFrom (fun _ _ => false) endsSentence segment words).filter fun s => !s.isEmpty) =
      endsFrom (start + segment.length) words ++
        if unended segment words then [start + segment.length + words.length] else [] := by
  induction words generalizing start segment with
  | nil =>
    cases segment with
    | nil => rfl
    | cons word segment => rfl
  | cons word words ih =>
    have hopen : (segment.getLast?.any fun _ => false) = false := by
      cases segment.getLast? <;> rfl
    have hlength : start + (segment ++ [word]).length = start + segment.length + 1 := by
      rw [length_append, length_singleton, Nat.add_assoc]
    have hcount : start + segment.length + 1 + words.length = start + segment.length + (word :: words).length := by
      rw [length_cons]
      omega
    simp only [Chunks.segmentsFrom, hopen, Bool.false_eq_true, if_false, nil_append]
    rw [endsFrom_cons, unended_cons, ← hcount]
    by_cases h : endsSentence word = true
    · rw [if_pos h, if_pos h, if_pos h, filter_cons_of_pos (by simp), stopsFrom, hlength, ih]
      rfl
    · rw [if_neg h, if_neg h, if_neg h, ih, hlength]

theorem endsFrom_append (index : ℕ) (words words' : List String) :
    endsFrom index (words ++ words') = endsFrom index words ++ endsFrom (index + words.length) words' := by
  rw [endsFrom, zipIdx_append, filterMap_append, endsFrom, endsFrom]

theorem le_of_mem_endsFrom {index stop : ℕ} (h : stop ∈ endsFrom index words) : stop ≤ index + words.length := by
  induction words generalizing index with
  | nil => cases h
  | cons word words ih =>
    rw [length_cons]
    rw [endsFrom_cons] at h
    split at h
    · rcases mem_cons.mp h with rfl | h
      · omega
      · have hle := ih h
        omega
    · have hle := ih h
      omega

/-- The code finds the ends of the sentences. -/
theorem sentenceEnds_eq (hne : words ≠ []) : sentenceEnds words = stopsFrom 0 (sentences words) := by
  obtain ⟨front, last, rfl⟩ := (eq_nil_or_concat' words).resolve_left hne
  have hstops := stopsFrom_segments 0 [] (front ++ [last])
  rw [length_nil, Nat.add_zero, Nat.zero_add, unended_concat, endsFrom_append] at hstops
  rw [sentences, Chunks.segments, hstops, sentenceEnds]
  have hends : (front ++ [last]).zipIdx.filterMap (fun x => if endsSentence x.1 then some (x.2 + 1) else none) =
      endsFrom 0 front ++ endsFrom (0 + front.length) [last] := endsFrom_append 0 front [last]
  rw [hends, endsFrom_cons, Nat.zero_add]
  have hnil : endsFrom (front.length + 1) [] = [] := rfl
  by_cases hlast : endsSentence last = true
  · rw [if_pos hlast, hnil, if_pos (by rw [getLast?_concat, length_append, length_singleton]),
      if_neg (by simp [hlast]), append_nil]
  · rw [if_neg hlast, hnil, append_nil, if_neg, if_pos (by simpa using hlast)]
    · intro hmem
      have hle := le_of_mem_endsFrom (mem_of_getLast? hmem)
      rw [length_append, length_singleton] at hle
      omega

/-! ## The cues of the sentences -/

/-- Every sentence ends with a cue of its own, and has a word for each of its cues. -/
inductive Allots (cues : ℕ) : ℕ → List (List String) → List ℕ → Prop
  | nil : Allots cues cues [] []
  | cons {cueStart cueEnd : ℕ} {sentence : List String} {sentences : List (List String)} {cueEnds : List ℕ} :
      cueStart < cueEnd → cueEnd - cueStart ≤ sentence.length → Allots cues cueEnd sentences cueEnds →
        Allots cues cueStart (sentence :: sentences) (cueEnd :: cueEnds)

theorem length_le_length_flatten {parts : List (List String)} (hne : ∀ part ∈ parts, part ≠ []) :
    parts.length ≤ parts.flatten.length := by
  induction parts with
  | nil => exact le_rfl
  | cons part parts ih =>
    have hpos : 0 < part.length := length_pos_iff.mpr (hne part mem_cons_self)
    have hrest := ih fun p hp => hne p (mem_cons_of_mem _ hp)
    rw [length_cons, flatten_cons, length_append]
    omega

theorem argmin_range_ne_none {low high : ℕ} (cost : ℕ → ℕ) (h : low ≤ high) :
    (List.range' low (high + 1 - low)).argmin cost ≠ none := by
  rw [Ne, argmin_eq_none, range'_eq_nil_iff]
  omega

/-- While there is a cue for every sentence that is left, and a word for every cue, the sentences are given their cues. -/
theorem sentenceCueEnds_allots {cues words : ℕ} (rawBoundaries : List ℕ) {parts : List (List String)}
    (hne : ∀ part ∈ parts, part ≠ []) {cueStart start : ℕ} (hwords : words = start + parts.flatten.length)
    (hsentences : cueStart + parts.length ≤ cues) (hcues : cues ≤ cueStart + parts.flatten.length) :
    ∃ cueEnds, sentenceCueEnds cues words rawBoundaries cueStart start (stopsFrom start parts) = .ok cueEnds ∧
      Allots cues cueStart parts cueEnds := by
  induction parts generalizing cueStart start with
  | nil =>
    obtain rfl : cues = cueStart := by
      rw [flatten_nil, length_nil] at hcues
      omega
    exact ⟨[], rfl, .nil⟩
  | cons part parts ih =>
    have hpart : 0 < part.length := length_pos_iff.mpr (hne part mem_cons_self)
    have hrest := fun p hp => hne p (mem_cons_of_mem part hp)
    have hle := length_le_length_flatten hrest
    rw [flatten_cons, length_append] at hwords hcues
    rw [length_cons] at hsentences
    cases parts with
    | nil =>
      rw [flatten_nil, length_nil] at hcues
      exact ⟨[cues], rfl, .cons (by omega) (by omega) .nil⟩
    | cons next parts =>
      rw [length_cons] at hle hsentences
      rw [stopsFrom, stopsFrom, sentenceCueEnds]
      have hlength : ((start + part.length + next.length) :: stopsFrom (start + part.length + next.length) parts).length =
          parts.length + 1 := by rw [length_cons, length_stopsFrom]
      have hbounds : max (cueStart + 1) (cues - (words - (start + part.length))) ≤
          min (min (cues - (parts.length + 1)) (cueStart + (start + part.length - start))) (cues - 1) := by
        omega
      obtain ⟨cueEnd, hcueEnd⟩ := Option.ne_none_iff_exists'.mp (argmin_range_ne_none
        (fun candidate => absDiff (rawBoundaries.getD (candidate - 1) 0) (start + part.length)) hbounds)
      have hmem := mem_range'_1.mp (argmin_mem (Option.mem_def.mpr hcueEnd))
      obtain ⟨cueEnds, hlater, hallots⟩ := ih hrest (show words = start + part.length + (next :: parts).flatten.length by omega)
        (show cueEnd + (next :: parts).length ≤ cues by rw [length_cons]; omega) (by omega)
      refine ⟨cueEnd :: cueEnds, ?_, .cons (by omega) (by omega) hallots⟩
      rw [stopsFrom] at hlater
      rw [hlength, refuse, if_neg (Nat.not_lt.mpr hbounds), ok_bind, hcueEnd, okOr_some, ok_bind, hlater, ok_bind]

theorem exists_bind_ok {α β : Type} {x : Except Failure α} {f : α → β} (h : ∃ a, x = .ok a) :
    ∃ b, (x >>= fun a => .ok (f a)) = .ok b := by
  obtain ⟨a, rfl⟩ := h
  exact ⟨f a, rfl⟩

/-- A word is left for every cue, so the scaled boundaries can be kept in order. -/
theorem exists_scaledBoundariesFrom (authoredWordCount rawWordCount : ℕ) {previous rawCumulative : ℕ} {counts : List ℕ}
    (h : previous + counts.length ≤ authoredWordCount) :
    ∃ boundaries, scaledBoundariesFrom authoredWordCount rawWordCount previous rawCumulative counts = .ok boundaries := by
  induction counts generalizing previous rawCumulative with
  | nil => exact ⟨[], rfl⟩
  | cons count counts ih =>
    rw [length_cons] at h
    have hboundary (scaled : ℕ) :
        clamp scaled (previous + 1) (authoredWordCount - counts.length) + counts.length ≤ authoredWordCount := by
      unfold clamp
      repeat' split
      all_goals omega
    rw [scaledBoundariesFrom, refuse, if_neg (by omega)]
    exact exists_bind_ok (ih (hboundary _))

/-! ## The division of the script -/

/-- Every sentence is divided among its cues as cheaply as can be, from a sentence on. -/
def Cheapest (table : CharTable) (rawBoundaries : List ℕ) (sentenceStart cueStart : ℕ) : List (List (List String)) → Prop
  | [] => True
  | division :: later =>
    (∀ division' : List (List String), division'.length = division.length → (∀ phrase ∈ division', phrase ≠ []) →
      division'.flatten = division.flatten → divisionCost table division.flatten division.length
            (sentenceTargets rawBoundaries cueStart sentenceStart division.length division.flatten.length) division ≤
          divisionCost table division.flatten division.length
            (sentenceTargets rawBoundaries cueStart sentenceStart division.length division.flatten.length) division') ∧
    Cheapest table rawBoundaries (sentenceStart + division.flatten.length) (cueStart + division.length) later

theorem sentenceTargets_spec (rawBoundaries : List ℕ) (cueStart sentenceStart : ℕ) {cueCount wordCount : ℕ}
    (hcount : 0 < cueCount) (hwords : cueCount ≤ wordCount) :
    (sentenceTargets rawBoundaries cueStart sentenceStart cueCount wordCount).length = cueCount ∧
      ∀ target ∈ sentenceTargets rawBoundaries cueStart sentenceStart cueCount wordCount, target ≤ wordCount := by
  constructor
  · rw [sentenceTargets, length_append, length_map, length_range', length_singleton]
    omega
  · intro target htarget
    rcases mem_append.mp htarget with hmem | hmem
    · obtain ⟨offset, hoffset, rfl⟩ := mem_map.mp hmem
      have hbounds := mem_range'_1.mp hoffset
      unfold clamp
      repeat' split
      all_goals omega
    · rw [mem_singleton.mp hmem]

section

variable {table : CharTable} {cues : ℕ}

/-- The sentences that are left are divided among their cues. -/
theorem finalBoundaries_cheapest (table : CharTable) (rawBoundaries : List ℕ) {cueStart : ℕ} {parts : List (List String)} {cueEnds : List ℕ}
    (hallots : Allots cues cueStart parts cueEnds) (front : List String)
    (hweight : ∀ part ∈ parts, weight part ≤ 2 ^ 20) :
    ∃ divisions : List (List (List String)),
      finalBoundaries table (front ++ parts.flatten) rawBoundaries front.length cueStart
          ((stopsFrom front.length parts).zip cueEnds) = .ok (stopsFrom front.length divisions.flatten) ∧
        divisions.map List.flatten = parts ∧ cueStart + divisions.flatten.length = cues ∧
        (∀ division ∈ divisions, ∀ phrase ∈ division, phrase ≠ []) ∧
        Cheapest table rawBoundaries front.length cueStart divisions := by
  induction hallots generalizing front with
  | nil => exact ⟨[], rfl, rfl, rfl, forall_mem_nil _, trivial⟩
  | @cons cueStart cueEnd sentence parts cueEnds hlt hle _ ih =>
    have hcount : 0 < cueEnd - cueStart := by omega
    have htargets := sentenceTargets_spec rawBoundaries cueStart front.length hcount hle
    obtain ⟨division, hsemantic, hlength, hne, hflatten, hleast⟩ :=
      semanticBoundaries_cheapest table hcount hle htargets (hweight sentence mem_cons_self)
    obtain ⟨later, hlater, hparts, hcues, hnonempty, hcheapest⟩ := ih (front ++ sentence) fun part hpart =>
      hweight part (mem_cons_of_mem _ hpart)
    rw [length_append, append_assoc] at hlater
    rw [length_append] at hcheapest
    refine ⟨division :: later, ?_, by rw [map_cons, hflatten, hparts], ?_, ?_, ?_⟩
    · have hsentence : ((front ++ (sentence ++ parts.flatten)).drop front.length).take sentence.length = sentence := by
        rw [drop_left, take_left]
      have hbounds : ((List.range' 1 (cueEnd - cueStart - 1)).any fun offset =>
          sentence.length - (cueEnd - cueStart - offset) < offset) = false := by
        rw [any_eq_false]
        intro offset hoffset
        have hrange := mem_range'_1.mp hoffset
        rw [decide_eq_true_iff]
        omega
      rw [stopsFrom, zip_cons_cons, finalBoundaries, flatten_cons, Nat.add_sub_cancel_left, hbounds, hsentence]
      rw [refuse, if_neg Bool.false_ne_true, ok_bind, hsemantic, ok_bind, hlater, ok_bind]
      rw [drop_succ_cons, drop_zero, map_add_stopsFrom, Nat.add_zero, flatten_cons, stopsFrom_append, hflatten]
    · rw [flatten_cons, length_append]
      omega
    · exact forall_mem_cons.mpr ⟨hne, hnonempty⟩
    · refine ⟨fun division' hlength' hne' hflatten' => ?_, ?_⟩
      · rw [hflatten] at hflatten' ⊢
        rw [hlength] at hlength' ⊢
        exact hleast division' hlength' hne' hflatten'
      · rw [hflatten, hlength, Nat.add_sub_cancel' hlt.le]
        exact hcheapest

end

/-! ## The authored cues -/

/-- The script cannot be laid out in the cues. -/
def Unalignable (cues : List CaptionCue) (script : String) : Prop :=
  Text.splitWhitespace script = [] ∨ (Text.splitWhitespace script).length < cues.length ∨
    cues.length < (sentences (Text.splitWhitespace script)).length ∨ ∀ cue ∈ cues, Text.splitWhitespace cue.text = []

/-- The cues carry the script: each division is how a sentence of it is divided among its cues. -/
structure Authored (table : CharTable) (cues : List CaptionCue) (script : String) (authored : List CaptionCue)
    (divisions : List (List (List String))) : Prop where
  timing : (authored.map fun cue => (cue.start, cue.stop)) = cues.map fun cue => (cue.start, cue.stop)
  texts : authored.map (·.text) = divisions.flatten.map joined
  nonempty : ∀ phrase ∈ divisions.flatten, phrase ≠ []
  allWords : divisions.flatten.flatten = Text.splitWhitespace script
  wholeSentences : divisions.map List.flatten = sentences (Text.splitWhitespace script)
  oneSentence : ∀ phrase ∈ divisions.flatten, ∀ word ∈ phrase.dropLast, endsSentence word = false
  cheapest : ∃ rawBoundaries,
    scaledBoundaries (rawWordCounts cues) (Text.splitWhitespace script).length (rawWordCounts cues).sum = .ok rawBoundaries ∧
      Cheapest table rawBoundaries 0 0 divisions

theorem timing_zipWith {cues : List CaptionCue} {phrases : List (List String)} (h : cues.length = phrases.length) :
    (List.zipWith (fun cue phrase => { cue with text := joined phrase }) cues phrases).map
        (fun cue => (cue.start, cue.stop)) = cues.map (fun cue => (cue.start, cue.stop)) ∧
      (List.zipWith (fun cue phrase => { cue with text := joined phrase }) cues phrases).map (·.text) =
        phrases.map joined := by
  induction cues generalizing phrases with
  | nil =>
    obtain rfl := length_eq_zero_iff.mp h.symm
    exact ⟨rfl, rfl⟩
  | cons cue cues ih =>
    cases phrases with
    | nil => cases h
    | cons phrase phrases =>
      obtain ⟨htiming, htexts⟩ := ih (Nat.succ.inj h)
      exact ⟨congrArg (List.cons _) htiming, congrArg (List.cons _) htexts⟩

/-- The words in front of the last one of a phrase are in front of the last one of its sentence. -/
theorem mem_dropLast_flatten {division : List (List String)} {phrase : List String} (hphrase : phrase ∈ division)
    {word : String} (hword : word ∈ phrase.dropLast) : word ∈ division.flatten.dropLast := by
  induction division with
  | nil => cases hphrase
  | cons first division ih =>
    rw [flatten_cons, dropLast_append]
    rcases mem_cons.mp hphrase with rfl | hmem
    · split
      · exact hword
      · exact mem_append_left _ (dropLast_subset _ hword)
    · have hlast := ih hmem
      split
      · next hempty =>
        rw [List.isEmpty_iff.mp hempty] at hlast
        cases hlast
      · exact mem_append_right _ hlast

section

variable {cues : List CaptionCue} {script : String}

theorem rawTotal_eq_zero : (rawWordCounts cues).sum = 0 ↔ ∀ cue ∈ cues, Text.splitWhitespace cue.text = [] := by
  rw [sum_eq_zero_iff, rawWordCounts, forall_mem_map]
  exact forall₂_congr fun _ _ => length_eq_zero_iff

/-- A script that can be laid out is. -/
theorem exists_authored (table : CharTable) (hcues : cues ≠ []) (hlength : script.length < 2 ^ 20)
    (halign : ¬ Unalignable cues script) :
    ∃ authored divisions, authoredCaptionCues table cues script = .ok authored ∧
      Authored table cues script authored divisions := by
  rw [Unalignable, ← rawTotal_eq_zero, not_or, not_or, not_or, not_lt, not_lt] at halign
  obtain ⟨hwords, hcount, hsentences, hraw⟩ := halign
  have hends := sentenceEnds_eq hwords
  have hflatten := flatten_sentences (Text.splitWhitespace script)
  have hweight (sentence : List String) (h : sentence ∈ sentences (Text.splitWhitespace script)) :
      weight sentence ≤ 2 ^ 20 := by
    have hpart := weight_le_of_mem h
    rw [hflatten] at hpart
    have hwhole : weight (Text.splitWhitespace script) ≤ script.length + 1 := Text.sum_splitWhitespace_le script
    omega
  -- the boundaries of the recognized words, the cues of the sentences, and the divisions of the sentences
  obtain ⟨rawBoundaries, hboundaries⟩ : ∃ boundaries, scaledBoundaries (rawWordCounts cues)
      (Text.splitWhitespace script).length (rawWordCounts cues).sum = .ok boundaries := by
    refine exists_scaledBoundariesFrom _ _ ?_
    rw [Nat.zero_add, rawWordCounts, length_map]
    exact hcount
  obtain ⟨cueEnds, hcueEnds, hallots⟩ := sentenceCueEnds_allots rawBoundaries (fun _ => ne_nil_of_mem_sentences)
    (show (Text.splitWhitespace script).length = 0 + (sentences (Text.splitWhitespace script)).flatten.length by
      rw [hflatten, Nat.zero_add])
    (show 0 + (sentences (Text.splitWhitespace script)).length ≤ cues.length by rwa [Nat.zero_add])
    (by rwa [hflatten, Nat.zero_add])
  obtain ⟨divisions, hfinal, hwhole, hlengths, hne, hcheapest⟩ :=
    finalBoundaries_cheapest table rawBoundaries hallots [] hweight
  rw [nil_append, hflatten, length_nil, ← hends] at hfinal
  rw [← hends] at hcueEnds
  have hall : divisions.flatten.flatten = Text.splitWhitespace script := by
    rw [flatten_flatten, hwhole, hflatten]
  have hcut : cutFrom (Text.splitWhitespace script) 0 (stopsFrom 0 divisions.flatten) = divisions.flatten := by
    have h := cutFrom_stopsFrom [] divisions.flatten ([] : List String)
    rwa [append_nil, hall] at h
  obtain ⟨htiming, htexts⟩ := timing_zipWith (show cues.length = divisions.flatten.length by omega)
  refine ⟨_, divisions, ?_, htiming, htexts, ?_, hall, hwhole, ?_, rawBoundaries, hboundaries, hcheapest⟩
  · unfold authoredCaptionCues
    dsimp only
    rw [refuse, if_neg hcues, ok_bind, refuse, if_neg hwords, ok_bind, refuse, if_neg (not_lt.mpr hcount), ok_bind, refuse,
      if_neg (by rw [hends, length_stopsFrom]; exact not_lt.mpr hsentences), ok_bind, refuse, if_neg hraw, ok_bind,
      hboundaries, ok_bind, hcueEnds, ok_bind, hfinal, ok_bind, hcut]
  · intro phrase hphrase
    obtain ⟨division, hdivision, hmem⟩ := mem_flatten.mp hphrase
    exact hne division hdivision phrase hmem
  · intro phrase hphrase word hword
    obtain ⟨division, hdivision, hmem⟩ := mem_flatten.mp hphrase
    have hsentence : division.flatten ∈ sentences (Text.splitWhitespace script) := by
      rw [← hwhole]
      exact mem_map_of_mem hdivision
    exact one_of_mem_sentences hsentence word (mem_dropLast_flatten hmem hword)

theorem exists_error_of_refuse {α : Type} {p : Prop} [Decidable p] {error : CaptionPlanError} {f : Unit → Except Failure α}
    (h : p ∨ ∃ error, f () = .error (.error error)) :
    ∃ error', (refuse p (.error error) >>= f) = .error (.error error') := by
  by_cases hp : p
  · exact ⟨error, by rw [refuse, if_pos hp]; rfl⟩
  · rw [refuse, if_neg hp]
    exact h.resolve_left hp

/-- A script that cannot be laid out is refused. -/
theorem error_of_unalignable (table : CharTable) (halign : Unalignable cues script) :
    ∃ error, authoredCaptionCues table cues script = .error (.error error) := by
  refine exists_error_of_refuse (.inr ?_)
  by_cases hwords : Text.splitWhitespace script = []
  · exact exists_error_of_refuse (.inl hwords)
  · refine exists_error_of_refuse (.inr ?_)
    rcases halign with h | hcount | hsentences | hraw
    · exact absurd h hwords
    · exact exists_error_of_refuse (.inl hcount)
    · refine exists_error_of_refuse (.inr (exists_error_of_refuse (.inl ?_)))
      rwa [sentenceEnds_eq hwords, length_stopsFrom]
    · refine exists_error_of_refuse (.inr (exists_error_of_refuse (.inr (exists_error_of_refuse (.inl ?_)))))
      exact rawTotal_eq_zero.mpr hraw

end

/-- A script is refused when it cannot be laid out in the cues. Otherwise the cues carry it, each sentence divided among its
cues as cheaply as can be. -/
theorem authoredCaptionCues_spec (table : CharTable) {cues : List CaptionCue} {script : String} (hcues : cues ≠ [])
    (hlength : script.length < 2 ^ 20) :
    (Unalignable cues script → ∃ error, authoredCaptionCues table cues script = .error (.error error)) ∧
      (¬ Unalignable cues script → ∃ authored divisions, authoredCaptionCues table cues script = .ok authored ∧
        Authored table cues script authored divisions) :=
  ⟨error_of_unalignable table, exists_authored table hcues hlength⟩

theorem authoredCaptionCues_spec_tomatoes : ∃ authored divisions,
      authoredCaptionCues ⟨Char.isAlpha, Char.isUpper⟩ [⟨0, 30, "they planted"⟩, ⟨30, 60, "tomatoes"⟩] "They planted. Tomatoes" =
          .ok authored ∧
        Authored ⟨Char.isAlpha, Char.isUpper⟩ [⟨0, 30, "they planted"⟩, ⟨30, 60, "tomatoes"⟩] "They planted. Tomatoes"
          authored divisions :=
  (authoredCaptionCues_spec ⟨Char.isAlpha, Char.isUpper⟩ (by simp) (by decide +kernel)).2 (by
    unfold Unalignable
    decide +kernel)

end Kinewright.Captions
