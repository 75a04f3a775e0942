import Kinewright.Captions.Cues
import Kinewright.Model.ClipData

/-!
# The words that captions show

Every spoken word is laid out once, in order. Captions lie one behind the other, so a phrase that opens on the frame of the
next one has no frame left and is not shown.
-/

namespace Kinewright.Captions

open Model Transcript List Int64

/-- The word, or the word with a full stop behind it. -/
def Stopped (word word' : CaptionWord) : Prop := word' = word ∨ word' = { word with text := word.text.push '.' }

def SameSource (word word' : CaptionWord) : Prop :=
  word.asset = word'.asset ∧ word.clip = word'.clip ∧ word.speaker = word'.speaker

/-- The cue shows the words of the phrase. -/
structure Shows (phrase : List CaptionWord) (cue : CaptionCue) : Prop where
  text : cue.text = joined (phrase.map (·.text))
  opens : ∃ first ∈ phrase.head?, cue.start = first.start
  oneSource : phrase.Pairwise SameSource
  fits : cue.text.length ≤ maxCaptionCharacters ∨ phrase.length = 1

/-- The cues show the phrases one behind the other. -/
structure Shown (phrases : List (List CaptionWord)) (cues : List CaptionCue) : Prop where
  shows_ : List.Forall₂ Shows phrases cues
  positive : ∀ cue ∈ cues, cue.start < cue.stop
  disjoint : cues.Pairwise fun cue later => cue.stop ≤ later.start

/-- The cues show every spoken word once and in order. -/
def LosesNoWords (words : List TimelineTranscriptWord) (cues : List CaptionCue) : Prop :=
  ∃ phrases, List.Forall₂ Stopped (words.filterMap captionWord) phrases.flatten ∧ Shown phrases cues

/-- The frame on which a phrase opens. -/
def opening (phrase : List CaptionWord) : Option TimeCode := phrase.head?.map (·.start)

/-- The phrases that do not open together with the next one. -/
def kept : List (List CaptionWord) → List (List CaptionWord)
  | phrase :: next :: rest =>
    if opening phrase = opening next then kept (next :: rest) else phrase :: kept (next :: rest)
  | phrases => phrases

theorem kept_eq_self {phrases : List (List CaptionWord)}
    (h : phrases.IsChain fun phrase next => opening phrase ≠ opening next) : kept phrases = phrases := by
  induction phrases with
  | nil => rfl
  | cons phrase phrases ih =>
    cases phrases with
    | nil => rfl
    | cons next rest =>
      obtain ⟨hne, hrest⟩ := isChain_cons_cons.mp h
      rw [kept, if_neg hne, ih hrest]

/-! ## Punctuation -/

section

variable {table : CharTable} {hold : TimeCode}

theorem stopped_punctuated (previous next : CaptionWord) : Stopped previous (punctuated table previous next) := by
  unfold punctuated
  split
  · exact .inl rfl
  · dsimp only
    split
    · exact .inr rfl
    · exact .inl rfl

theorem forall₂_stopped (table : CharTable) (words : List CaptionWord) :
    List.Forall₂ Stopped words (inferSentencePunctuation table words) := by
  induction words with
  | nil => exact .nil
  | cons previous words ih =>
    cases words with
    | nil => exact .cons (.inl rfl) .nil
    | cons next rest => exact .cons (stopped_punctuated previous next) ih

theorem Stopped.start {word word' : CaptionWord} (h : Stopped word word') : word'.start = word.start := by
  rcases h with rfl | rfl <;> rfl

theorem Stopped.stop {word word' : CaptionWord} (h : Stopped word word') : word'.stop = word.stop := by
  rcases h with rfl | rfl <;> rfl

/-! ## Lines -/

/-- As many words as the line takes fit on it, when it takes more than one. -/
theorem farthestFrom_spec {texts : List String} (fuel count : ℕ) (hpos : 0 < count) (hlen : count ≤ texts.length)
    (hfits : ∀ k, 1 < k → k ≤ count → phraseCharacters (texts.take k) ≤ maxCaptionCharacters) :
    0 < farthestFrom texts fuel count ∧ farthestFrom texts fuel count ≤ texts.length ∧
      ∀ k, 1 < k → k ≤ farthestFrom texts fuel count → phraseCharacters (texts.take k) ≤ maxCaptionCharacters := by
  induction fuel generalizing count with
  | zero => exact ⟨hpos, hlen, hfits⟩
  | succ fuel ih =>
    rw [farthestFrom]
    split
    · next h =>
      refine ih (count + 1) (Nat.succ_pos _) h.1 fun k hk hle => ?_
      rcases Nat.le_succ_iff.mp hle with hle | rfl
      · exact hfits k hk hle
      · exact h.2
    · exact ⟨hpos, hlen, hfits⟩

theorem farthest_spec (texts : List String) (hne : texts ≠ []) : 0 < farthest texts ∧ farthest texts ≤ texts.length ∧
      ∀ k, 1 < k → k ≤ farthest texts → phraseCharacters (texts.take k) ≤ maxCaptionCharacters :=
  farthestFrom_spec _ 1 Nat.one_pos (length_pos_of_ne_nil hne) fun _ hk hle => by omega

variable {words : List CaptionWord}

theorem lineEnd_spec (table : CharTable) (hne : words ≠ []) :
    0 < lineEnd table words ∧ lineEnd table words ≤ farthest (words.map (·.text)) := by
  obtain ⟨hpos, -, -⟩ := farthest_spec (words.map (·.text)) (by simpa using hne)
  unfold lineEnd
  dsimp only
  split
  · exact ⟨hpos, le_rfl⟩
  · cases h : List.argmin (lineCost table (words.map (·.text))) (List.range' (max 1 (farthest (words.map (·.text)) - 4))
        (farthest (words.map (·.text)) + 1 - max 1 (farthest (words.map (·.text)) - 4))) with
    | none => exact ⟨hpos, le_rfl⟩
    | some candidate =>
      have hmem := mem_range'_1.mp (argmin_mem (Option.mem_def.mpr h))
      rw [Option.getD_some]
      omega

/-- The phrases of a segment are its words, each fits on a line or is one word. -/
theorem flatten_phrases (segment : List CaptionWord) : (phrases table segment).flatten = segment :=
  Chunks.flatten_chunks (fun _ hne => (lineEnd_spec table hne).1) segment

theorem flatten_layout (words : List CaptionWord) : (layout table hold words).flatten = words := by
  have hphrases (segments : List (List CaptionWord)) : (segments.flatMap (phrases table)).flatten = segments.flatten := by
    induction segments with
    | nil => rfl
    | cons segment segments ih => rw [flatMap_cons, flatten_append, flatten_phrases, ih, flatten_cons]
  rw [layout, hphrases, Chunks.flatten_segments]

theorem pairwise_sameSource (h : words.IsChain fun previous next => breakBefore hold previous next = false) :
    words.Pairwise SameSource := by
  have htrans : IsTrans CaptionWord SameSource :=
    ⟨fun _ _ _ h h' => ⟨h.1.trans h'.1, h.2.1.trans h'.2.1, h.2.2.trans h'.2.2⟩⟩
  refine isChain_iff_pairwise.mp (h.imp fun previous next hbreak => ?_)
  simpa [sourceChange, SameSource, and_assoc] using (Bool.or_eq_false_iff.mp hbreak).2

variable {phrase : List CaptionWord}

/-- The words of a phrase come from one source, and fit on a line when they are more than one. -/
theorem phrase_of_layout (h : phrase ∈ layout table hold words) : phrase ≠ [] ∧ phrase.Pairwise SameSource ∧
      ((joined (phrase.map (·.text))).length ≤ maxCaptionCharacters ∨ phrase.length = 1) := by
  obtain ⟨segment, hsegment, hphrase⟩ := mem_flatMap.mp h
  obtain ⟨rest, hne, hsuffix, rfl⟩ := Chunks.exists_suffix_of_mem_chunks hphrase
  obtain ⟨hpos, hle⟩ := lineEnd_spec table hne
  obtain ⟨-, hlen, hfits⟩ := farthest_spec (rest.map (·.text)) (by simpa using hne)
  rw [length_map] at hlen
  have hlength : (rest.take (lineEnd table rest)).length = lineEnd table rest := length_take_of_le (hle.trans hlen)
  refine ⟨ne_nil_of_length_pos (by rw [hlength]; exact hpos), ?_, ?_⟩
  · exact pairwise_sameSource (((Chunks.isChain_of_mem_segments hsegment).suffix hsuffix).take _)
  · rcases Nat.eq_or_lt_of_le (Nat.succ_le_of_lt hpos) with hone | hmore
    · exact .inr (hlength.trans hone.symm)
    · rw [length_joined, map_take]
      exact .inl (hfits _ hmore hle)

/-! ## Cues -/

/-- A phrase with the cue that it makes. -/
structure Makes (phrase : List CaptionWord) (cue : CaptionCue) : Prop extends Shows phrase cue where
  positive : cue.start < cue.stop

/-- Words in order that each take time make a cue that does. -/
theorem exists_makes (h : phrase ∈ layout table hold words) (hpositive : ∀ word ∈ phrase, word.start < word.stop)
    (hsorted : phrase.Pairwise fun word later => word.start ≤ later.start) :
    ∃ cue, cueOf phrase = some cue ∧ Makes phrase cue := by
  obtain ⟨hne, hsource, hfits⟩ := phrase_of_layout h
  obtain ⟨first, rest, rfl⟩ := exists_cons_of_ne_nil hne
  have hlast : (first :: rest).getLast? = some ((first :: rest).getLast hne) := getLast?_eq_getLast_of_ne_nil hne
  have hle : first.start ≤ ((first :: rest).getLast hne).start := by
    rcases mem_cons.mp (getLast_mem hne) with heq | hmem
    · rw [heq]
      exact Int64.le_refl _
    · exact (pairwise_cons.mp hsorted).1 _ hmem
  refine ⟨_, by rw [cueOf, head?_cons, hlast], ⟨rfl, ⟨first, rfl, rfl⟩, hsource, hfits⟩, ?_⟩
  exact Int64.lt_of_le_of_lt hle (hpositive _ (getLast_mem hne))

variable {cue : CaptionCue}

theorem Makes.opening (h : Makes phrase cue) : opening phrase = some cue.start := by
  obtain ⟨first, hfirst, hstart⟩ := h.opens
  rw [Captions.opening, Option.mem_def.mp hfirst, Option.map_some, hstart]

/-- A cue shows the phrase for as long as it is on screen. -/
theorem Shows.with_stop (h : Shows phrase cue) (stop : TimeCode) : Shows phrase { cue with stop } :=
  ⟨h.text, h.opens, h.oneSource, h.fits⟩

variable {cues : List CaptionCue}

/-- The cues that last are those of the phrases that do not open together with the next one. -/
theorem forall₂_held {phrases : List (List CaptionWord)} (hhold : 0 ≤ hold.toInt)
    (h : List.Forall₂ Makes phrases cues) (hsorted : cues.IsChain fun cue next => cue.start ≤ next.start) :
    List.Forall₂ Shows (kept phrases) ((held hold cues).filter fun cue => cue.start < cue.stop) := by
  have hlast (cue : CaptionCue) (hpositive : cue.start < cue.stop) : cue.start < saturatingAdd cue.stop hold :=
    Int64.lt_of_lt_of_le hpositive (le_saturatingAdd cue.stop hhold)
  induction h with
  | nil => exact .nil
  | @cons phrase cue phrases cues hmakes hrest ih =>
    cases hrest with
    | nil =>
      rw [held, filter_cons_of_pos (by simpa using hlast cue hmakes.positive)]
      exact .cons (hmakes.with_stop _) .nil
    | @cons next nextCue phrases cues hnext hrest =>
      obtain ⟨hle, hchain⟩ := isChain_cons_cons.mp hsorted
      rw [held, kept, hmakes.opening, hnext.opening]
      by_cases heq : cue.start = nextCue.start
      · -- the next cue opens at once and leaves no frame
        have hempty : ¬ cue.start < min (saturatingAdd cue.stop hold) nextCue.start := by
          rw [lt_iff_toInt_lt, toInt_min, heq]
          omega
        rw [if_pos (congrArg some heq), filter_cons_of_neg (by simpa using hempty)]
        exact ih hchain
      · have hshown : cue.start < min (saturatingAdd cue.stop hold) nextCue.start := by
          have hstop := hlast cue hmakes.positive
          rw [← toInt_inj] at heq
          rw [le_iff_toInt_le] at hle
          rw [lt_iff_toInt_lt] at hstop
          rw [lt_iff_toInt_lt, toInt_min]
          omega
        rw [if_neg (fun h => heq (Option.some.inj h)), filter_cons_of_pos (by simpa using hshown)]
        exact .cons (hmakes.with_stop _) (ih hchain)

theorem exists_start_of_mem_held (h : cue ∈ held hold cues) : ∃ raw ∈ cues, cue.start = raw.start := by
  induction cues with
  | nil => cases h
  | cons raw cues ih =>
    cases cues with
    | nil =>
      obtain rfl := mem_singleton.mp h
      exact ⟨raw, mem_cons_self, rfl⟩
    | cons next rest =>
      rcases mem_cons.mp h with rfl | h
      · exact ⟨raw, mem_cons_self, rfl⟩
      · obtain ⟨raw', hmem, hstart⟩ := ih h
        exact ⟨raw', mem_cons_of_mem _ hmem, hstart⟩

/-- A held cue ends before every later one opens. -/
theorem held_disjoint (hsorted : cues.Pairwise fun cue later => cue.start ≤ later.start) :
    (held hold cues).Pairwise fun cue later => cue.stop ≤ later.start := by
  induction cues with
  | nil => exact .nil
  | cons cue cues ih =>
    obtain ⟨-, hrest⟩ := pairwise_cons.mp hsorted
    cases cues with
    | nil => exact pairwise_singleton _ _
    | cons next rest =>
      refine pairwise_cons.mpr ⟨fun later hlater => ?_, ih hrest⟩
      obtain ⟨raw, hraw, hstart⟩ := exists_start_of_mem_held hlater
      have hnext : next.start ≤ raw.start := by
        rcases mem_cons.mp hraw with rfl | hraw
        · exact Int64.le_refl _
        · exact (pairwise_cons.mp hrest).1 raw hraw
      rw [le_iff_toInt_le] at hnext
      rw [le_iff_toInt_le, toInt_min, hstart]
      omega

end

/-! ## The words of a timeline -/

section

variable {words : List TimelineTranscriptWord}

theorem captionWord_eq_some {word : TimelineTranscriptWord} {spoken : CaptionWord} (h : captionWord word = some spoken) :
    spoken.start = word.projectStart ∧ spoken.start < spoken.stop := by
  unfold captionWord at h
  dsimp only at h
  split at h
  · next hspoken =>
    obtain rfl := Option.some.inj h
    exact ⟨rfl, hspoken.2⟩
  · cases h

/-- The spoken words, punctuated, each take time and are in order. -/
theorem punctuated_timed (table : CharTable)
    (hsorted : words.Pairwise fun word later => word.projectStart ≤ later.projectStart) :
    (∀ word ∈ inferSentencePunctuation table (words.filterMap captionWord), word.start < word.stop) ∧
      (inferSentencePunctuation table (words.filterMap captionWord)).Pairwise fun word later =>
        word.start ≤ later.start := by
  have hstopped := forall₂_stopped table (words.filterMap captionWord)
  have hspoken : (words.filterMap captionWord).Pairwise fun word later => word.start ≤ later.start := by
    refine (pairwise_filterMap).mpr (hsorted.imp fun hle spoken hs later hl => ?_)
    rw [(captionWord_eq_some hs).1, (captionWord_eq_some hl).1]
    exact hle
  constructor
  · intro word hword
    obtain ⟨spoken, hmem, hstop⟩ := exists_of_forall₂_right hstopped hword
    obtain ⟨source, -, hsource⟩ := mem_filterMap.mp hmem
    rw [hstop.start, hstop.stop]
    exact (captionWord_eq_some hsource).2
  · have hstarts : (inferSentencePunctuation table (words.filterMap captionWord)).map (·.start) =
        (words.filterMap captionWord).map (·.start) := map_eq_of_forall₂ (fun _ _ h => h.start) hstopped
    rw [← pairwise_map (f := CaptionWord.start) (R := fun a b => a ≤ b)] at hspoken ⊢
    rwa [hstarts]

section

variable (table : CharTable) (projectFps : Rational) (hsorted : words.Pairwise fun word later => word.projectStart ≤ later.projectStart)

include table projectFps hsorted

/-- The cues of the phrases, in order. -/
theorem forall₂_makes :
    List.Forall₂ Makes (laidOut table words projectFps) ((laidOut table words projectFps).filterMap cueOf) ∧
      ((laidOut table words projectFps).filterMap cueOf).Pairwise fun cue later => cue.start ≤ later.start := by
  obtain ⟨hpositive, hordered⟩ := punctuated_timed table hsorted
  have hflatten : (laidOut table words projectFps).flatten =
      inferSentencePunctuation table (words.filterMap captionWord) := flatten_layout _
  rw [← hflatten, pairwise_flatten] at hordered
  rw [← hflatten] at hpositive
  have hmakes (phrase : List CaptionWord) (h : phrase ∈ laidOut table words projectFps) :
      ∃ cue, cueOf phrase = some cue ∧ Makes phrase cue :=
    exists_makes h (fun word hword => hpositive word (mem_flatten_of_mem h hword)) (hordered.1 phrase h)
  refine ⟨forall₂_filterMap hmakes, ?_⟩
  refine pairwise_filterMap.mpr (hordered.2.imp_of_mem fun {phrase later} hphrase hlater hle cue hcue next hnext => ?_)
  obtain ⟨cue', hcue', made⟩ := hmakes phrase hphrase
  obtain ⟨next', hnext', made'⟩ := hmakes later hlater
  obtain rfl := Option.some.inj (hcue.symm.trans hcue')
  obtain rfl := Option.some.inj (hnext.symm.trans hnext')
  obtain ⟨first, hfirst, hstart⟩ := made.opens
  obtain ⟨first', hfirst', hstart'⟩ := made'.opens
  rw [hstart, hstart']
  exact hle first (mem_of_head? hfirst) first' (mem_of_head? hfirst')

/-- Every spoken word is laid out once and in order, and the cues show the phrases that do not open together with the next
one. -/
theorem laidOut_shown : List.Forall₂ Stopped (words.filterMap captionWord) (laidOut table words projectFps).flatten ∧
      Shown (kept (laidOut table words projectFps)) (captionCues table words projectFps) := by
  obtain ⟨hmakes, hordered⟩ := forall₂_makes table projectFps hsorted
  have hhold : 0 ≤ (halfSecondFrames projectFps).toInt := roundedPart_nonneg 2 projectFps
  refine ⟨?_, forall₂_held hhold hmakes hordered.isChain, fun cue hcue => ?_, (held_disjoint hordered).filter _⟩
  · rw [laidOut, flatten_layout]
    exact forall₂_stopped table _
  · exact of_decide_eq_true (mem_filter.mp hcue).2

/-- Where no phrase opens together with the next one, no word is lost. -/
theorem losesNoWords_of_openings
    (hopenings : (laidOut table words projectFps).IsChain fun phrase next => opening phrase ≠ opening next) :
    LosesNoWords words (captionCues table words projectFps) := by
  obtain ⟨hstopped, hshown⟩ := laidOut_shown table projectFps hsorted
  rw [kept_eq_self hopenings] at hshown
  exact ⟨_, hstopped, hshown⟩

end

/-- The captions of a timeline: what is laid out, what of it is shown, and when that is all. -/
theorem captionCues_show (table : CharTable) (words : List TimelineTranscriptWord) (projectFps : Rational)
    (hsorted : words.Pairwise fun word later => word.projectStart ≤ later.projectStart) :
    List.Forall₂ Stopped (words.filterMap captionWord) (laidOut table words projectFps).flatten ∧
      Shown (kept (laidOut table words projectFps)) (captionCues table words projectFps) ∧
      ((laidOut table words projectFps).IsChain (fun phrase next => opening phrase ≠ opening next) →
        LosesNoWords words (captionCues table words projectFps)) :=
  ⟨(laidOut_shown table projectFps hsorted).1, (laidOut_shown table projectFps hsorted).2,
    losesNoWords_of_openings table projectFps hsorted⟩

end

/-! ## Two speakers at once -/

/-- The table on ASCII characters. -/
def asciiTable : CharTable := ⟨Char.isAlpha, Char.isUpper⟩

/-- Two speakers, each on a track of their own, begin on the same frame. -/
def interjection : List TimelineTranscriptWord :=
  [⟨"Yes", none, 1, 1, 1, 0, 10, 0, 10⟩, ⟨"No", none, 2, 2, 2, 0, 10, 0, 10⟩]

theorem captionCues_show_interjection :
    Shown (kept (laidOut asciiTable interjection ⟨30, 1⟩)) (captionCues asciiTable interjection ⟨30, 1⟩) ∧
      (kept (laidOut asciiTable interjection ⟨30, 1⟩)).map (List.map (·.text)) = [["No"]] :=
  ⟨(captionCues_show asciiTable interjection ⟨30, 1⟩ (by decide)).2.1, by decide +kernel⟩

/-- The first of the two words is not shown. -/
theorem interjection_lost :
    Rational.IsValid ⟨30, 1⟩ ∧ (interjection.Pairwise fun word later => word.projectStart ≤ later.projectStart) ∧
      ¬ LosesNoWords interjection (captionCues asciiTable interjection ⟨30, 1⟩) := by
  have hspoken : interjection.filterMap captionWord = [⟨"Yes", 0, 10, 1, 1, none⟩, ⟨"No", 0, 10, 2, 2, none⟩] := by
    decide +kernel
  have hcues : captionCues asciiTable interjection ⟨30, 1⟩ = [⟨0, 25, "No"⟩] := by decide +kernel
  refine ⟨by decide, by decide, ?_⟩
  rintro ⟨phrases, hstopped, hshown⟩
  have hshows := hshown.shows_
  rw [hcues] at hshows
  obtain ⟨phrase, rest, hphrase, hrest, rfl⟩ := forall₂_cons_right_iff.mp hshows
  obtain rfl := forall₂_nil_right_iff.mp hrest
  -- one cue would have to show the words of both clips
  rw [hspoken, flatten_cons, flatten_nil, append_nil] at hstopped
  obtain ⟨yes, _, hyes, hsecond, rfl⟩ := forall₂_cons_left_iff.mp hstopped
  obtain ⟨no, _, hno, -, rfl⟩ := forall₂_cons_left_iff.mp hsecond
  have hclip := ((pairwise_cons.mp hphrase.oneSource).1 no mem_cons_self).2.1
  rcases hyes with rfl | rfl <;> rcases hno with rfl | rfl <;> exact absurd hclip (by decide)

end Kinewright.Captions
