import Kinewright.Model.ClipData
import Kinewright.Multicam.Plan
import Kinewright.Timeline.Layers

/-!
# The cuts cover the range

The cuts of a plan tile the range of the group. A word is shown by the angle of its speaker when the turn that it is joined to
begins no later than the word.
-/

namespace Kinewright.Multicam

open Fallible Model Edits Transcript List Int64 KeyedMap

/-! ## Words that make a turn -/

/-- A word is added to the last group when it begins no later than the gap after a word of it. -/
def addWord (gap : TimeCode) (groups : List (List RawTurn)) (word : RawTurn) : List (List RawTurn) :=
  match groups.getLast? with
  | none => groups ++ [[word]]
  | some group =>
    if group.any fun before => word.start.toInt ≤ before.stop.toInt + gap.toInt then groups.dropLast ++ [group ++ [word]]
    else groups ++ [[word]]

/-- The words of one angle in groups, in the order of the transcript. -/
def groupsOf (gap : TimeCode) (words : List RawTurn) : List (List RawTurn) := words.foldl (addWord gap) []

/-- The turn of a group: it begins with the first word, and ends with the last end of a word. -/
structure Sums (group : List RawTurn) (turn : RawTurn) : Prop where
  first : ∃ first ∈ group.head?, turn.start = first.start ∧ turn.angleName = first.angleName
  key : ∀ word ∈ group, word.angleKey = turn.angleKey
  stop_le : ∀ word ∈ group, word.stop.toInt ≤ turn.stop.toInt
  stop_mem : ∃ word ∈ group, word.stop = turn.stop

theorem Sums.single (word : RawTurn) : Sums [word] word :=
  ⟨⟨word, rfl, rfl, rfl⟩, by simp, by simp, ⟨word, mem_singleton.mpr rfl, rfl⟩⟩

variable {gap : TimeCode} {groups : List (List RawTurn)} {turns turns' : List RawTurn} {raw turn previous : RawTurn}
  {group : List RawTurn}

theorem Sums.absorb (h : Sums group previous) (hkey : raw.angleKey = previous.angleKey) :
    Sums (group ++ [raw]) (previous.absorb raw) := by
  obtain ⟨⟨first, hfirst, hstart, hname⟩, hkeys, hle, hmem⟩ := h
  have hstop : (previous.absorb raw).stop.toInt = max previous.stop.toInt raw.stop.toInt := toInt_max _ _
  refine ⟨⟨first, ?_, hstart, hname⟩, fun word hword => ?_, fun word hword => ?_, ?_⟩
  · obtain ⟨rest, hrest⟩ := head?_eq_some_iff.mp hfirst
    rw [hrest]
    rfl
  · rcases mem_append.mp hword with hword | hword
    · exact hkeys word hword
    · rw [mem_singleton.mp hword]
      exact hkey
  · rcases mem_append.mp hword with hword | hword
    · have hbefore := hle word hword
      omega
    · rw [mem_singleton.mp hword]
      omega
  · rcases Int.le_total raw.stop.toInt previous.stop.toInt with hmax | hmax
    · obtain ⟨word, hword, heq⟩ := hmem
      refine ⟨word, mem_append_left _ hword, ?_⟩
      rw [heq, ← toInt_inj]
      omega
    · refine ⟨raw, mem_append_right _ (mem_singleton.mpr rfl), ?_⟩
      rw [← toInt_inj]
      omega

/-- The turns of an angle follow its groups, word by word. -/
theorem joinWord_sums (h : List.Forall₂ Sums groups turns) (hkey : ∀ turn ∈ turns, raw.angleKey = turn.angleKey)
    (hjoin : joinWord gap turns raw = .ok turns') : List.Forall₂ Sums (addWord gap groups raw) turns' := by
  unfold joinWord at hjoin
  unfold addWord
  rcases eq_nil_or_concat' groups with rfl | ⟨groups, group, rfl⟩
  · obtain rfl := forall₂_nil_left_iff.mp h
    obtain rfl := Except.ok.inj hjoin
    exact .cons (Sums.single raw) .nil
  · obtain ⟨turns, previous, rfl, hinit, hlast⟩ := exists_concat_of_forall₂ h
    simp only [getLast?_concat, dropLast_concat] at hjoin ⊢
    obtain ⟨limit, hlimit, hjoin⟩ := bind_eq_ok.mp hjoin
    obtain rfl := Except.ok.inj hjoin
    rw [addOffset, okOr_eq_ok, checkedAdd_eq_some] at hlimit
    -- the limit is the gap after the last end of a word
    have hjoins : (group.any fun before => decide (raw.start.toInt ≤ before.stop.toInt + gap.toInt)) = true ↔
        raw.start ≤ limit := by
      rw [any_eq_true, le_iff_toInt_le, hlimit]
      constructor
      · rintro ⟨word, hword, hle⟩
        have hstop := hlast.stop_le word hword
        rw [decide_eq_true_iff] at hle
        omega
      · intro hle
        obtain ⟨word, hword, heq⟩ := hlast.stop_mem
        exact ⟨word, hword, by rw [decide_eq_true_iff, heq]; exact hle⟩
    by_cases hle : raw.start ≤ limit
    · rw [if_pos hle, if_pos (hjoins.mpr hle)]
      exact rel_append hinit (.cons (hlast.absorb (hkey _ (by simp))) .nil)
    · rw [if_neg hle, if_neg fun hany => hle (hjoins.mp hany)]
      exact rel_append h (.cons (Sums.single raw) .nil)

/-! ## The turns of a transcript -/

section

variable {lower : String → String} {document : Document} {transcript : AssetTranscript}
  {settings : SpeakerMulticamSettings} {s : Setup}

/-- The words that overlap the range of the group, in the order of the transcript. -/
def spokenWords (lower : String → String) (document : Document) (transcript : AssetTranscript)
    (settings : SpeakerMulticamSettings) (s : Setup) (words : List (TranscriptWord × ℕ)) : List RawTurn :=
  words.filterMap fun word => (rawTurn lower document transcript settings s word.2 word.1).toOption.join

/-- The words of one angle. -/
def ofAngle (key : String) (words : List RawTurn) : List RawTurn := words.filter fun word => word.angleKey = key

/-- The turns of each angle are those of the groups of its words. -/
def Follows (gap : TimeCode) (words : List RawTurn) (turns : KeyedMap String (List RawTurn)) : Prop :=
  ∀ key, List.Forall₂ Sums (groupsOf gap (ofAngle key words)) ((turns.get? key).getD [])

variable {key : String}

theorem key_of_sums (h : Sums group turn) (hkey : ∀ word ∈ group, word.angleKey = key) : turn.angleKey = key := by
  obtain ⟨first, hfirst, -⟩ := h.first
  have hmem := mem_of_head? hfirst
  rw [← h.key first hmem, hkey first hmem]

theorem mem_addWord {word : RawTurn} {group' : List RawTurn} (h : group' ∈ addWord gap groups word) :
    group' ∈ groups ∨ (∃ group ∈ groups, group' = group ++ [word]) ∨ group' = [word] := by
  unfold addWord at h
  rcases eq_nil_or_concat' groups with rfl | ⟨groups, group, rfl⟩
  · exact .inr (.inr (mem_singleton.mp h))
  · simp only [getLast?_concat, dropLast_concat] at h
    split at h
    · rcases mem_append.mp h with h | h
      · exact .inl (mem_append_left _ h)
      · exact .inr (.inl ⟨group, by simp, mem_singleton.mp h⟩)
    · rcases mem_append.mp h with h | h
      · exact .inl h
      · exact .inr (.inr (mem_singleton.mp h))

theorem groupsOf_concat (words : List RawTurn) (word : RawTurn) :
    groupsOf gap (words ++ [word]) = addWord gap (groupsOf gap words) word := by
  rw [groupsOf, foldl_append]
  rfl

variable {words : List RawTurn}

/-- A group is made of words in their order. -/
theorem group_sublist (h : group ∈ groupsOf gap words) : group.Sublist words := by
  induction words using List.reverseRecOn generalizing group with
  | nil => cases h
  | append_singleton words word ih =>
    rw [groupsOf_concat] at h
    rcases mem_addWord h with hold | ⟨before, hbefore, rfl⟩ | rfl
    · exact (ih hold).trans (sublist_append_left _ _)
    · exact (ih hbefore).append (Sublist.refl _)
    · exact sublist_append_right _ _

theorem key_of_group (h : group ∈ groupsOf gap (ofAngle key words)) {word : RawTurn}
    (hword : word ∈ group) : word ∈ words ∧ word.angleKey = key := by
  have hmem := (group_sublist h).subset hword
  rw [ofAngle, mem_filter, decide_eq_true_iff] at hmem
  exact hmem

theorem Follows.join {turns : KeyedMap String (List RawTurn)} (h : Follows gap words turns)
    {joined : List RawTurn} (hjoin : joinWord gap ((turns.get? raw.angleKey).getD []) raw = .ok joined) :
    Follows gap (words ++ [raw]) (turns.insert raw.angleKey joined) := by
  intro key
  rw [ofAngle, filter_append, get?_insert]
  by_cases hkey : raw.angleKey = key
  · subst hkey
    rw [filter_cons_of_pos (by simp), filter_nil, groupsOf_concat, if_pos rfl]
    refine joinWord_sums (h _) (fun turn hturn => ?_) hjoin
    obtain ⟨group, hgroup, hsums⟩ := exists_of_forall₂_right (h _) hturn
    exact (key_of_sums hsums fun word hword => (key_of_group hgroup hword).2).symm
  · rw [filter_cons_of_neg (by simpa using hkey), filter_nil, append_nil, if_neg (Ne.symm hkey)]
    exact h key

/-- The turns follow the words that were read, whatever order they come in. -/
theorem joinWords_follows {words : List (TranscriptWord × ℕ)} {before : List RawTurn}
    {turns turns' : KeyedMap String (List RawTurn)} (h : Follows settings.maximumWordGapFrames before turns)
    (hjoin : joinWords lower document transcript settings s turns words = .ok turns') :
    Follows settings.maximumWordGapFrames
      (before ++ spokenWords lower document transcript settings s words) turns' := by
  induction words generalizing before turns with
  | nil =>
    obtain rfl := Except.ok.inj hjoin
    simpa [spokenWords] using h
  | cons word words ih =>
    obtain ⟨found, hfound, hjoin⟩ := bind_eq_ok.mp hjoin
    rw [spokenWords, filterMap_cons, hfound]
    cases found with
    | none => exact ih h hjoin
    | some raw =>
      obtain ⟨joined, hjoined, hjoin⟩ := bind_eq_ok.mp hjoin
      have hrest := ih (h.join hjoined) hjoin
      rw [append_assoc] at hrest
      exact hrest

/-- A turn inside the range of the group, named as its angle is. -/
structure Fits (settings : SpeakerMulticamSettings) (angles : KeyedMap String SyncGroupMember) (turn : RawTurn) :
    Prop where
  low : settings.groupStart.toInt ≤ turn.start.toInt
  positive : turn.start.toInt < turn.stop.toInt
  high : turn.stop.toInt ≤ settings.groupEnd.toInt
  named : ∃ member, angles.get? turn.angleKey = some member ∧ turn.angleName = member.angleName

theorem intersect_eq_some {left right range : FrameRange} (h : intersect left right = some range) :
    right.start.toInt ≤ range.start.toInt ∧ range.start.toInt < range.stop.toInt ∧
      range.stop.toInt ≤ right.stop.toInt := by
  dsimp only [intersect] at h
  split at h
  · rename_i hlt
    obtain rfl := Option.some.inj h
    rw [lt_iff_toInt_lt] at hlt
    refine ⟨?_, hlt, ?_⟩
    · rw [toInt_max]
      exact Int.le_max_right _ _
    · rw [toInt_min]
      exact Int.min_le_right _ _
  · cases h

theorem rawTurn_fits {index : ℕ} {word : TranscriptWord}
    (h : rawTurn lower document transcript settings s index word = .ok (some raw)) : Fits settings s.angles raw := by
  obtain ⟨-, h⟩ := then_eq_ok.mp h
  obtain ⟨mappedStart, -, h⟩ := bind_eq_ok.mp h
  obtain ⟨mappedEnd, -, h⟩ := bind_eq_ok.mp h
  obtain ⟨start, -, h⟩ := bind_eq_ok.mp h
  obtain ⟨stop, -, h⟩ := bind_eq_ok.mp h
  split at h
  · cases h
  · rename_i range hrange
    obtain ⟨speaker, -, h⟩ := bind_eq_ok.mp h
    obtain ⟨⟨key, display⟩, -, h⟩ := bind_eq_ok.mp h
    obtain ⟨member, hmember, h⟩ := bind_eq_ok.mp h
    obtain rfl := Option.some.inj (Except.ok.inj h)
    obtain ⟨hlow, hpositive, hhigh⟩ := intersect_eq_some hrange
    exact ⟨hlow, hpositive, hhigh, member, okOr_eq_ok.mp hmember, rfl⟩

theorem fits_of_spoken {words : List (TranscriptWord × ℕ)}
    (h : raw ∈ spokenWords lower document transcript settings s words) : Fits settings s.angles raw := by
  obtain ⟨⟨word, index⟩, -, hword⟩ := mem_filterMap.mp h
  cases hraw : rawTurn lower document transcript settings s index word with
  | error error =>
    rw [hraw] at hword
    cases hword
  | ok found =>
    rw [hraw] at hword
    obtain rfl : found = some raw := hword
    exact rawTurn_fits hraw

theorem Sums.fits {angles : KeyedMap String SyncGroupMember} (h : Sums group turn)
    (hwords : ∀ word ∈ group, Fits settings angles word) : Fits settings angles turn := by
  obtain ⟨⟨first, hfirst, hstart, hname⟩, hkeys, hle, word, hword, hstop⟩ := h
  have hmem := mem_of_head? hfirst
  have hfits := hwords first hmem
  have hlast := hle first hmem
  obtain ⟨member, hmember, hnamed⟩ := hfits.named
  have hlow := hfits.low
  have hpositive := hfits.positive
  have hhigh := (hwords word hword).high
  rw [hstop] at hhigh
  exact ⟨by rw [hstart]; exact hlow, by rw [hstart]; omega, hhigh, member, by rw [← hkeys first hmem, hmember],
    by rw [hname, hnamed]⟩

/-! ## Shots -/

/-- The shot of an angle has the turn in it. -/
structure Contains (shot turn : RawTurn) : Prop where
  key : shot.angleKey = turn.angleKey
  start : shot.start.toInt ≤ turn.start.toInt
  stop : turn.stop.toInt ≤ shot.stop.toInt

theorem Contains.refl (turn : RawTurn) : Contains turn turn := ⟨rfl, Int.le_refl _, Int.le_refl _⟩

theorem Contains.trans {shot between : RawTurn} (h : Contains shot between) (h' : Contains between turn) :
    Contains shot turn :=
  ⟨h.key.trans h'.key, Int.le_trans h.start h'.start, Int.le_trans h'.stop h.stop⟩

/-- A shot that is long enough. -/
structure Shot (settings : SpeakerMulticamSettings) (angles : KeyedMap String SyncGroupMember) (turn : RawTurn) :
    Prop extends Fits settings angles turn where
  long : settings.minimumShotFrames.toInt ≤ turn.stop.toInt - turn.start.toInt

/-- A shot ends before the next one begins, and the next one is of another angle. -/
def Precedes (shot next : RawTurn) : Prop := shot.stop.toInt ≤ next.start.toInt ∧ shot.angleKey ≠ next.angleKey

variable {angles : KeyedMap String SyncGroupMember} {retained retained' : List RawTurn}

/-- The shots so far, before a turn that begins no earlier than the last one. -/
structure Shots (settings : SpeakerMulticamSettings) (angles : KeyedMap String SyncGroupMember)
    (retained : List RawTurn) : Prop where
  shot : ∀ shot ∈ retained, Shot settings angles shot
  chain : retained.IsChain Precedes

theorem Shot.absorb (hprevious : Shot settings angles previous) (hturn : Shot settings angles turn) :
    Shot settings angles (previous.absorb turn) ∧ Contains (previous.absorb turn) previous := by
  have hstop : (previous.absorb turn).stop.toInt = max previous.stop.toInt turn.stop.toInt := toInt_max _ _
  have hpositive := hprevious.positive
  have hhigh := hprevious.high
  have hhigh' := hturn.high
  have hlong := hprevious.long
  refine ⟨⟨⟨hprevious.low, ?_, ?_, hprevious.named⟩, ?_⟩, rfl, Int.le_refl _, ?_⟩
  · rw [hstop]
    exact Int.lt_of_lt_of_le hpositive (Int.le_max_left _ _)
  · omega
  · have hmax := Int.le_max_left previous.stop.toInt turn.stop.toInt
    have hstart : (previous.absorb turn).start = previous.start := rfl
    rw [hstart]
    omega
  · omega

/-- A turn becomes part of a shot, and every shot stays. -/
theorem retainTurn_shots (h : Shots settings angles retained) (hturn : Shot settings angles turn)
    (hlast : ∀ last ∈ retained.getLast?, last.start.toInt ≤ turn.start.toInt)
    (hok : retainTurn retained turn = .ok retained') :
    Shots settings angles retained' ∧ (∀ last ∈ retained'.getLast?, last.start.toInt ≤ turn.start.toInt) ∧
      (∃ shot ∈ retained', Contains shot turn) ∧ ∀ old ∈ retained, ∃ shot ∈ retained', Contains shot old := by
  unfold retainTurn at hok
  rcases eq_nil_or_concat' retained with rfl | ⟨shots, previous, rfl⟩
  · obtain rfl := Except.ok.inj hok
    refine ⟨⟨by simpa using hturn, .singleton _⟩, by simp, ⟨turn, by simp, .refl turn⟩, by simp⟩
  · simp only [getLast?_concat, dropLast_concat] at hok hlast
    have hstart := hlast previous rfl
    have hprevious : Shot settings angles previous := h.shot previous (by simp)
    have hchain := isChain_append.mp h.chain
    split at hok
    · cases hok
    · rename_i hoverlap
      split at hok
      · -- the turn is of the same angle as the shot before it
        rename_i hkey
        obtain rfl := Except.ok.inj hok
        obtain ⟨hshot, hcontains⟩ := hprevious.absorb hturn
        have hstop : (previous.absorb turn).stop.toInt = max previous.stop.toInt turn.stop.toInt := toInt_max _ _
        refine ⟨⟨fun shot hmem => ?_, ?_⟩, fun last hmem => ?_,
          ⟨previous.absorb turn, by simp, hkey.symm, hstart, by omega⟩, fun old hold => ?_⟩
        · rcases mem_append.mp hmem with hmem | hmem
          · exact h.shot shot (mem_append_left _ hmem)
          · rw [mem_singleton.mp hmem]
            exact hshot
        · exact isChain_append.mpr ⟨hchain.1, .singleton _, fun shot hshot next hnext => by
            obtain rfl := Option.some.inj hnext
            exact hchain.2.2 shot hshot previous rfl⟩
        · rw [getLast?_concat] at hmem
          obtain rfl := Option.some.inj hmem
          exact hstart
        · rcases mem_append.mp hold with hold | hold
          · exact ⟨old, mem_append_left _ hold, .refl old⟩
          · rw [mem_singleton.mp hold]
            exact ⟨_, mem_append_right _ (mem_singleton.mpr rfl), hcontains⟩
      · rename_i hkey
        obtain rfl := Except.ok.inj hok
        have hapart : previous.stop.toInt ≤ turn.start.toInt := by
          rw [lt_iff_toInt_lt] at hoverlap
          exact Int.not_lt.mp fun hlt => hoverlap ⟨hlt, hkey⟩
        refine ⟨⟨fun shot hmem => ?_, ?_⟩, by simp, ⟨turn, by simp, .refl turn⟩,
          fun old hold => ⟨old, mem_append_left _ hold, .refl old⟩⟩
        · rcases mem_append.mp hmem with hmem | hmem
          · exact h.shot shot hmem
          · rw [mem_singleton.mp hmem]
            exact hturn
        · refine isChain_append.mpr ⟨h.chain, .singleton _, fun shot hshot next hnext => ?_⟩
          rw [getLast?_concat] at hshot
          obtain rfl := Option.some.inj hshot
          obtain rfl := Option.some.inj hnext
          exact ⟨hapart, fun heq => hkey heq.symm⟩

/-- Turns in the order of their starts become shots, and each one is part of a shot. -/
theorem retainTurns_shots (h : Shots settings angles retained) (hturns : ∀ turn ∈ turns, Shot settings angles turn)
    (hsorted : turns.Pairwise fun turn later => turn.start.toInt ≤ later.start.toInt)
    (hlast : ∀ last ∈ retained.getLast?, ∀ turn ∈ turns, last.start.toInt ≤ turn.start.toInt)
    (hok : retainTurns retained turns = .ok retained') :
    Shots settings angles retained' ∧ (∀ turn ∈ turns, ∃ shot ∈ retained', Contains shot turn) ∧
      ∀ old ∈ retained, ∃ shot ∈ retained', Contains shot old := by
  induction turns generalizing retained with
  | nil =>
    obtain rfl := Except.ok.inj hok
    exact ⟨h, by simp, fun old hold => ⟨old, hold, .refl old⟩⟩
  | cons turn turns ih =>
    obtain ⟨next, hnext, hok⟩ := bind_eq_ok.mp hok
    rw [pairwise_cons] at hsorted
    obtain ⟨hshots, hnextLast, ⟨shot, hshot, hcontains⟩, hkept⟩ :=
      retainTurn_shots h (hturns turn mem_cons_self) (fun last hmem => hlast last hmem turn mem_cons_self) hnext
    obtain ⟨hshots', hin, hkept'⟩ := ih hshots (fun t ht => hturns t (mem_cons_of_mem _ ht)) hsorted.2
      (fun last hmem t ht => Int.le_trans (hnextLast last hmem) (hsorted.1 t ht)) hok
    refine ⟨hshots', fun t ht => ?_, fun old hold => ?_⟩
    · rcases mem_cons.mp ht with rfl | ht
      · obtain ⟨shot', hshot', hcontains'⟩ := hkept' shot hshot
        exact ⟨shot', hshot', hcontains'.trans hcontains⟩
      · exact hin t ht
    · obtain ⟨shot, hshot, hold⟩ := hkept old hold
      obtain ⟨shot', hshot', hcontains'⟩ := hkept' shot hshot
      exact ⟨shot', hshot', hcontains'.trans hold⟩

/-! ## Coverage -/

/-- The middle of the silence lies between the two shots. -/
theorem toInt_middle {stop start : TimeCode} (h : stop.toInt ≤ start.toInt) :
    stop.toInt ≤ (saturatingAdd stop (saturatingSub start stop / 2)).toInt ∧
      (saturatingAdd stop (saturatingSub start stop / 2)).toInt ≤ start.toInt := by
  have hlow := stop.le_toInt
  have hhigh := start.toInt_lt
  have hsilence : 0 ≤ (saturatingSub start stop).toInt ∧
      (saturatingSub start stop).toInt ≤ start.toInt - stop.toInt := by
    unfold saturatingSub Int64.ofIntClamp
    rw [dif_pos (by rw [toInt_minValue]; omega)]
    split
    · rw [toInt_ofIntLE]
      omega
    · rename_i hle
      rw [toInt_maxValue] at hle ⊢
      omega
  have hhalf : (saturatingSub start stop / 2).toInt = (saturatingSub start stop).toInt / 2 := by
    rw [toInt_div_of_ne_right _ _ (by decide), Int.tdiv_eq_ediv_of_nonneg hsilence.1]
    rfl
  have hsum : (saturatingAdd stop (saturatingSub start stop / 2)).toInt =
      stop.toInt + (saturatingSub start stop / 2).toInt := by
    refine Int64.toInt_ofIntClamp ?_ ?_
    · rw [toInt_minValue]
      omega
    · rw [toInt_maxValue]
      omega
  omega

/-- The stretched shot has the shot in it. -/
structure Stretches (shot covered : RawTurn) : Prop extends Contains covered shot where
  name : covered.angleName = shot.angleName

/-- Adjacent shots are stretched to one frame between them, and are of different angles. -/
def Meets (covered next : RawTurn) : Prop := covered.stop = next.start ∧ covered.angleKey ≠ next.angleKey

theorem coverTurns_spec (groupEnd coverageStart : TimeCode) {shots : List RawTurn} (hchain : shots.IsChain Precedes)
    (hpositive : ∀ shot ∈ shots, shot.start.toInt < shot.stop.toInt)
    (hlow : ∀ first ∈ shots.head?, coverageStart.toInt ≤ first.start.toInt)
    (hhigh : ∀ shot ∈ shots, shot.stop.toInt ≤ groupEnd.toInt) :
    List.Forall₂ Stretches shots (coverTurns groupEnd coverageStart shots) ∧
      (coverTurns groupEnd coverageStart shots).IsChain Meets ∧
      (∀ first ∈ (coverTurns groupEnd coverageStart shots).head?, first.start = coverageStart) ∧
      ∀ last ∈ (coverTurns groupEnd coverageStart shots).getLast?, last.stop = groupEnd := by
  induction shots generalizing coverageStart with
  | nil => exact ⟨.nil, .nil, by simp [coverTurns], by simp [coverTurns]⟩
  | cons turn shots ih =>
    have hstart := hlow turn rfl
    cases shots with
    | nil =>
      refine ⟨.cons ⟨⟨rfl, hstart, hhigh turn mem_cons_self⟩, rfl⟩ .nil, .singleton _, ?_, ?_⟩
      all_goals simp [coverTurns]
    | cons next shots =>
      obtain ⟨⟨hapart, hkey⟩, hrest⟩ := isChain_cons_cons.mp hchain
      obtain ⟨hmiddle, hmiddle'⟩ := toInt_middle hapart
      obtain ⟨hstretches, hmeets, hfirst, hlast⟩ := ih _ hrest (fun s hs => hpositive s (mem_cons_of_mem _ hs))
        (fun first hmem => by
          obtain rfl := Option.some.inj hmem
          exact hmiddle') (fun s hs => hhigh s (mem_cons_of_mem _ hs))
      rw [coverTurns]
      generalize hcover : coverTurns groupEnd (saturatingAdd turn.stop (saturatingSub next.start turn.stop / 2))
        (next :: shots) = covered at *
      obtain ⟨first, covered, hfirstStretches, -, rfl⟩ := forall₂_cons_left_iff.mp hstretches
      have hmeet := hfirst first rfl
      refine ⟨.cons ⟨⟨rfl, hstart, hmiddle⟩, rfl⟩ hstretches,
        isChain_cons_cons.mpr ⟨⟨hmeet.symm, ?_⟩, hmeets⟩, fun first hmem => ?_, fun last hmem => ?_⟩
      · rw [hfirstStretches.key]
        exact hkey
      · obtain rfl := Option.some.inj hmem
        rfl
      · exact hlast last hmem

/-! ## Cuts -/

/-- The cut shows a shot, at the same offset behind the start of the record. -/
structure Shows (settings : SpeakerMulticamSettings) (turn : RawTurn) (cut : SpeakerMulticamCut) : Prop where
  name : cut.angleName = turn.angleName
  start : cut.groupStart = turn.start
  stop : cut.groupEnd = turn.stop
  timelineStart : cut.timelineStart.toInt = settings.recordStart.toInt + (turn.start.toInt - settings.groupStart.toInt)
  timelineEnd : cut.timelineEnd.toInt = settings.recordStart.toInt + (turn.stop.toInt - settings.groupStart.toInt)

theorem cutOf_shows {cut : SpeakerMulticamCut} (h : cutOf document settings angles turn = .ok cut) :
    Shows settings turn cut := by
  obtain ⟨member, -, h⟩ := bind_eq_ok.mp h
  obtain ⟨asset, -, h⟩ := bind_eq_ok.mp h
  obtain ⟨angleProjectFrame, -, h⟩ := bind_eq_ok.mp h
  obtain ⟨-, h⟩ := then_eq_ok.mp h
  obtain ⟨sourceIn, -, h⟩ := bind_eq_ok.mp h
  obtain ⟨-, h⟩ := then_eq_ok.mp h
  obtain ⟨recordOffset, hoffset, h⟩ := bind_eq_ok.mp h
  obtain ⟨timelineStart, hstart, h⟩ := bind_eq_ok.mp h
  obtain ⟨shotDuration, hduration, h⟩ := bind_eq_ok.mp h
  obtain ⟨timelineEnd, hend, h⟩ := bind_eq_ok.mp h
  obtain rfl := Except.ok.inj h
  rw [okOr_eq_ok, checkedSub_eq_some] at hoffset hduration
  rw [addOffset, okOr_eq_ok, checkedAdd_eq_some] at hstart hend
  exact ⟨rfl, rfl, rfl, by dsimp only; omega, by dsimp only; omega⟩

theorem cutsOf_shows {cuts : List SpeakerMulticamCut}
    (h : cutsOf document settings angles turns = .ok cuts) : List.Forall₂ (Shows settings) turns cuts := by
  induction turns generalizing cuts with
  | nil =>
    obtain rfl := Except.ok.inj h
    exact .nil
  | cons turn turns ih =>
    obtain ⟨cut, hcut, h⟩ := bind_eq_ok.mp h
    obtain ⟨rest, hrest, h⟩ := bind_eq_ok.mp h
    obtain rfl := Except.ok.inj h
    exact .cons (cutOf_shows hcut) (ih hrest)

/-! ## Plans -/

/-- Every angle is kept by its name. -/
def NamesKeys (lower : String → String) (angles : KeyedMap String SyncGroupMember) : Prop :=
  ∀ key member, angles.get? key = some member → normalizedName lower member.angleName = key

theorem anglesOf_namesKeys {syncGroup : SyncGroup} {members : List SyncGroupMember}
    {before : KeyedMap String SyncGroupMember} (hbefore : NamesKeys lower before)
    (h : anglesOf lower document syncGroup before members = .ok angles) : NamesKeys lower angles := by
  induction members generalizing before with
  | nil =>
    obtain rfl := Except.ok.inj h
    exact hbefore
  | cons member members ih =>
    obtain ⟨-, h⟩ := then_eq_ok.mp h
    obtain ⟨asset, -, h⟩ := bind_eq_ok.mp h
    refine ih (fun key found hfound => ?_) h
    rw [get?_insert] at hfound
    split at hfound
    · rename_i hkey
      obtain rfl := Option.some.inj hfound
      exact hkey.symm
    · exact hbefore key found hfound

theorem setup_namesKeys (h : setup lower document transcript settings = .ok s) : NamesKeys lower s.angles := by
  obtain ⟨-, h⟩ := then_eq_ok.mp h
  obtain ⟨-, h⟩ := then_eq_ok.mp h
  obtain ⟨-, h⟩ := then_eq_ok.mp h
  obtain ⟨syncGroup, -, h⟩ := bind_eq_ok.mp h
  obtain ⟨target, -, h⟩ := bind_eq_ok.mp h
  obtain ⟨-, h⟩ := then_eq_ok.mp h
  obtain ⟨angles, hangles, h⟩ := bind_eq_ok.mp h
  obtain ⟨reference, -, h⟩ := bind_eq_ok.mp h
  obtain ⟨referenceAsset, -, h⟩ := bind_eq_ok.mp h
  obtain ⟨-, h⟩ := then_eq_ok.mp h
  obtain ⟨-, h⟩ := then_eq_ok.mp h
  obtain ⟨assignments, -, h⟩ := bind_eq_ok.mp h
  obtain rfl := Except.ok.inj h
  exact anglesOf_namesKeys (fun key member hnone => by cases hnone) hangles

/-- The cuts tile the range of the group, and the record at the same offsets. -/
structure Tiles (settings : SpeakerMulticamSettings) (cuts : List SpeakerMulticamCut) : Prop where
  cuts_ne : cuts ≠ []
  opens : ∀ first ∈ cuts.head?, first.groupStart = settings.groupStart
  closes : ∀ last ∈ cuts.getLast?, last.groupEnd = settings.groupEnd
  chain : cuts.IsChain fun cut next =>
    cut.groupEnd = next.groupStart ∧ cut.timelineEnd = next.timelineStart ∧ cut.angleName ≠ next.angleName
  positive : ∀ cut ∈ cuts, cut.groupStart < cut.groupEnd
  long : ∀ cut ∈ cuts, settings.minimumShotFrames.toInt ≤ cut.groupEnd.toInt - cut.groupStart.toInt
  offsets : ∀ cut ∈ cuts,
    cut.timelineStart.toInt = settings.recordStart.toInt + (cut.groupStart.toInt - settings.groupStart.toInt) ∧
      cut.timelineEnd.toInt = settings.recordStart.toInt + (cut.groupEnd.toInt - settings.groupStart.toInt)

/-- No word joins a turn that begins after it. -/
def InOrder (gap : TimeCode) (words : List RawTurn) : Prop :=
  ∀ key, ∀ group ∈ groupsOf gap (ofAngle key words), ∀ first ∈ group.head?, ∀ word ∈ group, first.start ≤ word.start

/-- In a transcript whose words come in the order of their starts no word joins a later turn. -/
theorem inOrder_of_pairwise (h : words.Pairwise fun word later => word.start ≤ later.start) : InOrder gap words := by
  intro key group hgroup first hfirst word hword
  have hsorted := h.sublist ((group_sublist hgroup).trans filter_sublist)
  obtain ⟨rest, rfl⟩ := head?_eq_some_iff.mp hfirst
  rcases mem_cons.mp hword with rfl | hrest
  · exact Int64.le_refl _
  · exact (pairwise_cons.mp hsorted).1 word hrest

/-- Every word of a turn that is not suppressed is inside a cut of the angle of its speaker. -/
def Shown (settings : SpeakerMulticamSettings) (words : List RawTurn) (cuts : List SpeakerMulticamCut) : Prop :=
  ∀ key, ∀ group ∈ groupsOf settings.maximumWordGapFrames (ofAngle key words),
    (∃ turn, Sums group turn ∧ isLong settings.minimumShotFrames turn = true) → ∀ word ∈ group, ∃ cut ∈ cuts,
        cut.angleName = word.angleName ∧ cut.groupStart ≤ word.start ∧ word.stop ≤ cut.groupEnd

theorem Sums.isLong_eq {turn' : RawTurn} {minimum : TimeCode} (h : Sums group turn) (h' : Sums group turn') :
    isLong minimum turn' = isLong minimum turn := by
  obtain ⟨first, hfirst, hstart, -⟩ := h.first
  obtain ⟨first', hfirst', hstart', -⟩ := h'.first
  obtain rfl := Option.some.inj (hfirst.symm.trans hfirst')
  obtain ⟨word, hword, hstop⟩ := h.stop_mem
  obtain ⟨word', hword', hstop'⟩ := h'.stop_mem
  have hle := h'.stop_le word hword
  have hle' := h.stop_le word' hword'
  rw [hstop] at hle
  rw [hstop'] at hle'
  have heq : turn'.stop = turn.stop := toInt_inj.mp (Int.le_antisymm hle' hle)
  rw [isLong, isLong, heq, hstart, hstart']

theorem sortTurns_perm (turns : List RawTurn) : (sortTurns turns).Perm turns := perm_insertionSort _ _

theorem sortTurns_pairwise (turns : List RawTurn) :
    (sortTurns turns).Pairwise fun turn later => turn.start.toInt ≤ later.start.toInt := by
  have hsorted : (sortTurns turns).Pairwise fun turn later =>
      toLex (turn.start.toInt, toLex (turn.stop.toInt, toLex (turn.angleKey, turn.speakers))) ≤
        toLex (later.start.toInt, toLex (later.stop.toInt, toLex (later.angleKey, later.speakers))) := by
    exact pairwise_insertionSort _ _
  refine hsorted.imp fun h => ?_
  rcases Prod.Lex.toLex_le_toLex.mp h with hlt | ⟨heq, -⟩
  · exact Int.le_of_lt hlt
  · exact Int.le_of_eq heq

theorem isLong_iff {minimum : TimeCode} : isLong minimum turn = true →
    minimum.toInt ≤ turn.stop.toInt - turn.start.toInt := by
  unfold isLong
  cases hd : checkedSub turn.stop turn.start with
  | none => exact fun h => (by cases h)
  | some duration =>
    intro h
    rw [Option.any_some, decide_eq_true_iff, le_iff_toInt_le, checkedSub_eq_some.mp hd] at h
    exact h

/-- The turn that a plan makes of a group. -/
theorem turn_of_group {wordsByAngle : KeyedMap String (List RawTurn)} (h : Follows gap words wordsByAngle)
    (hgroup : group ∈ groupsOf gap (ofAngle key words)) :
    ∃ turn ∈ wordsByAngle.entries.flatMap fun entry => entry.2, Sums group turn := by
  obtain ⟨turn, hturn, hsums⟩ := exists_of_forall₂_left (h key) hgroup
  cases hfound : wordsByAngle.get? key with
  | none =>
    rw [hfound] at hturn
    cases hturn
  | some turns =>
    rw [hfound] at hturn
    exact ⟨turn, mem_flatMap.mpr ⟨(key, turns), mem_entries.mpr hfound, hturn⟩, hsums⟩

theorem group_of_turn {wordsByAngle : KeyedMap String (List RawTurn)} (h : Follows gap words wordsByAngle)
    (hturn : turn ∈ wordsByAngle.entries.flatMap fun entry => entry.2) :
    ∃ key, ∃ group ∈ groupsOf gap (ofAngle key words), Sums group turn := by
  obtain ⟨⟨key, turns⟩, hentry, hturn⟩ := mem_flatMap.mp hturn
  have hfollows := h key
  rw [mem_entries.mp hentry] at hfollows
  obtain ⟨group, hgroup, hsums⟩ := exists_of_forall₂_right hfollows hturn
  exact ⟨key, group, hgroup, hsums⟩

/-- A cut shows what was a shot before it was stretched. -/
structure Widens (settings : SpeakerMulticamSettings) (shot : RawTurn) (cut : SpeakerMulticamCut) : Prop where
  name : cut.angleName = shot.angleName
  start : cut.groupStart.toInt ≤ shot.start.toInt
  stop : shot.stop.toInt ≤ cut.groupEnd.toInt

/-- The shots that are stretched are cuts that tile the range. -/
theorem tiles_of_shots {cuts : List SpeakerMulticamCut} (hnames : NamesKeys lower angles) (hne : retained ≠ [])
    (h : Shots settings angles retained)
    (hcuts : cutsOf document settings angles (coverTurns settings.groupEnd settings.groupStart retained) = .ok cuts) :
    Tiles settings cuts ∧ List.Forall₂ (Widens settings) retained cuts := by
  obtain ⟨hstretches, hmeets, hfirst, hlast⟩ := coverTurns_spec settings.groupEnd settings.groupStart h.chain (fun shot hshot => (h.shot shot hshot).positive)
    (fun first hmem => (h.shot first (mem_of_head? hmem)).low) fun shot hshot => (h.shot shot hshot).high
  generalize coverTurns settings.groupEnd settings.groupStart retained = covered at *
  have hshows : List.Forall₂ (Shows settings) covered cuts := cutsOf_shows hcuts
  have hwidens : List.Forall₂ (Widens settings) retained cuts :=
    forall₂_trans (fun shot turn cut hs hc =>
      ⟨hc.name.trans hs.name, by rw [hc.start]; exact hs.start, by rw [hc.stop]; exact hs.stop⟩) hstretches hshows
  -- a stretched shot keeps the name of the angle by which it is kept
  have hnamed : ∀ turn ∈ covered, normalizedName lower turn.angleName = turn.angleKey := by
    intro turn hturn
    obtain ⟨shot, hshot, hs⟩ := exists_of_forall₂_right hstretches hturn
    obtain ⟨member, hmember, hname⟩ := (h.shot shot hshot).named
    rw [hs.name, hname, hs.key]
    exact hnames _ member hmember
  have hchain : cuts.IsChain fun cut next =>
      cut.groupEnd = next.groupStart ∧ cut.timelineEnd = next.timelineStart ∧ cut.angleName ≠ next.angleName := by
    have hshows' : List.Forall₂ (fun turn cut =>
        Shows settings turn cut ∧ normalizedName lower turn.angleName = turn.angleKey) covered cuts :=
      forall₂_imp_of_mem (fun turn hturn cut hc => ⟨hc, hnamed turn hturn⟩) hshows
    refine isChain_of_forall₂ (fun turn next cut cut' hc hc' hmeet => ⟨?_, ?_, fun heq => ?_⟩) hshows' hmeets
    · rw [hc.1.stop, hc'.1.start, hmeet.1]
    · rw [← toInt_inj, hc.1.timelineEnd, hc'.1.timelineStart, hmeet.1]
    · refine hmeet.2 ?_
      rw [← hc.2, ← hc'.2, ← hc.1.name, ← hc'.1.name, heq]
  have hwide : ∀ cut ∈ cuts, ∃ shot ∈ retained, Widens settings shot cut := fun cut hcut =>
    exists_of_forall₂_right hwidens hcut
  refine ⟨⟨?_, ?_, ?_, hchain, fun cut hcut => ?_, fun cut hcut => ?_, fun cut hcut => ?_⟩, hwidens⟩
  · rintro rfl
    exact hne (forall₂_nil_right_iff.mp hwidens)
  · intro cut hcut
    obtain ⟨turn, hturn, hc⟩ := exists_head?_of_forall₂ hshows hcut
    rw [hc.start, hfirst turn hturn]
  · intro cut hcut
    obtain ⟨turn, hturn, hc⟩ := exists_getLast?_of_forall₂ hshows hcut
    rw [hc.stop, hlast turn hturn]
  · obtain ⟨shot, hshot, hw⟩ := hwide cut hcut
    have hpositive := (h.shot shot hshot).positive
    have hstart := hw.start
    have hstop := hw.stop
    rw [lt_iff_toInt_lt]
    omega
  · obtain ⟨shot, hshot, hw⟩ := hwide cut hcut
    have hlong := (h.shot shot hshot).long
    have hstart := hw.start
    have hstop := hw.stop
    omega
  · obtain ⟨turn, -, hc⟩ := exists_of_forall₂_right hshows hcut
    rw [hc.start, hc.stop]
    exact ⟨hc.timelineStart, hc.timelineEnd⟩

/-- The cuts of a plan tile the range. Every word of a turn that is not suppressed is shown by the angle of its speaker, unless
a word has joined a turn that begins after it. -/
theorem planSpeakerMulticam_covers {plan : SpeakerMulticamPlan}
    (h : planSpeakerMulticam lower document transcript settings = .ok plan) :
    ∃ s, setup lower document transcript settings = .ok s ∧ Tiles settings plan.cuts ∧
      (InOrder settings.maximumWordGapFrames (spokenWords lower document transcript settings s transcript.words.zipIdx) →
        Shown settings (spokenWords lower document transcript settings s transcript.words.zipIdx) plan.cuts) := by
  obtain ⟨s, hsetup, h⟩ := bind_eq_ok.mp h
  obtain ⟨wordsByAngle, hwords, h⟩ := bind_eq_ok.mp h
  obtain ⟨-, h⟩ := then_eq_ok.mp h
  obtain ⟨hlongNe, h⟩ := then_eq_ok.mp h
  obtain ⟨retained, hretained, h⟩ := bind_eq_ok.mp h
  obtain ⟨cuts, hcuts, h⟩ := bind_eq_ok.mp h
  obtain ⟨applied, -, h⟩ := bind_eq_ok.mp h
  obtain rfl := Except.ok.inj h
  have hnames := setup_namesKeys hsetup
  refine ⟨s, hsetup, ?_⟩
  generalize hspoken : spokenWords lower document transcript settings s transcript.words.zipIdx = words
  have hfits : ∀ word ∈ words, Fits settings s.angles word := fun word hword => by
    rw [← hspoken] at hword
    exact fits_of_spoken hword
  have hfollows : Follows settings.maximumWordGapFrames words wordsByAngle := by
    rw [← hspoken]
    have hempty : Follows settings.maximumWordGapFrames [] .empty := fun key => .nil
    have hjoined := joinWords_follows hempty hwords
    rwa [nil_append] at hjoined
  -- every turn that is long enough is a shot
  have hshot : ∀ turn ∈ (sortTurns (wordsByAngle.entries.flatMap fun entry => entry.2)).filter
      (isLong settings.minimumShotFrames), Shot settings s.angles turn := by
    intro turn hturn
    obtain ⟨hmem, hlong⟩ := mem_filter.mp hturn
    obtain ⟨key, group, hgroup, hsums⟩ := group_of_turn hfollows ((sortTurns_perm _).mem_iff.mp hmem)
    exact ⟨hsums.fits fun word hword => hfits word (key_of_group hgroup hword).1, isLong_iff hlong⟩
  have hsorted := (sortTurns_pairwise (wordsByAngle.entries.flatMap fun entry => entry.2)).filter
    (isLong settings.minimumShotFrames)
  have hnone : Shots settings s.angles [] := ⟨by simp, .nil⟩
  obtain ⟨hshots, hin, -⟩ := retainTurns_shots hnone hshot hsorted (by simp) hretained
  have hne : retained ≠ [] := by
    rintro rfl
    rw [refuse_eq_ok] at hlongNe
    obtain ⟨turn, hturn⟩ := exists_mem_of_ne_nil _ hlongNe
    obtain ⟨shot, hmem, -⟩ := hin turn hturn
    cases hmem
  obtain ⟨htiles, hwidens⟩ := tiles_of_shots hnames hne hshots hcuts
  refine ⟨htiles, fun horder key group hgroup ⟨turn', hsums', hlong⟩ word hword => ?_⟩
  obtain ⟨turn, hturn, hsums⟩ := turn_of_group hfollows hgroup
  rw [← hsums'.isLong_eq hsums] at hlong
  obtain ⟨shot, hshotMem, hcontains⟩ := hin turn (mem_filter.mpr ⟨(sortTurns_perm _).mem_iff.mpr hturn, hlong⟩)
  obtain ⟨cut, hcut, hwiden⟩ := exists_of_forall₂_left hwidens hshotMem
  obtain ⟨first, hfirst, hstart, -⟩ := hsums.first
  have hbegins := horder key group hgroup first hfirst word hword
  have hends := hsums.stop_le word hword
  refine ⟨cut, hcut, ?_, ?_, ?_⟩
  · -- the word and the shot are of one angle, which has one name
    obtain ⟨member, hmember, hname⟩ := (hshots.shot shot hshotMem).named
    obtain ⟨member', hmember', hname'⟩ := (hfits word (key_of_group hgroup hword).1).named
    rw [hcontains.key, ← hsums.key word hword, hmember'] at hmember
    obtain rfl := Option.some.inj hmember
    rw [hwiden.name, hname, hname']
  · rw [le_iff_toInt_le] at hbegins ⊢
    have hshotStart := hcontains.start
    have hcutStart := hwiden.start
    rw [hstart] at hshotStart
    omega
  · rw [le_iff_toInt_le]
    have hshotStop := hcontains.stop
    have hcutStop := hwiden.stop
    omega

end

/-! ## Two speakers -/

/-- `to_lowercase`, on the characters of ASCII. -/
def asciiLower (text : String) : String := String.ofList (text.toList.map Char.toLower)

/-- Two angles of thirty frames a second, the second one three frames ahead of the group. -/
def ceremony : Document :=
  { Timeline.demoDocument with
    tracks := [{ id := 7, kind := .video, syncLock := true, clips := [] }]
    mediaPool :=
      [{ Timeline.demoAsset with duration := 300, fps := { numerator := 30, denominator := 1 }, kind := .audioVideo },
       { Timeline.demoAsset with
         id := 2, path := "b.mp4", duration := 300, fps := { numerator := 30, denominator := 1 } }]
    catalog :=
      { bins := []
        stringOuts := []
        syncGroups :=
          [{ id := 4
             name := "Ceremony"
             members :=
               [{ asset := 1, offset := 0, angleName := "Wide" }, { asset := 2, offset := -3, angleName := "Close" }] }] }
    duration := 0 }

def ceremonySettings : SpeakerMulticamSettings where
  syncGroup := 4
  targetTrack := 7
  groupStart := 0
  groupEnd := 60
  recordStart := 100
  maximumWordGapFrames := 3
  minimumShotFrames := 2
  assignments := [{ speaker := "Alice", angleName := "Close" }, { speaker := "Bob", angleName := "Wide" }]

def ceremonyTranscript (words : List (TimeCode × TimeCode × String)) : AssetTranscript where
  asset := 1
  contentSha256 := "fixture"
  sourceFps := { numerator := 30, denominator := 1 }
  words := words.map fun word =>
    { text := "word", sourceStart := word.1, sourceEnd := word.2.1, speaker := some word.2.2 }

def dialogue : AssetTranscript := ceremonyTranscript [(10, 15, "Alice"), (16, 20, "Alice"), (30, 45, "Bob")]

theorem planSpeakerMulticam_covers_dialogue : ∃ plan s,
    planSpeakerMulticam asciiLower ceremony dialogue ceremonySettings = .ok plan ∧
      Tiles ceremonySettings plan.cuts ∧ Shown ceremonySettings
        (spokenWords asciiLower ceremony dialogue ceremonySettings s dialogue.words.zipIdx) plan.cuts := by
  obtain ⟨plan, hplan⟩ : ∃ plan, planSpeakerMulticam asciiLower ceremony dialogue ceremonySettings = .ok plan :=
    exists_ok (by decide +kernel)
  obtain ⟨s, hsetup, htiles, hshown⟩ := planSpeakerMulticam_covers hplan
  have hspoken : (setup asciiLower ceremony dialogue ceremonySettings).toOption.all (fun s =>
      (spokenWords asciiLower ceremony dialogue ceremonySettings s dialogue.words.zipIdx).Pairwise
        fun word later => word.start ≤ later.start) = true := by
    decide +kernel
  rw [hsetup] at hspoken
  exact ⟨plan, s, hplan, htiles, hshown (inOrder_of_pairwise (of_decide_eq_true hspoken))⟩

/-- Alice's second word is spoken before her first one, and Bob speaks between them. -/
def shuffled : AssetTranscript := ceremonyTranscript [(10, 20, "Alice"), (0, 5, "Alice"), (6, 8, "Bob")]

/-- The word that is spoken first joins the turn of Alice, and is shown in the cut of Bob's angle. -/
theorem shuffled_misplaced : ∃ plan s, planSpeakerMulticam asciiLower ceremony shuffled ceremonySettings = .ok plan ∧
      setup asciiLower ceremony shuffled ceremonySettings = .ok s ∧
      ¬ Shown ceremonySettings
        (spokenWords asciiLower ceremony shuffled ceremonySettings s shuffled.words.zipIdx) plan.cuts := by
  obtain ⟨plan, hplan⟩ : ∃ plan, planSpeakerMulticam asciiLower ceremony shuffled ceremonySettings = .ok plan :=
    exists_ok (by decide +kernel)
  obtain ⟨s, hsetup⟩ : ∃ s, setup asciiLower ceremony shuffled ceremonySettings = .ok s :=
    exists_ok (by decide +kernel)
  refine ⟨plan, s, hplan, hsetup, fun hshown => ?_⟩
  have hcuts : (planSpeakerMulticam asciiLower ceremony shuffled ceremonySettings).toOption.all (fun plan =>
      plan.cuts.all fun cut => decide (cut.angleName ≠ "Close" ∨ (0 : TimeCode) < cut.groupStart)) = true := by
    decide +kernel
  have hwords : (setup asciiLower ceremony shuffled ceremonySettings).toOption.map (fun s =>
      spokenWords asciiLower ceremony shuffled ceremonySettings s shuffled.words.zipIdx) =
        some [⟨["Alice"], "close", "Close", 10, 20⟩, ⟨["Alice"], "close", "Close", 0, 5⟩,
          ⟨["Bob"], "wide", "Wide", 6, 8⟩] := by
    decide +kernel
  rw [hplan] at hcuts
  rw [hsetup] at hwords
  have hspoken : spokenWords asciiLower ceremony shuffled ceremonySettings s shuffled.words.zipIdx =
      [⟨["Alice"], "close", "Close", 10, 20⟩, ⟨["Alice"], "close", "Close", 0, 5⟩,
        ⟨["Bob"], "wide", "Wide", 6, 8⟩] := Option.some.inj hwords
  rw [hspoken] at hshown
  have hgroup : [⟨["Alice"], "close", "Close", 10, 20⟩, ⟨["Alice"], "close", "Close", 0, 5⟩] ∈
      groupsOf ceremonySettings.maximumWordGapFrames (ofAngle "close"
        [⟨["Alice"], "close", "Close", 10, 20⟩, ⟨["Alice"], "close", "Close", 0, 5⟩,
          ⟨["Bob"], "wide", "Wide", 6, 8⟩]) := by
    decide +kernel
  have hsums : Sums [⟨["Alice"], "close", "Close", 10, 20⟩, ⟨["Alice"], "close", "Close", 0, 5⟩]
      ⟨["Alice"], "close", "Close", 10, 20⟩ := (Sums.single _).absorb rfl
  obtain ⟨cut, hcut, hname, hstart, -⟩ := hshown "close" _ hgroup ⟨_, hsums, by decide +kernel⟩
    ⟨["Alice"], "close", "Close", 0, 5⟩ (by simp)
  have hall := of_decide_eq_true (all_eq_true.mp hcuts cut hcut)
  rcases hall with hne | hlt
  · exact hne hname
  · exact absurd hstart (Int64.not_le.mpr hlt)

end Kinewright.Multicam
