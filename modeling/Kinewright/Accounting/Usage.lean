import Kinewright.Accounting.Mutators
import Kinewright.Lib.SortedMap

/-!
# What the samples of a task add up to

A turn is replayed from the samples that name it, whatever stands between them. Another sample of the turn only makes its values
larger, and a category that the turn covers is in each of its last samples.
-/

namespace Kinewright.Accounting

open Fallible List Turn SortedMap

/-! ## The turns of the samples -/

/-- The turn that a sample names. -/
def UsageSample.key (sample : UsageSample) : SessionId × UInt64 := (sample.attempt, sample.turn)

/-- The order of the turns. -/
def keyBefore (a b : SessionId × UInt64) : Prop := a.1 < b.1 ∨ a.1 = b.1 ∧ a.2 < b.2

instance : DecidableRel keyBefore := fun _ _ => inferInstanceAs (Decidable (_ ∨ _ ∧ _))

instance : IsStrictTotalOrder (SessionId × UInt64) keyBefore where
  irrefl a h := by
    rcases h with hlt | ⟨-, hlt⟩
    · exact lt_irrefl a.1 hlt
    · exact UInt64.lt_irrefl a.2 hlt
  trans a b c h h' := by
    rcases h with hlt | ⟨heq, hlt⟩
    · rcases h' with hlt' | ⟨heq', -⟩
      · exact .inl (lt_trans hlt hlt')
      · exact .inl (heq' ▸ hlt)
    · rcases h' with hlt' | ⟨heq', hlt'⟩
      · exact .inl (heq ▸ hlt')
      · exact .inr ⟨heq.trans heq', UInt64.lt_trans hlt hlt'⟩
  trichotomous a b h h' := by
    have hattempt : a.1 = b.1 := by
      rcases lt_trichotomy a.1 b.1 with hlt | heq | hlt
      · exact absurd (.inl hlt) h
      · exact heq
      · exact absurd (.inl hlt) h'
    have hle : ¬ a.2 < b.2 := fun hlt => h (.inr ⟨hattempt, hlt⟩)
    have hge : ¬ b.2 < a.2 := fun hlt => h' (.inr ⟨hattempt.symm, hlt⟩)
    exact Prod.ext hattempt (UInt64.le_antisymm (UInt64.not_lt.mp hge) (UInt64.not_lt.mp hle))

/-- The turn that samples of one turn are replayed to, or none without samples. -/
def replay (samples : List UsageSample) : Except AccountingRefusal (Option Turn) :=
  samples.foldlM (fun turn sample => ((turn.getD (Turn.fresh sample)).step sample).map some) none

/-- No event is identified twice. -/
def Identified (samples : List UsageSample) : Prop :=
  samples.Pairwise fun old sample => ¬ (old.attempt = sample.attempt ∧ old.turn = sample.turn ∧ old.event = sample.event)

/-- The samples that name a turn. -/
def ofTurn (samples : List UsageSample) (key : SessionId × UInt64) : List UsageSample := samples.filter fun sample => sample.key = key

/-- The turns are those of the samples. -/
structure Tallies (samples : List UsageSample) (turns : List ((SessionId × UInt64) × Turn)) : Prop where
  sorted : SortedMap.Sorted keyBefore turns
  identified : Identified samples
  turn : ∀ key, replay (ofTurn samples key) = .ok (SortedMap.get? turns key)

section

variable {samples samples' before : List UsageSample} {sample : UsageSample} {turns turns' : List ((SessionId × UInt64) × Turn)}

theorem replay_concat (samples : List UsageSample) (sample : UsageSample) :
    replay (samples ++ [sample]) = replay samples >>= fun turn => ((turn.getD (Turn.fresh sample)).step sample).map some := by
  rw [replay, foldlM_append]
  refine congrArg _ (funext fun turn => ?_)
  rw [foldlM_cons]
  cases ((turn.getD (Turn.fresh sample)).step sample).map some with
  | error reason => rfl
  | ok turn => rfl

theorem replay_eq_none (h : replay samples = .ok none) : samples = [] := by
  cases samples using List.reverseRecOn with
  | nil => rfl
  | append_singleton samples sample =>
    rw [replay_concat] at h
    obtain ⟨turn, -, h⟩ := bind_eq_ok.mp h
    cases hstep : (turn.getD (Turn.fresh sample)).step sample with
    | error reason | ok later =>
      rw [hstep] at h
      cases h

theorem ofTurn_append (samples samples' : List UsageSample) (key : SessionId × UInt64) :
    ofTurn (samples ++ samples') key = ofTurn samples key ++ ofTurn samples' key := filter_append _ _

theorem ofTurn_singleton (sample : UsageSample) (key : SessionId × UInt64) :
    ofTurn [sample] key = if sample.key = key then [sample] else [] := by
  rw [ofTurn]
  by_cases hkey : sample.key = key
  · simp [hkey]
  · simp [hkey]

/-- A sample is taken by the turn that it names, which is a fresh one without others. -/
theorem takeSample_eq (h : SortedMap.Sorted keyBefore turns) (sample : UsageSample) :
    takeSample sample turns = (((SortedMap.get? turns sample.key).getD (Turn.fresh sample)).step sample >>= fun turn =>
      .ok (SortedMap.put keyBefore sample.key turn turns)) := by
  induction turns with
  | nil => rfl
  | cons entry rest ih =>
    obtain ⟨key, turn⟩ := entry
    rw [get?_cons]
    simp only [put_cons]
    change (if sample.key = key then _ else if keyBefore sample.key key then _ else _) = _
    by_cases hkey : sample.key = key
    · rw [if_pos hkey.symm]
      simp only [if_pos hkey]
      rfl
    · rw [if_neg (Ne.symm hkey)]
      simp only [if_neg hkey]
      by_cases hbefore : keyBefore sample.key key
      · have hnone : SortedMap.get? ((key, turn) :: rest) sample.key = none :=
          get?_eq_none_of_before h (by rintro _ ⟨⟩; exact hbefore)
        rw [get?_cons, if_neg (Ne.symm hkey)] at hnone
        rw [hnone]
        simp only [if_pos hbefore]
        rfl
      · simp only [if_neg hbefore]
        rw [ih (pairwise_cons.mp h).2]
        cases ((SortedMap.get? rest sample.key).getD (Turn.fresh sample)).step sample with
        | error reason => rfl
        | ok turn => rfl

theorem Tallies.unique (h : Tallies samples turns) (h' : Tallies samples turns') : turns = turns' :=
  ext_get? h.sorted h'.sorted fun key => Except.ok.inj ((h.turn key).symm.trans (h'.turn key))

theorem identified_concat : Identified (samples ++ [sample]) ↔ Identified samples ∧
    ¬ ∃ old ∈ samples, old.attempt = sample.attempt ∧ old.turn = sample.turn ∧ old.event = sample.event := by
  rw [Identified, pairwise_append]
  constructor
  · rintro ⟨hsamples, -, hlast⟩
    exact ⟨hsamples, fun ⟨old, hold, heq⟩ => hlast old hold sample (mem_singleton_self _) heq⟩
  · rintro ⟨hsamples, hnew⟩
    refine ⟨hsamples, pairwise_singleton _ _, fun old hold other hother heq => ?_⟩
    obtain rfl := mem_singleton.mp hother
    exact hnew ⟨old, hold, heq⟩

/-- One sample more. -/
theorem Tallies.concat (h : Tallies samples turns) (hidentified : Identified (samples ++ [sample]))
    (hreplay : ∃ turn, replay (ofTurn (samples ++ [sample]) sample.key) = .ok turn) :
    ∃ turns', takeSample sample turns = .ok turns' ∧ Tallies (samples ++ [sample]) turns' := by
  obtain ⟨replayed, hreplayed⟩ := hreplay
  rw [ofTurn_append, ofTurn_singleton, if_pos rfl, replay_concat, h.turn, ok_bind] at hreplayed
  cases hstep : ((SortedMap.get? turns sample.key).getD (Turn.fresh sample)).step sample with
  | error reason =>
    rw [hstep] at hreplayed
    cases hreplayed
  | ok turn =>
    refine ⟨SortedMap.put keyBefore sample.key turn turns, ?_, sorted_put h.sorted, hidentified, fun key => ?_⟩
    · rw [takeSample_eq h.sorted, hstep, ok_bind]
    · rw [ofTurn_append, ofTurn_singleton, get?_put]
      by_cases hkey : sample.key = key
      · rw [if_pos hkey, if_pos hkey, replay_concat, h.turn, ok_bind, ← hkey, hstep]
        rfl
      · rw [if_neg hkey, if_neg hkey, append_nil, h.turn]

theorem replay_of_append (h : ∃ turn, replay (samples ++ samples') = .ok turn) : ∃ turn, replay samples = .ok turn := by
  obtain ⟨turn, hturn⟩ := h
  rw [replay, foldlM_append] at hturn
  obtain ⟨earlier, hearlier, -⟩ := bind_eq_ok.mp hturn
  exact ⟨earlier, hearlier⟩

/-- The samples are taken exactly if no event is identified twice and every turn can be replayed. By induction on the samples. -/
theorem takeSamples_iff (h : Tallies before turns) : takeSamples before turns samples = .ok turns' ↔ Tallies (before ++ samples) turns' := by
  induction samples generalizing before turns with
  | nil =>
    rw [takeSamples, append_nil, Except.ok.injEq]
    constructor
    · rintro rfl
      exact h
    · exact h.unique
  | cons sample samples ih =>
    rw [takeSamples, then_eq_ok, refuse_eq_ok, append_cons before sample samples]
    constructor
    · rintro ⟨hnew, hrest⟩
      obtain ⟨next, hnext, hrest⟩ := bind_eq_ok.mp hrest
      have hidentified : Identified (before ++ [sample]) := identified_concat.mpr ⟨h.identified, hnew⟩
      have hreplay : ∃ turn, replay (ofTurn (before ++ [sample]) sample.key) = .ok turn := by
        rw [ofTurn_append, ofTurn_singleton, if_pos rfl, replay_concat, h.turn, ok_bind]
        rw [takeSample_eq h.sorted] at hnext
        obtain ⟨turn, hturn, -⟩ := bind_eq_ok.mp hnext
        exact ⟨some turn, by rw [hturn]; rfl⟩
      obtain ⟨other, hother, htallies⟩ := h.concat hidentified hreplay
      obtain rfl := Except.ok.inj (hnext.symm.trans hother)
      exact (ih htallies).mp hrest
    · intro hall
      have hidentified : Identified (before ++ [sample]) := (pairwise_append.mp hall.identified).1
      have hall_turn := hall.turn sample.key
      rw [ofTurn_append] at hall_turn
      obtain ⟨next, hnext, htallies⟩ := h.concat hidentified (replay_of_append ⟨_, hall_turn⟩)
      exact ⟨(identified_concat.mp hidentified).2, bind_eq_ok.mpr ⟨next, hnext, (ih htallies).mpr hall⟩⟩

theorem tallies_nil : Tallies [] [] := ⟨.nil, .nil, fun _ => rfl⟩

/-- Samples in another order have the same turns, as long as those of each turn are in the same order. -/
theorem Tallies.reorder (h : Tallies samples turns) (hperm : samples'.Perm samples) (hturns : ∀ key, ofTurn samples' key = ofTurn samples key) :
    Tallies samples' turns where
  sorted := h.sorted
  identified := by
    refine (hperm.pairwise_iff fun {old sample} hne heq => hne ?_).mpr h.identified
    exact ⟨heq.1.symm, heq.2.1.symm, heq.2.2.symm⟩
  turn key := by rw [hturns, h.turn]

theorem perm_of_turns (hturns : ∀ key, ofTurn samples' key = ofTurn samples key) : samples'.Perm samples := by
  refine perm_iff_count.mpr fun sample => ?_
  have hcount (samples : List UsageSample) : (ofTurn samples sample.key).count sample = samples.count sample :=
    count_filter (by simp)
  rw [← hcount samples', ← hcount samples, hturns]

end

/-! ## One sample more of a turn -/

/-- A value that is at most another one, which is there if it is. -/
def AtMost (a b : Option UInt64) : Prop := ∀ x ∈ a, ∃ y ∈ b, x ≤ y

/-- The turn with samples more. -/
structure Turn.Later (turn later : Turn) : Prop where
  values : List.Forall₂ (fun old new => AtMost old.1 new.1) turn.values later.values
  cacheIncluded : later.cacheIncluded = turn.cacheIncluded
  reasoningIncluded : later.reasoningIncluded = turn.reasoningIncluded

section

variable {a b c : Option UInt64} {turn later : Turn} {sample : UsageSample} {mode : UsageMode}

theorem AtMost.refl (a : Option UInt64) : AtMost a a := fun x hx => ⟨x, hx, UInt64.le_refl x⟩

theorem AtMost.trans (h : AtMost a b) (h' : AtMost b c) : AtMost a c := by
  intro x hx
  obtain ⟨y, hy, hxy⟩ := h x hx
  obtain ⟨z, hz, hyz⟩ := h' y hy
  exact ⟨z, hz, UInt64.le_trans hxy hyz⟩

theorem forall₂_trans {α : Type} {R : α → α → Prop} {as bs cs : List α} (htrans : ∀ a b c, R a b → R b c → R a c)
    (h : List.Forall₂ R as bs) (h' : List.Forall₂ R bs cs) : List.Forall₂ R as cs := by
  induction h generalizing cs with
  | nil => exact h'
  | cons hfirst _ ih =>
    cases h' with
    | cons hfirst' hrest => exact .cons (htrans _ _ _ hfirst hfirst') (ih hrest)

theorem AtMost.getD (h : AtMost a b) : a.getD 0 ≤ b.getD 0 := by
  cases a with
  | none => exact UInt64.zero_le
  | some x =>
    obtain ⟨y, rfl, hxy⟩ := h x rfl
    exact hxy

/-- Smaller values have a sum if larger ones have, which is smaller. -/
theorem checkedAdd_mono {x y x' y' z' : UInt64} (hx : x ≤ x') (hy : y ≤ y') (h : checkedAdd x' y' = some z') :
    ∃ z, checkedAdd x y = some z ∧ z ≤ z' := by
  rw [checkedAdd_eq_some] at h
  rw [UInt64.le_iff_toNat_le] at hx hy
  have hlt := z'.toNat_lt
  have hfits : x.toNat + y.toNat < 2 ^ 64 := by omega
  refine ⟨x + y, if_pos hfits, ?_⟩
  rw [UInt64.le_iff_toNat_le, UInt64.toNat_add, Nat.mod_eq_of_lt hfits]
  omega

/-- What is taken of a category is not less than what the turn has of it. -/
theorem Turn.take_atMost {old new : Option UInt64 × Bool} {value : Option UInt64} (h : Turn.take mode old value = .ok new) :
    AtMost old.1 new.1 := by
  cases value with
  | none =>
    obtain rfl := Except.ok.inj h
    exact .refl _
  | some value =>
    intro x hx
    obtain ⟨x', covered⟩ := old
    obtain rfl : x' = some x := hx
    cases mode with
    | incremental =>
      obtain ⟨sum, hsum, hnew⟩ := bind_eq_ok.mp h
      obtain rfl := Except.ok.inj hnew
      exact ⟨sum, rfl, le_of_checkedAdd (okOr_eq_ok.mp hsum)⟩
    | cumulative =>
      obtain rfl := Except.ok.inj h
      exact ⟨max x value, rfl, le_max_left _ _⟩

theorem Turn.takeAll_atMost {olds news : List (Option UInt64 × Bool)} {values : List (Option UInt64)} (hlength : olds.length = values.length)
    (h : takeAll mode olds values = .ok news) : List.Forall₂ (fun old new => AtMost old.1 new.1) olds news := by
  induction olds generalizing values news with
  | nil =>
    obtain rfl := Except.ok.inj h
    exact .nil
  | cons old olds ih =>
    cases values with
    | nil => cases hlength
    | cons value values =>
      obtain ⟨new, hnew, h⟩ := bind_eq_ok.mp h
      obtain ⟨news', hnews, h⟩ := bind_eq_ok.mp h
      obtain rfl := Except.ok.inj h
      exact .cons (take_atMost hnew) (ih (Nat.succ.inj hlength) hnews)

/-- What a step does. -/
theorem Turn.step_eq_ok (h : turn.step sample = .ok later) :
    sample.inputIncludesCache = turn.cacheIncluded ∧ sample.outputIncludesReasoning = turn.reasoningIncluded ∧
      ∃ values, takeAll sample.mode turn.values sample.values.values = .ok values ∧
        later = { turn with values, ordinal := sample.ordinal, finished := sample.complete } := by
  rw [step, then_eq_ok, refuse_eq_ok] at h
  obtain ⟨hsame, h⟩ := h
  obtain ⟨values, hvalues, hlater⟩ := bind_eq_ok.mp h
  simp only [not_or, not_not] at hsame
  exact ⟨hsame.2.1, hsame.2.2, values, hvalues, (Except.ok.inj hlater).symm⟩

theorem Turn.Later.refl (turn : Turn) : turn.Later turn := ⟨forall₂_same.mpr fun _ _ => .refl _, rfl, rfl⟩

theorem Turn.later_of_step (hsix : turn.values.length = 6) (h : turn.step sample = .ok later) : turn.Later later := by
  obtain ⟨-, -, values, hvalues, rfl⟩ := step_eq_ok h
  exact ⟨takeAll_atMost (hsix.trans rfl) hvalues, rfl, rfl⟩

end

/-! ## More samples -/

/-- Every turn has a value of each category. -/
def Full (turns : List ((SessionId × UInt64) × Turn)) : Prop := ∀ entry ∈ turns, entry.2.values.length = 6

/-- The turns with samples more: some have more, and some are new. -/
def Grown : List ((SessionId × UInt64) × Turn) → List ((SessionId × UInt64) × Turn) → Prop :=
  List.SublistForall₂ fun entry entry' => entry.1 = entry'.1 ∧ entry.2.Later entry'.2

section

variable {before samples samples' : List UsageSample} {sample : UsageSample} {turn later : Turn}
  {turns turns' turns'' : List ((SessionId × UInt64) × Turn)}

theorem Turn.Later.trans {latest : Turn} (h : turn.Later later) (h' : later.Later latest) : turn.Later latest where
  values := forall₂_trans (fun _ _ _ => AtMost.trans) h.values h'.values
  cacheIncluded := h'.cacheIncluded.trans h.cacheIncluded
  reasoningIncluded := h'.reasoningIncluded.trans h.reasoningIncluded

instance : Std.Refl fun entry entry' : (SessionId × UInt64) × Turn => entry.1 = entry'.1 ∧ entry.2.Later entry'.2 :=
  ⟨fun entry => ⟨rfl, .refl entry.2⟩⟩

instance : IsTrans ((SessionId × UInt64) × Turn) fun entry entry' => entry.1 = entry'.1 ∧ entry.2.Later entry'.2 :=
  ⟨fun _ _ _ h h' => ⟨h.1.trans h'.1, h.2.trans h'.2⟩⟩

theorem Grown.refl (turns : List ((SessionId × UInt64) × Turn)) : Grown turns turns := SublistForall₂.is_refl.refl turns

theorem Grown.trans (h : Grown turns turns') (h' : Grown turns' turns'') : Grown turns turns'' :=
  SublistForall₂.is_trans.trans _ _ _ h h'

theorem Turn.length_step (hsix : turn.values.length = 6) (h : turn.step sample = .ok later) : later.values.length = 6 := by
  rw [← hsix]
  exact (later_of_step hsix h).values.length_eq.symm

/-- A sample is taken by one of the turns, or makes a new one. -/
theorem grown_takeSample (hfull : Full turns) (h : takeSample sample turns = .ok turns') :
    Full turns' ∧ Grown turns turns' := by
  induction turns generalizing turns' with
  | nil =>
    obtain ⟨fresh, hfresh, h⟩ := bind_eq_ok.mp h
    obtain rfl := Except.ok.inj h
    exact ⟨forall_mem_singleton.mpr (length_step rfl hfresh), .nil⟩
  | cons entry rest ih =>
    obtain ⟨hturn, hrest⟩ := forall_mem_cons.mp hfull
    rw [takeSample] at h
    split at h
    · obtain ⟨later, hlater, h⟩ := bind_eq_ok.mp h
      obtain rfl := Except.ok.inj h
      exact ⟨forall_mem_cons.mpr ⟨length_step hturn hlater, hrest⟩,
        .cons ⟨rfl, later_of_step hturn hlater⟩ (Grown.refl rest)⟩
    · split at h
      · obtain ⟨fresh, hfresh, h⟩ := bind_eq_ok.mp h
        obtain rfl := Except.ok.inj h
        exact ⟨forall_mem_cons.mpr ⟨length_step rfl hfresh, hfull⟩, .cons_right (Grown.refl _)⟩
      · obtain ⟨rest', hrest', h⟩ := bind_eq_ok.mp h
        obtain rfl := Except.ok.inj h
        obtain ⟨hfull', hgrown⟩ := ih hrest hrest'
        exact ⟨forall_mem_cons.mpr ⟨hturn, hfull'⟩, .cons ⟨rfl, .refl entry.2⟩ hgrown⟩

theorem takeSamples_append (before : List UsageSample) (turns : List ((SessionId × UInt64) × Turn)) (samples samples' : List UsageSample) :
    takeSamples before turns (samples ++ samples') =
      takeSamples before turns samples >>= fun turns => takeSamples (before ++ samples) turns samples' := by
  induction samples generalizing before turns with
  | nil => rw [append_nil]; rfl
  | cons sample samples ih =>
    rw [cons_append, takeSamples, takeSamples, bind_assoc]
    refine congrArg _ (funext fun _ => ?_)
    rw [bind_assoc]
    refine congrArg _ (funext fun turns => ?_)
    rw [ih, ← append_cons]

theorem grown_takeSamples (hfull : Full turns) (h : takeSamples before turns samples = .ok turns') : Full turns' ∧ Grown turns turns' := by
  induction samples generalizing before turns with
  | nil =>
    obtain rfl := Except.ok.inj h
    exact ⟨hfull, .refl turns⟩
  | cons sample samples ih =>
    rw [takeSamples, then_eq_ok] at h
    obtain ⟨next, hnext, h⟩ := bind_eq_ok.mp h.2
    obtain ⟨hfirst, hgrows⟩ := grown_takeSample hfull hnext
    obtain ⟨hfull', hgrown⟩ := ih hfirst h
    exact ⟨hfull', hgrows.trans hgrown⟩

end

/-! ## What a turn covers -/

/-- A sample has a value of a category. -/
def UsageSample.Reports (sample : UsageSample) (index : ℕ) : Prop := (sample.values.values.getD index none).isSome

/-- The categories that are counted as tokens in the turn of a sample. -/
def UsageSample.countedIndices (sample : UsageSample) : List ℕ := (Turn.fresh sample).tokenIndices

/-- The last samples have a value of the category. Where there are others before them, the first one of them says what the turn has
used so far. -/
def Covers (samples : List UsageSample) (index : ℕ) : Prop :=
  ∃ before covering, samples = before ++ covering ∧ covering ≠ [] ∧ (∀ sample ∈ covering, sample.Reports index) ∧
    (before = [] ∨ ∃ first ∈ covering.head?, first.mode = .cumulative)

/-- What a turn is of its samples. -/
structure Turn.Replays (turn : Turn) (samples : List UsageSample) : Prop where
  finished : ∃ last ∈ samples.getLast?, turn.finished = last.complete
  counted : ∀ sample ∈ samples, sample.countedIndices = turn.tokenIndices
  covered : ∀ index, (turn.values.getD index (none, false)).2 → Covers samples index

section

variable {samples : List UsageSample} {sample : UsageSample} {turn later : Turn} {mode : UsageMode} {index : ℕ}

theorem Turn.take_covered {old new : Option UInt64 × Bool} {value : Option UInt64} (h : Turn.take mode old value = .ok new) (hcovered : new.2) :
    value.isSome ∧ (mode = .cumulative ∨ old.2) := by
  cases value with
  | none =>
    obtain rfl := Except.ok.inj h
    cases hcovered
  | some value =>
    refine ⟨rfl, ?_⟩
    cases mode with
    | incremental =>
      obtain ⟨sum, -, hnew⟩ := bind_eq_ok.mp h
      obtain rfl := Except.ok.inj hnew
      exact .inr hcovered
    | cumulative => exact .inl rfl

theorem Turn.take_of_takeAll {olds news : List (Option UInt64 × Bool)} {values : List (Option UInt64)} (h : takeAll mode olds values = .ok news)
    (hcovered : (news.getD index (none, false)).2) :
    Turn.take mode (olds.getD index (none, false)) (values.getD index none) = .ok (news.getD index (none, false)) := by
  induction olds generalizing values news index with
  | nil =>
    obtain rfl := Except.ok.inj h
    cases hcovered
  | cons old olds ih =>
    cases values with
    | nil =>
      obtain rfl := Except.ok.inj h
      cases hcovered
    | cons value values =>
      obtain ⟨new, hnew, h⟩ := bind_eq_ok.mp h
      obtain ⟨news', hnews, h⟩ := bind_eq_ok.mp h
      obtain rfl := Except.ok.inj h
      cases index with
      | zero => exact hnew
      | succ index => exact ih hnews hcovered

section

variable (h : turn.step sample = .ok later)

include h

theorem countedIndices_of_step : sample.countedIndices = later.tokenIndices := by
  obtain ⟨hcache, hreasoning, values, -, rfl⟩ := step_eq_ok h
  rw [← hcache, ← hreasoning]
  rfl

theorem tokenIndices_of_step : later.tokenIndices = turn.tokenIndices := by
  obtain ⟨-, -, values, -, rfl⟩ := step_eq_ok h
  rfl

/-- A category that is covered has a value in the last sample, and was covered before or is said as a whole. -/
theorem covered_of_step (hcovered : (later.values.getD index (none, false)).2) :
    sample.Reports index ∧ (sample.mode = .cumulative ∨ (turn.values.getD index (none, false)).2) := by
  obtain ⟨-, -, values, hvalues, rfl⟩ := step_eq_ok h
  exact take_covered (take_of_takeAll hvalues hcovered) hcovered

end

theorem Covers.concat (h : Covers samples index) (hreports : sample.Reports index) : Covers (samples ++ [sample]) index := by
  obtain ⟨before, covering, rfl, hne, hall, hfirst⟩ := h
  refine ⟨before, covering ++ [sample], append_assoc _ _ _, by simp, ?_, hfirst.imp_right ?_⟩
  · rw [forall_mem_append]
    exact ⟨hall, forall_mem_singleton.mpr hreports⟩
  · rintro ⟨first, hhead, hmode⟩
    exact ⟨first, mem_head?_append_of_mem_head? hhead, hmode⟩

/-- By induction on the samples from the last one. -/
theorem Turn.replays (h : replay samples = .ok (some turn)) : turn.Replays samples := by
  induction samples using List.reverseRecOn generalizing turn with
  | nil => cases h
  | append_singleton samples sample ih =>
    rw [replay_concat] at h
    obtain ⟨earlier, hearlier, h⟩ := bind_eq_ok.mp h
    cases hstep : (earlier.getD (Turn.fresh sample)).step sample with
    | error reason =>
      rw [hstep] at h
      cases h
    | ok later =>
      rw [hstep] at h
      obtain rfl := Option.some.inj (Except.ok.inj h)
      have hcounted := countedIndices_of_step hstep
      refine ⟨⟨sample, by simp, ?_⟩, fun old hold => ?_, fun index hcovered => ?_⟩
      · obtain ⟨-, -, values, -, rfl⟩ := step_eq_ok hstep
        rfl
      · rcases mem_append.mp hold with hold | hold
        · cases earlier with
          | none =>
            rw [replay_eq_none hearlier] at hold
            cases hold
          | some earlier => exact ((ih hearlier).counted old hold).trans (tokenIndices_of_step hstep).symm
        · rwa [mem_singleton.mp hold]
      · obtain ⟨hreports, hbefore⟩ := covered_of_step hstep hcovered
        cases earlier with
        | none =>
          rw [replay_eq_none hearlier]
          exact ⟨[], [sample], rfl, by simp, forall_mem_singleton.mpr hreports, .inl rfl⟩
        | some earlier =>
          rcases hbefore with hmode | hbefore
          · exact ⟨samples, [sample], rfl, by simp, forall_mem_singleton.mpr hreports, .inr ⟨sample, rfl, hmode⟩⟩
          · exact ((ih hearlier).covered index hbefore).concat hreports

end

end Kinewright.Accounting
