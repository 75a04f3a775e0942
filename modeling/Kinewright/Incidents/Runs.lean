import Kinewright.Incidents.Sidecar
import Kinewright.Lib.Trace

/-!
# Sessions of the incident log

What holds of every log that a session reaches from an empty or a restored one. Each writer changes the
log in one of four ways; a change keeps the ids apart and the outstanding problems apart, and leaves
behind a log that follows the one before.
-/

namespace Kinewright.Incidents

open Model Core List IncidentCode

variable {Op : Type}

/-! ## What a change may do -/

namespace Incident

/-- The problem that an incident is about. -/
def key (incident : Incident Op) : IncidentCode × IncidentSubject × String :=
  (incident.code, incident.subject, incident.observed)

/-- The incident has a proposal that may be approved. -/
def isLive (incident : Incident Op) : Bool := incident.proposal.any fun proposal => !proposal.stale

theorem isLive_staled (incident : Incident Op) : incident.staled.isLive = false := by
  rw [staled]
  cases incident.proposal with
  | none => rfl
  | some proposal => rfl

/-- What a writer leaves of an incident: its identity, and its resolution. -/
structure Keeps (a b : Incident Op) : Prop where
  id : b.id = a.id
  key : b.key = a.key
  isOpen : b.state.isOpen = true → a.state.isOpen = true

theorem Keeps.refl (a : Incident Op) : a.Keeps a := ⟨rfl, rfl, fun h => h⟩

theorem Keeps.trans {a b c : Incident Op} (h : a.Keeps b) (h' : b.Keeps c) : a.Keeps c where
  id := h'.id.trans h.id
  key := h'.key.trans h.key
  isOpen hopen := h.isOpen (h'.isOpen hopen)

theorem absorbs_iff {incident : Incident Op} {code : IncidentCode} {subject : IncidentSubject}
    {observed : String} : incident.absorbs code subject observed = true ↔
      incident.state.isOpen = true ∧ incident.key = (code, subject, observed) := by
  simp [absorbs, key, and_assoc]

end Incident

/-- How a writer changes the log: not at all; one incident, and the suppression set; with a new
incident; or by leaving incidents out. -/
inductive Change (s : IncidentLog Op) (writer : Writer Op) : IncidentLog Op → Prop
  | unchanged : Change s writer s
  | entry (p : Incident Op → Bool) (change : Incident Op → Incident Op)
      (suppressed : Finset (IncidentCode × IncidentSubject))
      (keeps : ∀ a, p a = true → s.entries.find? p = some a → a.Keeps (change a))
      (live : ∀ a, p a = true → (change a).isLive = true →
        a.isLive = true ∨ ∃ proposal, writer = .recordProposal a.id proposal ∧ (change a).proposal = some proposal) :
      Change s writer { s with
        entries := s.entries.modifyFirst p change
        suppressed := s.suppressed ∪ suppressed }.bumpGeneration
  | opened (observation : IncidentObservation) (elapsed : Duration) (observes : writer = .observe observation elapsed)
      (reported : (observation.code, observation.subject) ∉ s.suppressed)
      (new : ∀ a ∈ s.entries, a.state.isOpen = true →
        a.key ≠ (observation.code, observation.subject, observation.observed)) :
      Change s writer { s with
        nextId := saturatingSucc s.nextId
        entries := s.entries ++ [s.opening observation elapsed] }.bumpGeneration
  | removed (kept : Incident Op → Bool) (loadedWall : KeyedMap IncidentId (Option ℤ)) :
      Change s writer { s with
        entries := s.entries.filter kept
        loadedWall := loadedWall }.bumpGeneration

namespace Change

variable {s : IncidentLog Op} {writer : Writer Op}

/-- One incident changed in place. -/
theorem write {id : IncidentId} {incident : Incident Op} {change : Incident Op → Incident Op}
    (hget : s.get id = some incident) (hkeeps : incident.Keeps (change incident))
    (hlive : ∀ a, a.id = id → (change a).isLive = true →
      a.isLive = true ∨ ∃ proposal, writer = .recordProposal a.id proposal ∧ (change a).proposal = some proposal) :
    Change s writer (s.write id change) := by
  have h : Change s writer _ := entry (fun incident => incident.id = id) change ∅ ?_ ?_
  · rwa [Finset.union_empty] at h
  · intro a _ hfind
    rw [IncidentLog.get, hfind] at hget
    cases hget
    exact hkeeps
  · intro a ha
    exact hlive a (of_decide_eq_true ha)

end Change

/-- Every writer changes the log in one of these ways. -/
theorem IncidentLog.change (log : IncidentLog Op) (writer : Writer Op) : Change log writer (log.call writer) := by
  cases writer with
  | observe observation elapsed =>
    rw [call, observe]
    by_cases hsuppressed : (observation.code, observation.subject) ∈ log.suppressed
    · rw [if_pos hsuppressed]
      exact .unchanged
    rw [if_neg hsuppressed]
    split
    · have h : Change log (.observe observation elapsed) _ := Change.entry (fun incident =>
          incident.absorbs observation.code observation.subject observation.observed)
        (Incident.absorb observation) ∅ (fun a _ _ => ⟨rfl, rfl, fun hopen => hopen⟩)
        (fun a _ hlive => .inl hlive)
      rwa [Finset.union_empty] at h
    · rename_i hnone
      refine .opened observation elapsed rfl hsuppressed ?_
      intro a ha hopen hkey
      exact find?_eq_none.mp hnone a ha (Incident.absorbs_iff.mpr ⟨hopen, hkey⟩)
  | resolve id outcome elapsed =>
    rw [call, resolve]
    split
    · exact .unchanged
    · rename_i incident hget
      have h : Change log (.resolve id outcome elapsed) _ := Change.entry
        (fun incident => incident.id = id) (fun incident => { incident with
          state := .resolved outcome
          telemetry := { incident.telemetry with resolvedAfter := some elapsed } })
        {(incident.code, incident.subject)} (fun a _ _ => ⟨rfl, rfl, fun hopen => by cases hopen⟩)
        (fun a _ hlive => .inl hlive)
      rwa [Finset.union_comm] at h
  | noteAutoApplied id =>
    rw [call, noteAutoApplied]
    split
    · exact .unchanged
    · rename_i incident hget
      -- Only the suppression set changes.
      have h : Change log (.noteAutoApplied id) _ := Change.entry (fun _ => true) (fun incident => incident)
        {(incident.code, incident.subject)} (fun a _ _ => .refl a) (fun a _ hlive => .inl hlive)
      rwa [modifyFirst_self, Finset.union_comm] at h
  | removeOpenWithCode code =>
    rw [call]
    unfold removeOpenWithCode
    dsimp only
    split
    · exact .removed _ _
    · have hkept : log.entries.filter (fun entry =>
          !(entry.state.isOpen && decide (entry.code = code))) = log.entries := by
        apply (filter_sublist).eq_of_length
        have := length_filter_le (fun entry : Incident Op =>
          !(entry.state.isOpen && decide (entry.code = code))) log.entries
        omega
      rw [hkept]
      exact .unchanged
  | refreshRevision id revision =>
    rw [call, refreshRevision]
    split
    · exact .unchanged
    · rename_i incident hget
      split
      · exact Change.write hget ⟨rfl, rfl, fun hopen => hopen⟩ fun a _ hlive => .inl hlive
      · exact .unchanged
  | beginInvestigation id =>
    rw [call, beginInvestigation]
    split
    · exact .unchanged
    · rename_i incident hget
      split
      · rename_i hopened
        refine Change.write hget ⟨rfl, rfl, fun _ => by rw [hopened]; rfl⟩ ?_
        intro a _ hlive
        rw [Incident.isLive_staled] at hlive
        cases hlive
      · exact .unchanged
  | endInvestigation id stoppedReason =>
    rw [call, endInvestigation]
    split
    · exact .unchanged
    · rename_i incident hget
      split
      · rename_i hinvestigating
        exact Change.write hget ⟨rfl, rfl, fun _ => by rw [hinvestigating]; rfl⟩
          fun a _ hlive => .inl hlive
      · exact .unchanged
  | recordProposal id proposal =>
    rw [call, recordProposal]
    split
    · exact .unchanged
    · rename_i incident hget
      split
      · exact .unchanged
      · split
        · exact .unchanged
        · refine Change.write hget ⟨rfl, rfl, fun hopen => hopen⟩ ?_
          intro a ha _
          exact .inr ⟨proposal, by rw [ha], rfl⟩
  | markProposalStale id =>
    rw [call, markProposalStale]
    split
    · exact .unchanged
    · rename_i incident hget
      split
      · split
        · exact .unchanged
        · split
          · exact .unchanged
          · refine Change.write hget ⟨rfl, rfl, fun hopen => hopen⟩ ?_
            intro a _ hlive
            rw [Incident.isLive_staled] at hlive
            cases hlive
      · exact .unchanged
  | telemetryMut id telemetry =>
    rw [call, telemetryMut]
    split
    · exact .unchanged
    · rename_i incident hget
      exact Change.write hget ⟨rfl, rfl, fun hopen => hopen⟩ fun a _ hlive => .inl hlive

/-! ## What every log of a session satisfies -/

/-- The ids are apart and below the next one, and no two outstanding incidents are about one
problem. -/
structure Sound (log : IncidentLog Op) : Prop where
  nodup : (log.entries.map Incident.id).Nodup
  lt : ∀ a ∈ log.entries, a.id < log.nextId
  one : ∀ a ∈ log.entries, ∀ b ∈ log.entries, a.state.isOpen = true → b.state.isOpen = true →
    a.key = b.key → a.id = b.id

/-- A later log: what it holds was there before, with its identity and its resolution, or is newer and
about nothing that was suppressed before. -/
structure Later (s t : IncidentLog Op) : Prop where
  nextId : s.nextId ≤ t.nextId
  suppressed : s.suppressed ⊆ t.suppressed
  entries : ∀ b ∈ t.entries, (∃ a ∈ s.entries, a.Keeps b) ∨ (s.nextId ≤ b.id ∧ (b.code, b.subject) ∉ s.suppressed)

theorem Later.refl (s : IncidentLog Op) : Later s s where
  nextId := le_rfl
  suppressed := subset_rfl
  entries b hb := .inl ⟨b, hb, .refl b⟩

theorem Later.trans {s t u : IncidentLog Op} (h : Later s t) (h' : Later t u) : Later s u where
  nextId := h.nextId.trans h'.nextId
  suppressed := h.suppressed.trans h'.suppressed
  entries c hc := by
    rcases h'.entries c hc with ⟨b, hb, hkeeps⟩ | ⟨hid, hreported⟩
    · rcases h.entries b hb with ⟨a, ha, hfirst⟩ | ⟨hid, hreported⟩
      · exact .inl ⟨a, ha, hfirst.trans hkeeps⟩
      · have hcode : c.code = b.code := congrArg Prod.fst hkeeps.key
        have hsubject : c.subject = b.subject := congrArg (fun key => key.2.1) hkeeps.key
        refine .inr ⟨hkeeps.id ▸ hid, ?_⟩
        rwa [hcode, hsubject]
    · exact .inr ⟨h.nextId.trans hid, fun hmem => hreported (h.suppressed hmem)⟩

/-- What a write keeps of each incident, the log keeps of each of its incidents. -/
theorem keeps_of_mem_modifyFirst {entries : List (Incident Op)} {p : Incident Op → Bool}
    {change : Incident Op → Incident Op}
    (keeps : ∀ a, p a = true → entries.find? p = some a → a.Keeps (change a)) {b : Incident Op}
    (hb : b ∈ entries.modifyFirst p change) : ∃ a ∈ entries, a.Keeps b := by
  rcases mem_modifyFirst hb with hb | ⟨a, ha, hfind, rfl⟩
  · exact ⟨b, hb, .refl b⟩
  · exact ⟨a, ha, keeps a (find?_some hfind) hfind⟩

namespace Change

variable {s t : IncidentLog Op} {writer : Writer Op}

section

variable (h : Change s writer t)

include h

theorem later (hnext : s.nextId < 2 ^ 64) : Later s t := by
  cases h with
  | unchanged => exact .refl s
  | entry p change suppressed keeps live =>
    refine ⟨le_rfl, Finset.subset_union_left, ?_⟩
    intro b hb
    exact .inl (keeps_of_mem_modifyFirst keeps hb)
  | opened observation elapsed observes reported new =>
    refine ⟨?_, subset_rfl, ?_⟩
    · show s.nextId ≤ saturatingSucc s.nextId
      rw [saturatingSucc]
      omega
    · intro b hb
      rcases mem_append.mp hb with hb | hb
      · exact .inl ⟨b, hb, .refl b⟩
      · cases mem_singleton.mp hb
        exact .inr ⟨le_rfl, reported⟩
  | removed kept loadedWall =>
    refine ⟨le_rfl, subset_rfl, ?_⟩
    intro b hb
    exact .inl ⟨b, mem_of_mem_filter hb, .refl b⟩

/-- A change keeps the invariant as long as there is an id for an observation. -/
theorem sound (hs : Sound s) (hnext : writer.isObserve = true → s.nextId + 1 < 2 ^ 64) : Sound t := by
  cases h with
  | unchanged => exact hs
  | entry p change suppressed keeps live =>
    refine ⟨?_, ?_, ?_⟩
    · show ((s.entries.modifyFirst p change).map Incident.id).Nodup
      rw [map_modifyFirst_of_find? fun a ha => (keeps a (find?_some ha) ha).id]
      exact hs.nodup
    · intro b hb
      obtain ⟨a, ha, hkeeps⟩ := keeps_of_mem_modifyFirst keeps hb
      rw [hkeeps.id]
      exact hs.lt a ha
    · intro b hb b' hb' hopen hopen' hkey
      obtain ⟨a, ha, hkeeps⟩ := keeps_of_mem_modifyFirst keeps hb
      obtain ⟨a', ha', hkeeps'⟩ := keeps_of_mem_modifyFirst keeps hb'
      rw [hkeeps.id, hkeeps'.id]
      refine hs.one a ha a' ha' (hkeeps.isOpen hopen) (hkeeps'.isOpen hopen') ?_
      rw [← hkeeps.key, hkey, hkeeps'.key]
  | opened observation elapsed observes reported new =>
    have hsucc : saturatingSucc s.nextId = s.nextId + 1 := by
      have := hnext (observes ▸ rfl)
      rw [saturatingSucc]
      omega
    refine ⟨?_, ?_, ?_⟩
    · show ((s.entries ++ [s.opening observation elapsed]).map Incident.id).Nodup
      rw [map_append, nodup_append]
      refine ⟨hs.nodup, nodup_singleton _, ?_⟩
      intro id hid id' hid'
      obtain ⟨a, ha, rfl⟩ := mem_map.mp hid
      cases mem_singleton.mp hid'
      exact (hs.lt a ha).ne
    · intro b hb
      show b.id < saturatingSucc s.nextId
      rw [hsucc]
      rcases mem_append.mp hb with hb | hb
      · exact (hs.lt b hb).trans (Nat.lt_succ_self _)
      · cases mem_singleton.mp hb
        exact Nat.lt_succ_self _
    · intro b hb b' hb' hopen hopen' hkey
      -- The new incident is about nothing that is outstanding.
      rcases mem_append.mp hb with hb | hb
      · rcases mem_append.mp hb' with hb' | hb'
        · exact hs.one b hb b' hb' hopen hopen' hkey
        · cases mem_singleton.mp hb'
          exact absurd hkey (new b hb hopen)
      · cases mem_singleton.mp hb
        rcases mem_append.mp hb' with hb' | hb'
        · exact absurd hkey.symm (new b' hb' hopen')
        · cases mem_singleton.mp hb'
          rfl
  | removed kept loadedWall =>
    refine ⟨hs.nodup.sublist (filter_sublist.map _), ?_, ?_⟩
    · intro b hb
      exact hs.lt b (mem_of_mem_filter hb)
    · intro b hb b' hb'
      exact hs.one b (mem_of_mem_filter hb) b' (mem_of_mem_filter hb')

/-- A proposal that may be approved was there before, unless the call recorded it. -/
theorem live (hs : Sound s) {a b : Incident Op} (ha : a ∈ s.entries)
    (hb : b ∈ t.entries) (hid : b.id = a.id) (hstale : a.isLive = false) (hlive : b.isLive = true) :
    ∃ proposal, writer = .recordProposal a.id proposal ∧ b.proposal = some proposal := by
  have hsame (c : Incident Op) (hc : c ∈ s.entries) (hc' : c.id = a.id) : c = a :=
    inj_on_of_nodup_map hs.nodup hc ha hc'
  have hkept (hmem : b ∈ s.entries) : False := by
    rw [hsame b hmem hid, hstale] at hlive
    cases hlive
  cases h with
  | unchanged => exact (hkept hb).elim
  | entry p change suppressed keeps live =>
    rcases mem_modifyFirst hb with hb | ⟨c, hc, hfind, rfl⟩
    · exact (hkept hb).elim
    · have hp : p c = true := find?_some hfind
      have heq : c = a := hsame c hc ((keeps c hp hfind).id.symm.trans hid)
      subst heq
      rcases live c hp hlive with hold | hrecorded
      · rw [hstale] at hold
        cases hold
      · exact hrecorded
  | opened observation elapsed observes reported new =>
    rcases mem_append.mp hb with hb | hb
    · exact (hkept hb).elim
    · cases mem_singleton.mp hb
      cases hlive
  | removed kept loadedWall => exact (hkept (mem_of_mem_filter hb)).elim

/-- Only an observation takes an id. -/
theorem nextId_le : t.nextId ≤ s.nextId + if writer.isObserve then 1 else 0 := by
  cases h with
  | unchanged | entry p change suppressed keeps live | removed kept loadedWall => exact Nat.le_add_right _ _
  | opened observation elapsed observes reported new =>
    rw [observes]
    exact min_le_left _ _

end

end Change

/-! ## The generation -/

/-- The greatest generation that can be counted. -/
def maxGeneration : ℕ := 2 ^ 64 - 1

/-- What a write of the log depends on, for as long as its changes are counted. -/
def IncidentLog.counted (log : IncidentLog Op) :
    Option (List (Incident Op) × Option ℤ × KeyedMap IncidentId (Option ℤ)) :=
  if log.generation < maxGeneration then some (log.entries, log.wallOrigin, log.loadedWall) else none

theorem IncidentLog.records_congr {s t : IncidentLog Op} (hentries : s.entries = t.entries)
    (horigin : s.wallOrigin = t.wallOrigin) (hwall : s.loadedWall = t.loadedWall)
    (compactJsonLen : Op → ℕ) (running : Option RunningInvestigation)
    (refused : KeyedMap IncidentId Op) :
    s.records compactJsonLen running refused = t.records compactJsonLen running refused := by
  obtain ⟨nextId, entries, suppressed, generation, wallOrigin, loadedWall⟩ := s
  cases hentries
  cases horigin
  cases hwall
  rfl

/-- A log that is written otherwise has a greater generation, or no greater one can be counted. -/
theorem generation_lt_of_records_ne {s t : IncidentLog Op}
    (h : Trace.Ticks IncidentLog.generation IncidentLog.counted s t) {compactJsonLen : Op → ℕ}
    {running : Option RunningInvestigation} {refused : KeyedMap IncidentId Op}
    (hne : s.records compactJsonLen running refused ≠ t.records compactJsonLen running refused)
    (hcan : s.generation < maxGeneration) : s.generation < t.generation := by
  rcases h with ⟨hgeneration, hcounted⟩ | hlt
  · rw [IncidentLog.counted, IncidentLog.counted, hgeneration, if_pos hcan, if_pos hcan] at hcounted
    have heq := Option.some.inj hcounted
    have hentries := congrArg Prod.fst heq
    have horigin := congrArg (fun written => written.2.1) heq
    have hwall := congrArg (fun written => written.2.2) heq
    exact absurd (IncidentLog.records_congr hentries horigin hwall compactJsonLen running refused).symm hne
  · exact hlt

/-- A counted change. -/
theorem ticks_of_bump {s t : IncidentLog Op} (hle : s.generation ≤ maxGeneration)
    (hbump : t.generation = saturatingSucc s.generation) :
    Trace.Ticks IncidentLog.generation IncidentLog.counted s t := by
  have hsucc : saturatingSucc s.generation = min (s.generation + 1) maxGeneration := rfl
  rcases hle.lt_or_eq with hlt | heq
  · right
    omega
  · left
    have hsame : t.generation = s.generation := by omega
    refine ⟨hsame, ?_⟩
    rw [IncidentLog.counted, IncidentLog.counted, hsame, if_neg heq.not_lt, if_neg heq.not_lt]

namespace Change

variable {s t : IncidentLog Op} {writer : Writer Op}

/-- A change that is not counted is none. -/
theorem generation (h : Change s writer t) : t = s ∨ t.generation = saturatingSucc s.generation := by
  cases h with
  | unchanged => exact .inl rfl
  | entry p change suppressed keeps live | opened observation elapsed observes reported new
  | removed kept loadedWall => exact .inr rfl

theorem ticks (h : Change s writer t) (hle : s.generation ≤ maxGeneration) :
    Trace.Ticks IncidentLog.generation IncidentLog.counted s t := by
  rcases h.generation with rfl | hbump
  · exact .refl _
  · exact ticks_of_bump hle hbump

theorem generation_le (h : Change s writer t) (hle : s.generation ≤ maxGeneration) : t.generation ≤ maxGeneration := by
  rcases h.generation with rfl | hbump
  · exact hle
  · rw [hbump]
    exact min_le_right _ _

end Change

/-! ## Restoring -/

/-- What the scan of the ids has found: a restorable id that is at least any that it read, and the
number of unknown codes. -/
theorem foldl_restoreIdStep (ids : List (ℕ × Bool)) :
    (∀ most, (ids.foldl restoreIdStep (none, 0)).1 = some most → most ≤ MAX_RESTORED_ID) ∧
      (∀ input ∈ ids, input.1 ≤ MAX_RESTORED_ID →
        ∃ most, (ids.foldl restoreIdStep (none, 0)).1 = some most ∧ input.1 ≤ most) ∧
      (ids.foldl restoreIdStep (none, 0)).2 = ids.countP fun input => !input.2 := by
  induction ids using List.reverseRecOn with
  | nil =>
    refine ⟨?_, ?_, rfl⟩
    · intro most h
      cases h
    · intro input h
      cases h
  | append_singleton ids input ih =>
    obtain ⟨hmost, hread, hcount⟩ := ih
    rw [foldl_append, foldl_cons, countP_append, ← hcount]
    generalize ids.foldl restoreIdStep (none, 0) = scanned at hmost hread ⊢
    obtain ⟨most?, unknown⟩ := scanned
    refine ⟨?_, ?_, ?_⟩
    · intro most h
      simp only [restoreIdStep] at h
      split at h
      · rename_i hfits
        cases Option.some.inj h
        cases most? with
        | none => exact hfits
        | some most => exact max_le (hmost most rfl) hfits
      · exact hmost most h
    · intro other hother hfits
      simp only [restoreIdStep]
      rcases mem_append.mp hother with hother | hother
      · obtain ⟨most, heq, hle⟩ := hread other hother hfits
        subst heq
        split
        · exact ⟨_, rfl, hle.trans (le_max_left _ _)⟩
        · exact ⟨most, rfl, hle⟩
      · cases mem_singleton.mp hother
        rw [if_pos hfits]
        refine ⟨_, rfl, ?_⟩
        cases most? with
        | none => exact le_rfl
        | some most => exact le_max_right _ _
    · obtain ⟨id, known⟩ := input
      cases known with
      | false => rfl
      | true => rfl

/-- The id that a restored log resumes at is above every restorable id, and leaves room. -/
theorem restoreIdResume_nextId (ids : List (ℕ × Bool)) (idFloor : Option ℕ) :
    (∀ n, (restoreIdResume ids idFloor).nextId = some n → n ≤ 2 ^ 63) ∧ ∀ input ∈ ids, input.1 ≤ MAX_RESTORED_ID →
        ∃ n, (restoreIdResume ids idFloor).nextId = some n ∧ input.1 < n := by
  obtain ⟨hmost, hread, -⟩ := foldl_restoreIdStep ids
  have hmax : MAX_RESTORED_ID = 2 ^ 63 - 1 := rfl
  rw [restoreIdResume]
  generalize (ids.foldl restoreIdStep (none, 0)).1 = most? at hmost hread ⊢
  have hfloor (floor : ℕ) (h : (idFloor.map fun floor => min floor MAX_RESTORED_ID) = some floor) :
      floor ≤ MAX_RESTORED_ID := by
    obtain ⟨given, -, rfl⟩ := Option.map_eq_some_iff.mp h
    exact min_le_right _ _
  generalize (idFloor.map fun floor => min floor MAX_RESTORED_ID) = floor? at hfloor ⊢
  constructor
  · intro n hn
    obtain ⟨highest, hhighest, hn⟩ := Option.bind_eq_some_iff.mp hn
    split at hn
    · cases hn
      cases most? with
      | none =>
        have := hfloor highest hhighest
        omega
      | some most =>
        have := hmost most rfl
        cases floor? with
        | none =>
          cases hhighest
          omega
        | some floor =>
          have := hfloor floor rfl
          cases hhighest
          omega
    · cases hn
  · intro input hinput hfits
    obtain ⟨most, rfl, hle⟩ := hread input hinput hfits
    have := hmost most rfl
    cases floor? with
    | none =>
      refine ⟨most + 1, ?_, by omega⟩
      exact if_pos (by omega)
    | some floor =>
      have := hfloor floor rfl
      refine ⟨max most floor + 1, ?_, by omega⟩
      exact if_pos (by omega)

/-- The outstanding ones of the records are about different problems. -/
def KeysDiffer (records : List (IncidentRecord Op)) : Prop :=
  records.Pairwise fun record record' => record.state.isOpen = true →
    record'.state.isOpen = true → record.key ≠ record'.key

instance (records : List (IncidentRecord Op)) : Decidable (KeysDiffer records) :=
  inferInstanceAs (Decidable (List.Pairwise _ _))

/-- The record has a code that is not known. -/
def IncidentRecord.isUnknown (record : IncidentRecord Op) : Bool := (fromCode record.code).isNone

/-- What holds between two records of a restore of an empty log. -/
structure Restoring.Sound (wallOrigin : Option ℤ) (done : List (IncidentRecord Op)) (r : Restoring Op) : Prop where
  seen : ∀ a ∈ r.log.entries, a.id ∈ r.seen
  nodup : (r.log.entries.map Incident.id).Nodup
  inputs : ∀ a ∈ r.log.entries, a.id ≤ MAX_RESTORED_ID ∧ (a.id, true) ∈ r.idInputs
  source : ∀ a ∈ r.log.entries, a.state.isOpen = true → ∃ record ∈ done,
    record.state.isOpen = true ∧ record.key = (a.code.code, a.subject, a.observed)
  one : ∀ a ∈ r.log.entries, ∀ b ∈ r.log.entries, a.state.isOpen = true →
    b.state.isOpen = true → a.key = b.key → a.id = b.id
  unknown : (r.idInputs.countP fun input => !input.2) = done.countP IncidentRecord.isUnknown
  nextId : r.log.nextId = 1
  suppressed : r.log.suppressed = ∅
  wallOrigin : r.log.wallOrigin = wallOrigin
  loadedWall : r.log.entries = [] → r.log.loadedWall = .empty
  generation : r.log.generation ≤ maxGeneration
  counted : r.log.entries ≠ [] → 0 < r.log.generation

namespace Restoring

variable {wallOrigin : Option ℤ} {done : List (IncidentRecord Op)} {r : Restoring Op}

theorem sound_start (carried : List String) : Sound wallOrigin ([] : List (IncidentRecord Op))
      ⟨.withStart wallOrigin, .start carried, [], ∅⟩ where
  seen a ha := by cases ha
  nodup := nodup_nil
  inputs a ha := by cases ha
  source a ha := by cases ha
  one a ha := by cases ha
  unknown := rfl
  nextId := rfl
  suppressed := rfl
  wallOrigin := rfl
  loadedWall _ := rfl
  generation := Nat.zero_le _
  counted h := absurd rfl h

theorem isOpen_restored {record : IncidentRecord Op} {code : IncidentCode}
    {opening : TimelineRevision} (h : (record.restored code opening).state.isOpen = true) :
    record.state.isOpen = true := by
  change record.restoredState.isOpen = true at h
  rw [IncidentRecord.restoredState] at h
  split at h
  · rename_i hinvestigating
    rw [hinvestigating]
    rfl
  · exact h

/-- One record more. -/
theorem Sound.next (h : Sound wallOrigin done r) (opening : TimelineRevision)
    {record : IncidentRecord Op} (hdiffer : ∀ other ∈ done, other.state.isOpen = true →
      record.state.isOpen = true → other.key ≠ record.key) :
    Sound wallOrigin (done ++ [record]) (r.next opening record) := by
  have hsource (a : Incident Op) (ha : a ∈ r.log.entries) (hopen : a.state.isOpen = true) :
      ∃ record' ∈ done ++ [record], record'.state.isOpen = true ∧
        record'.key = (a.code.code, a.subject, a.observed) := by
    obtain ⟨other, hother, hrest⟩ := h.source a ha hopen
    exact ⟨other, mem_append_left _ hother, hrest⟩
  have hcount : (done ++ [record]).countP IncidentRecord.isUnknown =
      done.countP IncidentRecord.isUnknown + if record.isUnknown then 1 else 0 := by
    rw [countP_append, countP_singleton]
  rw [Restoring.next]
  split
  · rename_i hunknown
    have hisUnknown : record.isUnknown = true := by
      rw [IncidentRecord.isUnknown, hunknown]
      rfl
    refine { h with inputs := ?_, source := hsource, unknown := ?_ }
    · intro a ha
      exact ⟨(h.inputs a ha).1, mem_append_left _ (h.inputs a ha).2⟩
    · rw [hcount, hisUnknown, countP_append, h.unknown]
      rfl
  · rename_i code hcode
    have hknown : record.isUnknown = false := by
      rw [IncidentRecord.isUnknown, hcode]
      rfl
    rw [hknown] at hcount
    split
    · exact { h with source := hsource, unknown := h.unknown.trans hcount.symm }
    · rename_i hfresh
      obtain ⟨hceiling, hseen⟩ := not_or.mp hfresh
      have hkey {a : Incident Op} (ha : a ∈ r.log.entries) (hopen : a.state.isOpen = true)
          (hrestored : (record.restored code opening).state.isOpen = true) :
          a.key ≠ (record.restored code opening).key := by
        intro hkey
        obtain ⟨other, hother, hotherOpen, hotherKey⟩ := h.source a ha hopen
        refine hdiffer other hother hotherOpen (isOpen_restored hrestored) ?_
        have hsame : a.code = code := congrArg Prod.fst hkey
        have hrest : (a.subject, a.observed) = (record.subject, record.observed) := congrArg Prod.snd hkey
        rw [hotherKey, IncidentRecord.key, ← code_of_fromCode hcode, hsame]
        exact congrArg (Prod.mk code.code) hrest
      refine ⟨?_, ?_, ?_, ?_, ?_, ?_, h.nextId, h.suppressed, h.wallOrigin, ?_, ?_, ?_⟩
      · intro a ha
        rcases mem_append.mp ha with ha | ha
        · exact Finset.mem_insert_of_mem (h.seen a ha)
        · cases mem_singleton.mp ha
          exact Finset.mem_insert_self _ _
      · show ((r.log.entries ++ [record.restored code opening]).map Incident.id).Nodup
        rw [map_append, nodup_append]
        refine ⟨h.nodup, nodup_singleton _, ?_⟩
        intro id hid id' hid' heq
        obtain ⟨a, ha, rfl⟩ := mem_map.mp hid
        cases mem_singleton.mp hid'
        have hid : a.id = record.id := heq
        exact hseen (hid ▸ h.seen a ha)
      · intro a ha
        rcases mem_append.mp ha with ha | ha
        · exact ⟨(h.inputs a ha).1, mem_append_left _ (h.inputs a ha).2⟩
        · cases mem_singleton.mp ha
          exact ⟨Nat.le_of_not_lt hceiling, mem_append_right _ mem_cons_self⟩
      · intro a ha hopen
        rcases mem_append.mp ha with ha | ha
        · exact hsource a ha hopen
        · cases mem_singleton.mp ha
          refine ⟨record, mem_append_right _ mem_cons_self, isOpen_restored hopen, ?_⟩
          rw [IncidentRecord.key, ← code_of_fromCode hcode]
          rfl
      · intro a ha b hb hopen hopen' heq
        rcases mem_append.mp ha with ha | ha
        · rcases mem_append.mp hb with hb | hb
          · exact h.one a ha b hb hopen hopen' heq
          · cases mem_singleton.mp hb
            exact absurd heq (hkey ha hopen hopen')
        · cases mem_singleton.mp ha
          rcases mem_append.mp hb with hb | hb
          · exact absurd heq.symm (hkey hb hopen' hopen)
          · cases mem_singleton.mp hb
            rfl
      · rw [hcount, countP_append, h.unknown]
        rfl
      · intro hempty
        exact absurd hempty (append_ne_nil_of_right_ne_nil _ (cons_ne_nil _ _))
      · exact min_le_right _ _
      · intro _
        show 0 < saturatingSucc r.log.generation
        rw [saturatingSucc]
        omega

/-- All records. -/
theorem sound_foldl (opening : TimelineRevision) (carried : List String)
    {records : List (IncidentRecord Op)} (hdiffer : KeysDiffer records) :
    Sound wallOrigin records (records.foldl (Restoring.next opening)
      ⟨.withStart wallOrigin, .start carried, [], ∅⟩) := by
  induction records using List.reverseRecOn with
  | nil => exact sound_start carried
  | append_singleton records record ih =>
    obtain ⟨hrecords, -, hlast⟩ := pairwise_append.mp hdiffer
    rw [foldl_append]
    refine (ih hrecords).next opening ?_
    intro other hother
    exact hlast other hother record mem_cons_self

end Restoring

end Kinewright.Incidents
