import Kinewright.Incidents.Runs

/-!
# Sessions of the incident log

A session starts with an empty log, restores records into it or does not, and then calls its writers in
any order. The invariants of the log hold after every call, a later log follows an earlier one, and
nothing that is written to disk changes without the generation.
-/

namespace Kinewright.Incidents

open Model Core List IncidentLog

variable {Op : Type}

/-- What a log is restored from. -/
structure Sidecar (Op : Type) where
  records : List (IncidentRecord Op)
  carried : List String
  opening : TimelineRevision
  idFloor : Option ℕ
  elapsed : Duration

structure Session (Op : Type) where
  wallOrigin : Option ℤ
  sidecar : Option (Sidecar Op)
  writers : List (Writer Op)

/-- A log, and how many observations were made to it. -/
structure Observing (Op : Type) where
  log : IncidentLog Op
  observations : ℕ

namespace Observing

/-- The log after a call, which is counted if it is an observation. -/
def next (o : Observing Op) (writer : Writer Op) : Observing Op where
  log := o.log.call writer
  observations := o.observations + if writer.isObserve then 1 else 0

/-- As long as there are ids for the observations, the log is sound. -/
structure Good (o : Observing Op) : Prop where
  generation : o.log.generation ≤ maxGeneration
  sound : o.observations < 2 ^ 63 → Sound o.log
  nextId : o.observations < 2 ^ 63 → o.log.nextId ≤ 2 ^ 63 + o.observations

variable {o : Observing Op} {writer : Writer Op}

theorem observations_le_next : o.observations ≤ (o.next writer).observations := Nat.le_add_right _ _

theorem Good.next (h : o.Good) (writer : Writer Op) : (o.next writer).Good := by
  have hchange := o.log.change writer
  have hcount : (o.next writer).observations =
    o.observations + if writer.isObserve then 1 else 0 := rfl
  have hlog : (o.next writer).log = o.log.call writer := rfl
  refine ⟨hchange.generation_le h.generation, ?_, ?_⟩
  · intro hlt
    have hbound := h.nextId (by omega)
    refine hchange.sound (h.sound (by omega)) ?_
    intro hobserve
    rw [if_pos hobserve] at hcount
    omega
  · intro hlt
    have hbound := h.nextId (by omega)
    have hnext := hchange.nextId_le
    rw [hlog]
    omega

/-- The later log follows the earlier one, as long as there are ids for the observations. -/
def Follows (o o' : Observing Op) : Prop :=
  o.observations ≤ o'.observations ∧ (o'.observations < 2 ^ 63 → Later o.log o'.log)

theorem Follows.refl (o : Observing Op) : o.Follows o := ⟨le_rfl, fun _ => .refl _⟩

theorem Follows.trans {o' o'' : Observing Op} (h : o.Follows o') (h' : o'.Follows o'') : o.Follows o'' :=
  ⟨h.1.trans h'.1, fun hlt => (h.2 (h'.1.trans_lt hlt)).trans (h'.2 hlt)⟩

theorem Good.follows (h : o.Good) (writer : Writer Op) : o.Follows (o.next writer) := by
  refine ⟨observations_le_next, ?_⟩
  intro hlt
  have hbound := h.nextId (observations_le_next.trans_lt hlt)
  have := observations_le_next.trans_lt hlt
  exact (o.log.change writer).later (by omega)

end Observing

/-! ## The log that a session starts with -/

namespace Session

variable (session : Session Op)

/-- The log with which the session starts. The note of unknown codes is an observation. -/
def start : Observing Op :=
  match session.sidecar with
  | none => ⟨.withStart session.wallOrigin, 0⟩
  | some sidecar =>
    ⟨((withStart session.wallOrigin).restored sidecar.records sidecar.carried
      sidecar.opening sidecar.idFloor sidecar.elapsed).1,
      if sidecar.records.any IncidentRecord.isUnknown then 1 else 0⟩

/-- The log after the first `k` calls. -/
def state (k : ℕ) : Observing Op := Trace.trace Observing.next session.start session.writers k

def log (k : ℕ) : IncidentLog Op := (session.state k).log

/-- The outstanding ones of the records that are restored are about different problems. -/
def KeysDiffer : Prop := ∀ sidecar, session.sidecar = some sidecar → Incidents.KeysDiffer sidecar.records

variable {session}

theorem good_withStart (wallOrigin : Option ℤ) :
    (⟨.withStart wallOrigin, 0⟩ : Observing Op).Good where
  generation := Nat.zero_le _
  sound _ :=
    { nodup := nodup_nil
      lt := fun a ha => nomatch ha
      one := fun a ha => nomatch ha }
  nextId _ := by
    show 1 ≤ 2 ^ 63 + 0
    omega

/-- A restore after its last record. -/
def scanned (wallOrigin : Option ℤ) (sidecar : Sidecar Op) : Restoring Op :=
  sidecar.records.foldl (Restoring.next sidecar.opening) ⟨.withStart wallOrigin, .start sidecar.carried, [], ∅⟩

/-- The log that the records leave, before the note of the unknown codes. -/
def resumed (wallOrigin : Option ℤ) (sidecar : Sidecar Op) : IncidentLog Op :=
  { (scanned wallOrigin sidecar).log with
    nextId := (restoreIdResume (scanned wallOrigin sidecar).idInputs sidecar.idFloor).nextId.getD
      (scanned wallOrigin sidecar).log.nextId }

/-- The resumed log is sound, leaves room for every observation, and what it holds is counted. -/
theorem resumed_good (wallOrigin : Option ℤ) (sidecar : Sidecar Op) (hdiffer : Incidents.KeysDiffer sidecar.records) :
    (⟨resumed wallOrigin sidecar, 0⟩ : Observing Op).Good ∧
      Trace.Ticks IncidentLog.generation counted (.withStart wallOrigin) (resumed wallOrigin sidecar) := by
  have hr : Restoring.Sound wallOrigin sidecar.records (scanned wallOrigin sidecar) :=
    Restoring.sound_foldl sidecar.opening sidecar.carried hdiffer
  rw [resumed]
  generalize scanned wallOrigin sidecar = r at hr ⊢
  obtain ⟨hle, habove⟩ := restoreIdResume_nextId r.idInputs sidecar.idFloor
  generalize (restoreIdResume r.idInputs sidecar.idFloor).nextId = next? at hle habove ⊢
  refine ⟨⟨hr.generation, fun _ => ⟨hr.nodup, ?_, hr.one⟩, fun _ => ?_⟩, ?_⟩
  · intro a ha
    obtain ⟨hceiling, hinput⟩ := hr.inputs a ha
    obtain ⟨n, rfl, hlt⟩ := habove _ hinput hceiling
    exact hlt
  · show next?.getD r.log.nextId ≤ 2 ^ 63 + 0
    cases next? with
    | none =>
      rw [Option.getD_none, hr.nextId]
      omega
    | some n => exact hle n rfl
  · rcases Nat.eq_zero_or_pos r.log.generation with hzero | hpos
    · -- No record was restored.
      have hempty : r.log.entries = [] := by
        by_contra hne
        exact absurd hzero (hr.counted hne).ne'
      left
      refine ⟨hzero, ?_⟩
      show (if r.log.generation < maxGeneration then some (r.log.entries, r.log.wallOrigin,
        r.log.loadedWall) else none) = some ([], wallOrigin, .empty)
      rw [hzero, hempty, hr.wallOrigin, hr.loadedWall hempty]
      rfl
    · exact .inr hpos

/-- How many records `restore` skips for their codes. -/
def skipped (wallOrigin : Option ℤ) (sidecar : Sidecar Op) : ℕ :=
  (restoreIdResume (scanned wallOrigin sidecar).idInputs sidecar.idFloor).unknownSkipped

/-- The unknown codes that `restore` skips are those of the records. -/
theorem skipped_pos (wallOrigin : Option ℤ) (sidecar : Sidecar Op) (hdiffer : Incidents.KeysDiffer sidecar.records) :
    0 < skipped wallOrigin sidecar ↔ sidecar.records.any IncidentRecord.isUnknown = true := by
  have hr : Restoring.Sound wallOrigin sidecar.records (scanned wallOrigin sidecar) :=
    Restoring.sound_foldl sidecar.opening sidecar.carried hdiffer
  have hcount (ids : List (ℕ × Bool)) : (restoreIdResume ids sidecar.idFloor).unknownSkipped =
      ids.countP fun input => !input.2 := (foldl_restoreIdStep ids).2.2
  rw [skipped, hcount, hr.unknown, countP_pos_iff, any_eq_true]

/-- The note of the unknown codes is a call more. -/
theorem restored_fst (wallOrigin : Option ℤ) (sidecar : Sidecar Op) :
    ((withStart wallOrigin).restored sidecar.records sidecar.carried sidecar.opening
      sidecar.idFloor sidecar.elapsed).1 =
    if 0 < skipped wallOrigin sidecar then (resumed wallOrigin sidecar).call
        (.observe (unknownCodesAggregate (skipped wallOrigin sidecar) sidecar.opening) sidecar.elapsed)
    else resumed wallOrigin sidecar := rfl

/-- What a session starts with is good, and what it holds is counted. -/
theorem start_good (hdiffer : session.KeysDiffer) : session.start.Good ∧
    Trace.Ticks IncidentLog.generation counted (.withStart session.wallOrigin)
      session.start.log := by
  rw [start]
  cases hsidecar : session.sidecar with
  | none => exact ⟨good_withStart _, .refl _⟩
  | some sidecar =>
    have hrecords := hdiffer sidecar hsidecar
    obtain ⟨hgood, hticks⟩ := resumed_good session.wallOrigin sidecar hrecords
    have hskipped := skipped_pos session.wallOrigin sidecar hrecords
    dsimp only
    rw [restored_fst]
    split
    · rename_i hpos
      rw [if_pos (hskipped.mp hpos)]
      exact ⟨hgood.next (.observe _ _), hticks.trans ((change _ _).ticks hgood.generation)⟩
    · rename_i hzero
      rw [if_neg fun hany => hzero (hskipped.mpr hany)]
      exact ⟨hgood, hticks⟩

/-! ## Every state of a session -/

theorem good (hdiffer : session.KeysDiffer) (k : ℕ) : (session.state k).Good :=
  Trace.invariant (fun _ writer h => h.next writer) (start_good hdiffer).1 k

theorem follows (hdiffer : session.KeysDiffer) {i j : ℕ} (hij : i ≤ j) : (session.state i).Follows (session.state j) :=
  Trace.relation (fun _ writer h => h.next writer) (start_good hdiffer).1 .refl
    (fun _ _ _ => .trans) (fun _ writer h => h.follows writer) hij

theorem ticks (hdiffer : session.KeysDiffer) {i j : ℕ} (hij : i ≤ j) :
    Trace.Ticks IncidentLog.generation counted (session.log i) (session.log j) :=
  Trace.relation (R := fun o o' => Trace.Ticks IncidentLog.generation counted o.log o'.log)
    (fun _ writer h => h.next writer) (start_good hdiffer).1 (fun _ => .refl _)
    (fun _ _ _ => .trans) (fun o writer h => (o.log.change writer).ticks h.generation) hij

end Session

/-! ## What a session promises -/

/-- `would_open` tells whether `observe` opens an incident. -/
theorem IncidentLog.wouldOpen_iff (log : IncidentLog Op) (observation : IncidentObservation) (elapsed : Duration) :
    log.wouldOpen observation.code observation.subject observation.observed = true ↔
      ∃ id, (log.observe observation elapsed).1 = .opened id := by
  rw [wouldOpen, observe]
  by_cases hsuppressed : (observation.code, observation.subject) ∈ log.suppressed
  · rw [if_pos hsuppressed, if_pos hsuppressed]
    constructor
    · intro h
      cases h
    · rintro ⟨id, h⟩
      cases h
  · rw [if_neg hsuppressed, if_neg hsuppressed, Bool.not_eq_true', any_eq_false]
    constructor
    · intro hnone
      have hfind := find?_eq_none.mpr hnone
      rw [hfind]
      exact ⟨_, rfl⟩
    · rintro ⟨id, h⟩
      split at h
      · cases h
      · rename_i hfind
        exact find?_eq_none.mp hfind

/-- What holds of a log by itself. -/
structure IncidentLog.Consistent (log : IncidentLog Op) : Prop where
  nodup : (log.entries.map Incident.id).Nodup
  lt : ∀ a ∈ log.entries, a.id < log.nextId
  one : ∀ a ∈ log.entries, ∀ b ∈ log.entries, a.state.isOpen = true → b.state.isOpen = true →
    a.code = b.code → a.subject = b.subject → a.observed = b.observed → a = b
  wouldOpen : ∀ observation elapsed, log.wouldOpen observation.code observation.subject observation.observed = true ↔
      ∃ id, (log.observe observation elapsed).1 = .opened id

/-- What holds of a log and a later one of its session. -/
structure IncidentLog.Precedes (s t : IncidentLog Op) : Prop where
  suppressed : s.suppressed ⊆ t.suppressed
  reported : ∀ b ∈ t.entries, (b.code, b.subject) ∈ s.suppressed → ∃ a ∈ s.entries, a.id = b.id
  resolved : ∀ a ∈ s.entries, ∀ b ∈ t.entries, a.id = b.id → a.state.isOpen = false → b.state.isOpen = false

theorem Sound.consistent {log : IncidentLog Op} (h : Sound log) : log.Consistent where
  nodup := h.nodup
  lt := h.lt
  one a ha b hb hopen hopen' hcode hsubject hobserved := by
    have hkey : a.key = b.key := by
      rw [Incident.key, Incident.key, hcode, hsubject, hobserved]
    exact inj_on_of_nodup_map h.nodup ha hb (h.one a ha b hb hopen hopen' hkey)
  wouldOpen := log.wouldOpen_iff

theorem Later.precedes {s t : IncidentLog Op} (h : Later s t) (hs : Sound s) : s.Precedes t where
  suppressed := h.suppressed
  reported b hb hmem := by
    rcases h.entries b hb with ⟨a, ha, hkeeps⟩ | ⟨-, hreported⟩
    · exact ⟨a, ha, hkeeps.id.symm⟩
    · exact absurd hmem hreported
  resolved a ha b hb hid hclosed := by
    rcases h.entries b hb with ⟨c, hc, hkeeps⟩ | ⟨hnew, -⟩
    · have heq : c = a := inj_on_of_nodup_map hs.nodup hc ha (hkeeps.id.symm.trans hid.symm)
      subst heq
      rw [Bool.eq_false_iff]
      intro hopen
      exact Bool.eq_false_iff.mp hclosed (hkeeps.isOpen hopen)
    · have hlt : b.id < s.nextId := hid ▸ hs.lt a ha
      exact absurd hnew hlt.not_ge

/-- Over every session with ids for its observations: the ids of incidents are apart and below the next
one, no two outstanding incidents are about one problem, `would_open` tells what `observe` does; what is
suppressed stays so and no incident about it is new, what is resolved stays so; a proposal comes to life
only where it is recorded; and what is written to disk changes with the generation, unless that stands
at its maximum. -/
theorem incident_log_invariants (session : Session Op) (hdiffer : session.KeysDiffer) :
    (∀ k, (session.state k).observations < 2 ^ 63 → (session.log k).Consistent) ∧
    (∀ i j, i ≤ j → (session.state j).observations < 2 ^ 63 → (session.log i).Precedes (session.log j)) ∧
    (∀ k writer, session.writers[k]? = some writer → (session.state k).observations < 2 ^ 63 →
      ∀ a ∈ (session.log k).entries, ∀ b ∈ (session.log (k + 1)).entries, b.id = a.id →
        a.isLive = false → b.isLive = true →
          ∃ proposal, writer = .recordProposal a.id proposal ∧ b.proposal = some proposal) ∧
    (∀ i j, i ≤ j → ∀ compactJsonLen running refused, (session.log i).records compactJsonLen running refused ≠
        (session.log j).records compactJsonLen running refused →
      (session.log i).generation < (session.log j).generation ∨ (session.log i).generation = 2 ^ 64 - 1) ∧
    ∀ compactJsonLen running refused, (withStart session.wallOrigin).records compactJsonLen running refused ≠
        (session.log 0).records compactJsonLen running refused → 0 < (session.log 0).generation := by
  have hgood := session.good hdiffer
  refine ⟨?_, ?_, ?_, ?_, ?_⟩
  · intro k hcount
    exact ((hgood k).sound hcount).consistent
  · intro i j hij hcount
    have hfollows := session.follows hdiffer hij
    exact (hfollows.2 hcount).precedes ((hgood i).sound (hfollows.1.trans_lt hcount))
  · intro k writer hwriter hcount a ha b hb hid hstale hlive
    have hnext : session.log (k + 1) = (session.log k).call writer :=
      congrArg Observing.log (Trace.trace_succ hwriter)
    rw [hnext] at hb
    exact ((session.log k).change writer).live ((hgood k).sound hcount) ha hb hid hstale hlive
  · intro i j hij compactJsonLen running refused hne
    rcases (hgood i).generation.lt_or_eq with hlt | heq
    · exact .inl (generation_lt_of_records_ne (session.ticks hdiffer hij) hne hlt)
    · exact .inr heq
  · intro compactJsonLen running refused hne
    refine generation_lt_of_records_ne (session.start_good hdiffer).2 hne ?_
    show 0 < maxGeneration
    decide

/-- A session that restores an outstanding incident, a second record of its id and a record of a code
that is not known, sees the problem again and resolves it. -/
def reopened : Session Unit where
  wallOrigin := none
  sidecar := some
    { records :=
        [{ id := 7, code := "look_incomplete", subject := .project, observed := "a", allowed := none,
           evidence := .plain, revision := 0, openedWallMillis := none, openedOffsetNanos := 0,
           count := 1, state := .investigating, telemetry := .default, proposal := none,
           subjectName := none, refusedOp := none },
         { id := 7, code := "look_incomplete", subject := .project, observed := "b", allowed := none,
           evidence := .plain, revision := 0, openedWallMillis := none, openedOffsetNanos := 0,
           count := 1, state := .opened, telemetry := .default, proposal := none,
           subjectName := none, refusedOp := none },
         { id := 9, code := "look_lost", subject := .project, observed := "a", allowed := none,
           evidence := .plain, revision := 0, openedWallMillis := none, openedOffsetNanos := 0,
           count := 1, state := .opened, telemetry := .default, proposal := none,
           subjectName := none, refusedOp := none }]
      carried := []
      opening := 3
      idFloor := none
      elapsed := 0 }
  writers :=
    [.observe (.plain (.label .lookIncomplete) .project "a" 4) 1, .resolve 7 .applied 2,
      .observe (.plain (.label .lookIncomplete) .project "a" 5) 3]

theorem incident_log_invariants_reopened : (reopened.log 3).Consistent ∧ (reopened.log 2).Precedes (reopened.log 3) ∧
      (reopened.log 3).entries.map Incident.id = [7, 10] ∧ (reopened.log 3).openCount = 1 := by
  have hdiffer : reopened.KeysDiffer := by
    intro sidecar hsidecar
    cases hsidecar
    decide +kernel
  have h := incident_log_invariants reopened hdiffer
  have hcount : (reopened.state 3).observations < 2 ^ 63 := by decide +kernel
  exact ⟨h.1 3 hcount, h.2.1 2 3 (by omega) hcount, by decide +kernel, by decide +kernel⟩

/-! ## The greatest generation -/

/-- A log with one incident. -/
def pinned (generation : ℕ) (revision : TimelineRevision) : IncidentLog Unit where
  nextId := 2
  entries := [{ (withStart none).opening (.plain .lutAssetPolicy .project "" 0) 0 with
    revision := revision }]
  suppressed := ∅
  generation := generation
  wallOrigin := none
  loadedWall := .empty

/-- A session that observes a problem, and then restates it so many times, and once against another
revision. -/
def restating (n : ℕ) : Session Unit where
  wallOrigin := none
  sidecar := none
  writers := .observe (.plain .lutAssetPolicy .project "" 0) 0 ::
    (List.replicate n (.refreshRevision 1 0) ++ [.refreshRevision 1 1])

theorem foldl_restating (n generation : ℕ) (hle : generation ≤ maxGeneration) :
    (List.replicate n (Writer.refreshRevision 1 0)).foldl Observing.next
      ⟨pinned generation 0, 1⟩ = ⟨pinned (min (generation + n) maxGeneration) 0, 1⟩ := by
  induction n generalizing generation with
  | zero => rw [Nat.add_zero, min_eq_left hle, replicate_zero, foldl_nil]
  | succ n ih =>
    have hsucc : saturatingSucc generation = min (generation + 1) maxGeneration := rfl
    have hnext : (⟨pinned generation 0, 1⟩ : Observing Unit).next (.refreshRevision 1 0) =
        ⟨pinned (saturatingSucc generation) 0, 1⟩ := rfl
    rw [replicate_succ, foldl_cons, hnext, hsucc, ih _ (min_le_right _ _)]
    congr 2
    omega

theorem restating_state (n : ℕ) : (restating n).state (n + 1) = ⟨pinned (min (1 + n) maxGeneration) 0, 1⟩ := by
  have htake : (restating n).writers.take (n + 1) = .observe (.plain .lutAssetPolicy .project "" 0) 0 ::
        List.replicate n (.refreshRevision 1 0) := by
    rw [restating, take_succ_cons, take_left' length_replicate]
  have hfirst : (restating n).start.next (.observe (.plain .lutAssetPolicy .project "" 0) 0) =
      ⟨pinned 1 0, 1⟩ := rfl
  rw [Session.state, Trace.trace, htake, foldl_cons, hfirst]
  exact foldl_restating n 1 (by decide)

theorem restating_state_succ (n : ℕ) : (restating n).state (n + 2) =
    ⟨pinned (saturatingSucc (min (1 + n) maxGeneration)) 1, 1⟩ := by
  have hwriter : (restating n).writers[n + 1]? = some (.refreshRevision 1 1) := by
    rw [restating, getElem?_cons_succ, getElem?_append_right (by rw [length_replicate]), length_replicate, Nat.sub_self]
    rfl
  have hnext : (restating n).state (n + 2) =
      ((restating n).state (n + 1)).next (.refreshRevision 1 1) := Trace.trace_succ hwriter
  rw [hnext, restating_state]
  rfl

/-- After `2 ^ 64 - 1` changes there is one that is written to disk and not counted. -/
theorem uncounted_change : ¬ ∀ session : Session Unit, session.KeysDiffer → ∀ i j, i ≤ j →
    (session.state j).observations < 2 ^ 63 → ∀ compactJsonLen running refused,
      (session.log i).records compactJsonLen running refused ≠ (session.log j).records compactJsonLen running refused →
      (session.log i).generation < (session.log j).generation := by
  intro h
  obtain ⟨n, hn⟩ : ∃ n, n = 2 ^ 64 - 2 := ⟨_, rfl⟩
  have hdiffer : (restating n).KeysDiffer := by
    intro sidecar hsidecar
    cases hsidecar
  have hcount : ((restating n).state (n + 2)).observations < 2 ^ 63 := by
    rw [restating_state_succ]
    show 1 < 2 ^ 63
    omega
  have hlt := h (restating n) hdiffer (n + 1) (n + 2) (by omega) hcount (fun _ => 0) none .empty
  rw [Session.log, Session.log, restating_state, restating_state_succ] at hlt
  refine absurd (hlt ?_) ?_
  · intro heq
    have hrevision := congrArg (fun written => written.1.map IncidentRecord.revision) heq
    have hsame : [0] = [1] := hrevision
    exact absurd hsame (by decide)
  · show ¬ min (1 + n) maxGeneration < saturatingSucc (min (1 + n) maxGeneration)
    rw [saturatingSucc, maxGeneration]
    omega

end Kinewright.Incidents
