import Kinewright.Orchestration.TaskLifecycle

/-!
# Results and their deliveries

Every published result of a child is delivered once. The results of siblings share a wake while none of
them was offered, and a wake is over only when all that it delivers is.
-/

namespace Kinewright.Orchestration

open Fallible Accounting List
open Work (Change)
open DeliveryRecord hiding id

variable {enc : Encoding} {s t : RunProjection} {w w' : Work}

/-! ## Parents -/

variable {parent : TaskId}

theorem Work.Formed.hasParent_inj (hw : w.Formed) {id other : TaskId} (h : w.HasParent id parent)
    (h' : w.HasParent id other) : parent = other := by
  obtain ⟨a, ha, hid, hparent⟩ := h
  obtain ⟨b, hb, hid', hother⟩ := h'
  obtain rfl := hw.task_ext ha hb (hid.trans hid'.symm)
  exact Option.some.inj (hparent.symm.trans hother)

/-- The parent of a task does not change. -/
theorem hasParent_iff (hw' : w'.Formed) (hchange : Change w w') {id : TaskId}
    (hid : ∃ task ∈ w.tasks, task.id = id) : w'.HasParent id parent ↔ w.HasParent id parent := by
  rcases hchange.tasks_cases with htasks | ⟨new, _, htasks, _⟩
  · constructor
    · rintro ⟨b, hb, rfl, hparent⟩
      obtain ⟨a, ha, hab⟩ := exists_of_forall₂_right htasks hb
      exact ⟨a, ha, hab.id.symm, hab.parent.symm.trans hparent⟩
    · rintro ⟨a, ha, rfl, hparent⟩
      obtain ⟨b, hb, hab⟩ := exists_of_forall₂_left htasks ha
      exact ⟨b, hb, hab.id, hab.parent.trans hparent⟩
  · constructor
    · rintro ⟨b, hb, rfl, hparent⟩
      obtain ⟨a, ha, hid⟩ := hid
      have hmem : a ∈ w'.tasks := htasks ▸ mem_append_left _ ha
      obtain rfl := hw'.task_ext hmem hb hid
      exact ⟨a, ha, rfl, hparent⟩
    · rintro ⟨a, ha, hid, hparent⟩
      exact ⟨a, htasks ▸ mem_append_left _ ha, hid, hparent⟩

/-! ## Effects and deliveries in one step -/

/-- Every effect stays, for its task. -/
theorem Work.Change.exists_effect (h : Change w w') {effect : EffectRecord} (heffect : effect ∈ w.effects) :
    ∃ after ∈ w'.effects, after.id = effect.id ∧ after.task = effect.task := by
  have hgrows (added : List EffectRecord) (hadded : w'.effects = w.effects ++ added) :
      ∃ after ∈ w'.effects, after.id = effect.id ∧ after.task = effect.task :=
    ⟨effect, hadded ▸ mem_append_left _ heffect, rfl, rfl⟩
  cases h with
  | moved outcome results tasks effects =>
    obtain ⟨after, hafter, h⟩ := exists_of_forall₂_left effects heffect
    exact ⟨after, hafter, h.id, h.task⟩
  | asked question task htask hid hopen hturn tasks rest | frozen task htask hready tasks rest =>
    exact hgrows [] (by rw [rest]; simp)
  | assigned task effect parent hparent hof hopen hqueued hfree happends rest
  | messaged effect happends rest => exact hgrows [effect] (by rw [rest])
  | published task result htask hready hfreezing tasks deliveries effects hdeliveries rest =>
    exact hgrows effects (by rw [rest])
  | hosted id state hstate effects rest =>
    obtain ⟨after, hafter, ⟨_, rfl⟩ | ⟨_, rfl⟩⟩ := exists_of_forall₂_left effects heffect
    all_goals exact ⟨_, hafter, rfl, rfl⟩

/-- An effect that is over was so before, or has nothing left to deliver. -/
theorem Work.Change.idle (h : Change w w') {effect : EffectRecord} (heffect : effect ∈ w'.effects)
    (hfinished : effect.state.isFinished = true) :
    (∃ before ∈ w.effects, before.id = effect.id ∧ before.state.isFinished = true) ∨ w'.Idle effect := by
  have hgrows (added : List EffectRecord) (hadded : w'.effects = w.effects ++ added)
      (hpending : ∀ new ∈ added, new.state = .pending) :
      ∃ before ∈ w.effects, before.id = effect.id ∧ before.state.isFinished = true := by
    rw [hadded] at heffect
    rcases mem_append.mp heffect with hmem | hmem
    · exact ⟨effect, hmem, rfl, hfinished⟩
    · rw [hpending effect hmem] at hfinished
      cases hfinished
  cases h with
  | moved outcome results tasks effects idle => exact idle effect heffect hfinished
  | asked question task htask hid hopen hturn tasks rest | frozen task htask hready tasks rest =>
    exact .inl (hgrows [] (by rw [rest]; simp) (by simp))
  | assigned task new parent hparent hof hopen hqueued hfree happends rest
  | messaged new happends rest => exact .inl (hgrows [new] (by rw [rest]) (by simpa using happends.pending))
  | published task result htask hready hfreezing tasks deliveries effects hdeliveries rest =>
    refine .inl (hgrows effects (by rw [rest]) ?_)
    rcases hdeliveries with ⟨_, _, rfl⟩ | ⟨delivery, _, hdelivers, _⟩
    · simp
    · cases hdelivers with
      | coalesced => simp
      | opened _ _ _ _ _ happends => simpa using happends.pending
  | hosted id state hstate effects rest =>
    obtain ⟨before, hbefore, ⟨_, rfl⟩ | ⟨_, rfl⟩⟩ := exists_of_forall₂_right effects heffect
    · exact .inl ⟨_, hbefore, rfl, hfinished⟩
    · -- the host leaves an effect in a state that is not over
      rcases hstate with ⟨rfl, _⟩ | ⟨rfl, _⟩ | ⟨attempt, rfl, _⟩
      all_goals cases hfinished

/-! ## Results to deliver -/

/-- The results of a task that are to be delivered. -/
def TaskRecord.delivered (task : TaskRecord) : List ObjectRef :=
  match task.parent, task.state with
  | some _, .terminal result => [result]
  | _, _ => []

theorem TaskRecord.Moves.delivered {a b : TaskRecord} (h : a.Moves b) : b.delivered = a.delivered := by
  unfold TaskRecord.delivered
  rw [h.parent]
  cases hparent : a.parent with
  | none => rfl
  | some parent =>
    cases hstate : b.state with
    | terminal result => rw [h.terminal result hstate]
    | _ =>
      cases hbefore : a.state with
      | terminal result =>
        have hdone := h.done (by rw [hbefore]; rfl)
        rw [hstate, hbefore] at hdone
        cases hdone
      | _ => rfl

variable {task : TaskRecord}

theorem TaskRecord.delivered_of_open (h : task.state.isDone = false) : task.delivered = [] := by
  unfold TaskRecord.delivered
  cases task.parent with
  | none => rfl
  | some parent =>
    cases hstate : task.state with
    | terminal result => rw [hstate] at h; cases h
    | _ => rfl

/-- What a change does to the deliveries, and to the tasks whose results are delivered. -/
theorem deliveries_cases (hw' : w'.Formed) (h : Change w w') :
    (w'.results = w.results ∧ List.Forall₂ Moves w.deliveries w'.deliveries ∧
      ∀ b ∈ w'.tasks, (∃ a ∈ w.tasks, b.id = a.id ∧ b.delivered = a.delivered) ∨
        b.delivered = [] ∧ ∀ a ∈ w.tasks, a.id ≠ b.id) ∨
      ∃ task result deliveries effects, task ∈ w.tasks ∧ task.state = .freezing ∧
        w'.results = w.results ++ [result] ∧ w.Sets w' task (.terminal result) ∧
        w'.deliveries = w.deliveries ++ deliveries ∧ w'.effects = w.effects ++ effects ∧
        ((task.parent = none ∧ deliveries = [] ∧ effects = []) ∨
          ∃ delivery, deliveries = [delivery] ∧ w.Delivers task delivery effects ∧
            delivery.task = task.id ∧ delivery.result = result ∧ delivery.state = .pending) := by
  have hsame : List.Forall₂ Moves w.deliveries w.deliveries := forall₂_same.mpr fun delivery _ => .refl delivery
  have hmoved (htasks : List.Forall₂ TaskRecord.Moves w.tasks w'.tasks) : ∀ b ∈ w'.tasks,
      (∃ a ∈ w.tasks, b.id = a.id ∧ b.delivered = a.delivered) ∨
        b.delivered = [] ∧ ∀ a ∈ w.tasks, a.id ≠ b.id := by
    intro b hb
    obtain ⟨a, ha, hab⟩ := exists_of_forall₂_right htasks hb
    exact .inl ⟨a, ha, hab.id, hab.delivered⟩
  cases h with
  | moved outcome results tasks effects idle deliveries =>
    exact .inl ⟨results, deliveries, hmoved tasks⟩
  | asked question task htask hid hopen hturn tasks rest =>
    exact .inl ⟨by rw [rest], by rw [rest]; exact hsame, hmoved tasks⟩
  | frozen task htask hready tasks rest =>
    refine .inl ⟨by rw [rest], by rw [rest]; exact hsame, fun b hb => .inl ?_⟩
    obtain ⟨a, ha, ⟨_, rfl⟩ | ⟨rfl, rfl⟩⟩ := exists_of_forall₂_right tasks hb
    · exact ⟨_, ha, rfl, rfl⟩
    · refine ⟨_, ha, rfl, ?_⟩
      rw [TaskRecord.delivered_of_open (TaskRecord.Becomes.isDone_of_ready hready), TaskRecord.delivered_of_open rfl]
  | assigned task effect parent hparent hof hopen hqueued hfree happends rest =>
    refine .inl ⟨by rw [rest], by rw [rest]; exact hsame, fun b hb => ?_⟩
    have htasks : w'.tasks = w.tasks ++ [task] := by rw [rest]
    rw [htasks] at hb
    rcases mem_append.mp hb with hb | hb
    · exact .inl ⟨b, hb, rfl, rfl⟩
    · obtain rfl := mem_singleton.mp hb
      refine .inr ⟨TaskRecord.delivered_of_open (by rw [hqueued]; rfl), fun a ha hid => ?_⟩
      have hids := hw'.taskIds
      rw [htasks, map_append, nodup_append] at hids
      exact hids.2.2 _ (mem_map.mpr ⟨a, ha, rfl⟩) _ (mem_singleton_self _) hid
  | messaged effect happends rest | hosted id state hstate effects rest =>
    exact .inl ⟨by rw [rest], by rw [rest]; exact hsame, fun b hb => .inl ⟨b, by rwa [rest] at hb, rfl, rfl⟩⟩
  | published task result htask hready hfreezing tasks deliveries effects hdeliveries rest =>
    exact .inr ⟨task, result, deliveries, effects, htask, hfreezing, by rw [rest], tasks,
      by rw [rest], by rw [rest], hdeliveries⟩

/-! ## What holds of the deliveries of a run -/

/-- The results that the deliveries of a task bring. -/
def Work.brought (w : Work) (id : TaskId) : List ObjectRef :=
  (w.deliveries.filter fun delivery => delivery.task = id).map DeliveryRecord.result

/-- What holds of the deliveries of a run at any time. -/
structure Work.Delivering (w : Work) : Prop where
  /-- The result of a child is delivered once, when it is published. -/
  once : ∀ task ∈ w.tasks, w.brought task.id = task.delivered
  /-- A delivery goes to the parent of its task, whose wake is there, and is not over before it. -/
  wakes : ∀ delivery ∈ w.deliveries, ∃ parent, w.HasParent delivery.task parent ∧
    ∃ effect ∈ w.effects, effect.id = delivery.wake ∧ effect.task = parent ∧
      (delivery.state.isFinished = false → effect.state.isFinished = false)
  /-- The deliveries of one wake have one parent, generation and message. -/
  shared : ∀ delivery ∈ w.deliveries, ∀ other ∈ w.deliveries, delivery.wake = other.wake →
    delivery.generation = other.generation ∧ delivery.message = other.message ∧
      ∀ parent, w.HasParent delivery.task parent → w.HasParent other.task parent
  /-- What was not offered yet is of the last generation to its parent. -/
  latest : ∀ delivery ∈ w.deliveries, delivery.state = .pending → ∀ other ∈ w.deliveries,
    ∀ parent, w.HasParent delivery.task parent → w.HasParent other.task parent → other.generation ≤ delivery.generation
  /-- The generations to a parent increase. -/
  increasing : w.deliveries.Pairwise fun delivery later => ∀ parent,
    w.HasParent delivery.task parent → w.HasParent later.task parent → delivery.generation ≤ later.generation

theorem Work.IsFirst.delivering (h : w.IsFirst) : w.Delivering := by
  obtain ⟨task, effect, hparent, _, _, rfl⟩ := h
  constructor
  · simp [Work.brought, TaskRecord.delivered, hparent]
  · simp
  · simp
  · simp
  · exact .nil

/-! ## One step -/

theorem DeliveryRecord.Moves.pending {a b : DeliveryRecord} (h : a.Moves b)
    (hb : b.state = .pending) : a.state = .pending := by
  have hstate := h.state
  rw [hb] at hstate
  generalize a.state = before at hstate ⊢
  cases hstate with
  | same => rfl

theorem DeliveryRecord.Moves.isOpen {a b : DeliveryRecord} (h : a.Moves b)
    (hb : b.state.isFinished = false) : a.state.isFinished = false := by
  rw [← Bool.not_eq_true] at hb ⊢
  exact fun ha => hb (h.isFinished ha)

section Step

variable (hw : w.Formed) (hw' : w'.Formed) (hdelivering : w.Delivering) (hchange : Change w w')

include hw' hdelivering hchange

/-- The wake of a delivery that is not over is not over either. -/
theorem wake_step {d d' : DeliveryRecord} (hw : w.Formed) (hd : d ∈ w.deliveries)
    (hd' : d' ∈ w'.deliveries) (hmoves : d.Moves d') :
    ∃ parent, w'.HasParent d'.task parent ∧ ∃ effect ∈ w'.effects, effect.id = d'.wake ∧
      effect.task = parent ∧ (d'.state.isFinished = false → effect.state.isFinished = false) := by
  obtain ⟨parent, hparent, effect, heffect, hid, htask, hopen⟩ := hdelivering.wakes d hd
  obtain ⟨after, hafter, hafterId, hafterTask⟩ := hchange.exists_effect heffect
  have hparent' : w'.HasParent d'.task parent := by
    rw [hmoves.task]
    exact (hasParent_iff hw' hchange (hw.deliveryTasks d hd)).mpr hparent
  refine ⟨parent, hparent', after, hafter, ?_, hafterTask.trans htask, fun hd'open => ?_⟩
  · rw [hafterId, hid, hmoves.wake]
  · rw [← Bool.not_eq_true]
    intro hfinished
    rcases hchange.idle hafter hfinished with ⟨before, hbefore, hbeforeId, hover⟩ | hidle | hidle
    · obtain rfl : before = effect :=
        inj_on_of_nodup_map hw.effectIds hbefore heffect (hbeforeId.trans hafterId)
      rw [hopen (hmoves.isOpen hd'open)] at hover
      cases hover
    · rw [hidle d' hd' (hmoves.wake.trans (hid.symm.trans hafterId.symm))] at hd'open
      cases hd'open
    · rw [hidle d' hd' (by rwa [hafterTask, htask])] at hd'open
      cases hd'open

/-- A step that publishes nothing keeps what holds of the deliveries. -/
theorem delivering_of_moves (hw : w.Formed) (hdeliveries : List.Forall₂ Moves w.deliveries w'.deliveries)
    (htasks : ∀ b ∈ w'.tasks, (∃ a ∈ w.tasks, b.id = a.id ∧ b.delivered = a.delivered) ∨
      b.delivered = [] ∧ ∀ a ∈ w.tasks, a.id ≠ b.id) : w'.Delivering := by
  have hparent {d : DeliveryRecord} (hd : d ∈ w.deliveries) {parent : TaskId} :
      w'.HasParent d.task parent ↔ w.HasParent d.task parent :=
    hasParent_iff hw' hchange (hw.deliveryTasks d hd)
  constructor
  · intro b hb
    have hbrought : w'.brought b.id = w.brought b.id :=
      map_filter_eq_of_forall₂ (fun _ _ h => by rw [h.task]) (fun _ _ h => h.result) hdeliveries
    rw [hbrought]
    rcases htasks b hb with ⟨a, ha, hid, hdelivered⟩ | ⟨hnone, hnew⟩
    · rw [hid, hdelivered]
      exact hdelivering.once a ha
    · rw [hnone, Work.brought, map_eq_nil_iff, filter_eq_nil_iff]
      intro d hd
      obtain ⟨a, ha, hid⟩ := hw.deliveryTasks d hd
      simpa [← hid] using hnew a ha
  · intro d' hd'
    obtain ⟨d, hd, hmoves⟩ := exists_of_forall₂_right hdeliveries hd'
    exact wake_step hw' hdelivering hchange hw hd hd' hmoves
  · intro d' hd' e' he' hwake
    obtain ⟨d, hd, hdd'⟩ := exists_of_forall₂_right hdeliveries hd'
    obtain ⟨e, he, hee'⟩ := exists_of_forall₂_right hdeliveries he'
    rw [hdd'.wake, hee'.wake] at hwake
    obtain ⟨hgeneration, hmessage, hsame⟩ := hdelivering.shared d hd e he hwake
    rw [hdd'.generation, hee'.generation, hdd'.message, hee'.message, hdd'.task, hee'.task]
    exact ⟨hgeneration, hmessage, fun parent h => (hparent he).mpr (hsame parent ((hparent hd).mp h))⟩
  · intro d' hd' hpending e' he' parent hd'parent he'parent
    obtain ⟨d, hd, hdd'⟩ := exists_of_forall₂_right hdeliveries hd'
    obtain ⟨e, he, hee'⟩ := exists_of_forall₂_right hdeliveries he'
    rw [hdd'.task, hparent hd] at hd'parent
    rw [hee'.task, hparent he] at he'parent
    rw [hdd'.generation, hee'.generation]
    exact hdelivering.latest d hd (hdd'.pending hpending) e he parent hd'parent he'parent
  · -- which tasks are delivered, and in which generations, did not change
    have hkeys : (w'.deliveries.map fun d => (d.task, d.generation)) =
        w.deliveries.map fun d => (d.task, d.generation) :=
      map_eq_of_forall₂ (fun _ _ h => by rw [h.task, h.generation]) hdeliveries
    have hpairwise : (w'.deliveries.map fun d => (d.task, d.generation)).Pairwise
        fun d later => ∀ parent, w'.HasParent d.1 parent → w'.HasParent later.1 parent →
          d.2 ≤ later.2 := by
      rw [hkeys, pairwise_map]
      refine hdelivering.increasing.imp_of_mem fun hd he hle parent hdparent heparent => ?_
      exact hle parent ((hparent hd).mp hdparent) ((hparent he).mp heparent)
    exact pairwise_map.mp hpairwise

end Step

/-! ## A new delivery -/

/-- How a new delivery fits those that are there. -/
structure Work.Fits (w w' : Work) (parent : TaskId) (new : DeliveryRecord) : Prop where
  wake : ∃ effect ∈ w'.effects, effect.id = new.wake ∧ effect.task = parent ∧ effect.state.isFinished = false
  shared : ∀ delivery ∈ w.deliveries, delivery.wake = new.wake →
    delivery.generation = new.generation ∧ delivery.message = new.message ∧ w.HasParent delivery.task parent
  latest : ∀ delivery ∈ w.deliveries, w.HasParent delivery.task parent → delivery.generation ≤ new.generation
  pending : ∀ delivery ∈ w.deliveries, delivery.state = .pending →
    w.HasParent delivery.task parent → new.generation ≤ delivery.generation

variable {new : DeliveryRecord}

theorem fits_of_delivers (hw : w.Formed) (hw' : w'.Formed) (hdelivering : w.Delivering)
    (hparent : task.parent = some parent) {effects : List EffectRecord}
    (h : w.Delivers task new effects) (heffects : w'.effects = w.effects ++ effects) :
    w.Fits w' parent new := by
  cases h with
  | @coalesced first hfirst hstate parent' hof hsibling hgeneration hwake hmessage =>
    obtain rfl : parent = parent' := Option.some.inj (hparent.symm.trans hof)
    rw [append_nil] at heffects
    constructor
    · obtain ⟨other, hother, effect, heffect, hid, htask, hopen⟩ := hdelivering.wakes first hfirst
      obtain rfl := hw.hasParent_inj hother hsibling
      exact ⟨effect, heffects ▸ heffect, hid.trans hwake.symm, htask, hopen (by rw [hstate]; rfl)⟩
    · intro delivery hdelivery hsame
      obtain ⟨hg, hm, hp⟩ := hdelivering.shared delivery hdelivery first hfirst (hsame.trans hwake)
      obtain ⟨other, hother, _⟩ := hdelivering.wakes delivery hdelivery
      obtain rfl := hw.hasParent_inj (hp other hother) hsibling
      exact ⟨hg.trans hgeneration.symm, hm.trans hmessage.symm, hother⟩
    · intro delivery hdelivery hp
      rw [hgeneration]
      exact hdelivering.latest first hfirst hstate delivery hdelivery parent hsibling hp
    · intro delivery hdelivery hpending hp
      rw [hgeneration]
      exact hdelivering.latest delivery hdelivery hpending first hfirst parent hp hsibling
  | @opened effect parent' hof hnone hgeneration hwake htask happends =>
    obtain rfl : parent = parent' := Option.some.inj (hparent.symm.trans hof)
    constructor
    · refine ⟨effect, ?_, hwake.symm, htask, ?_⟩
      · rw [heffects]
        exact mem_append_right _ (mem_singleton_self effect)
      · rw [happends.pending]
        rfl
    · -- the new wake is none of those that are there
      intro delivery hdelivery hsame
      obtain ⟨_, _, before, hbefore, hid, _⟩ := hdelivering.wakes delivery hdelivery
      have hids := hw'.effectIds
      rw [heffects, map_append, nodup_append] at hids
      exact absurd (hid.trans (hsame.trans hwake))
        (hids.2.2 _ (mem_map.mpr ⟨before, hbefore, rfl⟩) _ (mem_singleton_self _))
    · exact fun delivery hdelivery hp => (hgeneration delivery hdelivery hp).le
    · exact fun delivery hdelivery hpending hp => absurd hpending (hnone delivery hdelivery hp)

/-- The task that is published is the only one whose deliveries change. -/
theorem once_of_published (hw : w.Formed) (hdelivering : w.Delivering) {result : ObjectRef}
    (htask : task ∈ w.tasks) (hfreezing : task.state = .freezing)
    (htasks : w.Sets w' task (.terminal result)) (hparent : task.parent = some parent)
    (hdeliveries : w'.deliveries = w.deliveries ++ [new]) (hnewTask : new.task = task.id)
    (hnewResult : new.result = result) : ∀ b ∈ w'.tasks, w'.brought b.id = b.delivered := by
  intro b hb
  have hbrought (id : TaskId) : w'.brought id =
      w.brought id ++ if task.id = id then [result] else [] := by
    rw [Work.brought, hdeliveries, filter_append, map_append]
    congr 1
    by_cases hid : task.id = id
    · simp [hnewTask, hnewResult, hid]
    · simp [hnewTask, hid]
  rw [hbrought]
  obtain ⟨a, ha, ⟨hne, rfl⟩ | ⟨rfl, rfl⟩⟩ := exists_of_forall₂_right htasks hb
  · rw [if_neg fun hid => hne (hw.task_ext ha htask hid.symm), append_nil]
    exact hdelivering.once b ha
  · rw [if_pos rfl, hdelivering.once a ha, TaskRecord.delivered_of_open (by rw [hfreezing]; rfl), nil_append]
    simp [TaskRecord.delivered, hparent]

theorem delivering_of_published (hw : w.Formed) (hw' : w'.Formed) (hdelivering : w.Delivering)
    (hchange : Change w w') (hparent : w'.HasParent task.id parent)
    (hdeliveries : w'.deliveries = w.deliveries ++ [new]) (hnewTask : new.task = task.id)
    (hnew : w.Fits w' parent new) (honce : ∀ b ∈ w'.tasks, w'.brought b.id = b.delivered) :
    w'.Delivering := by
  have hold {d : DeliveryRecord} (hd : d ∈ w.deliveries) {parent : TaskId} :
      w'.HasParent d.task parent ↔ w.HasParent d.task parent :=
    hasParent_iff hw' hchange (hw.deliveryTasks d hd)
  have hmem {d : DeliveryRecord} (hd : d ∈ w'.deliveries) : d ∈ w.deliveries ∨ d = new := by
    rw [hdeliveries] at hd
    exact (mem_append.mp hd).imp_right mem_singleton.mp
  rw [← hnewTask] at hparent
  have hnewParent {other : TaskId} (h : w'.HasParent new.task other) : other = parent := hw'.hasParent_inj h hparent
  refine ⟨honce, ?_, ?_, ?_, ?_⟩
  · intro d hd
    rcases hmem hd with h | rfl
    · exact wake_step hw' hdelivering hchange hw h hd (.refl d)
    · obtain ⟨effect, heffect, hid, htask, hopen⟩ := hnew.wake
      exact ⟨parent, hparent, effect, heffect, hid, htask, fun _ => hopen⟩
  · intro d hd e he hwake
    rcases hmem hd with hd | rfl
    · rcases hmem he with he | rfl
      · obtain ⟨hg, hm, hp⟩ := hdelivering.shared d hd e he hwake
        exact ⟨hg, hm, fun parent h => (hold he).mpr (hp parent ((hold hd).mp h))⟩
      · obtain ⟨hg, hm, hp⟩ := hnew.shared d hd hwake
        refine ⟨hg, hm, fun other h => ?_⟩
        obtain rfl := hw'.hasParent_inj h ((hold hd).mpr hp)
        exact hparent
    · rcases hmem he with he | rfl
      · obtain ⟨hg, hm, hp⟩ := hnew.shared e he hwake.symm
        refine ⟨hg.symm, hm.symm, fun other h => ?_⟩
        rw [hnewParent h]
        exact (hold he).mpr hp
      · exact ⟨rfl, rfl, fun _ h => h⟩
  · intro d hd hpending e he other hdparent heparent
    rcases hmem hd with hd | rfl
    · rcases hmem he with he | rfl
      · exact hdelivering.latest d hd hpending e he other ((hold hd).mp hdparent) ((hold he).mp heparent)
      · rw [hnewParent heparent] at hdparent
        exact hnew.pending d hd hpending ((hold hd).mp hdparent)
    · rcases hmem he with he | rfl
      · rw [hnewParent hdparent] at heparent
        exact hnew.latest e he ((hold he).mp heparent)
      · exact Nat.le_refl _
  · rw [hdeliveries, pairwise_append]
    refine ⟨?_, pairwise_singleton _ _, ?_⟩
    · refine hdelivering.increasing.imp_of_mem fun hd he hle parent hdparent heparent => ?_
      exact hle parent ((hold hd).mp hdparent) ((hold he).mp heparent)
    · intro d hd e he other hdparent heparent
      obtain rfl := mem_singleton.mp he
      rw [hnewParent heparent] at hdparent
      exact hnew.latest d hd ((hold hd).mp hdparent)

theorem Work.Delivering.step (hw : w.Formed) (hw' : w'.Formed) (hdelivering : w.Delivering)
    (hchange : Change w w') : w'.Delivering := by
  rcases deliveries_cases hw' hchange with ⟨_, hmoves, htasks⟩ | ⟨task, result, deliveries, effects,
    htask, hfreezing, _, htasks, hdeliveries, heffects, ⟨hroot, rfl, rfl⟩ | ⟨new, rfl, hdelivers,
    hnewTask, hnewResult, _⟩⟩
  · exact delivering_of_moves hw' hdelivering hchange hw hmoves htasks
  · -- the result of a task without a parent is delivered to nobody
    rw [append_nil] at hdeliveries
    refine delivering_of_moves hw' hdelivering hchange hw ?_ fun b hb => ?_
    · rw [hdeliveries]
      exact forall₂_same.mpr fun delivery _ => .refl delivery
    · obtain ⟨a, ha, ⟨_, rfl⟩ | ⟨rfl, rfl⟩⟩ := exists_of_forall₂_right htasks hb
      · exact .inl ⟨_, ha, rfl, rfl⟩
      · exact .inl ⟨_, ha, rfl, by simp [TaskRecord.delivered, hroot]⟩
  · obtain ⟨parent, hparent⟩ : ∃ parent, task.parent = some parent := by
      cases hdelivers with
      | coalesced _ _ hparent | opened hparent => exact ⟨_, hparent⟩
    have hhas : w'.HasParent task.id parent :=
      (hasParent_iff hw' hchange ⟨task, htask, rfl⟩).mpr ⟨task, htask, rfl, hparent⟩
    exact delivering_of_published hw hw' hdelivering hchange hhas hdeliveries hnewTask
      (fits_of_delivers hw hw' hdelivering hparent hdelivers heffects)
      (once_of_published hw hdelivering htask hfreezing htasks hparent hdeliveries hnewTask hnewResult)

/-! ## The protocol -/

theorem delivering_of_reachable (h : Reachable enc s) : s.work.Formed ∧ s.work.Delivering :=
  invariant_of_reachable (fun _ h => h.delivering)
    (fun _ _ hw hw' hdelivering hchange => hdelivering.step hw hw' hchange) h

/-- What a step does to the deliveries: each moves on, and a result is published with a new one for
its parent, or none is published. -/
structure DeliveryStep (s t : RunProjection) : Prop where
  moves : ∃ kept, List.Forall₂ Moves s.deliveries kept ∧ (t.results = s.results ∧ t.deliveries = kept ∨
      ∃ task ∈ s.tasks, ∃ result, t.results = s.results ++ [result] ∧ (task.parent = none ∧ t.deliveries = kept ∨
          task.parent ≠ none ∧ ∃ delivery, t.deliveries = kept ++ [delivery] ∧
            delivery.task = task.id ∧ delivery.result = result ∧ delivery.state = .pending))

end Kinewright.Orchestration
