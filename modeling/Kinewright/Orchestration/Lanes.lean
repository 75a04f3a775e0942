import Kinewright.Orchestration.TaskLifecycle

/-!
# Lanes of effects, and runs that are over

In a lane only the first effect that is not over is ever in the hands of the host. A run whose outcome is
no longer pending hands out no effect and applies no command.
-/

namespace Kinewright.Orchestration

open Fallible Accounting List EffectState
open Work (Change)

variable {enc : Encoding} {s t : RunProjection} {w w' : Work}

/-- The effect is in the hands of the host. -/
def EffectState.isBusy : EffectState → Bool
  | .claimed _ | .outcomeUnknown => true
  | _ => false

theorem EffectState.isFinished_of_isBusy {state : EffectState} (h : state.isBusy = true) :
    state.isFinished = false := by
  cases state with
  | claimed attempt => rfl
  | outcomeUnknown => rfl
  | _ => cases h

/-- The effect comes before every other of its lane that is not over. -/
def Work.Leads (w : Work) (effect : EffectRecord) : Prop :=
  ∀ other ∈ w.effects, other.lane = effect.lane → other.state.isFinished = false → effect.order ≤ other.order

/-- What holds of the lanes and of the outcome of a run at any time. -/
structure Work.Ordered (w : Work) : Prop where
  /-- Only the first effect of a lane that is not over is in the hands of the host. -/
  busy : ∀ effect ∈ w.effects, effect.state.isBusy = true → w.Leads effect
  /-- When the run is over, so is every task, but for its cleanup. -/
  ended : w.outcome ≠ .pending → ∀ task ∈ w.tasks, task.state.isCancelledOrDone = true

theorem Work.IsFirst.ordered (h : w.IsFirst) : w.Ordered := by
  obtain ⟨task, effect, _, _, hpending, rfl⟩ := h
  constructor
  · simp [hpending, isBusy]
  · simp

/-! ## One step -/

/-- Effects that are wound up, and new ones at the ends of their lanes, leave the lanes in order. -/
theorem busy_of_kept (hordered : w.Ordered) {kept added : List EffectRecord}
    (hkept : List.Forall₂ EffectRecord.Winds w.effects kept) (heffects : w'.effects = kept ++ added)
    (hadded : ∀ new ∈ added, w.Appends new) :
    ∀ effect ∈ w'.effects, effect.state.isBusy = true → w'.Leads effect := by
  have hsame {a b : EffectRecord} (h : a.Winds b) (hb : b.state.isFinished = false) :
      b.state = a.state := by
    rcases h.state with h | h
    · exact h
    · rw [h] at hb
      cases hb
  intro b hb hbusy d hd hlane hopen
  rw [heffects] at hb hd
  rcases mem_append.mp hb with hb | hb
  · obtain ⟨a, ha, hab⟩ := exists_of_forall₂_right hkept hb
    have habusy : a.state.isBusy = true := hsame hab (isFinished_of_isBusy hbusy) ▸ hbusy
    rw [hab.order]
    rcases mem_append.mp hd with hd | hd
    · obtain ⟨c, hc, hcd⟩ := exists_of_forall₂_right hkept hd
      rw [hcd.lane, hab.lane] at hlane
      rw [hcd.order]
      exact hordered.busy a ha habusy c hc hlane (hsame hcd hopen ▸ hopen)
    · -- a new effect comes after every other of its lane
      exact ((hadded d hd).last a ha (hab.lane.symm.trans hlane.symm)).le
  · rw [(hadded b hb).pending] at hbusy
    cases hbusy

/-- The host only claims the first effect of a lane that is not over. -/
theorem busy_of_hosted (hw : w.Formed) (hordered : w.Ordered) {id : EffectId} {state : EffectState}
    (hstate : (state = .pending ∧ ∃ effect ∈ w.effects, effect.id = id ∧ effect.state = .outcomeUnknown) ∨
      (state = .outcomeUnknown ∧ ∃ effect ∈ w.effects, ∃ attempt, effect.id = id ∧ effect.state = .claimed attempt) ∨
      ∃ attempt, state = .claimed attempt ∧ ∃ effect ∈ w.effects, effect.id = id ∧
        effect.state = .pending ∧ w.Leads effect)
    (heffects : List.Forall₂ (fun a b => a.id ≠ id ∧ b = a ∨
      a.id = id ∧ b = { a with state := state }) w.effects w'.effects) :
    ∀ effect ∈ w'.effects, effect.state.isBusy = true → w'.Leads effect := by
  -- the effect of the host was not over, and if it is handed out it was the first
  obtain ⟨effect, heffect, hid, hopen, hleads⟩ : ∃ effect ∈ w.effects, effect.id = id ∧
      effect.state.isFinished = false ∧ (state.isBusy = true → w.Leads effect) := by
    rcases hstate with ⟨rfl, effect, heffect, hid, h⟩ | ⟨rfl, effect, heffect, attempt, hid, h⟩ |
      ⟨attempt, rfl, effect, heffect, hid, h, hleads⟩
    · exact ⟨effect, heffect, hid, by rw [h]; rfl, fun h => by cases h⟩
    · exact ⟨effect, heffect, hid, by rw [h]; rfl, fun _ => hordered.busy effect heffect (by rw [h]; rfl)⟩
    · exact ⟨effect, heffect, hid, by rw [h]; rfl, fun _ => hleads⟩
  have hsame {a : EffectRecord} (ha : a ∈ w.effects) (haid : a.id = id) : a = effect :=
    inj_on_of_nodup_map hw.effectIds ha heffect (haid.trans hid.symm)
  have hrest {a : EffectRecord} (ha : a ∈ w.effects) (hleads : w.Leads a) :
      ∀ d ∈ w'.effects, d.lane = a.lane → d.state.isFinished = false → a.order ≤ d.order := by
    intro d hd hlane hdopen
    obtain ⟨c, hc, ⟨_, rfl⟩ | ⟨hcid, rfl⟩⟩ := exists_of_forall₂_right heffects hd
    · exact hleads _ hc hlane hdopen
    · exact hleads c hc hlane (hsame hc hcid ▸ hopen)
  intro b hb hbusy
  obtain ⟨a, ha, ⟨_, rfl⟩ | ⟨haid, rfl⟩⟩ := exists_of_forall₂_right heffects hb
  · exact hrest ha (hordered.busy _ ha hbusy)
  · have hlead : w.Leads a := by
      rw [hsame ha haid]
      exact hleads hbusy
    exact fun d hd hlane hopen => hrest ha hlead d hd hlane hopen

theorem Work.Ordered.busy_step (hw : w.Formed) (hordered : w.Ordered) (hchange : Change w w') :
    ∀ effect ∈ w'.effects, effect.state.isBusy = true → w'.Leads effect := by
  have hrefl : List.Forall₂ EffectRecord.Winds w.effects w.effects := forall₂_same.mpr fun effect _ => .refl effect
  cases hchange with
  | moved outcome results tasks effects =>
    exact busy_of_kept hordered effects (append_nil _).symm (by simp)
  | asked question task htask hid hopen hturn tasks rest | frozen task htask hready tasks rest =>
    exact busy_of_kept hordered hrefl (by rw [rest, append_nil]) (by simp)
  | assigned task effect parent hparent hof hopen hqueued hfree happends rest
  | messaged effect happends rest =>
    exact busy_of_kept hordered hrefl (by rw [rest]) (by simpa using happends)
  | published task result htask hready hfreezing tasks deliveries effects hdeliveries rest =>
    refine busy_of_kept hordered hrefl (by rw [rest]) ?_
    rcases hdeliveries with ⟨_, _, rfl⟩ | ⟨delivery, _, hdelivers, _⟩
    · simp
    · cases hdelivers with
      | coalesced => simp
      | opened _ _ _ _ _ happends => simpa using happends
  | hosted id state hstate effects => exact busy_of_hosted hw hordered hstate effects

/-- A run that is over stays so: nothing in it can be assigned, frozen or published. -/
theorem Work.Ordered.over_step (hordered : w.Ordered) (hchange : Change w w')
    (hover : w'.outcome ≠ .pending) : ∀ task ∈ w'.tasks, task.state.isCancelledOrDone = true := by
  have hclosed {task : TaskRecord} (h : w.outcome ≠ .pending) (htask : task ∈ w.tasks)
      (hopen : task.state.isClosed = false) : False := by
    have hdone := hordered.ended h task htask
    rw [TaskState.isCancelledOrDone_of_isClosed hopen] at hdone
    cases hdone
  have hmoves (h : w.outcome ≠ .pending) (htasks : List.Forall₂ TaskRecord.Moves w.tasks w'.tasks) :
      ∀ task ∈ w'.tasks, task.state.isCancelledOrDone = true := by
    intro b hb
    obtain ⟨a, ha, hab⟩ := exists_of_forall₂_right htasks hb
    exact hab.isCancelledOrDone (hordered.ended h a ha)
  cases hchange with
  | moved outcome results tasks =>
    rcases outcome with houtcome | ⟨_, hall⟩
    · exact hmoves (houtcome ▸ hover) tasks
    · exact hall
  | asked question task htask hid hopen hturn tasks rest =>
    rw [rest] at hover
    exact hmoves hover tasks
  | frozen task htask hready tasks rest
  | published task result htask hready hfreezing tasks deliveries effects hdeliveries rest =>
    rw [rest] at hover
    exact (hclosed hover htask hready.isOpen).elim
  | assigned task effect parent hparent hof hopen hqueued hfree happends rest =>
    rw [rest] at hover
    exact (hclosed hover hparent hopen.2).elim
  | messaged effect happends rest | hosted id state hstate effects rest =>
    rw [rest] at hover ⊢
    exact hordered.ended hover

theorem Work.Ordered.step (hw : w.Formed) (hordered : w.Ordered) (hchange : Change w w') : w'.Ordered :=
  ⟨hordered.busy_step hw hchange, hordered.over_step hchange⟩

theorem ordered_of_reachable (h : Reachable enc s) : s.work.Formed ∧ s.work.Ordered :=
  invariant_of_reachable (fun _ h => h.ordered) (fun _ _ hw _ hordered hchange => hordered.step hw hchange) h

/-! ## Runs that are over -/

theorem outcome_of_change (hchange : Change w w') (h : w.outcome ≠ .pending) : w'.outcome ≠ .pending := by
  cases hchange with
  | moved outcome =>
    rcases outcome with houtcome | ⟨hended, _⟩
    · rwa [houtcome]
    · exact hended
  | asked _ _ _ _ _ _ _ rest => rwa [rest]
  | frozen _ _ _ _ rest => rwa [rest]
  | assigned _ _ _ _ _ _ _ _ _ rest => rwa [rest]
  | messaged _ _ rest => rwa [rest]
  | published _ _ _ _ _ _ _ _ _ rest => rwa [rest]
  | hosted _ _ _ _ rest => rwa [rest]

/-- Nothing is carried out in the run any more: no effect is handed out, and no command is applied. -/
structure Inert (enc : Encoding) (s : RunProjection) : Prop where
  effects : ∀ lane, nextEffect s lane = none
  commands : ∀ project generation envelope previous live update,
    prepareWithAttention enc (some s) project generation envelope previous live = .ok update →
      update.decision ≠ .applied
  results : ∀ project generation envelope previous result update,
    prepareResultUpdate enc s project generation envelope previous result ≠ .ok update

theorem inert_of_over (hordered : s.work.Ordered) (h : s.outcome ≠ .pending) : Inert enc s where
  effects lane := by
    rw [nextEffect, if_pos (.inl h)]
  commands project generation envelope previous live update hupdate := by
    obtain ⟨transition, next, hvalid, hdecide, hnext, _, hdecision, _⟩ := prepareNext_eq_ok hupdate
    rcases work_of_nextProjection hnext with ⟨_, htransit⟩ | ⟨t, htransit, _⟩
    · rw [hdecision]
      cases transition with
      | refused reason => exact CommandDecision.noConfusion
      | start => cases htransit
      | control action => cases hcontrol : control enc s envelope action <;>
          rw [transit, hcontrol] at htransit <;> cases htransit
      | task change => cases htask : applyTaskTransition enc s envelope change <;>
          rw [transit, htask] at htransit <;> cases htransit
      | lifecycle => cases hlifecycle : lifecycle s envelope live <;>
          rw [transit, hlifecycle] at htransit <;> cases htransit
    · -- a command that is carried out would find a task that still works
      rcases (change_of_transit (shaped_of_valid hvalid) hdecide htransit).1 with hpending | ⟨task, htask, hopen⟩
      · exact absurd hpending h
      · rw [hordered.ended h task htask] at hopen
        cases hopen
  results project generation envelope previous result update hupdate := by
    obtain ⟨_, _, _, hvalid, _, hpublish, _⟩ := prepareResultUpdate_eq_ok hupdate
    exact h (change_of_publishResult (shaped_of_valid hvalid) hpublish).1

/-- The lanes of a projection: every place is there once, one effect of a lane is in the hands of the host
at most, and what is claimed is the first of its lane that is not over. -/
structure LaneOrder (s : RunProjection) : Prop where
  places : (s.effects.map fun effect => (effect.lane, effect.order)).Nodup
  first : ∀ effect ∈ s.effects, effect.state = .pending ∨ effect.state.isFinished = true ∨ s.work.Leads effect
  one : ∀ effect ∈ s.effects, ∀ other ∈ s.effects, effect.state.isBusy = true →
    other.state.isBusy = true → effect.lane = other.lane → effect = other
  claims : ∀ id attempt t, claim s id attempt = .ok t → ∀ effect ∈ s.effects, effect.id = id →
    ∀ other ∈ s.effects, other.lane = effect.lane → other.order < effect.order → other.state.isFinished = true

theorem laneOrder_of_ordered (hformed : s.work.Formed) (hordered : s.work.Ordered) :
    LaneOrder s where
  places := hformed.places
  first effect heffect := by
    cases hstate : effect.state with
    | pending => exact .inl rfl
    | settled | disposed => exact .inr (.inl rfl)
    | claimed attempt | outcomeUnknown =>
      exact .inr (.inr (hordered.busy effect heffect (by rw [hstate]; rfl)))
  one effect heffect other hother hbusy hother' hlane := by
    have hle := hordered.busy effect heffect hbusy other hother hlane.symm (isFinished_of_isBusy hother')
    have hge := hordered.busy other hother hother' effect heffect hlane (isFinished_of_isBusy hbusy)
    exact inj_on_of_nodup_map hformed.places heffect hother (Prod.ext hlane (le_antisymm hle hge))
  claims id attempt t h effect heffect hid other hother hlane hlt := by
    rw [← Bool.not_eq_false]
    intro hopen
    obtain ⟨first, _, hmem, hfirst, _, hleads, _⟩ := leads_of_claim hformed h
    obtain rfl : first = effect := inj_on_of_nodup_map hformed.effectIds hmem heffect (hfirst.trans hid.symm)
    have hle := hleads other hother hlane hopen
    omega

end Kinewright.Orchestration
