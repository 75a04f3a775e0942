import Mathlib.Data.List.Basic
import Mathlib.Data.List.Induction
import Mathlib.Data.List.ModifyLast
import Mathlib.Logic.Function.Iterate

/-!
# Undo and redo stacks with coalescing gestures

A document with a stack of undo entries and a stack of redo entries, for any type of documents, of
operations and of gesture keys. An undo entry keeps the document from before its operations; a redo
entry keeps the document from after them. A coalesced edit joins the newest entry while that entry
carries the same key.

A `Move` is one of `push`, `coalesce`, `undoStep` and `redoStep`. Two facts about moves carry the
rest:

* `Chain`: replaying an entry's operations from its document gives the next document of the stack;
* `Above`: the stacks restarted above a fixed depth move in step with the whole stacks, as long as
  the depth is not undone and no gesture is open on the entry below it.

Stacks are lists with the newest entry last.
-/

namespace UndoStack

open List

/-- One entry: a document, the operations it stands for, the gesture that owns it. -/
structure Entry (D O K : Type*) where
  document : D
  operations : List O
  coalesceKey : Option K
deriving DecidableEq

/-- A document between its undo and its redo stack. -/
structure Stacks (D O K : Type*) where
  document : D
  undo : List (Entry D O K)
  redo : List (Entry D O K)

variable {D O K : Type*}

/-- The entry with no gesture. -/
def closeGesture (e : Entry D O K) : Entry D O K := { e with coalesceKey := none }

@[simp] theorem closeGesture_document (e : Entry D O K) : (closeGesture e).document = e.document := rfl

@[simp] theorem closeGesture_operations (e : Entry D O K) : (closeGesture e).operations = e.operations := rfl

/-- The undo stack after a coalesced edit: the newest entry takes the operations if it belongs to
the gesture `key`, and keeps its own document. -/
def coalesceOnto [DecidableEq K] (undo : List (Entry D O K)) (before : D) (operations : List O)
    (key : K) : List (Entry D O K) :=
  match undo.getLast? with
  | some entry =>
    if entry.coalesceKey = some key then
      undo.dropLast ++ [{ entry with operations := entry.operations ++ operations }]
    else undo ++ [{ document := before, operations, coalesceKey := some key }]
  | none => undo ++ [{ document := before, operations, coalesceKey := some key }]

namespace Stacks

/-- A new edit: its own entry, and no redo. -/
def push (s : Stacks D O K) (after : D) (operations : List O) : Stacks D O K :=
  { document := after
    undo := s.undo ++ [{ document := s.document, operations, coalesceKey := none }]
    redo := [] }

/-- An edit of the gesture `key`. -/
def coalesce [DecidableEq K] (s : Stacks D O K) (after : D) (operations : List O) (key : K) : Stacks D O K :=
  { document := after
    undo := coalesceOnto s.undo s.document operations key
    redo := [] }

/-- Take the newest undo entry back. The entry it exposes closes its gesture. -/
def undoStep (s : Stacks D O K) : Stacks D O K :=
  match s.undo.getLast? with
  | none => s
  | some entry =>
    { document := entry.document
      undo := s.undo.dropLast.modifyLast closeGesture
      redo := s.redo ++
        [{ document := s.document, operations := entry.operations, coalesceKey := none }] }

/-- Apply the newest redo entry again. -/
def redoStep (s : Stacks D O K) : Stacks D O K :=
  match s.redo.getLast? with
  | none => s
  | some entry =>
    { document := entry.document
      undo := s.undo ++
        [{ document := s.document, operations := entry.operations, coalesceKey := none }]
      redo := s.redo.dropLast }

end Stacks

/-- One move of the stacks. -/
inductive Move (D O K : Type*)
  | push (after : D) (operations : List O)
  | coalesce (after : D) (operations : List O) (key : K)
  | undo
  | redo

/-- The stacks after a move. -/
def Stacks.move [DecidableEq K] (s : Stacks D O K) : Move D O K → Stacks D O K
  | .push after operations => s.push after operations
  | .coalesce after operations key => s.coalesce after operations key
  | .undo => s.undoStep
  | .redo => s.redoStep

/-- The operations that a move applies for the first time. -/
def Move.operations : Move D O K → List O
  | .push _ operations => operations
  | .coalesce _ operations _ => operations
  | .undo | .redo => []

/-- Whether a move changes the stacks at all: an undo or a redo of nothing does not. -/
def Move.Effective (m : Move D O K) (s : Stacks D O K) : Prop :=
  match m with
  | .push .. | .coalesce .. => True
  | .undo => s.undo ≠ []
  | .redo => s.redo ≠ []

instance (m : Move D O K) (s : Stacks D O K) : Decidable (m.Effective s) :=
  match m with
  | .push .. | .coalesce .. => isTrue trivial
  | .undo => decidable_of_iff (¬ s.undo.isEmpty) (by simp [Move.Effective])
  | .redo => decidable_of_iff (¬ s.redo.isEmpty) (by simp [Move.Effective])

/-- A move whose new document is right: its operations replay the current document to it. -/
def Move.Sound (Replays : List O → D → D → Prop) (m : Move D O K) (document : D) : Prop :=
  match m with
  | .push after operations | .coalesce after operations _ => Replays operations document after
  | .undo | .redo => True

/-! ## The moves on a stack with a known top -/

section Tops

variable {us : List (Entry D O K)} {e : Entry D O K}

@[simp] theorem coalesceOnto_nil [DecidableEq K] (before : D) (ops : List O) (key : K) : coalesceOnto [] before ops key
      = [{ document := before, operations := ops, coalesceKey := some key }] := rfl

theorem coalesceOnto_same [DecidableEq K] {key : K} (h : e.coalesceKey = some key) (before : D) (ops : List O) :
    coalesceOnto (us ++ [e]) before ops key = us ++ [{ e with operations := e.operations ++ ops }] := by
  simp [coalesceOnto, h]

theorem coalesceOnto_other [DecidableEq K] {key : K} (h : e.coalesceKey ≠ some key) (before : D) (ops : List O) :
    coalesceOnto (us ++ [e]) before ops key
      = us ++ [e] ++ [{ document := before, operations := ops, coalesceKey := some key }] := by
  simp [coalesceOnto, h]

variable {s : Stacks D O K}

theorem Stacks.undoStep_nil (h : s.undo = []) : s.undoStep = s := by
  simp [undoStep, h]

theorem Stacks.undoStep_concat (h : s.undo = us ++ [e]) : s.undoStep =
      { document := e.document
        undo := us.modifyLast closeGesture
        redo := s.redo ++
          [{ document := s.document, operations := e.operations, coalesceKey := none }] } := by
  simp [undoStep, h]

theorem Stacks.redoStep_nil (h : s.redo = []) : s.redoStep = s := by
  simp [redoStep, h]

theorem Stacks.redoStep_concat (h : s.redo = us ++ [e]) : s.redoStep =
      { document := e.document
        undo := s.undo ++
          [{ document := s.document, operations := e.operations, coalesceKey := none }]
        redo := us } := by
  simp [redoStep, h]

@[simp] theorem modifyLast_nil (f : Entry D O K → Entry D O K) :
    ([] : List (Entry D O K)).modifyLast f = [] := rfl

@[simp] theorem length_modifyLast (f : Entry D O K → Entry D O K) (es : List (Entry D O K)) :
    (es.modifyLast f).length = es.length := by
  rcases eq_nil_or_concat' es with rfl | ⟨init, last, rfl⟩
  · rfl
  · rw [modifyLast_concat, length_append, length_append]; rfl

end Tops

/-! ## The replay chain -/

section Chain

/-- The document under a stack: the oldest entry's, or the current one if the stack is empty. -/
def bottom (es : List (Entry D O K)) (document : D) : D :=
  match es with
  | [] => document
  | e :: _ => e.document

@[simp] theorem bottom_nil (document : D) : bottom ([] : List (Entry D O K)) document = document := rfl

@[simp] theorem bottom_cons (e : Entry D O K) (es : List (Entry D O K)) (document : D) :
    bottom (e :: es) document = e.document := rfl

theorem bottom_append (es : List (Entry D O K)) (e : Entry D O K) (document : D) :
    bottom (es ++ [e]) document = bottom es e.document := by
  cases es <;> rfl

@[simp] theorem bottom_modifyLast (es : List (Entry D O K)) (document : D) :
    bottom (es.modifyLast closeGesture) document = bottom es document := by
  rcases eq_nil_or_concat' es with rfl | ⟨init, last, rfl⟩
  · rfl
  · rw [modifyLast_concat, bottom_append, bottom_append]; rfl

variable (Replays : List O → D → D → Prop)

/-- Each undo entry's operations replay its document to the next one's, the newest one's to the
current document. -/
def UndoChain : List (Entry D O K) → D → Prop
  | [], _ => True
  | e :: es, document => Replays e.operations e.document (bottom es document) ∧ UndoChain es document

/-- Each redo entry's operations replay the document below it to its own. -/
def RedoChain : List (Entry D O K) → D → Prop
  | [], _ => True
  | e :: es, document => Replays e.operations (bottom es document) e.document ∧ RedoChain es document

/-- Both stacks are exact replay chains from the current document. -/
structure Chain (s : Stacks D O K) : Prop where
  undo : UndoChain Replays s.undo s.document
  redo : RedoChain Replays s.redo s.document

variable {Replays} {es : List (Entry D O K)} {document : D}

theorem undoChain_append {e : Entry D O K} : UndoChain Replays (es ++ [e]) document ↔
      UndoChain Replays es e.document ∧ Replays e.operations e.document document := by
  induction es with
  | nil => simp [UndoChain]
  | cons x xs ih =>
    rw [cons_append, UndoChain, UndoChain, ih, bottom_append, and_assoc]

theorem redoChain_append {e : Entry D O K} : RedoChain Replays (es ++ [e]) document ↔
      RedoChain Replays es e.document ∧ Replays e.operations document e.document := by
  induction es with
  | nil => simp [RedoChain]
  | cons x xs ih =>
    rw [cons_append, RedoChain, RedoChain, ih, bottom_append, and_assoc]

@[simp] theorem undoChain_modifyLast :
    UndoChain Replays (es.modifyLast closeGesture) document ↔ UndoChain Replays es document := by
  rcases eq_nil_or_concat' es with rfl | ⟨init, last, rfl⟩
  · rfl
  · rw [modifyLast_concat, undoChain_append, undoChain_append]; rfl

namespace Chain

variable {s : Stacks D O K}

theorem push (h : Chain Replays s) {after : D} {ops : List O} (hr : Replays ops s.document after) :
    Chain Replays (s.push after ops) where
  undo := undoChain_append.mpr ⟨h.undo, hr⟩
  redo := trivial

theorem coalesce [DecidableEq K] (happend : ∀ {xs ys : List O} {a b c : D}, Replays xs a b → Replays ys b c →
      Replays (xs ++ ys) a c)
    (h : Chain Replays s) {after : D} {ops : List O} (key : K)
    (hr : Replays ops s.document after) : Chain Replays (s.coalesce after ops key) where
  undo := by
    have hu := h.undo
    rw [Stacks.coalesce]
    rcases eq_nil_or_concat' s.undo with hnil | ⟨us, e, hconcat⟩
    · rw [hnil]
      exact ⟨hr, trivial⟩
    · rw [hconcat] at hu ⊢
      by_cases hkey : e.coalesceKey = some key
      · rw [coalesceOnto_same hkey, undoChain_append]
        obtain ⟨hus, he⟩ := undoChain_append.mp hu
        exact ⟨hus, happend he hr⟩
      · rw [coalesceOnto_other hkey, undoChain_append]
        exact ⟨hu, hr⟩
  redo := trivial

theorem undoStep (h : Chain Replays s) : Chain Replays s.undoStep := by
  rcases eq_nil_or_concat' s.undo with hnil | ⟨us, e, hconcat⟩
  · rw [Stacks.undoStep_nil hnil]
    exact h
  · have hu := h.undo
    rw [hconcat, undoChain_append] at hu
    rw [Stacks.undoStep_concat hconcat]
    exact ⟨undoChain_modifyLast.mpr hu.1, redoChain_append.mpr ⟨h.redo, hu.2⟩⟩

theorem redoStep (h : Chain Replays s) : Chain Replays s.redoStep := by
  rcases eq_nil_or_concat' s.redo with hnil | ⟨us, e, hconcat⟩
  · rw [Stacks.redoStep_nil hnil]
    exact h
  · have hr := h.redo
    rw [hconcat, redoChain_append] at hr
    rw [Stacks.redoStep_concat hconcat]
    exact ⟨undoChain_append.mpr ⟨h.undo, hr.2⟩, hr.1⟩

theorem move [DecidableEq K] (happend : ∀ {xs ys : List O} {a b c : D}, Replays xs a b → Replays ys b c →
      Replays (xs ++ ys) a c)
    (h : Chain Replays s) {m : Move D O K} (hm : m.Sound Replays s.document) :
    Chain Replays (s.move m) := by
  cases m with
  | push after ops => exact h.push hm
  | coalesce after ops key => exact h.coalesce happend key hm
  | undo => exact h.undoStep
  | redo => exact h.redoStep

/-- Folding the operations of every undo entry over the bottom document gives the current one. -/
theorem replays_flatMap (hnil : ∀ a : D, Replays [] a a)
    (happend : ∀ {xs ys : List O} {a b c : D}, Replays xs a b → Replays ys b c → Replays (xs ++ ys) a c)
    (h : Chain Replays s) :
    Replays (s.undo.flatMap Entry.operations) (bottom s.undo s.document) s.document := by
  have hu := h.undo
  generalize s.document = document at hu ⊢
  generalize s.undo = es at hu ⊢
  induction es with
  | nil => exact hnil document
  | cons e es ih =>
    exact happend hu.1 (ih hu.2)

end Chain

/-! ## The bottom document never moves -/

section

variable (s : Stacks D O K)

include s

@[simp] theorem bottom_push (after : D) (ops : List O) :
    bottom (s.push after ops).undo (s.push after ops).document = bottom s.undo s.document :=
  bottom_append _ _ _

@[simp] theorem bottom_coalesce [DecidableEq K] (after : D) (ops : List O) (key : K) :
    bottom (s.coalesce after ops key).undo (s.coalesce after ops key).document = bottom s.undo s.document := by
  rw [Stacks.coalesce]
  rcases eq_nil_or_concat' s.undo with hnil | ⟨us, e, hconcat⟩
  · rw [hnil]; rfl
  · rw [hconcat]
    by_cases hkey : e.coalesceKey = some key
    · rw [coalesceOnto_same hkey, bottom_append, bottom_append]
    · rw [coalesceOnto_other hkey, bottom_append]

@[simp] theorem bottom_undoStep : bottom s.undoStep.undo s.undoStep.document = bottom s.undo s.document := by
  rcases eq_nil_or_concat' s.undo with hnil | ⟨us, e, hconcat⟩
  · rw [Stacks.undoStep_nil hnil]
  · rw [Stacks.undoStep_concat hconcat, hconcat, bottom_append]
    exact bottom_modifyLast us e.document

@[simp] theorem bottom_redoStep : bottom s.redoStep.undo s.redoStep.document = bottom s.undo s.document := by
  rcases eq_nil_or_concat' s.redo with hnil | ⟨us, e, hconcat⟩
  · rw [Stacks.redoStep_nil hnil]
  · rw [Stacks.redoStep_concat hconcat]
    exact bottom_append _ _ _

@[simp] theorem bottom_move [DecidableEq K] (m : Move D O K) :
    bottom (s.move m).undo (s.move m).document = bottom s.undo s.document := by
  cases m with
  | push after ops => exact bottom_push s after ops
  | coalesce after ops key => exact bottom_coalesce s after ops key
  | undo => exact bottom_undoStep s
  | redo => exact bottom_redoStep s

theorem length_undo_undoStep : s.undoStep.undo.length = s.undo.length - 1 := by
  rcases eq_nil_or_concat' s.undo with hnil | ⟨us, e, hconcat⟩
  · rw [Stacks.undoStep_nil hnil, hnil]; rfl
  · rw [Stacks.undoStep_concat hconcat, hconcat, length_modifyLast, length_append]; rfl

/-- Undoing as often as there are entries reaches the bottom document. -/
theorem undoStep_iterate : (Stacks.undoStep^[s.undo.length] s).document = bottom s.undo s.document := by
  generalize hn : s.undo.length = n
  induction n generalizing s with
  | zero => rw [length_eq_zero_iff.mp hn]; rfl
  | succ n ih =>
    have hlen : s.undoStep.undo.length = n := by rw [length_undo_undoStep, hn]; rfl
    rw [Function.iterate_succ_apply, ih s.undoStep hlen, bottom_undoStep]

end

end Chain

/-! ## Stacks restarted above a depth -/

section Above

/-- `base` is `live` without its `depth` oldest undo entries, and no gesture is open on the newest
of those. -/
structure Above (depth : ℕ) (live base : Stacks D O K) : Prop where
  document : base.document = live.document
  undo : base.undo = live.undo.drop depth
  redo : base.redo = live.redo
  depth_le : depth ≤ live.undo.length
  closed : live.undo.length = depth → ∀ e ∈ live.undo.getLast?, e.coalesceKey = none

variable {depth : ℕ} {live base : Stacks D O K}

/-- Nothing is left above the depth exactly when the live stack is that deep. -/
theorem Above.undo_eq_nil_iff (h : Above depth live base) : base.undo = [] ↔ live.undo.length = depth := by
  rw [h.undo, drop_eq_nil_iff]
  have := h.depth_le
  omega

/-- The entries below the depth, and the ones above it. -/
theorem Above.exists_below (h : Above depth live base) :
    ∃ below, below.length = depth ∧ live.undo = below ++ base.undo :=
  ⟨live.undo.take depth, length_take_of_le h.depth_le, by
    rw [h.undo, take_append_drop]⟩

private theorem closed_of_concat {us : List (Entry D O K)} {e : Entry D O K} (hlen : us.length ≥ depth) :
    (us ++ [e]).length = depth → ∀ x ∈ (us ++ [e]).getLast?, x.coalesceKey = none := by
  intro h
  rw [length_append, length_singleton] at h
  omega

namespace Above

section

variable (h : Above depth live base)

include h

theorem push (after : D) (ops : List O) :
    Above depth (live.push after ops) (base.push after ops) where
  document := rfl
  undo := by
    simp only [Stacks.push]
    rw [drop_append_of_le_length h.depth_le, h.undo, h.document]
  redo := rfl
  depth_le := by
    have := h.depth_le
    simp only [Stacks.push, length_append]
    omega
  closed := closed_of_concat h.depth_le

/-- A coalesced edit joins the same entry in both, or opens one in both: an entry below the depth
carries no key to join. -/
theorem coalesce [DecidableEq K] (after : D) (ops : List O) (key : K) :
    Above depth (live.coalesce after ops key) (base.coalesce after ops key) := by
  obtain ⟨below, hbelow, hlive⟩ := h.exists_below
  have hdoc := h.document
  rcases eq_nil_or_concat' base.undo with hnil | ⟨us, e, hconcat⟩
  · -- the restarted stack is empty: the live top, if any, is closed
    have hlive' : live.undo = below := by rw [hlive, hnil, append_nil]
    have hopen : coalesceOnto live.undo live.document ops key
        = below ++ [⟨live.document, ops, some key⟩] := by
      rcases eq_nil_or_concat' below with rfl | ⟨bs, b, rfl⟩
      · rw [hlive']; rfl
      · have hb : b.coalesceKey = none :=
          h.closed (h.undo_eq_nil_iff.mp hnil) b (by rw [hlive', getLast?_concat]; rfl)
        rw [hlive', coalesceOnto_other (by rw [hb]; exact nofun)]
    refine ⟨rfl, ?_, rfl, ?_, ?_⟩ <;> simp only [Stacks.coalesce, hopen]
    · rw [hnil, coalesceOnto_nil, ← hbelow, drop_left, hdoc]
    · rw [length_append]; omega
    · exact closed_of_concat (by omega)
  · -- the tops agree: the same entry is joined, or a new one is opened on both
    have hlive' : live.undo = below ++ us ++ [e] := by rw [hlive, hconcat, append_assoc]
    by_cases hkey : e.coalesceKey = some key
    · refine ⟨rfl, ?_, rfl, ?_, ?_⟩ <;>
        simp only [Stacks.coalesce, hlive', hconcat, coalesceOnto_same hkey]
      · rw [append_assoc, ← hbelow, drop_left]
      · simp only [length_append]; omega
      · exact closed_of_concat (by rw [length_append]; omega)
    · refine ⟨rfl, ?_, rfl, ?_, ?_⟩ <;>
        simp only [Stacks.coalesce, hlive', hconcat, coalesceOnto_other hkey]
      · simp only [append_assoc]
        rw [← hbelow, drop_left, hdoc]
      · simp only [length_append]; omega
      · exact closed_of_concat (by simp only [length_append]; omega)

/-- An undo above the depth takes the same entry back in both, and closes the entry it exposes. -/
theorem undoStep (hne : live.undo.length ≠ depth) : Above depth live.undoStep base.undoStep := by
  obtain ⟨below, hbelow, hlive⟩ := h.exists_below
  rcases eq_nil_or_concat' base.undo with hnil | ⟨us, e, hconcat⟩
  · exact absurd (h.undo_eq_nil_iff.mp hnil) hne
  · have hlive' : live.undo = below ++ us ++ [e] := by rw [hlive, hconcat, append_assoc]
    rw [Stacks.undoStep_concat hlive', Stacks.undoStep_concat hconcat]
    rcases eq_nil_or_concat' us with rfl | ⟨us', u, rfl⟩
    · refine ⟨rfl, ?_, ?_, ?_, ?_⟩
      · simp [← hbelow]
      · simp [h.redo, h.document]
      · simp only [append_nil, length_modifyLast]; omega
      · intro _ x hx
        rcases eq_nil_or_concat' below with rfl | ⟨bs, b, rfl⟩
        · cases hx
        · simp only [append_nil, modifyLast_concat, getLast?_concat, Option.mem_def, Option.some.injEq] at hx
          rw [← hx]; rfl
    · refine ⟨rfl, ?_, ?_, ?_, ?_⟩
      · rw [← append_assoc, modifyLast_concat, modifyLast_concat, append_assoc, ← hbelow, drop_left]
      · simp [h.redo, h.document]
      · simp only [length_modifyLast, length_append]; omega
      · simp only [length_modifyLast, length_append, length_singleton]
        omega

theorem redoStep : Above depth live.redoStep base.redoStep := by
  rcases eq_nil_or_concat' live.redo with hnil | ⟨rs, r, hconcat⟩
  · rw [Stacks.redoStep_nil hnil, Stacks.redoStep_nil (h.redo.trans hnil)]
    exact h
  · rw [Stacks.redoStep_concat hconcat, Stacks.redoStep_concat (h.redo.trans hconcat)]
    refine ⟨rfl, ?_, rfl, ?_, ?_⟩
    · rw [drop_append_of_le_length h.depth_le, h.undo, h.document]
    · have := h.depth_le
      simp only [length_append]
      omega
    · exact closed_of_concat h.depth_le

/-- Every move but an undo at the depth keeps the two in step. -/
theorem move [DecidableEq K] {m : Move D O K}
    (hm : m = .undo → live.undo.length ≠ depth) : Above depth (live.move m) (base.move m) := by
  cases m with
  | push after ops => exact h.push after ops
  | coalesce after ops key => exact h.coalesce after ops key
  | undo => exact h.undoStep (hm rfl)
  | redo => exact h.redoStep

end

end Above

end Above

/-! ## A property of every document -/

section Forall

/-- The current document and every entry's document have the property. -/
structure Stacks.Forall (p : D → Prop) (s : Stacks D O K) : Prop where
  document : p s.document
  undo : ∀ e ∈ s.undo, p e.document
  redo : ∀ e ∈ s.redo, p e.document

/-- A move whose new document has the property. -/
def Move.Adds (p : D → Prop) : Move D O K → Prop
  | .push after _ | .coalesce after _ _ => p after
  | .undo | .redo => True

variable {p : D → Prop}

private theorem forall_concat {us : List (Entry D O K)} {e : Entry D O K}
    (hus : ∀ x ∈ us, p x.document) (he : p e.document) : ∀ x ∈ us ++ [e], p x.document := by
  intro x hx
  rcases mem_append.mp hx with hx | hx
  · exact hus x hx
  · rw [mem_singleton.mp hx]; exact he

private theorem forall_modifyLast {us : List (Entry D O K)} (h : ∀ x ∈ us, p x.document) :
    ∀ x ∈ us.modifyLast closeGesture, p x.document := by
  rcases eq_nil_or_concat' us with rfl | ⟨init, last, rfl⟩
  · exact h
  · rw [modifyLast_concat]
    exact forall_concat (fun x hx => h x (mem_append_left _ hx)) (h last (by simp))

theorem Stacks.Forall.move [DecidableEq K] {s : Stacks D O K} (h : s.Forall p) {m : Move D O K}
    (hm : m.Adds p) : (s.move m).Forall p := by
  cases m with
  | push after ops => exact ⟨hm, forall_concat h.undo h.document, nofun⟩
  | coalesce after ops key =>
    refine ⟨hm, ?_, nofun⟩
    have hundo := h.undo
    simp only [Stacks.move, Stacks.coalesce]
    rcases eq_nil_or_concat' s.undo with hnil | ⟨us, e, hconcat⟩
    · rw [hnil]
      intro e he
      rw [mem_singleton.mp he]
      exact h.document
    · rw [hconcat] at hundo ⊢
      by_cases hkey : e.coalesceKey = some key
      · rw [coalesceOnto_same hkey]
        exact forall_concat (fun x hx => hundo x (mem_append_left _ hx)) (hundo e (by simp))
      · rw [coalesceOnto_other hkey]
        exact forall_concat hundo h.document
  | undo =>
    rcases eq_nil_or_concat' s.undo with hnil | ⟨us, e, hconcat⟩
    · rw [Stacks.move, Stacks.undoStep_nil hnil]; exact h
    · have hundo := h.undo
      rw [hconcat] at hundo
      rw [Stacks.move, Stacks.undoStep_concat hconcat]
      exact ⟨hundo e (by simp), forall_modifyLast fun x hx => hundo x (mem_append_left _ hx),
        forall_concat h.redo h.document⟩
  | redo =>
    rcases eq_nil_or_concat' s.redo with hnil | ⟨rs, r, hconcat⟩
    · rw [Stacks.move, Stacks.redoStep_nil hnil]; exact h
    · have hredo := h.redo
      rw [hconcat] at hredo
      rw [Stacks.move, Stacks.redoStep_concat hconcat]
      exact ⟨hredo r (by simp), forall_concat h.undo h.document, fun x hx => hredo x (mem_append_left _ hx)⟩

end Forall

/-! ## Closed gestures -/

section Settled

variable {s : Stacks D O K} {us : List (Entry D O K)} {e : Entry D O K}

/-- The newest entry belongs to no gesture. -/
def ClosedOnTop (es : List (Entry D O K)) : Prop := ∀ e ∈ es.getLast?, e.coalesceKey = none

theorem closedOnTop_concat : ClosedOnTop (us ++ [e]) ↔ e.coalesceKey = none := by
  rw [ClosedOnTop, getLast?_concat]
  exact ⟨fun h => h e rfl, fun h e' he' => Option.some.inj he' ▸ h⟩

theorem closedOnTop_modifyLast (es : List (Entry D O K)) : ClosedOnTop (es.modifyLast closeGesture) := by
  rcases eq_nil_or_concat' es with rfl | ⟨us, e, rfl⟩
  · exact nofun
  · rw [modifyLast_concat]
    exact closedOnTop_concat.mpr rfl

/-- No gesture is open behind a redo stack. -/
def Stacks.Settled (s : Stacks D O K) : Prop := s.redo ≠ [] → ClosedOnTop s.undo

/-- An edit leaves no redo stack, and an undo and a redo close the entry on top. -/
theorem Stacks.Settled.move [DecidableEq K] (h : s.Settled) (m : Move D O K) : (s.move m).Settled := by
  cases m with
  | push after ops | coalesce after ops key => exact fun hredo => absurd rfl hredo
  | undo =>
    rcases eq_nil_or_concat' s.undo with hnil | ⟨us, e, hconcat⟩
    · rw [Stacks.move, Stacks.undoStep_nil hnil]
      exact h
    · rw [Stacks.move, Stacks.undoStep_concat hconcat]
      exact fun _ => closedOnTop_modifyLast us
  | redo =>
    rcases eq_nil_or_concat' s.redo with hnil | ⟨rs, r, hconcat⟩
    · rw [Stacks.move, Stacks.redoStep_nil hnil]
      exact h
    · rw [Stacks.move, Stacks.redoStep_concat hconcat]
      exact fun _ => closedOnTop_concat.mpr rfl

/-- An undo and a redo in a row only close the gestures of the two newest entries. -/
theorem Stacks.redoStep_undoStep (hundo : s.undo = us ++ [e]) (hredo : s.redo = []) : s.undoStep.redoStep =
      { document := s.document, undo := us.modifyLast closeGesture ++ [closeGesture e], redo := [] } := by
  rw [Stacks.undoStep_concat hundo, hredo]
  rfl

theorem map_modifyLast {α : Type*} {f : Entry D O K → α} (hf : ∀ e, f (closeGesture e) = f e)
    (es : List (Entry D O K)) : (es.modifyLast closeGesture).map f = es.map f := by
  rcases eq_nil_or_concat' es with rfl | ⟨us, e, rfl⟩
  · rfl
  · rw [modifyLast_concat, map_append, map_append, map_singleton, map_singleton, hf]

/-- The documents from the oldest to the newest, with what leads from each to the next. -/
def Stacks.line (s : Stacks D O K) : List D × List (List O) :=
  (s.undo.map Entry.document ++ s.document :: (s.redo.map Entry.document).reverse,
    s.undo.map Entry.operations ++ (s.redo.map Entry.operations).reverse)

theorem Stacks.line_undoStep (s : Stacks D O K) : s.undoStep.line = s.line := by
  rcases eq_nil_or_concat' s.undo with hnil | ⟨us, e, hconcat⟩
  · rw [undoStep_nil hnil]
  · rw [undoStep_concat hconcat, line, line, hconcat, map_modifyLast fun _ => rfl, map_modifyLast fun _ => rfl]
    simp

theorem Stacks.line_redoStep (s : Stacks D O K) : s.redoStep.line = s.line := by
  rcases eq_nil_or_concat' s.redo with hnil | ⟨us, e, hconcat⟩
  · rw [redoStep_nil hnil]
  · rw [redoStep_concat hconcat, line, line, hconcat]
    simp

theorem Stacks.getElem?_line (s : Stacks D O K) : s.line.1[s.undo.length]? = some s.document := by
  simp [line]

/-- `t` is `s`, or `s` with edits of one gesture, kept in one entry. -/
def OneEntry (Replays : List O → D → D → Prop) (s : Stacks D O K) (key : K) (t : Stacks D O K) : Prop :=
  t = s ∨ ∃ operations, Replays operations s.document t.document ∧
    t.undo = s.undo ++ [⟨s.document, operations, some key⟩]

/-- The first edit of a gesture opens its entry, and the later ones join it. -/
theorem OneEntry.coalesce [DecidableEq K] {Replays : List O → D → D → Prop} {t : Stacks D O K} {key : K} {after : D}
    {ops : List O} (happend : ∀ {xs ys : List O} {a b c : D}, Replays xs a b → Replays ys b c →
      Replays (xs ++ ys) a c)
    (htop : ∀ e ∈ s.undo.getLast?, e.coalesceKey ≠ some key) (h : OneEntry Replays s key t)
    (hr : Replays ops t.document after) : OneEntry Replays s key (t.coalesce after ops key) := by
  rcases h with rfl | ⟨operations, hoperations, hundo⟩
  · refine .inr ⟨ops, hr, ?_⟩
    rcases eq_nil_or_concat' t.undo with hnil | ⟨us, e, hconcat⟩
    · rw [Stacks.coalesce, hnil, coalesceOnto_nil, nil_append]
    · rw [hconcat, getLast?_concat] at htop
      rw [Stacks.coalesce, hconcat, coalesceOnto_other (htop e rfl)]
  · refine .inr ⟨operations ++ ops, happend hoperations hr, ?_⟩
    rw [Stacks.coalesce, hundo, coalesceOnto_same rfl]

end Settled

end UndoStack
