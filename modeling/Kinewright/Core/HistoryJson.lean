import Kinewright.Core.CoreState
import Kinewright.Lib.Segments

/-!
# The cached byte stream of a history

`HistoryJson` of `manual_history.rs`: the serialized history of a state kept as a fixed header and
three arrays of comma-separated values, so that one accepted command serializes only what it
changed. `HistoryJson.Matches` says what the cache stands for; an `update` that replaces tails from
a common prefix keeps it, and `rollback` takes an update back exactly.

The serializers of the elements and the hash are the functions of a `Wire` instance.
-/

namespace Kinewright.Core

open List Option

variable {P : Payload}

abbrev Bytes := List UInt8

/-- The serializers, which may fail, and the hex digest of the byte stream. -/
class Wire (P : Payload) where
  document : Document P → Option Bytes
  /-- The derived serializer of the three fields that an undo entry and a `GestureBoundary` share. -/
  gesture : Document P → List (Operation P) → Option String → Option Bytes
  batch : HistoryBatch P → Option Bytes
  message : AcceptedHistory → Option Bytes
  sha256 : Bytes → String

/-- `HISTORY_BYTES`. -/
def historyBytes : ℕ := 32 * 1024 * 1024

/-- `HISTORY_COMMANDS`. -/
def historyCommands : ℕ := 65536

def utf8 (s : String) : Bytes := s.toUTF8.data.toList

/-- The byte between two array elements. -/
def comma : UInt8 := 44

/-! ## The full serialization -/

section Snapshot

variable [Wire P]

def gestureJson (g : GestureBoundary P) : Option Bytes := Wire.gesture g.document g.operations g.coalesceKey

/-- The comma-separated elements of a JSON array. -/
def elementsJson {α : Type} (serialize : α → Option Bytes) (xs : List α) : Option Bytes :=
  (xs.mapM serialize).map [comma].intercalate

/-- A serialized `HistoryCursor`. -/
def cursorJson (cursor : HistoryCursor P) : Option Bytes := do
  let undo ← elementsJson gestureJson cursor.undo
  let redo ← elementsJson gestureJson cursor.redo
  return utf8 "\x7b\"undo\":[" ++ undo ++ utf8 "],\"redo\":[" ++ redo ++ utf8 "]\x7d"

/-- The fields before the document; a zero floor is left out. -/
def headerJson (floorOffset : ℕ) (baseline : Document P) : Option Bytes := do
  let baseline ← Wire.document baseline
  let floor := if floorOffset = 0 then []
    else utf8 "\"floor_offset\":" ++ utf8 (toString floorOffset) ++ utf8 ","
  return utf8 "\x7b" ++ floor ++ utf8 "\"baseline\":" ++ baseline ++ utf8 ",\"document\":"

/-- A serialized `HistorySnapshot`. -/
def snapshotJson (snapshot : HistorySnapshot P) : Option Bytes := do
  let header ← headerJson snapshot.floorOffset snapshot.baseline
  let document ← Wire.document snapshot.document
  let batches ← elementsJson Wire.batch snapshot.batches
  let cursor ← cursorJson snapshot.cursor
  return header ++ document ++ utf8 ",\"batches\":[" ++ batches ++ utf8 "],\"cursor\":" ++ cursor ++ utf8 "\x7d"

end Snapshot

/-! ## Bounded arrays -/

/-- `BoundedJson::write`. A serializer writes in chunks; all of them fit when the whole does. -/
def writeBounded (limit : ℕ) (bytes chunk : Bytes) : Option Bytes :=
  if bytes.length + chunk.length ≤ limit then some (bytes ++ chunk) else none

/-- `JsonArray`: comma-separated values without the brackets, and where each ends. -/
structure JsonArray where
  bytes : Bytes
  ends : List ℕ
deriving DecidableEq

/-- `ArrayPatch`. -/
structure ArrayPatch where
  /-- How many elements were kept. -/
  pre : ℕ
  bytes : Bytes
  ends : List ℕ
deriving DecidableEq

namespace JsonArray

/-- `JsonArray::default`. -/
def empty : JsonArray := { bytes := [], ends := [] }

/-- The comma before a value, unless it is the very first one. -/
def writeComma (limit pre : ℕ) (bytes : Bytes) (ends : List ℕ) : Option Bytes :=
  if pre ≠ 0 ∨ ends ≠ [] then writeBounded limit bytes [comma] else some bytes

/-- The loop of `replace_tail` over the values of the tail. -/
def replaceTailLoop {α : Type} (serialize : α → Option Bytes) (limit start pre : ℕ) (bytes : Bytes)
    (ends : List ℕ) : List α → Option (Bytes × List ℕ)
  | [] => some (bytes, ends)
  | value :: values => do
    let bytes ← writeComma limit pre bytes ends
    let bytes ← writeBounded limit bytes (← serialize value)
    replaceTailLoop serialize limit start pre bytes (ends ++ [start + bytes.length]) values

/-- `JsonArray::replace_tail`. It changes nothing when it fails. -/
def replaceTail {α : Type} (json : JsonArray) (serialize : α → Option Bytes) (pre : ℕ)
    (tail : List α) : Except HistoryError (ArrayPatch × JsonArray) :=
  let start := Segments.startOf json.ends pre
  if historyBytes < start then .error .capacity
  else do
    let (bytes, ends) ← okOr
      (replaceTailLoop serialize (historyBytes - start) start pre [] [] tail) .capacity
    return ({ pre, bytes := json.bytes.drop start, ends := json.ends.drop pre },
      { bytes := json.bytes.take start ++ bytes, ends := json.ends.take pre ++ ends })

/-- `JsonArray::rollback`. -/
def rollback (json : JsonArray) (patch : ArrayPatch) : JsonArray :=
  let start := Segments.startOf json.ends patch.pre
  { bytes := json.bytes.take start ++ patch.bytes
    ends := json.ends.take patch.pre ++ patch.ends }

end JsonArray

/-! ## The cache -/

/-- `HistoryJson`. The header is its `prefix`. -/
structure HistoryJson where
  epoch : ℕ
  header : Bytes
  batches : JsonArray
  undo : JsonArray
  redo : JsonArray
  sha256 : String
deriving DecidableEq

/-- `HistoryPatch`. -/
structure HistoryPatch where
  batches : ArrayPatch
  undo : ArrayPatch
  redo : ArrayPatch
deriving DecidableEq

namespace HistoryJson

/-- `write_cursor`. -/
def writeCursor (cache : HistoryJson) : Bytes :=
  utf8 "\x7b\"undo\":[" ++ cache.undo.bytes ++ utf8 "],\"redo\":[" ++ cache.redo.bytes ++ utf8 "]\x7d"

/-- `encoded_bytes`. -/
def encodedBytes (cache : HistoryJson) (documentBytes : ℕ) : Except HistoryError ℕ :=
  [ cache.header.length, documentBytes, (utf8 ",\"batches\":[").length, cache.batches.bytes.length,
    (utf8 "],\"cursor\":").length, (utf8 "\x7b\"undo\":[").length, cache.undo.bytes.length,
    (utf8 "],\"redo\":[").length, cache.redo.bytes.length, (utf8 "]\x7d").length,
    (utf8 "\x7d").length ].foldlM
    (fun total bytes =>
      if total + bytes ≤ historyBytes then .ok (total + bytes) else .error .capacity) 0

/-- `HistoryJson::rollback`. -/
def rollback (cache : HistoryJson) (patch : HistoryPatch) : HistoryJson :=
  { cache with
    batches := cache.batches.rollback patch.batches
    undo := cache.undo.rollback patch.undo
    redo := cache.redo.rollback patch.redo }

section Serialize

variable [Wire P]

/-- A serialized `HistoryEntry`. -/
def entryJson (e : HistoryEntry P) : Option Bytes := Wire.gesture e.document e.operations e.coalesceKey

/-- `write_history`: the bytes that it writes, and the hash of the cursor among them. -/
def writeHistory (cache : HistoryJson) (s : CoreState P) : Option (Bytes × String) := do
  let fixedBytes ← (cache.encodedBytes 0).toOption
  let remaining ← checkedSub historyBytes fixedBytes
  let document ← writeBounded remaining [] (← Wire.document s.document)
  return (cache.header ++ document ++ utf8 ",\"batches\":[" ++ cache.batches.bytes
    ++ utf8 "],\"cursor\":" ++ cache.writeCursor ++ utf8 "\x7d", Wire.sha256 P cache.writeCursor)

/-- `identities`: the hash of the history and the hash of its cursor. -/
def identities (cache : HistoryJson) (s : CoreState P) : Except HistoryError (String × String) := do
  let (bytes, cursor) ← okOr (cache.writeHistory s) .capacity
  return (Wire.sha256 P bytes, cursor)

/-- The floor of `HistoryJson::new`, which a zero floor leaves out. -/
def newFloor (floorOffset : ℕ) (header : Bytes) : Option Bytes :=
  if floorOffset ≠ 0 then
    writeBounded historyBytes header (utf8 "\"floor_offset\":" ++ utf8 (toString floorOffset) ++ utf8 ",")
  else some header

/-- The header of `HistoryJson::new`, in bounded writes. -/
def newHeader (s : CoreState P) : Option Bytes := do
  let header ← writeBounded historyBytes [] (utf8 "\x7b")
  let header ← newFloor s.floorOffset header
  let header ← writeBounded historyBytes header (utf8 "\"baseline\":")
  let header ← writeBounded historyBytes header (← Wire.document s.baseline)
  writeBounded historyBytes header (utf8 ",\"document\":")

/-- `HistoryJson::new`. -/
def new (s : CoreState P) : Except HistoryError HistoryJson :=
  if s.batches.length > historyCommands then .error .capacity
  else do
    let header ← okOr (newHeader s) .capacity
    let (_, batches) ← JsonArray.empty.replaceTail Wire.batch 0 s.batches
    let (_, undo) ← JsonArray.empty.replaceTail entryJson 0 s.undo
    let (_, redo) ← JsonArray.empty.replaceTail entryJson 0 s.redo
    let cache : HistoryJson := { epoch := s.historyEpoch, header, batches, undo, redo, sha256 := "" }
    let (sha256, _) ← cache.identities s
    return { cache with sha256 }

/-- `HistoryJson::update`: replace the three tails, or take back the ones replaced already. -/
def update (cache : HistoryJson) (s : CoreState P) (undoPre redoPre : ℕ) :
    Except HistoryError HistoryPatch × HistoryJson :=
  if s.batches.length > historyCommands then (.error .capacity, cache)
  else
    let recorded := cache.batches.ends.length
    match cache.batches.replaceTail Wire.batch recorded (s.batches.drop recorded) with
    | .error error => (.error error, cache)
    | .ok (batches, json) =>
      let cache := { cache with batches := json }
      match cache.undo.replaceTail entryJson undoPre (s.undo.drop undoPre) with
      | .error error => (.error error, { cache with batches := cache.batches.rollback batches })
      | .ok (undo, json) =>
        let cache := { cache with undo := json }
        match cache.redo.replaceTail entryJson redoPre (s.redo.drop redoPre) with
        | .error error =>
          (.error error, { cache with
              undo := cache.undo.rollback undo
              batches := cache.batches.rollback batches })
        | .ok (redo, json) => (.ok { batches, undo, redo }, { cache with redo := json })

end Serialize

end HistoryJson

/-! ## What the arrays stand for -/

/-- The array holds the serialized elements of `xs`. -/
def JsonArray.Matches {α : Type} (json : JsonArray) (serialize : α → Option Bytes) (xs : List α) :
    Prop :=
  ∃ segments, List.Forall₂ (fun x segment => serialize x = some segment) xs segments ∧
    Segments.Joined comma json.bytes json.ends segments

private theorem mapM_eq_some {α β : Type} {f : α → Option β} {xs : List α} {ys : List β}
    (h : List.Forall₂ (fun x y => f x = some y) xs ys) : xs.mapM f = some ys := by
  induction h with
  | nil => rfl
  | cons hxy _ ih => rw [mapM_cons, hxy, ih]; rfl

theorem writeBounded_eq_some {limit : ℕ} {bytes chunk result : Bytes} : writeBounded limit bytes chunk = some result ↔
      bytes.length + chunk.length ≤ limit ∧ result = bytes ++ chunk := by
  unfold writeBounded
  rw [ite_none_right_eq_some, Option.some.injEq]
  exact and_congr_right fun _ => eq_comm

namespace JsonArray

variable {α : Type} {serialize : α → Option Bytes} {json : JsonArray}

theorem Matches.elementsJson {xs : List α} (h : json.Matches serialize xs) :
    Kinewright.Core.elementsJson serialize xs = some json.bytes := by
  obtain ⟨segments, hsegments, hjoined⟩ := h
  rw [Kinewright.Core.elementsJson, mapM_eq_some hsegments, hjoined.flat_eq, Segments.joinedFrom_eq_intercalate]
  rfl

theorem Matches.length_ends {xs : List α} (h : json.Matches serialize xs) : json.ends.length = xs.length := by
  obtain ⟨segments, hsegments, hjoined⟩ := h
  rw [hjoined.length_ends, hsegments.length_eq]

theorem empty_matches : empty.Matches serialize [] := ⟨[], .nil, Segments.Joined.nil⟩

theorem replaceTailLoop_eq_some {limit start pre : ℕ} {bytes result : Bytes}
    {ends resultEnds : List ℕ} {values : List α}
    (h : replaceTailLoop serialize limit start pre bytes ends values = some (result, resultEnds)) :
    ∃ segments, List.Forall₂ (fun x segment => serialize x = some segment) values segments ∧
      result = bytes ++ Segments.joinedFrom comma (pre == 0 && ends.isEmpty) segments ∧
      resultEnds = ends ++ Segments.endsFrom comma (pre == 0 && ends.isEmpty) (start + bytes.length) segments := by
  induction values generalizing bytes ends with
  | nil =>
    obtain ⟨rfl, rfl⟩ := h
    exact ⟨[], .nil, (append_nil _).symm, (append_nil _).symm⟩
  | cons value values ih =>
    obtain ⟨separated, hseparated, h⟩ := bind_eq_some_iff.mp h
    obtain ⟨chunk, hchunk, h⟩ := bind_eq_some_iff.mp h
    obtain ⟨written, hwritten, h⟩ := bind_eq_some_iff.mp h
    obtain ⟨-, rfl⟩ := writeBounded_eq_some.mp hwritten
    have hstored : separated ++ chunk
        = bytes ++ Segments.stored comma (pre == 0 && ends.isEmpty) chunk := by
      by_cases hsep : pre ≠ 0 ∨ ends ≠ []
      · rw [writeComma, if_pos hsep] at hseparated
        obtain ⟨-, rfl⟩ := writeBounded_eq_some.mp hseparated
        have hfirst : (pre == 0 && ends.isEmpty) = false := by
          rw [Bool.and_eq_false_iff]
          simpa using hsep
        rw [hfirst, append_assoc]
        rfl
      · rw [writeComma, if_neg hsep, Option.some.injEq] at hseparated
        have hfirst : (pre == 0 && ends.isEmpty) = true := by
          simpa [not_or] using hsep
        rw [hfirst, ← hseparated]
        rfl
    obtain ⟨segments, hsegments, hresult, hends⟩ := ih h
    have hlater : (pre == 0 && (ends ++ [start + (separated ++ chunk).length]).isEmpty) = false := by
      simp
    rw [hlater, hstored] at hresult hends
    refine ⟨chunk :: segments, .cons hchunk hsegments, ?_, ?_⟩
    · rw [hresult, Segments.joinedFrom, append_assoc]
    · rw [hends, Segments.endsFrom, append_assoc, length_append, Nat.add_assoc]
      rfl

/-- A replaced tail stands for the new list, if the two lists agree before it; and it can be taken
back. -/
theorem Matches.replaceTail {json' : JsonArray} {patch : ArrayPatch} {xs ys : List α} {pre : ℕ}
    (h : json.Matches serialize xs) (hpre : pre ≤ xs.length) (hsame : ys.take pre = xs.take pre)
    (hreplace : json.replaceTail serialize pre (ys.drop pre) = .ok (patch, json')) :
    json'.Matches serialize ys ∧ json'.rollback patch = json := by
  obtain ⟨segments, hsegments, hjoined⟩ := h
  obtain ⟨-, hreplace⟩ := guard_eq_ok.mp hreplace
  obtain ⟨⟨bytes, ends⟩, hloop, hreplace⟩ := bind_eq_ok.mp hreplace
  obtain ⟨rfl, rfl⟩ := Prod.mk.inj (Except.ok.inj hreplace)
  obtain ⟨tail, htail, hbytes, hends⟩ := replaceTailLoop_eq_some (okOr_eq_ok.mp hloop)
  have hlen : pre ≤ segments.length := hsegments.length_eq ▸ hpre
  have hfirst : (pre == 0 && ([] : List ℕ).isEmpty) = (pre == 0) := by
    rw [isEmpty_nil, Bool.and_true]
  rw [hfirst] at hbytes hends
  refine ⟨⟨segments.take pre ++ tail, ?_, ?_⟩, ?_⟩
  · have hkept := forall₂_take pre hsegments
    rw [← hsame] at hkept
    have hall : List.Forall₂ (fun x segment => serialize x = some segment)
        (ys.take pre ++ ys.drop pre) (segments.take pre ++ tail) := rel_append hkept htail
    rwa [take_append_drop] at hall
  · have hreplaced := hjoined.replaceTail hlen tail
    rw [hbytes, hends]
    exact hreplaced
  · -- the kept offsets still end where the old ones did
    have hkeep : pre ≤ json.ends.length := hjoined.length_ends ▸ hlen
    have hstart : Segments.startOf (json.ends.take pre ++ ends) pre
        = Segments.startOf json.ends pre := by
      unfold Segments.startOf
      by_cases hzero : pre = 0
      · rw [if_pos hzero, if_pos hzero]
      · rw [if_neg hzero, if_neg hzero, getD_eq_getElem?_getD, getD_eq_getElem?_getD,
          getElem?_append_left (by rw [length_take]; omega),
          getElem?_take_of_lt (by omega)]
    have hbound : Segments.startOf json.ends pre ≤ json.bytes.length := by
      rw [hjoined.startOf_eq hlen, ← hjoined.take_flat hlen, length_take]
      omega
    simp only [rollback, hstart]
    rw [take_left' (length_take_of_le hkeep), take_left' (length_take_of_le hbound), take_append_drop, take_append_drop]

end JsonArray

/-! ## What the cache stands for -/

namespace HistoryJson

variable [Wire P]

/-- The header and the three arrays are those of the state's history. -/
structure Matches (cache : HistoryJson) (s : CoreState P) : Prop where
  epoch : cache.epoch = s.historyEpoch
  header : headerJson s.floorOffset s.baseline = some cache.header
  batches : cache.batches.Matches Wire.batch s.batches
  undo : cache.undo.Matches entryJson s.undo
  redo : cache.redo.Matches entryJson s.redo

/-- The cache is written as the whole serialized history, and its identity is the hash of that. -/
structure Reflects (cache : HistoryJson) (s : CoreState P) : Prop where
  cached : cache.Matches s
  written : ∃ bytes cursor, cache.writeHistory s = some (bytes, cursor) ∧ cache.sha256 = Wire.sha256 P bytes

theorem elementsJson_boundary (entries : List (HistoryEntry P)) :
    elementsJson gestureJson (entries.map boundary) = elementsJson entryJson entries := by
  have hsame : (gestureJson ∘ boundary : HistoryEntry P → Option Bytes) = entryJson := rfl
  rw [elementsJson, elementsJson, mapM_map, hsame]

variable {s : CoreState P}

theorem newHeader_eq {header : Bytes} (h : newHeader s = some header) :
    headerJson s.floorOffset s.baseline = some header := by
  unfold newHeader newFloor at h
  obtain ⟨h₁, hopen, h⟩ := bind_eq_some_iff.mp h
  obtain ⟨h₂, hfloor, h⟩ := bind_eq_some_iff.mp h
  obtain ⟨h₃, hname, h⟩ := bind_eq_some_iff.mp h
  obtain ⟨baseline, hbaseline, h⟩ := bind_eq_some_iff.mp h
  obtain ⟨h₄, hvalue, h⟩ := bind_eq_some_iff.mp h
  obtain ⟨-, rfl⟩ := writeBounded_eq_some.mp hopen
  obtain ⟨-, rfl⟩ := writeBounded_eq_some.mp hname
  obtain ⟨-, rfl⟩ := writeBounded_eq_some.mp hvalue
  obtain ⟨-, rfl⟩ := writeBounded_eq_some.mp h
  rw [headerJson, hbaseline]
  by_cases hzero : s.floorOffset = 0
  · rw [if_neg (not_not.mpr hzero), Option.some.injEq] at hfloor
    simp [hzero, ← hfloor]
  · rw [if_pos hzero] at hfloor
    obtain ⟨-, rfl⟩ := writeBounded_eq_some.mp hfloor
    simp [hzero]

variable {cache : HistoryJson}

/-- What is written from matching arrays is the whole history, and its hash of the cursor is the
hash of the serialized cursor. -/
theorem Matches.writeHistory (h : cache.Matches s) {bytes : Bytes} {cursor : String}
    (hwrite : cache.writeHistory s = some (bytes, cursor)) :
    snapshotJson s.history = some bytes ∧ (cursorJson s.history.cursor).map (Wire.sha256 P) = some cursor := by
  have hcursor : cursorJson s.history.cursor = some cache.writeCursor := by
    have hundo := h.undo.elementsJson
    have hredo := h.redo.elementsJson
    rw [← elementsJson_boundary] at hundo hredo
    simp only [cursorJson, CoreState.history, hundo, hredo]
    rfl
  obtain ⟨fixedBytes, -, hwrite⟩ := bind_eq_some_iff.mp hwrite
  obtain ⟨remaining, -, hwrite⟩ := bind_eq_some_iff.mp hwrite
  obtain ⟨document, hdocument, hwrite⟩ := bind_eq_some_iff.mp hwrite
  obtain ⟨written, hwritten, hwrite⟩ := bind_eq_some_iff.mp hwrite
  obtain ⟨hbytes, hhash⟩ := Prod.mk.inj (Option.some.inj hwrite)
  rw [(writeBounded_eq_some.mp hwritten).2] at hbytes
  refine ⟨?_, by rw [hcursor, ← hhash]; rfl⟩
  have hheader : headerJson s.history.floorOffset s.history.baseline = some cache.header := h.header
  have hdocument' : Wire.document s.history.document = some document := hdocument
  have hbatches : elementsJson Wire.batch s.history.batches = some cache.batches.bytes := h.batches.elementsJson
  simp only [snapshotJson, hheader, hdocument', hbatches, hcursor, ← hbytes]
  rfl

theorem identities_eq_ok {after cursor : String} : cache.identities s = .ok (after, cursor) ↔
      ∃ bytes, cache.writeHistory s = some (bytes, cursor) ∧ after = Wire.sha256 P bytes := by
  rw [identities, bind_eq_ok]
  constructor
  · rintro ⟨⟨bytes, cursor'⟩, hwrite, heq⟩
    obtain ⟨rfl, rfl⟩ := Prod.mk.inj (Except.ok.inj heq)
    exact ⟨bytes, okOr_eq_ok.mp hwrite, rfl⟩
  · rintro ⟨bytes, hwrite, rfl⟩
    exact ⟨(bytes, cursor), okOr_eq_ok.mpr hwrite, rfl⟩

/-- A fresh cache reflects its state. -/
theorem new_reflects (h : HistoryJson.new s = .ok cache) : cache.Reflects s := by
  obtain ⟨-, h⟩ := guard_eq_ok.mp h
  obtain ⟨header, hheader, h⟩ := bind_eq_ok.mp h
  obtain ⟨⟨patch₁, batches⟩, hbatches, h⟩ := bind_eq_ok.mp h
  obtain ⟨⟨patch₂, undo⟩, hundo, h⟩ := bind_eq_ok.mp h
  obtain ⟨⟨patch₃, redo⟩, hredo, h⟩ := bind_eq_ok.mp h
  obtain ⟨⟨sha256, cursor⟩, hidentities, h⟩ := bind_eq_ok.mp h
  obtain rfl := Except.ok.inj h
  have hfill {α : Type} {serialize : α → Option Bytes} {xs : List α} {patch : ArrayPatch}
      {json : JsonArray} (hreplace : JsonArray.empty.replaceTail serialize 0 xs = .ok (patch, json)) :
      json.Matches serialize xs := by
    have hempty : JsonArray.empty.Matches serialize [] := JsonArray.empty_matches
    have hsame : xs.take 0 = ([] : List α).take 0 := rfl
    exact (hempty.replaceTail (Nat.zero_le _) hsame hreplace).1
  obtain ⟨bytes, hwrite, hsha256⟩ := identities_eq_ok.mp hidentities
  exact ⟨⟨rfl, newHeader_eq (okOr_eq_ok.mp hheader), hfill hbatches, hfill hundo, hfill hredo⟩,
    bytes, cursor, hwrite, hsha256⟩

/-- `s'` keeps what the cache of `s` holds before the given positions. -/
structure Keeps (s s' : CoreState P) (undoPre redoPre : ℕ) : Prop where
  epoch : s'.historyEpoch = s.historyEpoch
  floorOffset : s'.floorOffset = s.floorOffset
  baseline : s'.baseline = s.baseline
  batches : s'.batches.take s.batches.length = s.batches
  undo_le : undoPre ≤ s.undo.length
  undo : s'.undo.take undoPre = s.undo.take undoPre
  redo_le : redoPre ≤ s.redo.length
  redo : s'.redo.take redoPre = s.redo.take redoPre

/-- An update stands for the new state and can be taken back; a failed one has been. -/
theorem Matches.update {cache' : HistoryJson} {s' : CoreState P} {undoPre redoPre : ℕ}
    {reply : Except HistoryError HistoryPatch} (h : cache.Matches s)
    (hkeeps : Keeps s s' undoPre redoPre)
    (hupdate : cache.update s' undoPre redoPre = (reply, cache')) :
    (∀ error, reply = .error error → cache' = cache) ∧ ∀ patch, reply = .ok patch →
        cache'.Matches s' ∧ cache'.rollback patch = cache ∧ cache'.sha256 = cache.sha256 := by
  have hrecorded : cache.batches.ends.length = s.batches.length := h.batches.length_ends
  have hsame : s'.batches.take s.batches.length = s.batches.take s.batches.length := by
    rw [take_length]
    exact hkeeps.batches
  unfold HistoryJson.update at hupdate
  dsimp only at hupdate
  rw [hrecorded] at hupdate
  by_cases hfull : s'.batches.length > historyCommands
  · rw [if_pos hfull] at hupdate
    obtain ⟨rfl, rfl⟩ := Prod.mk.inj hupdate
    exact ⟨fun _ _ => rfl, nofun⟩
  · rw [if_neg hfull] at hupdate
    rcases hbatches : cache.batches.replaceTail Wire.batch s.batches.length
        (s'.batches.drop s.batches.length) with error | ⟨batches, json₁⟩
    · rw [hbatches] at hupdate
      obtain ⟨rfl, rfl⟩ := Prod.mk.inj hupdate
      exact ⟨fun _ _ => rfl, nofun⟩
    · obtain ⟨hmatch₁, hback₁⟩ := h.batches.replaceTail le_rfl hsame hbatches
      rw [hbatches] at hupdate
      rcases hundo : cache.undo.replaceTail entryJson undoPre (s'.undo.drop undoPre) with error | ⟨undo, json₂⟩
      · rw [hundo] at hupdate
        obtain ⟨rfl, rfl⟩ := Prod.mk.inj hupdate
        refine ⟨fun _ _ => ?_, nofun⟩
        rw [hback₁]
      · obtain ⟨hmatch₂, hback₂⟩ := h.undo.replaceTail hkeeps.undo_le hkeeps.undo hundo
        rw [hundo] at hupdate
        rcases hredo : cache.redo.replaceTail entryJson redoPre (s'.redo.drop redoPre) with error | ⟨redo, json₃⟩
        · rw [hredo] at hupdate
          obtain ⟨rfl, rfl⟩ := Prod.mk.inj hupdate
          refine ⟨fun _ _ => ?_, nofun⟩
          rw [hback₁, hback₂]
        · obtain ⟨hmatch₃, hback₃⟩ := h.redo.replaceTail hkeeps.redo_le hkeeps.redo hredo
          rw [hredo] at hupdate
          obtain ⟨rfl, rfl⟩ := Prod.mk.inj hupdate
          refine ⟨nofun, fun patch hpatch => ?_⟩
          obtain rfl := Except.ok.inj hpatch
          refine ⟨⟨?_, ?_, hmatch₁, hmatch₂, hmatch₃⟩, ?_, rfl⟩
          · rw [hkeeps.epoch]
            exact h.epoch
          · rw [hkeeps.floorOffset, hkeeps.baseline]
            exact h.header
          · rw [HistoryJson.rollback, hback₁, hback₂, hback₃]

end HistoryJson

end Kinewright.Core
