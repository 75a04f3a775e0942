import Mathlib.Logic.Relation
import Kinewright.Lib.SerdeJson

/-!
# Frames and events of a pipe

`Frames` and `write_frame` of `limits.rs`: the lines of a reader, of which none may outgrow a frame, and the writer of such
lines. What is read does not depend on how the reader cuts the stream. What is read goes to a bounded channel of events, whose
senders end its admission when it runs over.
-/

namespace Kinewright.Orchestration

open SerdeJson List Option

def FRAME_BYTES : ℕ := 64 * 1024

/-- The errors of an item: of the reader, of bytes that are not UTF-8, and `ingress: frame_capacity`. -/
inductive ItemError
  | read (error : String)
  | utf8
  | frameCapacity

abbrev Item := Except ItemError String

/-- `BufReader`: what it holds, and what the reads of its reader return before the end of the stream. -/
structure BufReader where
  buffer : List UInt8
  reads : List (Except String (List UInt8))

def BufReader.fillBuf : BufReader → Except String (List UInt8) × BufReader
  | ⟨[], .ok bytes :: reads⟩ => (.ok bytes, ⟨bytes, reads⟩)
  | ⟨[], .error error :: reads⟩ => (.error error, ⟨[], reads⟩)
  | reader => (.ok reader.buffer, reader)

def BufReader.consume (reader : BufReader) (count : ℕ) : BufReader := { reader with buffer := reader.buffer.drop count }

structure Frames where
  reader : BufReader
  stopped : Bool

def Frames.new (reads : List (Except String (List UInt8))) : Frames := ⟨⟨[], reads⟩, false⟩

/-- `String::from_utf8`. -/
def decode (frame : List UInt8) : Item := (String.fromUTF8? frame.toByteArray).elim (.error .utf8) .ok

def chomp (frame : List UInt8) : List UInt8 := if frame.getLast? = some 13 then frame.dropLast else frame

/-! ## The reader -/

/-- How a pass of the loop in `Frames::next` ends, with the frame as it is buffered then. -/
inductive Pass
  | again (frame : List UInt8) (frames : Frames)
  | done (frame : List UInt8) (item : Option Item) (frames : Frames)

def Pass.frame : Pass → List UInt8
  | .again frame _ | .done frame _ _ => frame

/-- The body of the loop in `Frames::next`. -/
def pass (frame : List UInt8) (frames : Frames) : Pass :=
  match frames.reader.fillBuf with
  | (.error error, reader) => .done frame (some (.error (.read error))) ⟨reader, true⟩
  | (.ok available, reader) =>
    if available = [] then .done frame (if frame = [] then none else some (decode frame)) ⟨reader, true⟩
    else
      let found := available.idxOf? 10
      let take := found.getD available.length
      if FRAME_BYTES - frame.length < take then .done frame (some (.error .frameCapacity)) ⟨reader, true⟩
      else
        let frame := frame ++ available.take take
        let frames := ⟨reader.consume (take + if found.isSome then 1 else 0), frames.stopped⟩
        if found.isSome then .done frame (some (decode (chomp frame))) frames else .again frame frames

/-- What the reader has still to give. -/
def Frames.pending (frames : Frames) : ℕ := frames.reader.reads.length + if frames.reader.buffer = [] then 0 else 1

/-- What `fill_buf` returns is what is buffered then, and it has been read. -/
theorem BufReader.fillBuf_ok {reader reader' : BufReader} {available : List UInt8} (h : reader.fillBuf = (.ok available, reader'))
    (hsome : available ≠ []) (stopped : Bool) :
    reader'.buffer = available ∧ reader'.reads.length < Frames.pending ⟨reader, stopped⟩ := by
  unfold fillBuf at h
  split at h
  · obtain ⟨rfl, rfl⟩ := h
    exact ⟨rfl, Nat.lt_add_right _ (Nat.lt_succ_self _)⟩
  · cases h
  · obtain ⟨rfl, rfl⟩ := h
    refine ⟨rfl, ?_⟩
    rw [Frames.pending, if_neg hsome]
    exact Nat.lt_succ_self _

variable {frames : Frames}

/-- The loop goes on only when everything that was buffered has been taken. -/
theorem pass_again {frame frame' : List UInt8} {frames' : Frames} (h : pass frame frames = .again frame' frames') :
    frames'.pending < frames.pending := by
  unfold pass at h
  split at h
  · cases h
  next available reader hfill =>
    dsimp only at h
    split_ifs at h with hempty hcapacity hfound
    obtain ⟨rfl, rfl⟩ := h
    obtain ⟨hbuffer, hread⟩ := BufReader.fillBuf_ok hfill hempty frames.stopped
    have hnone : available.idxOf? 10 = none := not_isSome_iff_eq_none.mp hfound
    rw [Frames.pending, if_pos]
    · exact hread
    · rw [BufReader.consume, hbuffer, hnone]
      exact drop_length

/-- The loop of `Frames::next`. -/
def loop (frame : List UInt8) (frames : Frames) : Option Item × Frames :=
  match _h : pass frame frames with
  | .done _ item frames => (item, frames)
  | .again frame frames => loop frame frames
termination_by frames.pending
decreasing_by exact pass_again _h

def Frames.next (frames : Frames) : Option Item × Frames := if frames.stopped then (none, frames) else loop [] frames

/-- The frames after some calls of `next`. -/
def Frames.after (frames : Frames) : ℕ → Frames
  | 0 => frames
  | n + 1 => frames.next.2.after n

/-- What a call of `next` returns after `n` others. -/
def Frames.item (frames : Frames) (n : ℕ) : Option Item := (frames.after n).next.1

/-- One turn of the loop, from frame to frame. -/
def Turn (now later : List UInt8 × Frames) : Prop := pass now.1 now.2 = .again later.1 later.2

/-! ## What is buffered -/

theorem pass_frame_le {frame : List UInt8} (h : frame.length ≤ FRAME_BYTES) (frames : Frames) :
    (pass frame frames).frame.length ≤ FRAME_BYTES := by
  unfold pass
  split
  · exact h
  · dsimp only
    split_ifs
    any_goals exact h
    all_goals
      rw [Pass.frame, length_append, length_take]
      omega

/-- By induction on the turns: each adds no more to the frame than there is room for. -/
theorem buffered_le {now : List UInt8 × Frames} (h : Relation.ReflTransGen Turn ([], frames) now) :
    now.1.length ≤ FRAME_BYTES := by
  induction h with
  | refl => exact Nat.zero_le _
  | @tail now later _ hturn ih =>
    have hle := pass_frame_le ih now.2
    rwa [hturn] at hle

/-! ## The lines of a stream -/

/-- What the lines of a stream are read as: the last of them is not ended. -/
def framed : List (List UInt8) → List Item
  | [] => []
  | line :: rest => if FRAME_BYTES < line.length then [.error .frameCapacity]
    else if rest = [] then if line = [] then [] else [decode line]
    else decode (chomp line) :: framed rest

def items (stream : List UInt8) : List Item := framed (stream.splitOn 10)

variable {line : List UInt8}

theorem items_line (hline : 10 ∉ line) (hroom : line.length ≤ FRAME_BYTES) (rest : List UInt8) :
    items (line ++ 10 :: rest) = decode (chomp line) :: items rest := by
  rw [items, splitOn_append_cons_self_of_not_mem hline, framed, if_neg (Nat.not_lt.mpr hroom),
    if_neg (splitOn_ne_nil _ _)]
  rfl

theorem items_last (hline : 10 ∉ line) (hroom : line.length ≤ FRAME_BYTES) :
    items line = if line = [] then [] else [decode line] := by
  rw [items, splitOn_eq_singleton hline, framed, if_neg (Nat.not_lt.mpr hroom), if_pos rfl]

/-- A first line that outgrows a frame is all that is read, wherever it ends. -/
theorem items_capacity (hline : 10 ∉ line) (hlong : FRAME_BYTES < line.length) (rest : List UInt8) :
    items (line ++ rest) = [.error .frameCapacity] := by
  have hfirst : ∃ more lines, (line ++ rest).splitOn 10 = (line ++ more) :: lines := by
    by_cases hend : 10 ∈ rest
    · obtain ⟨more, tail, rfl, hmore⟩ := eq_append_cons_of_mem hend
      have hboth : 10 ∉ line ++ more := fun h => (mem_append.mp h).elim hline hmore
      exact ⟨more, _, by rw [← append_assoc, splitOn_append_cons_self_of_not_mem hboth]⟩
    · have hboth : 10 ∉ line ++ rest := fun h => (mem_append.mp h).elim hline hend
      exact ⟨rest, [], splitOn_eq_singleton hboth⟩
  obtain ⟨more, lines, hfirst⟩ := hfirst
  rw [items, hfirst, framed, if_pos]
  rw [length_append]
  omega

/-! ## However the stream is cut -/

/-- The frames that a reader with these reads is in the midst of. -/
def reading (buffer : List UInt8) (chunks : List (List UInt8)) : Frames := ⟨⟨buffer, chunks.map .ok⟩, false⟩

/-- The items that are still to come. -/
def Follows (frames : Frames) (rest : List Item) : Prop :=
  (frames.stopped ∧ rest = []) ∨
    ∃ buffer chunks, [] ∉ chunks ∧ frames = reading buffer chunks ∧ rest = items (buffer ++ chunks.flatten)

/-- A call returns the first item and leaves the others. -/
def Gives (call : Option Item × Frames) (all : List Item) : Prop := call.1 = all.head? ∧ Follows call.2 all.tail

theorem loop_of_done {frame frame' : List UInt8} {frames' : Frames} {item : Option Item}
    (h : pass frame frames = .done frame' item frames') : loop frame frames = (item, frames') := by
  rw [loop]
  split
  next heq =>
    rw [h] at heq
    cases heq
    rfl
  next heq =>
    rw [h] at heq
    cases heq

theorem loop_of_again {frame frame' : List UInt8} {frames' : Frames} (h : pass frame frames = .again frame' frames') :
    loop frame frames = loop frame' frames' := by
  rw [loop]
  split
  next heq =>
    rw [h] at heq
    cases heq
  next heq =>
    rw [h] at heq
    cases heq
    rfl

theorem pass_reading {buffer : List UInt8} (hsome : buffer ≠ []) (frame : List UInt8) (chunks : List (List UInt8)) :
    pass frame (reading buffer chunks) = let found := buffer.idxOf? 10
      let take := found.getD buffer.length
      if FRAME_BYTES - frame.length < take then .done frame (some (.error .frameCapacity)) ⟨(reading buffer chunks).reader, true⟩
      else
        let frame := frame ++ buffer.take take
        let frames := reading (buffer.drop (take + if found.isSome then 1 else 0)) chunks
        if found.isSome then .done frame (some (decode (chomp frame))) frames else .again frame frames := by
  have hfill : (reading buffer chunks).reader.fillBuf = (.ok buffer, (reading buffer chunks).reader) := by
    cases buffer with
    | nil => exact absurd rfl hsome
    | cons byte bytes => rfl
  rw [pass, hfill]
  exact if_neg hsome

/-- Taking a chunk: it holds the end of the line, or the loop goes on behind it. -/
theorem gives_of_buffered {chunks : List (List UInt8)} (hchunks : [] ∉ chunks)
    (ih : ∀ frame : List UInt8, 10 ∉ frame → frame.length ≤ FRAME_BYTES →
      Gives (loop frame (reading [] chunks)) (items (frame ++ chunks.flatten)))
    {buffer : List UInt8} (hsome : buffer ≠ []) {frame : List UInt8} (hframe : 10 ∉ frame) (hroom : frame.length ≤ FRAME_BYTES) :
    Gives (loop frame (reading buffer chunks)) (items (frame ++ (buffer ++ chunks.flatten))) := by
  have hpass := pass_reading hsome frame chunks
  by_cases hend : 10 ∈ buffer
  · obtain ⟨line, tail, rfl, hline⟩ := eq_append_cons_of_mem hend
    have hfound : (line ++ 10 :: tail).idxOf? 10 = some line.length := by
      have hnone : line.idxOf? 10 = none := idxOf?_eq_none_iff.mpr hline
      rw [List.idxOf?] at hnone ⊢
      rw [findIdx?_append, hnone]
      exact congrArg some (Nat.zero_add _)
    have hboth : 10 ∉ frame ++ line := fun h => (mem_append.mp h).elim hframe hline
    dsimp only at hpass
    rw [hfound, getD_some, isSome_some, if_pos rfl, if_pos rfl] at hpass
    split_ifs at hpass with hlong
    · rw [loop_of_done hpass, append_assoc, ← append_assoc, items_capacity hboth (by rw [length_append]; omega)]
      exact ⟨rfl, .inl ⟨rfl, rfl⟩⟩
    · rw [loop_of_done hpass, append_assoc, ← append_assoc, cons_append,
        items_line hboth (by rw [length_append]; omega), take_left]
      refine ⟨rfl, .inr ⟨tail, chunks, hchunks, ?_, rfl⟩⟩
      rw [← drop_drop, drop_left]
      rfl
  · have hfound : buffer.idxOf? 10 = none := idxOf?_eq_none_iff.mpr hend
    have hboth : 10 ∉ frame ++ buffer := fun h => (mem_append.mp h).elim hframe hend
    dsimp only at hpass
    rw [hfound, getD_none, isSome_none, if_neg Bool.false_ne_true, if_neg Bool.false_ne_true, take_length,
      Nat.add_zero, drop_length] at hpass
    rw [← append_assoc]
    split_ifs at hpass with hlong
    · rw [loop_of_done hpass, items_capacity hboth (by rw [length_append]; omega)]
      exact ⟨rfl, .inl ⟨rfl, rfl⟩⟩
    · rw [loop_of_again hpass]
      exact ih _ hboth (by rw [length_append]; omega)

/-- By induction on the chunks that the reader has still to return. -/
theorem gives_of_read {chunks : List (List UInt8)} (hchunks : [] ∉ chunks) : ∀ frame : List UInt8, 10 ∉ frame →
    frame.length ≤ FRAME_BYTES → Gives (loop frame (reading [] chunks)) (items (frame ++ chunks.flatten)) := by
  induction chunks with
  | nil =>
    intro frame hframe hroom
    have hpass : pass frame (reading [] []) =
        .done frame (if frame = [] then none else some (decode frame)) ⟨⟨[], []⟩, true⟩ := rfl
    rw [loop_of_done hpass, flatten_nil, append_nil, items_last hframe hroom]
    split_ifs <;> exact ⟨rfl, .inl ⟨rfl, rfl⟩⟩
  | cons chunk chunks ih =>
    intro frame hframe hroom
    have hchunk : chunk ≠ [] := fun h => hchunks (h ▸ mem_cons_self)
    have hrest : [] ∉ chunks := fun h => hchunks (mem_cons_of_mem _ h)
    -- the chunk is read, and then it is what is buffered
    have hpass : pass frame (reading [] (chunk :: chunks)) = pass frame (reading chunk chunks) := by
      cases chunk with
      | nil => exact absurd rfl hchunk
      | cons byte bytes => rfl
    have hread : loop frame (reading [] (chunk :: chunks)) = loop frame (reading chunk chunks) := by
      cases hcase : pass frame (reading chunk chunks) with
      | again frame' frames' => rw [loop_of_again hcase, loop_of_again (hpass.trans hcase)]
      | done frame' item frames' => rw [loop_of_done hcase, loop_of_done (hpass.trans hcase)]
    rw [hread]
    exact gives_of_buffered hrest (ih hrest) hchunk hframe hroom

theorem gives_next {rest : List Item} (h : Follows frames rest) : Gives frames.next rest := by
  rcases h with ⟨hstopped, rfl⟩ | ⟨buffer, chunks, hchunks, rfl, rfl⟩
  · rw [Frames.next, if_pos hstopped]
    exact ⟨rfl, .inl ⟨hstopped, rfl⟩⟩
  · by_cases hbuffer : buffer = []
    · subst hbuffer
      exact gives_of_read hchunks [] not_mem_nil (Nat.zero_le _)
    · exact gives_of_buffered hchunks (gives_of_read hchunks) hbuffer not_mem_nil (Nat.zero_le _)

theorem item_of_follows {rest : List Item} (h : Follows frames rest) (n : ℕ) : frames.item n = rest[n]? := by
  induction n generalizing frames rest with
  | zero =>
    rw [← head?_eq_getElem?]
    exact (gives_next h).1
  | succ n ih =>
    rw [← getElem?_tail]
    exact ih (gives_next h).2

/-! ## The writer -/

/-- What the compact format writes for a value: no white space between the parts, and control characters escaped. -/
class Compact (α : Type) where
  text : α → List Char
  printable : ∀ value, Printable (text value)

instance : Compact Value := ⟨Value.text, Value.printable⟩

inductive AgentError
  | protocol (message : String)

variable {α : Type} [Compact α]

def encodedFrame (value : α) : Except AgentError (List UInt8) :=
  let bytes := utf8 (Compact.text value)
  if bytes.length ≤ FRAME_BYTES then .ok bytes else .error (.protocol "ingress: encoding_capacity")

/-- `write_frame`, to a writer that takes every byte. -/
def writeFrame (written : List UInt8) (value : α) : Except AgentError (List UInt8) := do
  let bytes ← encodedFrame value
  return written ++ bytes ++ [10]

/-- The item that the text of a value is read as. -/
def textItem (value : α) : Item := .ok (String.ofList (Compact.text value))

theorem decode_utf8 (text : List Char) : decode (utf8 text) = .ok (String.ofList text) := by
  have hvalid : ByteArray.IsValidUTF8 (utf8 text).toByteArray := .intro text rfl
  rw [decode, String.fromUTF8?, dif_pos hvalid]
  rfl

theorem items_text {value : α} (hroom : (utf8 (Compact.text value)).length ≤ FRAME_BYTES) (rest : List UInt8) :
    items (utf8 (Compact.text value) ++ 10 :: rest) = textItem value :: items rest := by
  have hline : (10 : UInt8) ∉ utf8 (Compact.text value) := fun h => absurd ((Compact.printable value).utf8 h) (by decide)
  have hchomp : chomp (utf8 (Compact.text value)) = utf8 (Compact.text value) :=
    if_neg fun h => absurd ((Compact.printable value).utf8 (mem_of_getLast? h)) (by decide)
  rw [items_line hline hroom, hchomp, decode_utf8, textItem]

/-- By induction on the values: each is written behind the end of a line. -/
theorem items_written {values : List α} {before written : List UInt8} (h : values.foldlM writeFrame before = .ok written) :
    ∃ rest, written = before ++ rest ∧ items rest = values.map textItem := by
  induction values generalizing before with
  | nil =>
    cases h
    exact ⟨[], (append_nil _).symm, rfl⟩
  | cons value values ih =>
    rw [foldlM_cons, writeFrame, encodedFrame] at h
    split_ifs at h with hroom
    · obtain ⟨rest, rfl, hrest⟩ := ih h
      refine ⟨utf8 (Compact.text value) ++ 10 :: rest, by simp, ?_⟩
      rw [items_text hroom, hrest, map_cons]
    · cases h

/-- What is read is a function of the stream, no frame outgrows its bound, and what is written is read. -/
theorem frames_read (chunks : List (List UInt8)) (hchunks : ∀ chunk ∈ chunks, chunk ≠ []) :
    (∀ n, (Frames.new (chunks.map .ok)).item n = (items chunks.flatten)[n]?) ∧
      (∀ n now, Relation.ReflTransGen Turn ([], (Frames.new (chunks.map .ok)).after n) now →
        now.1.length ≤ FRAME_BYTES ∧ (pass now.1 now.2).frame.length ≤ FRAME_BYTES) ∧
      ∀ {α : Type} [Compact α] (values : List α), values.foldlM writeFrame [] = .ok chunks.flatten →
        ∀ n, (Frames.new (chunks.map .ok)).item n = (values.map textItem)[n]? := by
  have hitem (n : ℕ) : (Frames.new (chunks.map .ok)).item n = (items chunks.flatten)[n]? :=
    item_of_follows (.inr ⟨[], chunks, fun h => hchunks [] h rfl, rfl, rfl⟩) n
  refine ⟨hitem, ?_, ?_⟩
  · intro n now hnow
    have hle := buffered_le hnow
    exact ⟨hle, pass_frame_le hle _⟩
  · intro α _ values hwritten n
    obtain ⟨rest, hrest, hitems⟩ := items_written hwritten
    rw [nil_append] at hrest
    rw [hitem, hrest, hitems]

theorem frames_read_brackets :
    (Frames.new [.ok [91], .ok [93, 10]]).item = fun n => ([Value.seq .seq .nil].map textItem)[n]? :=
  funext ((frames_read [[91], [93, 10]] (by decide)).2.2 [Value.seq .seq .nil] rfl)

/-! ## The channel of events -/

def EVENTS : ℕ := 32

/-- `AgentEvent`, with the counters of a cost as they come. -/
inductive AgentEvent (Cost : Type)
  | text (text : String)
  | error (text : String)
  | toolCall (name arguments : String)
  | toolResult (name result : String)
  | cost (cost : Cost)
  | done

variable {Cost : Type}

def AgentEvent.isDone : AgentEvent Cost → Bool
  | .done => true
  | _ => false

/-- `event_bytes`. An event without text counts the `size` of the type. -/
def eventBytes (size : ℕ) : AgentEvent Cost → ℕ
  | .text text | .error text => text.utf8ByteSize
  | .toolCall name rest | .toolResult name rest => Nat.min (name.utf8ByteSize + rest.utf8ByteSize) (UInt64.size - 1)
  | _ => size

/-- The bounded channel of an `EventSender` and its flag, with what the receiver has taken so far. -/
structure EventChannel (Cost : Type) where
  received : List (AgentEvent Cost)
  queue : List (AgentEvent Cost)
  connected : Bool
  failed : Bool

namespace EventChannel

/-- All that was ever queued, in order. -/
def stream (c : EventChannel Cost) : List (AgentEvent Cost) := c.received ++ c.queue

/-- The receiver takes some of the events. -/
def receive (c : EventChannel Cost) (count : ℕ) : EventChannel Cost :=
  { c with received := c.received ++ c.queue.take count, queue := c.queue.drop count }

/-- `try_send` of the bounded channel. -/
def trySend (c : EventChannel Cost) (event : AgentEvent Cost) : Bool × EventChannel Cost :=
  if c.connected ∧ c.queue.length < EVENTS then (true, { c with queue := c.queue ++ [event] }) else (false, c)

/-- The end of admission: a reason and `Done`, as far as they fit. The receiver is not behind the lock, and takes what it
likes before each of them. -/
def fail (c : EventChannel Cost) (reason : String) (first second : ℕ) : EventChannel Cost :=
  let c := { c with failed := true }
  (((c.receive first).trySend (.error reason)).2.receive second).trySend .done |>.2

/-- The reason of an overflow. -/
def overflow : String := "ingress: event_capacity; attempt interrupted"

/-- `EventSender::send`. What the receiver takes before a send that fits is a step of its own. -/
def send (size : ℕ) (event : AgentEvent Cost) (first second : ℕ) (c : EventChannel Cost) : Bool × EventChannel Cost :=
  if c.failed then (false, c)
  else if (EVENTS - 2 ≤ c.queue.length ∧ event.isDone = false) ∨ EVENTS ≤ c.queue.length ∨
      FRAME_BYTES < eventBytes size event then (false, c.fail overflow first second)
  else c.trySend event

/-- `EventSender::interrupt`. -/
def interrupt (reason : String) (first second : ℕ) (c : EventChannel Cost) : EventChannel Cost :=
  if c.failed then c else c.fail reason first second

/-- `EventSender::close_admission`. -/
def closeAdmission (c : EventChannel Cost) : EventChannel Cost := { c with failed := true }

/-! ### What is queued -/

variable {c c' c'' : EventChannel Cost} {events events' : List (AgentEvent Cost)}

/-- `c'` is `c` after the events were sent as far as they fit, while the receiver took what it liked. -/
structure Queued (c : EventChannel Cost) (events : List (AgentEvent Cost)) (c' : EventChannel Cost) : Prop where
  stream : ∃ fitting, fitting.Sublist events ∧ c'.stream = c.stream ++ fitting ∧
    (c.connected → c.queue.length + events.length ≤ EVENTS → fitting = events)
  length : c'.queue.length ≤ c.queue.length + events.length
  room : c.queue.length ≤ EVENTS → c'.queue.length ≤ EVENTS
  connected : c'.connected = c.connected
  failed : c'.failed = c.failed

theorem Queued.trans (h : Queued c events c') (h' : Queued c' events' c'') : Queued c (events ++ events') c'' := by
  obtain ⟨fitting, hfitting, hstream, hall⟩ := h.stream
  obtain ⟨fitting', hfitting', hstream', hall'⟩ := h'.stream
  have hlength := h.length
  refine ⟨⟨fitting ++ fitting', hfitting.append hfitting', by rw [hstream', hstream, append_assoc], ?_⟩, ?_,
    h'.room ∘ h.room, h'.connected.trans h.connected, h'.failed.trans h.failed⟩
  · intro hconnected hroom
    rw [length_append] at hroom
    rw [hall hconnected (by omega), hall' (h.connected.trans hconnected) (by omega)]
  · have := h'.length
    rw [length_append]
    omega

theorem stream_receive (c : EventChannel Cost) (count : ℕ) : (c.receive count).stream = c.stream := by
  rw [stream, receive, append_assoc, take_append_drop, stream]

theorem length_receive (c : EventChannel Cost) (count : ℕ) : (c.receive count).queue.length ≤ c.queue.length :=
  length_drop ▸ Nat.sub_le _ _

theorem queued_receive (c : EventChannel Cost) (count : ℕ) : Queued c [] (c.receive count) where
  stream := ⟨[], .slnil, by rw [stream_receive, append_nil], fun _ _ => rfl⟩
  length := length_receive c count
  room := Nat.le_trans (length_receive c count)
  connected := rfl
  failed := rfl

theorem queued_trySend (c : EventChannel Cost) (event : AgentEvent Cost) : Queued c [event] (c.trySend event).2 := by
  unfold trySend
  split_ifs with h
  · exact ⟨⟨[event], .refl _, (append_assoc _ _ _).symm, fun _ _ => rfl⟩, Nat.le_of_eq length_append,
      fun _ => length_append ▸ h.2, rfl, rfl⟩
  · exact ⟨⟨[], nil_sublist _, (append_nil _).symm, fun hconnected hroom => absurd ⟨hconnected, hroom⟩ h⟩,
      Nat.le_succ _, id, rfl, rfl⟩

theorem queued_fail (c : EventChannel Cost) (reason : String) (first second : ℕ) :
    Queued { c with failed := true } [.error reason, .done] (c.fail reason first second) :=
  (((queued_receive _ first).trans (queued_trySend _ _)).trans (queued_receive _ second)).trans (queued_trySend _ _)

end EventChannel

/-! ### Runs -/

/-- A step of a sender or of the receiver. -/
inductive EventStep (Cost : Type)
  | send (event : AgentEvent Cost) (first second : ℕ)
  | interrupt (reason : String) (first second : ℕ)
  | closeAdmission
  | receive (count : ℕ)
  | disconnect

/-- The channel, the events that it told their senders to be sent, and the reason that it gave at its end. -/
structure EventTrail (Cost : Type) where
  channel : EventChannel Cost
  sent : List (AgentEvent Cost)
  reason : Option String

namespace EventTrail

open EventChannel

/-- `event_channel`. -/
def new : EventTrail Cost := ⟨⟨[], [], true, false⟩, [], none⟩

/-- A sender learns what became of its event. -/
def answered (t : EventTrail Cost) (event : AgentEvent Cost) : Bool × EventChannel Cost → EventTrail Cost
  | (true, channel) => { t with channel, sent := t.sent ++ [event] }
  | (false, channel) =>
    { t with channel, reason := if t.channel.failed = channel.failed then t.reason else some overflow }

def step (size : ℕ) (t : EventTrail Cost) : EventStep Cost → EventTrail Cost
  | .send event first second => t.answered event (t.channel.send size event first second)
  | .interrupt reason first second =>
    { t with
      channel := t.channel.interrupt reason first second
      reason := if t.channel.failed then t.reason else some reason }
  | .closeAdmission => { t with channel := t.channel.closeAdmission }
  | .receive count => { t with channel := t.channel.receive count }
  | .disconnect => { t with channel := { t.channel with connected := false } }

def run (size : ℕ) (steps : List (EventStep Cost)) : EventTrail Cost := steps.foldl (step size) new

/-- The bounds of the channel are kept, and no event that was sent is lost. Nothing follows these but the reason why
admission has ended and `Done`: a receiver that is still there gets both, unless `Done` had been sent before. -/
structure Whole (size : ℕ) (t : EventTrail Cost) : Prop where
  room : t.channel.queue.length ≤ EVENTS
  bytes : ∀ event ∈ t.sent, eventBytes size event ≤ FRAME_BYTES
  spare : t.channel.failed = false → (∀ event ∈ t.sent, event.isDone = false) → t.channel.queue.length ≤ EVENTS - 2
  opened : t.channel.failed = false → t.reason = none
  stream : ∃ notice, t.channel.stream = t.sent ++ notice ∧ (t.reason = none → notice = []) ∧ ∀ reason ∈ t.reason,
    notice.Sublist [.error reason, .done] ∧ (t.channel.connected →
      (∀ event ∈ t.sent, event.isDone = false) → notice = [.error reason, .done])

variable {size : ℕ} {t : EventTrail Cost}

theorem Whole.stream_of_opened (h : t.Whole size) (hopen : t.channel.failed = false) : t.channel.stream = t.sent := by
  obtain ⟨notice, hstream, hnone, -⟩ := h.stream
  rw [hstream, hnone (h.opened hopen), append_nil]

/-- The end of admission. -/
theorem Whole.fail (h : t.Whole size) (hopen : t.channel.failed = false) (reason : String) (first second : ℕ) :
    Whole size ⟨t.channel.fail reason first second, t.sent, some reason⟩ := by
  have hqueued := queued_fail t.channel reason first second
  obtain ⟨notice, hnotice, hstream, hall⟩ := hqueued.stream
  have hfailed : (t.channel.fail reason first second).failed ≠ false :=
    fun hnot => Bool.false_ne_true (hnot.symm.trans hqueued.failed)
  refine ⟨hqueued.room h.room, h.bytes, fun h => absurd h hfailed, fun h => absurd h hfailed, notice,
    hstream.trans (congrArg (· ++ notice) (h.stream_of_opened hopen)), nofun, ?_⟩
  rintro _ ⟨⟩
  refine ⟨hnotice, fun hconnected hdone => hall (hqueued.connected ▸ hconnected) ?_⟩
  exact Nat.add_le_of_le_sub (show 2 ≤ EVENTS by decide) (h.spare hopen hdone)

theorem Whole.send (h : t.Whole size) (event : AgentEvent Cost) (first second : ℕ) :
    (t.answered event (t.channel.send size event first second)).Whole size := by
  unfold EventChannel.send
  by_cases hfailed : t.channel.failed
  · rw [if_pos hfailed, answered, if_pos rfl]
    exact h
  · have hopen := Bool.eq_false_iff.mpr hfailed
    rw [if_neg hfailed]
    by_cases hover : (EVENTS - 2 ≤ t.channel.queue.length ∧ event.isDone = false) ∨ EVENTS ≤ t.channel.queue.length ∨
      FRAME_BYTES < eventBytes size event
    · rw [if_pos hover, answered, if_neg (fun heq => hfailed (heq.trans (queued_fail _ _ _ _).failed))]
      exact h.fail hopen overflow first second
    · rw [if_neg hover, trySend]
      obtain ⟨hcrowded, hover⟩ := not_or.mp hover
      split_ifs with hfits
      · have hlength : (t.channel.queue ++ [event]).length = t.channel.queue.length + 1 := length_append
        dsimp only [answered]
        refine ⟨hlength ▸ hfits.2, ?_, fun _ hdone => ?_, h.opened, [], ?_, fun _ => rfl, ?_⟩
        · intro other hother
          rcases mem_append.mp hother with hother | hother
          · exact h.bytes other hother
          · exact mem_singleton.mp hother ▸ Nat.le_of_not_lt (not_or.mp hover).2
        · exact hlength ▸ Nat.lt_of_not_le fun hle => hcrowded ⟨hle, hdone event (mem_append_right _ (mem_singleton_self _))⟩
        · rw [append_nil, ← h.stream_of_opened hopen]
          exact (append_assoc _ _ _).symm
        · rw [h.opened hopen]
          nofun
      · rw [answered, if_pos rfl]
        exact h

theorem Whole.step (h : t.Whole size) (x : EventStep Cost) : (t.step size x).Whole size := by
  cases x with
  | send event first second => exact h.send event first second
  | interrupt reason first second =>
    unfold EventTrail.step EventChannel.interrupt
    cases hopen : t.channel.failed with
    | true => exact h
    | false => exact h.fail hopen reason first second
  | closeAdmission => exact ⟨h.room, h.bytes, nofun, nofun, h.stream⟩
  | receive count =>
    have hlength := length_receive t.channel count
    refine ⟨Nat.le_trans hlength h.room, h.bytes, fun hopen hdone => Nat.le_trans hlength (h.spare hopen hdone), h.opened, ?_⟩
    rw [show (t.step size (.receive count)).channel.stream = t.channel.stream from stream_receive _ count]
    exact h.stream
  | disconnect =>
    obtain ⟨notice, hstream, hnone, hnotice⟩ := h.stream
    exact ⟨h.room, h.bytes, h.spare, h.opened, notice, hstream, hnone, fun reason hreason => ⟨(hnotice reason hreason).1, nofun⟩⟩

end EventTrail

end Kinewright.Orchestration
