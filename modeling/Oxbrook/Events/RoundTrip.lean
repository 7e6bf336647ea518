import Oxbrook.Events.Format

/-!
# Events are read back

The stream of a response, as a client reads it.  Between two chunks the client has no data and no type in its
buffers, so that each chunk is read on its own: an item as one event, and a ping as none.  Only the id goes on from
event to event.
-/

namespace Oxbrook

open Attempt (bind_eq_ok)
open PyStr
open EventStream (breakLines unifyBreaks IsLine Reader)

variable {α ρ ε : Type*} {codec : Codec α ρ ε} {item : SseItem α ρ} {bytes : ByteArray}

/-! ## Blocks -/

/-- The client between two chunks. -/
def Idle (reader : Reader) (last : List Char) : Prop :=
  reader.data = [] ∧ reader.type = [] ∧ reader.idBuffer = last

/-- A chunk is these lines, and a client without data goes on from the id `last` with the id `next last`. -/
structure Block (lines : List (List Char)) (bytes : ByteArray) (next : List Char → List Char)
    (events : List Char → List EventStream.Event) : Prop where
  bytes_eq : bytes = (String.ofList (lines.flatMap fun line => line ++ ['\n'])).toUTF8
  plain : ∀ line ∈ lines, IsLine '\r' '\n' line ∧ line.head? ≠ some '\uFEFF'
  idle : ∀ reader last, Idle reader last → Idle (reader.run lines).1 (next last)
  events_eq : ∀ reader last, Idle reader last → (reader.run lines).2 = events last

lemma scalars_flatMap (lines : List PyStr) :
    scalars (lines.flatMap fun line => line ++ [.scalar '\n']) =
      (lines.map scalars).flatMap fun line => line ++ ['\n'] := by
  induction lines with
  | nil => rfl
  | cons line lines ih =>
    rw [List.flatMap_cons, List.map_cons, List.flatMap_cons, scalars_append, scalars_append, ih]
    rfl

/-- The lines of an event, and the end of it. -/
lemma joined_eq {lines : List PyStr} (hne : lines ≠ []) :
    (lit "\n").intercalate lines ++ lit "\n\n" = (lines ++ [[]]).flatMap fun line => line ++ [CodePoint.scalar '\n'] := by
  have hlines := EventStream.flatMap_lines hne (CodePoint.scalar '\n')
  rw [List.flatMap_append, hlines, List.append_assoc]
  rfl

lemma plain_scalars {lines : List PyStr} (h : ∀ line ∈ lines, PlainLine line) :
    ∀ line ∈ (lines ++ [[]]).map scalars, IsLine '\r' '\n' line ∧ line.head? ≠ some '\uFEFF' := by
  intro text htext
  obtain ⟨line, hline, rfl⟩ := List.mem_map.mp htext
  obtain hline | hline := List.mem_append.mp hline
  · obtain ⟨hbreaks, c, rest, rfl, hc⟩ := h line hline
    refine ⟨isLine_scalars hbreaks, ?_⟩
    intro hhead
    exact hc (Option.some.inj hhead)
  · obtain rfl := List.mem_singleton.mp hline
    exact ⟨⟨List.not_mem_nil, List.not_mem_nil⟩, nofun⟩

lemma dispatch_filled {reader : Reader} {text : List Char}
    (hdata : reader.data = (breakLines '\r' '\n' text).flatMap fun line => line ++ ['\n']) :
    reader.dispatch = ({ reader with data := [], type := [], lastEventId := reader.idBuffer },
      [{ type := if reader.type = [] then "message".toList else reader.type
         data := unifyBreaks '\r' '\n' text
         lastEventId := reader.idBuffer }]) := by
  have hne : breakLines '\r' '\n' text ≠ [] := by
    obtain ⟨first, more, h⟩ := EventStream.exists_breakLines '\r' '\n' text
    rw [h]
    exact List.cons_ne_nil _ _
  rw [EventStream.flatMap_lines hne, EventStream.intercalate_breakLines] at hdata
  have hlast : (unifyBreaks '\r' '\n' text ++ ['\n']).getLast? = some '\n' := List.getLast?_concat
  have hfilled : unifyBreaks '\r' '\n' text ++ ['\n'] ≠ [] := List.append_ne_nil_of_right_ne_nil _ (by decide)
  rw [Reader.dispatch, hdata, if_pos hlast, if_neg hfilled, List.dropLast_concat]

/-- What a client without data makes of the lines of an event. -/
lemma run_event {named identified retried filled : List PyStr} {e : SseEvent α ρ}
    (hnamed : (eventLine e.event : Except (SseError ε) _) = .ok named)
    (hidentified : (idLine e.id : Except (SseError ε) _) = .ok identified)
    (hretried : retryLine codec e.retry = .ok retried) (hfilled : dataLines codec e.data = .ok filled)
    (hencodable : ∀ line ∈ filled, line.Encodable) {reader : Reader} {last : List Char} (hidle : Idle reader last) :
    ∃ time, reader.run ((named ++ identified ++ retried ++ filled ++ [[]]).map scalars) =
      (⟨[], [], (e.id.map scalars).getD last, (e.id.map scalars).getD last, time⟩,
        [{ type := if scalars (e.event.getD []) = [] then "message".toList else scalars (e.event.getD [])
           data := unifyBreaks '\r' '\n' (encodedText codec e.data)
           lastEventId := (e.id.map scalars).getD last }]) := by
  obtain ⟨data, type, ident, seen, before⟩ := reader
  obtain ⟨rfl, rfl, rfl⟩ := hidle
  obtain ⟨time, htime⟩ := run_retryLine hretried
    ⟨[], scalars (e.event.getD []), (e.id.map scalars).getD ident, seen, before⟩
  refine ⟨time, ?_⟩
  rw [List.map_append, List.map_append, List.map_append, List.map_append, List.append_assoc, List.append_assoc,
    List.append_assoc, Reader.run_append_silent (run_eventLine hnamed rfl),
    Reader.run_append_silent (run_idLine hidentified), Reader.run_append_silent htime,
    Reader.run_append_silent (run_dataLines hfilled hencodable)]
  have hempty (r : Reader) : r.run ([[]].map scalars) = (r.dispatch.1, r.dispatch.2 ++ []) := rfl
  rw [hempty, dispatch_filled rfl]
  rfl

/-- An event on the wire. -/
lemma formatEvent_block (h : formatEvent codec item = .ok bytes) :
    ∃ lines, Block lines bytes (fun last => (eventOf codec last item).lastEventId)
      fun last => [eventOf codec last item] := by
  obtain ⟨named, hnamed, h⟩ := bind_eq_ok.mp h
  obtain ⟨identified, hidentified, h⟩ := bind_eq_ok.mp h
  obtain ⟨retried, hretried, h⟩ := bind_eq_ok.mp h
  obtain ⟨filled, hfilled, h⟩ := bind_eq_ok.mp h
  have hfilled_ne : filled ≠ [] := by
    obtain ⟨text, -, rfl⟩ := dataLines_eq_ok hfilled
    obtain ⟨first, more, hpieces⟩ := EventStream.exists_breakLines (CodePoint.scalar '\r') (.scalar '\n') text
    rw [hpieces]
    exact List.cons_ne_nil _ _
  have hne : named ++ identified ++ retried ++ filled ≠ [] := List.append_ne_nil_of_right_ne_nil _ hfilled_ne
  rw [encodeUtf8, joined_eq hne] at h
  split at h
  next hencodable =>
    obtain rfl := Except.ok.inj h
    have hplain : ∀ line ∈ named ++ identified ++ retried ++ filled, PlainLine line := by
      simp only [List.forall_mem_append]
      exact ⟨⟨⟨plainLine_eventLine hnamed, plainLine_idLine hidentified⟩, plainLine_retryLine hretried⟩,
        plainLine_dataLines hfilled⟩
    have hfilled_encodable : ∀ line ∈ filled, line.Encodable := by
      intro line hline c hc
      apply hencodable
      apply List.mem_flatMap.mpr
      exact ⟨line, by simp [hline], List.mem_append_left _ hc⟩
    refine ⟨(named ++ identified ++ retried ++ filled ++ [[]]).map scalars, ?_, plain_scalars hplain, ?_, ?_⟩
    · rw [scalars_flatMap]
    · intro reader last hidle
      obtain ⟨time, hrun⟩ := run_event hnamed hidentified hretried hfilled hfilled_encodable hidle
      rw [hrun]
      exact ⟨rfl, rfl, rfl⟩
    · intro reader last hidle
      obtain ⟨time, hrun⟩ := run_event hnamed hidentified hretried hfilled hfilled_encodable hidle
      rw [hrun, eventOf]
      cases item.fields.event with
      | none => rfl
      | some name => rfl
  next => exact absurd h nofun

lemma ping_block : ∃ lines, Block lines pingChunk id fun _ => [] := by
  refine ⟨[": ping".toList, []], by decide +kernel, ?_, ?_, ?_⟩
  · simp only [List.forall_mem_cons]
    exact ⟨⟨⟨by decide, by decide⟩, by decide⟩, ⟨⟨by decide, by decide⟩, by decide⟩, nofun⟩
  · rintro ⟨data, type, ident, seen, time⟩ last ⟨rfl, rfl, rfl⟩
    exact ⟨rfl, rfl, rfl⟩
  · rintro ⟨data, type, ident, seen, time⟩ last ⟨rfl, rfl, rfl⟩
    rfl

/-! ## Streams -/

/-- The id after a chunk. -/
def lastId (codec : Codec α ρ ε) (last : List Char) (sent : Option (SseItem α ρ)) : List Char :=
  sent.elim last fun item => (eventOf codec last item).lastEventId

lemma chunk_block {sent : Option (SseItem α ρ)} (h : chunkOf codec sent = .ok bytes) :
    ∃ lines, Block lines bytes (lastId codec · sent) (eventsOf codec · [sent]) := by
  cases sent with
  | none =>
    obtain rfl := Except.ok.inj h
    exact ping_block
  | some item => exact formatEvent_block h

lemma eventsOf_cons (last : List Char) (sent : Option (SseItem α ρ)) (more : List (Option (SseItem α ρ))) :
    eventsOf codec last (sent :: more) =
      eventsOf codec last [sent] ++ eventsOf codec (lastId codec last sent) more := by
  cases sent with
  | none => rfl
  | some item => rfl

/-- A stream is read chunk by chunk. -/
lemma stream_block {sent : List (Option (SseItem α ρ))} {chunks : List ByteArray}
    (h : sent.mapM (chunkOf codec) = .ok chunks) :
    ∃ lines, Block lines (streamBytes chunks) (fun last => sent.foldl (lastId codec) last) (eventsOf codec · sent) := by
  induction sent generalizing chunks with
  | nil =>
    obtain rfl := Except.ok.inj h
    refine ⟨[], rfl, nofun, ?_, ?_⟩
    · exact fun _ _ hidle => hidle
    · exact fun _ _ _ => rfl
  | cons first sent ih =>
    rw [List.mapM_cons] at h
    obtain ⟨chunk, hchunk, h⟩ := bind_eq_ok.mp h
    obtain ⟨rest, hrest, h⟩ := bind_eq_ok.mp h
    obtain rfl := Except.ok.inj h
    obtain ⟨lines, hlines⟩ := chunk_block hchunk
    obtain ⟨more, hmore⟩ := ih hrest
    refine ⟨lines ++ more, ?_, ?_, ?_, ?_⟩
    · rw [List.flatMap_append, String.toUTF8_eq_toByteArray, String.toByteArray_ofList, List.utf8Encode_append,
        ← String.toByteArray_ofList, ← String.toByteArray_ofList, ← String.toUTF8_eq_toByteArray,
        ← String.toUTF8_eq_toByteArray, ← hlines.bytes_eq, ← hmore.bytes_eq]
      rfl
    · exact List.forall_mem_append.mpr ⟨hlines.plain, hmore.plain⟩
    · intro reader last hidle
      rw [Reader.run_append]
      exact hmore.idle _ _ (hlines.idle _ _ hidle)
    · intro reader last hidle
      rw [Reader.run_append, hlines.events_eq _ _ hidle, hmore.events_eq _ _ (hlines.idle _ _ hidle)]
      exact (eventsOf_cons last first sent).symm

/-! ## Refused values -/

/-- A name or an id that would end its line or that a client would not take. -/
def SseEvent.Injects (e : SseEvent α ρ) : Prop :=
  ∃ value, (e.event = some value ∨ e.id = some value) ∧ Breaking value

lemma checkField_of_breaking {name : String} {value : PyStr} (h : Breaking value) :
    (checkField name value : Except (SseError ε) PyStr) = .error (.field name value) := if_pos h

lemma checkField_of_not_breaking {name : String} {value : PyStr} (h : ¬ Breaking value) :
    (checkField name value : Except (SseError ε) PyStr) = .ok value := if_neg h

/-- The constructor of an event refuses it. -/
lemma postInit_refuses {e : SseEvent α ρ} (h : e.Injects) :
    ∃ name value, (e.postInit : Except (SseError ε) Unit) = .error (.field name value) := by
  obtain ⟨data, event, ident, retry⟩ := e
  obtain ⟨value, hvalue, hbreaking⟩ := h
  by_cases hevent : ∃ name, event = some name ∧ Breaking name
  · obtain ⟨name, rfl, hname⟩ := hevent
    refine ⟨"event", name, ?_⟩
    simp [SseEvent.postInit, checkField_of_breaking hname, bind, Except.bind]
  · obtain rfl : ident = some value := hvalue.resolve_left fun hname => hevent ⟨value, hname, hbreaking⟩
    refine ⟨"id", value, ?_⟩
    cases event with
    | none => simp [SseEvent.postInit, checkField_of_breaking hbreaking, bind, Except.bind, pure, Except.pure]
    | some name =>
      have hname : ¬ Breaking name := fun hname => hevent ⟨name, rfl, hname⟩
      simp [SseEvent.postInit, checkField_of_breaking hbreaking, checkField_of_not_breaking hname, bind, Except.bind]

lemma eventLine_of_breaking {value : PyStr} (h : Breaking value) :
    (eventLine (some value) : Except (SseError ε) (List PyStr)) = .error (.field "event" value) := by
  have hne : (some value).getD [] ≠ [] := by
    rintro rfl
    exact absurd h (by decide)
  rw [eventLine, if_neg hne, Option.getD_some, checkField_of_breaking h]
  rfl

/-- A line of the name is refused only by `_field`. -/
lemma eventLine_cases (name : Option PyStr) :
    (∃ value, (eventLine name : Except (SseError ε) (List PyStr)) = .error (.field "event" value)) ∨
      ∃ lines, (eventLine name : Except (SseError ε) (List PyStr)) = .ok lines := by
  rw [eventLine]
  split
  · exact .inr ⟨_, rfl⟩
  · by_cases hbreaking : Breaking (name.getD [])
    · rw [checkField_of_breaking hbreaking]
      exact .inl ⟨_, rfl⟩
    · rw [checkField_of_not_breaking hbreaking]
      exact .inr ⟨_, rfl⟩

lemma formatEvent_refuses (h : item.fields.Injects) :
    ∃ name value, formatEvent codec item = .error (.field name value) := by
  obtain ⟨value, hvalue, hbreaking⟩ := h
  rw [formatEvent]
  obtain ⟨name, hname⟩ | ⟨named, hnamed⟩ := eventLine_cases (ε := ε) item.fields.event
  · rw [hname]
    exact ⟨_, _, rfl⟩
  · have hid : item.fields.id = some value := by
      apply hvalue.resolve_left
      intro hevent
      rw [hevent, eventLine_of_breaking hbreaking] at hnamed
      exact absurd hnamed nofun
    have hidentified : (idLine (some value) : Except (SseError ε) (List PyStr)) = .error (.field "id" value) := by
      rw [idLine, checkField_of_breaking hbreaking]
      rfl
    rw [hnamed, hid, hidentified]
    exact ⟨_, _, rfl⟩

/-! ## The result -/

/-- **Events are read back**: a stream of items and pings is read as one event for each item, in order, with its name,
its data but for the kind of its line breaks, and its id or the last one before it.  What could break this is
refused, when an event is made and when it is sent. -/
theorem events_round_trip (codec : Codec α ρ ε) :
    (∀ (sent : List (Option (SseItem α ρ))) (chunks : List ByteArray), sent.mapM (chunkOf codec) = .ok chunks →
      EventStream.read (streamBytes chunks) = some (eventsOf codec [] sent)) ∧
    (∀ item : SseItem α ρ, item.fields.Injects →
      ∃ e, formatEvent codec item = .error e ∧ e.IsValueError) ∧
    ∀ e : SseEvent α ρ, e.Injects → ∃ error, (e.postInit : Except (SseError ε) Unit) = .error error ∧
      error.IsValueError := by
  refine ⟨?_, ?_, ?_⟩
  · intro sent chunks h
    obtain ⟨lines, hlines⟩ := stream_block h
    have hisLine : ∀ line ∈ lines, IsLine '\r' '\n' line := fun line hline => (hlines.plain line hline).1
    have hunmarked : ∀ line ∈ lines, line.head? ≠ some '\uFEFF' := fun line hline => (hlines.plain line hline).2
    rw [hlines.bytes_eq, EventStream.read_encoded, EventStream.events_lines hisLine hunmarked,
      hlines.events_eq Reader.new [] ⟨rfl, rfl, rfl⟩]
  · intro item h
    obtain ⟨name, value, herror⟩ := formatEvent_refuses h
    exact ⟨_, herror, trivial⟩
  · intro e h
    obtain ⟨name, value, herror⟩ := postInit_refuses h
    exact ⟨_, herror, trivial⟩

/-- A codec for texts and integers. -/
def plainCodec : Codec PyStr ℤ Unit where
  encode s := .ok s
  replace bytes := ofText (bytes.map Char.ofUInt8)
  int n := .ok n

/-- A named event of two lines, a ping, a durable message, an empty text. -/
def feed : List (Option (SseItem PyStr ℤ)) :=
  [some (.event ⟨.text (lit "one\x0d\ntwo"), some (lit "news"), none, some 500⟩), none,
    some (.message ⟨lit "7-0", .bytes [104, 105]⟩), some (.plain (.text []))]

theorem feed_round_trip :
    (∃ chunks, feed.mapM (chunkOf plainCodec) = .ok chunks ∧ EventStream.read (streamBytes chunks) =
      some [⟨"news".toList, "one\ntwo".toList, []⟩, ⟨"message".toList, "hi".toList, "7-0".toList⟩,
        ⟨"message".toList, [], "7-0".toList⟩]) ∧
    ∃ e, formatEvent plainCodec (.event ⟨.text [], none, some (lit "1\n\ndata: x"), none⟩) = .error e ∧
      e.IsValueError := by
  constructor
  · have hok : (feed.mapM (chunkOf plainCodec)).isOk = true := by decide +kernel
    cases hchunks : feed.mapM (chunkOf plainCodec) with
    | error e => rw [hchunks] at hok; exact absurd hok Bool.false_ne_true
    | ok chunks =>
      refine ⟨chunks, rfl, ?_⟩
      rw [(events_round_trip plainCodec).1 feed chunks hchunks]
      decide +kernel
  · apply (events_round_trip plainCodec).2.1
    exact ⟨lit "1\n\ndata: x", .inr rfl, by decide +kernel⟩

end Oxbrook
