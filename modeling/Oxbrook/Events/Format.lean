import Oxbrook.Foundation.Attempts
import Oxbrook.Foundation.EventStream
import Oxbrook.Routing.Tools
import Oxbrook.Streams.Consumer

/-!
# Server-sent events

What an item of a stream is on the wire.  A value of an application becomes the data of an event, in one line for
each line of its text; a name and an id stand in lines of their own, so that a break in one of them would start
another field.  `events_round_trip` is the other side: what a client reads is the items, one event each.

A `str` of Python may hold half of a surrogate pair, which has no UTF-8.
-/

namespace Oxbrook

open Attempt (bind_eq_ok)
open EventStream (breakLines unifyBreaks IsLine)

/-! ## Texts -/

/-- A character of a `str`. -/
inductive CodePoint
  | scalar (c : Char)
  | surrogate (offset : Fin 0x800)
  deriving DecidableEq

namespace CodePoint

def scalar? : CodePoint → Option Char
  | scalar c => some c
  | surrogate _ => none

end CodePoint

abbrev PyStr := List CodePoint

namespace PyStr

def ofText (text : List Char) : PyStr := text.map .scalar

def lit (text : String) : PyStr := ofText text.toList

/-- The text, but for surrogates. -/
def scalars (s : PyStr) : List Char := s.filterMap CodePoint.scalar?

/-- `str.encode` succeeds. -/
def Encodable (s : PyStr) : Prop := ∀ c ∈ s, c.scalar?.isSome

instance (s : PyStr) : Decidable s.Encodable := inferInstanceAs (Decidable (∀ c ∈ s, _))

end PyStr

open PyStr

/-! ## Items -/

variable {α ρ ε : Type*}

/-- The data of an event. -/
inductive EventData (α : Type*)
  | text (s : PyStr)
  | bytes (b : List UInt8)
  | value (v : α)

/-- `Event`, with its id as `str` writes it. -/
structure SseEvent (α ρ : Type*) where
  data : EventData α
  event : Option PyStr
  id : Option PyStr
  retry : Option ρ

/-- What a source yields. -/
inductive SseItem (α ρ : Type*)
  | event (e : SseEvent α ρ)
  | message (m : Message PyStr (EventData α))
  | plain (data : EventData α)

/-- The fields of the event an item becomes. -/
def SseItem.fields : SseItem α ρ → SseEvent α ρ
  | event e => e
  | message m => ⟨m.data, none, some m.id, none⟩
  | plain data => ⟨data, none, none, none⟩

/-- What the format takes from elsewhere: the JSON encoder, the lenient UTF-8 decoder and `int`. -/
structure Codec (α ρ ε : Type*) where
  encode : α → Except ε PyStr
  replace : List UInt8 → PyStr
  int : ρ → Except ε ℤ

/-! ## The format -/

/-- Why an event cannot be sent. -/
inductive SseError (ε : Type*)
  | field (name : String) (value : PyStr)
  | unicode
  | raised (e : ε)
  deriving DecidableEq

namespace SseError

/-- `UnicodeEncodeError` is a `ValueError`, too. -/
def IsValueError : SseError ε → Prop
  | field _ _ => True
  | unicode => True
  | raised _ => False

/-- The message of `_field`. -/
def message (repr : PyStr → String) (name : String) (value : PyStr) : String :=
  "SSE " ++ name ++ " may not contain a line break or NUL: " ++ repr value ++
    ". Such a value would inject fields into the stream"

end SseError

/-- A value that `_field` refuses. -/
def Breaking (value : PyStr) : Prop :=
  .scalar '\r' ∈ value ∨ .scalar '\n' ∈ value ∨ .scalar '\x00' ∈ value

instance (value : PyStr) : Decidable (Breaking value) := inferInstanceAs (Decidable (_ ∨ _ ∨ _))

/-- `_field`. -/
def checkField (name : String) (value : PyStr) : Except (SseError ε) PyStr :=
  if Breaking value then .error (.field name value) else .ok value

/-- `Event.__post_init__`. -/
def SseEvent.postInit (e : SseEvent α ρ) : Except (SseError ε) Unit := do
  let _ ← e.event.mapM (checkField "event")
  let _ ← e.id.mapM (checkField "id")

/-- `_encode_data`. -/
def encodeData (codec : Codec α ρ ε) : EventData α → Except (SseError ε) PyStr
  | .text s => .ok s
  | .bytes b => .ok (codec.replace b)
  | .value v => (codec.encode v).mapError .raised

/-- A name, if there is one that is not empty. -/
def eventLine (name : Option PyStr) : Except (SseError ε) (List PyStr) :=
  if name.getD [] = [] then .ok []
  else (checkField "event" (name.getD [])).map fun value => [lit "event: " ++ value]

def idLine : Option PyStr → Except (SseError ε) (List PyStr)
  | none => .ok []
  | some ident => (checkField "id" ident).map fun value => [lit "id: " ++ value]

def retryLine (codec : Codec α ρ ε) : Option ρ → Except (SseError ε) (List PyStr)
  | none => .ok []
  | some retry => ((codec.int retry).mapError .raised).map fun n => [lit "retry: " ++ lit (intText n)]

/-- The data, in as many lines as it has. -/
def dataLines (codec : Codec α ρ ε) (data : EventData α) : Except (SseError ε) (List PyStr) :=
  (encodeData codec data).map fun text =>
    (breakLines (.scalar '\r') (.scalar '\n') text).map fun line => lit "data: " ++ line

/-- `str.encode`. -/
def encodeUtf8 (s : PyStr) : Except (SseError ε) ByteArray :=
  if s.Encodable then .ok (String.ofList s.scalars).toUTF8 else .error .unicode

/-- `format_event`. -/
def formatEvent (codec : Codec α ρ ε) (item : SseItem α ρ) : Except (SseError ε) ByteArray := do
  let named ← eventLine item.fields.event
  let identified ← idLine item.fields.id
  let retried ← retryLine codec item.fields.retry
  let filled ← dataLines codec item.fields.data
  encodeUtf8 ((lit "\n").intercalate (named ++ identified ++ retried ++ filled) ++ lit "\n\n")

/-- What `pump_sse` sends when its source is idle. -/
def pingChunk : ByteArray := ": ping\n\n".toUTF8

/-- What is sent for an item, or for none. -/
def chunkOf (codec : Codec α ρ ε) : Option (SseItem α ρ) → Except (SseError ε) ByteArray
  | none => .ok pingChunk
  | some item => formatEvent codec item

/-- The bytes of a stream. -/
def streamBytes (chunks : List ByteArray) : ByteArray := chunks.foldr (· ++ ·) .empty

/-! ## What a client should see -/

/-- The text of the data. -/
def encodedText (codec : Codec α ρ ε) (data : EventData α) : List Char :=
  ((encodeData codec data).toOption.getD []).scalars

/-- The event of an item, after one with the id `last`. -/
def eventOf (codec : Codec α ρ ε) (last : List Char) (item : SseItem α ρ) : EventStream.Event where
  type := (item.fields.event.map scalars).elim "message".toList fun name =>
    if name = [] then "message".toList else name
  data := unifyBreaks '\r' '\n' (encodedText codec item.fields.data)
  lastEventId := (item.fields.id.map scalars).getD last

/-- The events of a stream: one for each item. -/
def eventsOf (codec : Codec α ρ ε) : List Char → List (Option (SseItem α ρ)) → List EventStream.Event
  | _, [] => []
  | last, none :: sent => eventsOf codec last sent
  | last, some item :: sent =>
    eventOf codec last item :: eventsOf codec (eventOf codec last item).lastEventId sent

/-! ## Texts and their characters -/

section Texts

variable {s t : PyStr}

lemma scalars_append (s t : PyStr) : (s ++ t).scalars = s.scalars ++ t.scalars := List.filterMap_append

@[simp] lemma scalars_ofText (text : List Char) : (ofText text).scalars = text := by
  rw [scalars, ofText, List.filterMap_map]
  exact List.filterMap_some

lemma mem_scalars {c : Char} : c ∈ s.scalars ↔ .scalar c ∈ s := by
  constructor
  · intro hc
    obtain ⟨point, hpoint, heq⟩ := List.mem_filterMap.mp hc
    cases point with
    | scalar d => rwa [← Option.some.inj heq]
    | surrogate => exact absurd heq nofun
  · intro hc
    exact List.mem_filterMap.mpr ⟨_, hc, rfl⟩

lemma ofText_scalars (h : s.Encodable) : ofText s.scalars = s := by
  induction s with
  | nil => rfl
  | cons point s ih =>
    obtain ⟨hpoint, hs⟩ := List.forall_mem_cons.mp h
    cases point with
    | scalar c => exact congrArg _ (ih hs)
    | surrogate => exact absurd hpoint nofun

lemma isLine_scalars (h : IsLine (.scalar '\r') (.scalar '\n') s) : IsLine '\r' '\n' s.scalars :=
  ⟨fun hmem => h.1 (mem_scalars.mp hmem), fun hmem => h.2 (mem_scalars.mp hmem)⟩

/-- Of a text that can be encoded the lines are those of its characters. -/
lemma breakLines_scalars (h : s.Encodable) :
    (breakLines (.scalar '\r') (.scalar '\n') s).map scalars = breakLines '\r' '\n' s.scalars := by
  have hinj : Function.Injective CodePoint.scalar := fun _ _ => CodePoint.scalar.inj
  rw [← ofText_scalars h, ofText, EventStream.breakLines_map hinj, List.map_map, ← ofText, scalars_ofText]
  conv_rhs => rw [← List.map_id (breakLines '\r' '\n' s.scalars)]
  apply List.map_congr_left
  intro line _
  exact scalars_ofText line

lemma checkField_eq_ok {name : String} : (checkField name s : Except (SseError ε) PyStr) = .ok t ↔
    ¬ Breaking s ∧ s = t := by
  rw [checkField]
  split
  · simp [*]
  · simp [*]

lemma isLine_of_not_breaking (h : ¬ Breaking s) : IsLine (.scalar '\r') (.scalar '\n') s :=
  ⟨fun hmem => h (.inl hmem), fun hmem => h (.inr (.inl hmem))⟩

end Texts

/-! ## Lines as a client reads them -/

section Lines

open EventStream.Reader (fieldLine)

variable {codec : Codec α ρ ε} {lines : List PyStr} {name ident : Option PyStr} {retry : Option ρ}
  {data : EventData α} {reader : EventStream.Reader}

/-- A line that starts with an ordinary character and has no break. -/
def PlainLine (line : PyStr) : Prop :=
  IsLine (.scalar '\r') (.scalar '\n') line ∧ ∃ c rest, line = .scalar c :: rest ∧ c ≠ '\uFEFF'

lemma plainLine_field {field : String} {value : PyStr} (hfield : PlainLine (lit field))
    (hvalue : IsLine (.scalar '\r') (.scalar '\n') value) : PlainLine (lit field ++ value) := by
  obtain ⟨hline, c, rest, hlit, hc⟩ := hfield
  refine ⟨EventStream.isLine_append.mpr ⟨hline, hvalue⟩, c, rest ++ value, ?_, hc⟩
  rw [hlit, List.cons_append]

lemma map_eq_ok {β γ δ : Type*} {x : Except δ β} {f : β → γ} {r : γ} :
    x.map f = .ok r ↔ ∃ b, x = .ok b ∧ f b = r := by
  cases x with
  | error e => simp [Except.map]
  | ok b => simp [Except.map]

lemma eventLine_eq_ok (h : (eventLine name : Except (SseError ε) _) = .ok lines) :
    ¬ Breaking (name.getD []) ∧ lines = if name.getD [] = [] then [] else [lit "event: " ++ name.getD []] := by
  rw [eventLine] at h
  split at h
  next hname =>
    rw [if_pos hname, hname]
    exact ⟨by decide, (Except.ok.inj h).symm⟩
  next hname =>
    obtain ⟨value, hvalue, rfl⟩ := map_eq_ok.mp h
    obtain ⟨hclean, rfl⟩ := checkField_eq_ok.mp hvalue
    rw [if_neg hname]
    exact ⟨hclean, rfl⟩

lemma idLine_eq_ok (h : (idLine ident : Except (SseError ε) _) = .ok lines) :
    (∀ value ∈ ident, ¬ Breaking value) ∧ lines = (ident.map fun value => lit "id: " ++ value).toList := by
  cases ident with
  | none => exact ⟨nofun, (Except.ok.inj h).symm⟩
  | some ident =>
    obtain ⟨value, hvalue, rfl⟩ := map_eq_ok.mp h
    obtain ⟨hclean, rfl⟩ := checkField_eq_ok.mp hvalue
    exact ⟨by simpa using hclean, rfl⟩

lemma retryLine_eq_ok (h : retryLine codec retry = .ok lines) :
    ∃ n : Option ℤ, lines = (n.map fun n => lit "retry: " ++ lit (intText n)).toList := by
  cases retry with
  | none => exact ⟨none, (Except.ok.inj h).symm⟩
  | some retry =>
    obtain ⟨n, -, rfl⟩ := map_eq_ok.mp h
    exact ⟨some n, rfl⟩

lemma dataLines_eq_ok (h : dataLines codec data = .ok lines) :
    ∃ text, encodeData codec data = .ok text ∧
      lines = (breakLines (.scalar '\r') (.scalar '\n') text).map fun line => lit "data: " ++ line := by
  obtain ⟨text, htext, rfl⟩ := map_eq_ok.mp h
  exact ⟨text, htext, rfl⟩

lemma isLine_intText (n : ℤ) : IsLine (.scalar '\r') (.scalar '\n') (lit (intText n)) := by
  have hdigits : ∀ c ∈ Nat.toDigits 10 n.natAbs, c.isDigit = true := fun c hc =>
    Nat.isDigit_of_mem_toDigits (by decide) (by decide) hc
  have hmem (c : Char) (hc : c ≠ '-') (hdigit : c.isDigit = false) : .scalar c ∉ lit (intText n) := by
    intro hmem
    obtain ⟨d, hd, heq⟩ := List.mem_map.mp hmem
    obtain rfl := CodePoint.scalar.inj heq
    have hd : d ∈ '-' :: Nat.toDigits 10 n.natAbs := by
      rw [intText, String.toList_ofList] at hd
      split at hd
      · exact hd
      · exact List.mem_cons_of_mem _ hd
    obtain rfl | hd := List.mem_cons.mp hd
    · exact hc rfl
    · exact Bool.false_ne_true (hdigit.symm.trans (hdigits d hd))
  exact ⟨hmem '\r' (by decide) (by decide), hmem '\n' (by decide) (by decide)⟩

lemma plainLine_eventLine (h : (eventLine name : Except (SseError ε) _) = .ok lines) :
    ∀ line ∈ lines, PlainLine line := by
  obtain ⟨hclean, rfl⟩ := eventLine_eq_ok h
  split
  · nofun
  · intro line hline
    obtain rfl := List.mem_singleton.mp hline
    exact plainLine_field ⟨⟨by decide, by decide⟩, _, _, rfl, by decide⟩ (isLine_of_not_breaking hclean)

lemma plainLine_idLine (h : (idLine ident : Except (SseError ε) _) = .ok lines) :
    ∀ line ∈ lines, PlainLine line := by
  obtain ⟨hclean, rfl⟩ := idLine_eq_ok h
  intro line hline
  obtain ⟨value, hvalue, rfl⟩ := Option.map_eq_some_iff.mp (Option.mem_toList.mp hline)
  exact plainLine_field ⟨⟨by decide, by decide⟩, _, _, rfl, by decide⟩
    (isLine_of_not_breaking (hclean value hvalue))

lemma plainLine_retryLine (h : retryLine codec retry = .ok lines) : ∀ line ∈ lines, PlainLine line := by
  obtain ⟨n, rfl⟩ := retryLine_eq_ok h
  intro line hline
  obtain ⟨n, -, rfl⟩ := Option.map_eq_some_iff.mp (Option.mem_toList.mp hline)
  exact plainLine_field ⟨⟨by decide, by decide⟩, _, _, rfl, by decide⟩ (isLine_intText n)

lemma plainLine_dataLines (h : dataLines codec data = .ok lines) : ∀ line ∈ lines, PlainLine line := by
  obtain ⟨text, -, rfl⟩ := dataLines_eq_ok h
  intro line hline
  obtain ⟨piece, hpiece, rfl⟩ := List.mem_map.mp hline
  exact plainLine_field ⟨⟨by decide, by decide⟩, _, _, rfl, by decide⟩
    (EventStream.isLine_of_mem_breakLines hpiece)

/-- A field is read as it was written. -/
lemma run_field (label field : String) (hlabel : label.toList = field.toList ++ ": ".toList)
    (hfield : field.toList ≠ [] ∧ ':' ∉ field.toList) (value : PyStr) :
    reader.run ([lit label ++ value].map scalars) = (reader.field field.toList value.scalars, []) := by
  have hline : (lit label ++ value).scalars = fieldLine field.toList value.scalars := by
    rw [scalars_append, lit, scalars_ofText, hlabel, fieldLine]
  rw [List.map_singleton, hline, EventStream.Reader.run, EventStream.Reader.line_field hfield.1 hfield.2]
  rfl

lemma run_eventLine (h : (eventLine name : Except (SseError ε) _) = .ok lines) (hidle : reader.type = []) :
    reader.run (lines.map scalars) = ({ reader with type := (name.getD []).scalars }, []) := by
  obtain ⟨-, rfl⟩ := eventLine_eq_ok h
  split
  next hname =>
    have htype : scalars [] = reader.type := hidle.symm
    rw [hname, htype]
    rfl
  next => exact run_field "event: " "event" (by decide) (by decide) _

lemma run_idLine (h : (idLine ident : Except (SseError ε) _) = .ok lines) :
    reader.run (lines.map scalars) =
      ({ reader with idBuffer := (ident.map scalars).getD reader.idBuffer }, []) := by
  obtain ⟨hclean, rfl⟩ := idLine_eq_ok h
  cases ident with
  | none => rfl
  | some value =>
    have hnul : '\x00' ∉ value.scalars := by
      rw [mem_scalars]
      exact fun hmem => hclean value rfl (.inr (.inr hmem))
    have hfield : reader.field "id".toList value.scalars = { reader with idBuffer := value.scalars } := by
      rw [EventStream.Reader.field, if_neg (by decide), if_neg (by decide), if_pos rfl, if_neg hnul]
    rw [Option.map_some, Option.toList_some, run_field "id: " "id" (by decide) (by decide), hfield, Option.map_some,
      Option.getD_some]

lemma run_retryLine (h : retryLine codec retry = .ok lines) (reader : EventStream.Reader) :
    ∃ time, reader.run (lines.map scalars) = ({ reader with reconnectionTime := time }, []) := by
  obtain ⟨n, rfl⟩ := retryLine_eq_ok h
  cases n with
  | none => exact ⟨reader.reconnectionTime, rfl⟩
  | some n =>
    rw [Option.map_some, Option.toList_some, run_field "retry: " "retry" (by decide) (by decide),
      EventStream.Reader.field, if_neg (by decide), if_neg (by decide), if_neg (by decide), if_pos rfl]
    split
    · exact ⟨_, rfl⟩
    · exact ⟨reader.reconnectionTime, rfl⟩

lemma run_dataLines (h : dataLines codec data = .ok lines) (hencodable : ∀ line ∈ lines, line.Encodable) :
    reader.run (lines.map scalars) = ({ reader with data := reader.data ++
      (breakLines '\r' '\n' (encodedText codec data)).flatMap fun line => line ++ ['\n'] }, []) := by
  obtain ⟨text, htext, rfl⟩ := dataLines_eq_ok h
  have hpieces : text.Encodable := by
    intro c hc
    obtain hbreak | ⟨piece, hpiece, hc⟩ :=
      EventStream.mem_breakLines (.scalar '\r') (.scalar '\n') hc
    · obtain rfl | rfl := hbreak
      · rfl
      · rfl
    · exact hencodable _ (List.mem_map_of_mem hpiece) c (List.mem_append_right _ hc)
  have hlines : ((breakLines (.scalar '\r') (.scalar '\n') text).map fun line => lit "data: " ++ line).map
      scalars = (breakLines '\r' '\n' text.scalars).map (fieldLine "data".toList) := by
    rw [← breakLines_scalars hpieces, List.map_map, List.map_map]
    apply List.map_congr_left
    intro line _
    have hlit : (lit "data: ").scalars = "data".toList ++ ": ".toList := by decide
    rw [Function.comp_apply, Function.comp_apply, scalars_append, hlit, fieldLine]
  rw [hlines, EventStream.Reader.run_data, encodedText, htext]
  rfl

end Lines

end Oxbrook
