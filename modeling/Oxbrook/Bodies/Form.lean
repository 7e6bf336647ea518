import Oxbrook.Foundation.OrderedDict
import Oxbrook.Foundation.Polling
import Oxbrook.Foundation.Runs
import Oxbrook.Origins.Patterns

/-!
# Form bodies

`src/form.rs`, and `BodyStream.parts` of `_bodies.py` with a handler that reads every part in full.

A multipart body is read by multer, in two ways.  `form` has the whole body, and polls a future over it once.  `parts`
has a `PartReader`, which Python feeds with a chunk of the body whenever it is pending.  Of multer it is assumed
(`Multer`) that the parts, their data and the errors that it makes of a body do not depend on how its stream is
divided, and that it is pending only while its stream is not over; in which pieces it gives the data of a part is
left open, as is what it gives of a part that breaks off.
-/

namespace Oxbrook

open Polling StepMachine

/-! ## Undecodable bytes -/

/-- A character that is being decoded: its bits, how many bytes are to come, and the range of the next one. -/
structure HalfRead where
  bits : ℕ
  toCome : ℕ
  low : ℕ
  high : ℕ

/-- The first byte of a character: a character, the start of one, or the replacement of a byte that is neither. -/
def firstByte (byte : UInt8) : List Char × Option HalfRead :=
  let n := byte.toNat
  if n < 0x80 then ([Char.ofNat n], none)
  else if 0xc2 ≤ n && n ≤ 0xdf then ([], some ⟨n % 32, 1, 0x80, 0xbf⟩)
  else if 0xe0 ≤ n && n ≤ 0xef then
    ([], some ⟨n % 16, 2, if n = 0xe0 then 0xa0 else 0x80, if n = 0xed then 0x9f else 0xbf⟩)
  else if 0xf0 ≤ n && n ≤ 0xf4 then
    ([], some ⟨n % 8, 3, if n = 0xf0 then 0x90 else 0x80, if n = 0xf4 then 0x8f else 0xbf⟩)
  else (['\ufffd'], none)

/-- A byte that does not go on with a character ends it, and begins anew. -/
def decodeLossy : Option HalfRead → List UInt8 → List Char
  | none, [] => []
  | some _, [] => ['\ufffd']
  | none, byte :: bytes => (firstByte byte).1 ++ decodeLossy (firstByte byte).2 bytes
  | some c, byte :: bytes =>
    if c.low ≤ byte.toNat && byte.toNat ≤ c.high then
      let bits := c.bits * 64 + byte.toNat % 64
      if c.toCome = 1 then Char.ofNat bits :: decodeLossy none bytes
      else decodeLossy (some ⟨bits, c.toCome - 1, 0x80, 0xbf⟩) bytes
    else '\ufffd' :: (firstByte byte).1 ++ decodeLossy (firstByte byte).2 bytes

/-- `String::from_utf8_lossy`, and `decode("utf-8", errors="replace")`. -/
def fromUtf8Lossy (bytes : List UInt8) : String := String.ofList (decodeLossy none bytes)

example : fromUtf8Lossy [0x63, 0xc3, 0xa9, 0xff, 0xe2, 0x82, 0x41] = "cé\ufffd\ufffdA" := by decide +kernel

/-! ## Multer -/

/-- The head of a part. -/
structure FieldHead where
  name : Option String
  filename : Option String
  contentType : Option String
  headers : List (String × List UInt8)
  deriving DecidableEq

/-- What multer makes of a body. -/
inductive MulterItem
  | field (head : FieldHead)
  | piece (data : List UInt8)
  /-- The data of the part is over. -/
  | dataEnd
  | finish
  | error (reason : String)

def MulterItem.isData : MulterItem → Bool
  | piece _ | dataEnd => true
  | _ => false

/-- What a body is to multer: its parts with their data, and then that it is over, that it is broken, or that a part of
it breaks off. -/
inductive Outline
  | part (head : FieldHead) (data : List UInt8) (rest : Outline)
  | finish
  | broken
  | cut (head : FieldHead)

/-- The outline of items, where the part that is open has some of its data. -/
def outline : Option (FieldHead × List UInt8) → List MulterItem → Option Outline
  | none, .field head :: items => outline (some (head, [])) items
  | none, .finish :: _ => some .finish
  | none, .error _ :: _ => some .broken
  | some (head, data), .piece more :: items => outline (some (head, data ++ more)) items
  | some (head, data), .dataEnd :: items => (outline none items).map (Outline.part head data)
  | some (head, _), .error _ :: _ => some (.cut head)
  | _, _ => none

/-- The multipart parser: the boundary of a content type, and the reader of a body with that boundary. -/
structure Multer where
  parseBoundary : String → Except String String
  reader : String → Producer (List UInt8) MulterItem
  outlines : String → List UInt8 → Outline
  /-- However a body is divided into chunks, and the chunks into batches, the items have the outline of the body. -/
  reads : ∀ boundary (batches : List (List (Arrival (List UInt8)))) (chunks : List (List UInt8)),
    batches.flatten = chunks.map Arrival.chunk ++ [Arrival.ended] →
      outline none ((reader boundary).yields batches) = some (outlines boundary chunks.flatten)

/-- The parser, as far as it read. -/
abbrev Multipart := State (List UInt8)

/-- `Poll`. -/
inductive Polled (α : Type)
  | ready (value : α)
  | pending

namespace Multer

variable (m : Multer) (boundary : String)

/-- `poll_next_field`, which skips what was not read of the last part. -/
def pollNextField (multipart : Multipart) (feed : Stream (List UInt8)) :
    Polled (Except String (Option FieldHead)) × Multipart :=
  match (m.reader boundary).poll MulterItem.isData multipart feed with
  | (some (.field head), multipart) => (.ready (.ok (some head)), multipart)
  | (some (.error reason), multipart) => (.ready (.error reason), multipart)
  | (some _, multipart) => (.ready (.ok none), multipart)
  | (none, multipart) => (.pending, multipart)

/-- `poll_next` of the part that is open. -/
def pollField (multipart : Multipart) (feed : Stream (List UInt8)) :
    Polled (Option (Except String (List UInt8))) × Multipart :=
  match (m.reader boundary).poll (fun _ => false) multipart feed with
  | (some (.piece data), multipart) => (.ready (some (.ok data)), multipart)
  | (some (.error reason), multipart) => (.ready (some (.error reason)), multipart)
  | (some _, multipart) => (.ready none, multipart)
  | (none, multipart) => (.pending, multipart)

end Multer

/-! ## A body that is there -/

/-- `form::Part`. -/
inductive FormPart
  | field (name value : String)
  | file (name filename : String) (contentType : Option String) (data : List UInt8)
  deriving DecidableEq

inductive FormError
  | unsupported
  | malformed (reason : String)
  | tooManyParts (limit : ℕ)
  deriving DecidableEq

/-- `HTTPError(status, detail)`. -/
structure FormRefusal where
  status : ℕ
  detail : String
  deriving DecidableEq

/-- The errors of `Request.form`. -/
def FormError.refusal : FormError → FormRefusal
  | unsupported => ⟨415, "expected a form body: application/x-www-form-urlencoded or multipart/form-data"⟩
  | malformed reason => ⟨400, "malformed form body: " ++ reason⟩
  | tooManyParts limit => ⟨413, "form has more than " ++ toString limit ++ " parts"⟩

def essence (contentType : String) : Text := lowercase (strip (contentType.toList.takeWhile (· ≠ ';')))

def urlencodedType : Text := "application/x-www-form-urlencoded".toList

def multipartType : Text := "multipart/form-data".toList

/-- `urlencoded`, of the pairs that `form_urlencoded::parse` reads. -/
def urlencodedForm (pairs : List (String × String)) (maxParts : ℕ) : Except FormError (List FormPart) :=
  pairs.foldlM (fun parts (name, value) =>
    if parts.length = maxParts then .error (.tooManyParts maxParts) else .ok (parts ++ [.field name value])) []

/-- The loop of `multipart`: its reader over the one buffer, the part whose bytes are being collected, and the parts. -/
structure FormLoop where
  boundary : String
  reader : Multipart
  stream : Stream (List UInt8)
  field : Option (String × FieldHead × List UInt8)
  parts : List FormPart

def nameless : String := "a part has no name"

/-- What `run_ready` says of a future that is pending. -/
def waitedOnInput : String := "form parser waited on input that should already be present"

def formPart (name : String) (head : FieldHead) (data : List UInt8) : FormPart :=
  match head.filename with
  | some filename => .file name filename head.contentType data
  | none => .field name (fromUtf8Lossy data)

/-- A poll of multer in the one poll of `run_ready`, and what `multipart` does with it. -/
def Multer.formStep (m : Multer) (maxParts : ℕ) (l : FormLoop) : FormLoop ⊕ Except FormError (List FormPart) :=
  match l.field with
  | none =>
    match m.pollNextField l.boundary l.reader l.stream with
    | (.pending, _) => .inr (.error (.malformed waitedOnInput))
    | (.ready (.error reason), _) => .inr (.error (.malformed reason))
    | (.ready (.ok none), _) => .inr (.ok l.parts)
    | (.ready (.ok (some head)), reader) =>
      if l.parts.length = maxParts then .inr (.error (.tooManyParts maxParts))
      else match head.name with
        | none => .inr (.error (.malformed nameless))
        | some name => .inl { l with reader, stream := l.stream.drained, field := some (name, head, []) }
  | some (name, head, data) =>
    match m.pollField l.boundary l.reader l.stream with
    | (.pending, _) => .inr (.error (.malformed waitedOnInput))
    | (.ready (some (.error reason)), _) => .inr (.error (.malformed reason))
    | (.ready (some (.ok more)), reader) =>
      .inl { l with reader, stream := l.stream.drained, field := some (name, head, data ++ more) }
    | (.ready none, reader) =>
      .inl { l with
        reader, stream := l.stream.drained, field := none, parts := l.parts ++ [formPart name head data] }

/-- `parse`, up to the loop. -/
def Multer.parse (m : Multer) (urlencodedPairs : List UInt8 → List (String × String)) (contentType : Option String)
    (body : List UInt8) (maxParts : ℕ) : FormLoop ⊕ Except FormError (List FormPart) :=
  match contentType with
  | none => .inr (.error .unsupported)
  | some contentType =>
    if essence contentType = urlencodedType then .inr (urlencodedForm (urlencodedPairs body) maxParts)
    else if essence contentType = multipartType then
      match m.parseBoundary contentType with
      | .error reason => .inr (.error (.malformed reason))
      | .ok boundary => .inl ⟨boundary, .start, ⟨[body], true⟩, none, []⟩
    else .inr (.error .unsupported)

/-! ## A body that arrives -/

/-- `PartReader`. -/
structure PartReader where
  boundary : String
  feed : Stream (List UInt8)
  multipart : Multipart
  field : Option FieldHead
  parts : ℕ
  maxParts : ℕ

/-- `READY` with a value, `PENDING` and `END`. -/
inductive PartAnswer (α : Type)
  | ready (value : α)
  | pending
  | gone

/-- A part that `next_part` tells of. -/
structure PartHead where
  name : String
  filename : Option String
  contentType : Option String
  headers : List (String × String)

def FieldHead.partHead (head : FieldHead) (name : String) : PartHead :=
  ⟨name, head.filename, head.contentType, head.headers.map fun (key, value) => (key, fromUtf8Lossy value)⟩

/-- `PartReader::new`. -/
def Multer.newReader (m : Multer) (contentType : Option String) (maxParts : ℕ) : Except FormRefusal PartReader :=
  if contentType.map essence ≠ some multipartType then .error ⟨415, "expected a multipart/form-data body"⟩
  else match m.parseBoundary (contentType.getD "") with
    | .error reason => .error (FormError.malformed reason).refusal
    | .ok boundary => .ok ⟨boundary, .start, .start, none, 0, maxParts⟩

namespace PartReader

variable (m : Multer) (r : PartReader)

def feedChunk (chunk : List UInt8) : PartReader := { r with feed := r.feed.push chunk }

def finish : PartReader := { r with feed := r.feed.finish }

/-- `next_part`. -/
def nextPart : Except FormRefusal (PartAnswer PartHead × PartReader) :=
  match m.pollNextField r.boundary r.multipart r.feed with
  | (.pending, multipart) => .ok (.pending, { r with multipart, feed := r.feed.drained, field := none })
  | (.ready (.ok none), multipart) => .ok (.gone, { r with multipart, feed := r.feed.drained, field := none })
  | (.ready (.error reason), _) => .error (FormError.malformed reason).refusal
  | (.ready (.ok (some head)), multipart) =>
    if r.parts = r.maxParts then .error (FormError.tooManyParts r.maxParts).refusal
    else match head.name with
      | none => .error (FormError.malformed nameless).refusal
      | some name =>
        .ok (.ready (head.partHead name),
          { r with multipart, feed := r.feed.drained, field := some head, parts := r.parts + 1 })

/-- `read`. -/
def read : Except FormRefusal (PartAnswer (List UInt8) × PartReader) :=
  if r.field.isNone then .ok (.gone, r)
  else match m.pollField r.boundary r.multipart r.feed with
    | (.pending, multipart) => .ok (.pending, { r with multipart, feed := r.feed.drained })
    | (.ready none, multipart) => .ok (.gone, { r with multipart, feed := r.feed.drained })
    | (.ready (some (.ok chunk)), multipart) => .ok (.ready chunk, { r with multipart, feed := r.feed.drained })
    | (.ready (some (.error reason)), _) => .error (FormError.malformed reason).refusal

end PartReader

/-- `Part`. -/
structure Part where
  name : String
  filename : Option String
  contentType : Option String
  headers : OrderedDict String String

def PartHead.part (head : PartHead) : Part :=
  ⟨head.name, head.filename, head.contentType, OrderedDict.empty.update head.headers⟩

/-- `Parts`, over what the body has left. -/
structure Parts where
  body : List (List UInt8)
  reader : PartReader
  ended : Bool

/-- `_pull`. -/
def Parts.pull (p : Parts) : Except FormRefusal Parts :=
  if p.ended then .error (FormError.malformed "incomplete").refusal
  else match p.body with
    | [] => .ok { p with ended := true, reader := p.reader.finish }
    | chunk :: body => .ok { p with body, reader := p.reader.feedChunk chunk }

/-- A handler that reads each part in full: the part it reads with the data it has of it, and the parts it read. -/
structure PartsLoop where
  parts : Parts
  part : Option (Part × List UInt8)
  read : List (Part × List UInt8)

/-- One round of `__anext__` of the parts, or of the part that is being read. -/
def Multer.partsStep (m : Multer) (l : PartsLoop) : PartsLoop ⊕ Except FormRefusal (List (Part × List UInt8)) :=
  let pulled (reader : PartReader) : PartsLoop ⊕ Except FormRefusal (List (Part × List UInt8)) :=
    match { l.parts with reader : Parts }.pull with
    | .error refusal => .inr (.error refusal)
    | .ok parts => .inl { l with parts }
  match l.part with
  | none =>
    match l.parts.reader.nextPart m with
    | .error refusal => .inr (.error refusal)
    | .ok (.ready head, reader) =>
      .inl { l with parts := { l.parts with reader }, part := some (head.part, []) }
    | .ok (.gone, _) => .inr (.ok l.read)
    | .ok (.pending, reader) => pulled reader
  | some (part, data) =>
    match l.parts.reader.read m with
    | .error refusal => .inr (.error refusal)
    | .ok (.ready chunk, reader) =>
      .inl { l with parts := { l.parts with reader }, part := some (part, data ++ chunk) }
    | .ok (.gone, reader) =>
      .inl { parts := { l.parts with reader }, part := none, read := l.read ++ [(part, data)] }
    | .ok (.pending, reader) => pulled reader

/-- `BodyStream.parts`. -/
def Multer.parts (m : Multer) (contentType : Option String) (chunks : List (List UInt8)) (maxParts : ℕ) :
    PartsLoop ⊕ Except FormRefusal (List (Part × List UInt8)) :=
  match m.newReader contentType maxParts with
  | .error refusal => .inr (.error refusal)
  | .ok reader => .inl ⟨⟨chunks, reader, false⟩, none, []⟩

end Oxbrook
