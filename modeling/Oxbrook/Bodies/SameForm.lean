import Oxbrook.Bodies.Form

/-!
# A form reads the same streamed and buffered

Both loops take the items of multer one by one.  `FormSoFar.next` is what they have in common: what an item does to the
form that was read so far.  What it comes to is settled by the outline of the items that are left (`FormSoFar.Reading`),
and this is the same for both, because the outline of a body does not depend on how it is divided.
-/

namespace Oxbrook

open Polling StepMachine

/-! ## What an outline is read as -/

/-- A part that was read, or is being read. -/
structure ReadPart where
  name : String
  head : FieldHead
  data : List UInt8

/-- The parts of a body, or the status of its refusal, where `count` parts come before. -/
def Outline.read (maxParts : ℕ) : ℕ → Outline → Except ℕ (List ReadPart)
  | _, .finish => .ok []
  | _, .broken => .error 400
  | count, .cut _ => if count = maxParts then .error 413 else .error 400
  | count, .part head data rest =>
    if count = maxParts then .error 413
    else match head.name with
      | none => .error 400
      | some name => (rest.read maxParts (count + 1)).map (⟨name, head, data⟩ :: ·)

/-- The parts that were read, and the one that is open. -/
structure FormSoFar where
  parts : List ReadPart
  current : Option ReadPart

namespace FormSoFar

/-- An item is taken. -/
def next (maxParts : ℕ) (c : FormSoFar) (item : MulterItem) : FormSoFar ⊕ Except ℕ (List ReadPart) :=
  match c.current, item with
  | none, .field head =>
    if c.parts.length = maxParts then .inr (.error 413)
    else match head.name with
      | none => .inr (.error 400)
      | some name => .inl ⟨c.parts, some ⟨name, head, []⟩⟩
  | none, .error _ => .inr (.error 400)
  | none, _ => .inr (.ok c.parts)
  | some part, .piece data => .inl ⟨c.parts, some { part with data := part.data ++ data }⟩
  | some _, .error _ => .inr (.error 400)
  | some part, _ => .inl ⟨c.parts ++ [part], none⟩

/-- The items that are skipped: no data is asked for where no part is open. -/
def skips (c : FormSoFar) (item : MulterItem) : Bool := c.current.isNone && item.isData

/-- The form comes to `e` with the items that are left. -/
def Reading (maxParts : ℕ) (c : FormSoFar) (items : List MulterItem) (e : Except ℕ (List ReadPart)) : Prop :=
  (∀ part ∈ c.current, c.parts.length ≠ maxParts ∧ part.head.name = some part.name) ∧
    ∃ o, outline (c.current.map fun part => (part.head, part.data)) items = some o ∧
      (o.read maxParts c.parts.length).map (c.parts ++ ·) = e

end FormSoFar

/-- The outline of an open part is that of a part with the same head. -/
lemma outline_head {head : FieldHead} {data : List UInt8} {items : List MulterItem} {o : Outline}
    (h : outline (some (head, data)) items = some o) :
    (∃ all rest, o = .part head all rest) ∨ o = .cut head := by
  induction items generalizing data with
  | nil => cases h
  | cons item items ih =>
    cases item with
    | field other => cases h
    | finish => cases h
    | piece more => exact ih h
    | dataEnd =>
      obtain ⟨rest, -, rfl⟩ := Option.map_eq_some_iff.mp h
      exact .inl ⟨data, rest, rfl⟩
    | error reason =>
      obtain rfl := Option.some.inj h
      exact .inr rfl

namespace FormSoFar

variable {maxParts : ℕ} {c : FormSoFar} {items : List MulterItem} {e : Except ℕ (List ReadPart)}

/-- A part begins. -/
lemma Reading.begin {parts : List ReadPart} {head : FieldHead}
    (h : Reading maxParts ⟨parts, none⟩ (.field head :: items) e) :
    (∀ c', next maxParts ⟨parts, none⟩ (.field head) = .inl c' → Reading maxParts c' items e) ∧
      ∀ r, next maxParts ⟨parts, none⟩ (.field head) = .inr r → r = e := by
  obtain ⟨-, o, houtline, rfl⟩ := h
  have hhead : (∃ all rest, o = .part head all rest) ∨ o = .cut head := outline_head houtline
  by_cases hfull : parts.length = maxParts
  · have hnext : next maxParts ⟨parts, none⟩ (.field head) = .inr (.error 413) := if_pos hfull
    have hread : o.read maxParts parts.length = .error 413 := by
      obtain ⟨all, rest, rfl⟩ | rfl := hhead
      · exact if_pos hfull
      · exact if_pos hfull
    rw [hnext, hread]
    exact ⟨nofun, fun r hr => (Sum.inr.inj hr).symm⟩
  · cases hname : head.name with
    | none =>
      have hnext : next maxParts ⟨parts, none⟩ (.field head) = .inr (.error 400) := by
        simp [next, hfull, hname]
      have hread : o.read maxParts parts.length = .error 400 := by
        obtain ⟨all, rest, rfl⟩ | rfl := hhead
        · simp [Outline.read, hfull, hname]
        · simp [Outline.read, hfull]
      rw [hnext, hread]
      exact ⟨nofun, fun r hr => (Sum.inr.inj hr).symm⟩
    | some name =>
      have hnext : next maxParts ⟨parts, none⟩ (.field head) = .inl ⟨parts, some ⟨name, head, []⟩⟩ := by
        simp [next, hfull, hname]
      rw [hnext]
      refine ⟨?_, nofun⟩
      intro c' hc'
      obtain rfl := Sum.inl.inj hc'
      refine ⟨?_, o, houtline, rfl⟩
      rintro part ⟨⟩
      exact ⟨hfull, hname⟩

/-- An open part goes on or ends. -/
lemma Reading.advance {parts : List ReadPart} {part : ReadPart} {item : MulterItem}
    (h : Reading maxParts ⟨parts, some part⟩ (item :: items) e) :
    (∀ c', next maxParts ⟨parts, some part⟩ item = .inl c' → Reading maxParts c' items e) ∧
      ∀ r, next maxParts ⟨parts, some part⟩ item = .inr r → r = e := by
  obtain ⟨hfits, o, houtline, rfl⟩ := h
  obtain ⟨hroom, hname⟩ := hfits part rfl
  cases item with
  | field head => cases houtline
  | finish => cases houtline
  | piece more =>
    refine ⟨?_, nofun⟩
    intro c' hc'
    obtain rfl := Sum.inl.inj hc'
    refine ⟨?_, o, houtline, rfl⟩
    rintro longer ⟨⟩
    exact ⟨hroom, hname⟩
  | dataEnd =>
    refine ⟨?_, nofun⟩
    intro c' hc'
    obtain rfl := Sum.inl.inj hc'
    obtain ⟨rest, hrest, rfl⟩ := Option.map_eq_some_iff.mp houtline
    refine ⟨nofun, rest, hrest, ?_⟩
    have hread : (Outline.part part.head part.data rest).read maxParts parts.length =
        (rest.read maxParts (parts.length + 1)).map (part :: ·) := by
      simp [Outline.read, hroom, hname]
    dsimp only
    rw [hread, List.length_append, List.length_singleton]
    cases rest.read maxParts (parts.length + 1) with
    | error status => rfl
    | ok later => exact congrArg Except.ok (List.append_assoc parts [part] later)
  | error reason =>
    obtain rfl := Option.some.inj houtline
    refine ⟨nofun, ?_⟩
    intro r hr
    obtain rfl := Sum.inr.inj hr
    simp [Outline.read, hroom]
    rfl

/-- **Step.**  There is an item, and it leads on to the same form, or ends with it. -/
lemma Reading.step (h : Reading maxParts c items e) :
    ∃ item later, items = item :: later ∧ c.skips item = false ∧
      (∀ c', c.next maxParts item = .inl c' → Reading maxParts c' later e) ∧
        ∀ r, c.next maxParts item = .inr r → r = e := by
  obtain ⟨parts, current⟩ := c
  cases items with
  | nil =>
    obtain ⟨-, o, houtline, -⟩ := h
    cases current with
    | none => cases houtline
    | some part => cases houtline
  | cons item items =>
    refine ⟨item, items, rfl, ?_⟩
    cases current with
    | some part => exact ⟨rfl, h.advance⟩
    | none =>
      cases item with
      | field head => exact ⟨rfl, h.begin⟩
      | piece data =>
        obtain ⟨-, o, houtline, -⟩ := h
        cases houtline
      | dataEnd =>
        obtain ⟨-, o, houtline, -⟩ := h
        cases houtline
      | finish =>
        obtain ⟨-, o, houtline, rfl⟩ := h
        obtain rfl := Option.some.inj houtline
        refine ⟨rfl, nofun, ?_⟩
        intro r hr
        obtain rfl := Sum.inr.inj hr
        exact congrArg Except.ok (List.append_nil parts).symm
      | error reason =>
        obtain ⟨-, o, houtline, rfl⟩ := h
        obtain rfl := Option.some.inj houtline
        refine ⟨rfl, nofun, ?_⟩
        intro r hr
        exact (Sum.inr.inj hr).symm

/-- **A poll of multer.**  It is pending while batches are to come, or gives the item that is read next. -/
lemma Reading.poll {p : Producer (List UInt8) MulterItem} {multipart : Multipart} {feed : Stream (List UInt8)}
    {rest batches : List (List (Arrival (List UInt8)))}
    (h : c.Reading maxParts ((p.yields batches).drop multipart.given) e)
    (hbatches : (multipart.take feed).past ++ rest = batches) :
    (p.poll c.skips multipart feed = (none, multipart.take feed) ∧ rest ≠ []) ∨
      ∃ item, p.poll c.skips multipart feed = (some item, (multipart.take feed).next) ∧ c.skips item = false ∧
        multipart.given < (p.yields batches).length ∧
          (∀ c', c.next maxParts item = .inl c' →
            c'.Reading maxParts ((p.yields batches).drop (multipart.given + 1)) e) ∧
          ∀ r, c.next maxParts item = .inr r → r = e := by
  obtain ⟨item, later, hitems, hskips, hgo, hend⟩ := h.step
  have hhead : ∀ other ∈ ((p.yields batches).drop multipart.given).head?, c.skips other = false := by
    rw [hitems]
    rintro other ⟨⟩
    exact hskips
  obtain ⟨hpoll, hnone⟩ | ⟨item', hdrop, hpoll⟩ := p.poll_cases hbatches hhead
  · left
    refine ⟨hpoll, ?_⟩
    intro hrest
    rw [hnone hrest] at hitems
    cases hitems
  · right
    have hlt : multipart.given < (p.yields batches).length := by
      by_contra hge
      rw [List.drop_eq_nil_of_le (not_lt.mp hge)] at hitems
      cases hitems
    rw [hdrop] at hitems
    obtain ⟨rfl, rfl⟩ := List.cons.inj hitems
    exact ⟨item', hpoll, hskips, hlt, hgo, hend⟩

end FormSoFar

/-! ## Results -/

/-- A result tells of the parts, or refuses with the status. -/
def Tells {ε β : Type} (status : ε → ℕ) (told : ReadPart → β) : Except ε (List β) → Except ℕ (List ReadPart) → Prop
  | .ok values, .ok parts => values = parts.map told
  | .error refusal, .error expected => status refusal = expected
  | _, _ => False

/-- What `parts` tells of a part. -/
def ReadPart.streamed (part : ReadPart) : Part × List UInt8 := ((part.head.partHead part.name).part, part.data)

/-- What `form` tells of a part. -/
def ReadPart.formed (part : ReadPart) : FormPart := formPart part.name part.head part.data

def FormError.status (err : FormError) : ℕ := err.refusal.status

section Loops

variable {m : Multer} {boundary : String} {maxParts : ℕ} {multipart multipart' : Multipart}
  {feed : Stream (List UInt8)} {item : MulterItem} {e : Except ℕ (List ReadPart)}

/-! ## The loop of `form` -/

/-- The loop with the form that was read so far. -/
def FormSoFar.formLoop (boundary : String) (c : FormSoFar) (multipart : Multipart) (feed : Stream (List UInt8)) :
    FormLoop :=
  ⟨boundary, multipart, feed, c.current.map fun part => (part.name, part.head, part.data),
    c.parts.map ReadPart.formed⟩

/-- An item that multer gives is taken. -/
lemma formStep_of_item (maxParts : ℕ) (c : FormSoFar)
    (hpoll : (m.reader boundary).poll c.skips multipart feed = (some item, multipart')) (hitem : c.skips item = false) :
    (∃ c', c.next maxParts item = .inl c' ∧ m.formStep maxParts (c.formLoop boundary multipart feed) =
        .inl (c'.formLoop boundary multipart' feed.drained)) ∨
      ∃ e r, c.next maxParts item = .inr e ∧ m.formStep maxParts (c.formLoop boundary multipart feed) = .inr r ∧
        Tells FormError.status ReadPart.formed r e := by
  obtain ⟨parts, current⟩ := c
  cases current with
  | none =>
    have hnext : (m.reader boundary).poll MulterItem.isData multipart feed = (some item, multipart') := hpoll
    cases item with
    | piece data => cases hitem
    | dataEnd => cases hitem
    | finish =>
      right
      refine ⟨_, .ok (parts.map ReadPart.formed), rfl, ?_, rfl⟩
      simp [Multer.formStep, FormSoFar.formLoop, Multer.pollNextField, hnext]
    | error reason =>
      right
      refine ⟨_, .error (.malformed reason), rfl, ?_, rfl⟩
      simp [Multer.formStep, FormSoFar.formLoop, Multer.pollNextField, hnext]
    | field head =>
      by_cases hfull : parts.length = maxParts
      · right
        refine ⟨.error 413, .error (.tooManyParts maxParts), if_pos hfull, ?_, rfl⟩
        simp [Multer.formStep, FormSoFar.formLoop, Multer.pollNextField, hnext, hfull]
      · cases hname : head.name with
        | none =>
          right
          refine ⟨.error 400, .error (.malformed nameless), ?_, ?_, rfl⟩
          · simp [FormSoFar.next, hfull, hname]
          · simp [Multer.formStep, FormSoFar.formLoop, Multer.pollNextField, hnext, hfull, hname]
        | some name =>
          left
          refine ⟨⟨parts, some ⟨name, head, []⟩⟩, ?_, ?_⟩
          · simp [FormSoFar.next, hfull, hname]
          · simp [Multer.formStep, FormSoFar.formLoop, Multer.pollNextField, hnext, hfull, hname]
  | some part =>
    have hnext : (m.reader boundary).poll (fun _ => false) multipart feed = (some item, multipart') := hpoll
    cases item with
    | piece data =>
      left
      refine ⟨_, rfl, ?_⟩
      simp [Multer.formStep, FormSoFar.formLoop, Multer.pollField, hnext]
    | error reason =>
      right
      refine ⟨_, .error (.malformed reason), rfl, ?_, rfl⟩
      simp [Multer.formStep, FormSoFar.formLoop, Multer.pollField, hnext]
    | field _ | dataEnd | finish =>
      left
      refine ⟨_, rfl, ?_⟩
      simp [Multer.formStep, FormSoFar.formLoop, Multer.pollField, hnext, ReadPart.formed]

/-- The loop of `form` ends, with the form that it is reading. -/
lemma form_ends {batches : List (List (Arrival (List UInt8)))} (n : ℕ) (c : FormSoFar) (multipart : Multipart)
    (feed : Stream (List UInt8)) (hbatches : (multipart.take feed).past = batches)
    (hleft : ((m.reader boundary).yields batches).length - multipart.given ≤ n)
    (h : c.Reading maxParts (((m.reader boundary).yields batches).drop multipart.given) e) :
    ∃ r, Ends (m.formStep maxParts) (.inl (c.formLoop boundary multipart feed)) r ∧
      Tells FormError.status ReadPart.formed r e := by
  have hnow : (multipart.take feed).past ++ [] = batches := by rw [List.append_nil, hbatches]
  induction n generalizing c multipart feed with
  | zero =>
    obtain ⟨-, hnone⟩ | ⟨item, -, -, hlt, -⟩ := h.poll hnow
    · exact absurd rfl hnone
    · omega
  | succ n ih =>
    obtain ⟨-, hnone⟩ | ⟨item, hpoll, hskips, hlt, hgo, hend⟩ := h.poll hnow
    · exact absurd rfl hnone
    · obtain ⟨c', hnext, hstep⟩ | ⟨e', r, hnext, hstep, htells⟩ := formStep_of_item maxParts c hpoll hskips
      · have hpast : ((multipart.take feed).next.take feed.drained).past = batches := past_next_take.trans hbatches
        have hfewer : ((m.reader boundary).yields batches).length - (multipart.take feed).next.given ≤ n := by
          change _ - (multipart.given + 1) ≤ n
          omega
        obtain ⟨r, hends, htells⟩ := ih c' _ _ hpast hfewer (hgo c' hnext) (by rw [List.append_nil, hpast])
        exact ⟨r, hends.round hstep, htells⟩
      · obtain rfl := hend e' hnext
        exact ⟨r, Ends.now.round hstep, htells⟩

/-! ## The loop of `parts` -/

/-- The loop with the form that was read so far. -/
def FormSoFar.partsLoop (boundary : String) (maxParts : ℕ) (c : FormSoFar) (last : Option FieldHead)
    (multipart : Multipart) (feed : Stream (List UInt8)) (body : List (List UInt8)) : PartsLoop where
  parts :=
    { body
      reader :=
        { boundary, feed, multipart, maxParts
          field := (c.current.map ReadPart.head).or last
          parts := c.parts.length + c.current.toList.length }
      ended := feed.done }
  part := c.current.map ReadPart.streamed
  read := c.parts.map ReadPart.streamed

/-- An item that multer gives is taken. -/
lemma partsStep_of_item (maxParts : ℕ) (c : FormSoFar) (last : Option FieldHead) (body : List (List UInt8))
    (hpoll : (m.reader boundary).poll c.skips multipart feed = (some item, multipart')) (hitem : c.skips item = false) :
    (∃ c' last', c.next maxParts item = .inl c' ∧
        m.partsStep (c.partsLoop boundary maxParts last multipart feed body) =
          .inl (c'.partsLoop boundary maxParts last' multipart' feed.drained body)) ∨
      ∃ e r, c.next maxParts item = .inr e ∧
        m.partsStep (c.partsLoop boundary maxParts last multipart feed body) = .inr r ∧
        Tells FormRefusal.status ReadPart.streamed r e := by
  obtain ⟨parts, current⟩ := c
  cases current with
  | none =>
    have hnext : (m.reader boundary).poll MulterItem.isData multipart feed = (some item, multipart') := hpoll
    cases item with
    | piece data => cases hitem
    | dataEnd => cases hitem
    | finish =>
      right
      refine ⟨_, .ok (parts.map ReadPart.streamed), rfl, ?_, rfl⟩
      simp [Multer.partsStep, FormSoFar.partsLoop, PartReader.nextPart, Multer.pollNextField, hnext]
    | error reason =>
      right
      refine ⟨_, .error (FormError.malformed reason).refusal, rfl, ?_, rfl⟩
      simp [Multer.partsStep, FormSoFar.partsLoop, PartReader.nextPart, Multer.pollNextField, hnext]
    | field head =>
      by_cases hfull : parts.length = maxParts
      · right
        refine ⟨.error 413, .error (FormError.tooManyParts maxParts).refusal, if_pos hfull, ?_, rfl⟩
        simp [Multer.partsStep, FormSoFar.partsLoop, PartReader.nextPart, Multer.pollNextField, hnext, hfull]
      · cases hname : head.name with
        | none =>
          right
          refine ⟨.error 400, .error (FormError.malformed nameless).refusal, ?_, ?_, rfl⟩
          · simp [FormSoFar.next, hfull, hname]
          · simp [Multer.partsStep, FormSoFar.partsLoop, PartReader.nextPart, Multer.pollNextField, hnext, hfull, hname]
        | some name =>
          left
          refine ⟨⟨parts, some ⟨name, head, []⟩⟩, none, ?_, ?_⟩
          · simp [FormSoFar.next, hfull, hname]
          · simp [Multer.partsStep, FormSoFar.partsLoop, PartReader.nextPart, Multer.pollNextField, hnext, hfull, hname,
              ReadPart.streamed, Stream.drained]
  | some part =>
    have hnext : (m.reader boundary).poll (fun _ => false) multipart feed = (some item, multipart') := hpoll
    cases item with
    | piece data =>
      left
      refine ⟨_, last, rfl, ?_⟩
      simp [Multer.partsStep, FormSoFar.partsLoop, PartReader.read, Multer.pollField, hnext, ReadPart.streamed,
        Stream.drained]
    | error reason =>
      right
      refine ⟨_, .error (FormError.malformed reason).refusal, rfl, ?_, rfl⟩
      simp [Multer.partsStep, FormSoFar.partsLoop, PartReader.read, Multer.pollField, hnext]
    | field _ | dataEnd | finish =>
      left
      refine ⟨_, part.head, rfl, ?_⟩
      simp [Multer.partsStep, FormSoFar.partsLoop, PartReader.read, Multer.pollField, hnext, ReadPart.streamed,
        Stream.drained]

/-- The chunks that are to be fed, and the end of the body. -/
def toCome (feed : Stream (List UInt8)) (body : List (List UInt8)) : List (List (Arrival (List UInt8))) :=
  if feed.done then [] else body.map (fun chunk => [.chunk chunk]) ++ [[.ended]]

/-- Where multer is pending the next chunk is fed, or the end of the body. -/
lemma partsStep_of_pending (maxParts : ℕ) (c : FormSoFar) (last : Option FieldHead) (body : List (List UInt8))
    (hpoll : (m.reader boundary).poll c.skips multipart feed = (none, multipart')) (hopen : feed.done = false) :
    ∃ last', m.partsStep (c.partsLoop boundary maxParts last multipart feed body) = .inl (match body with
      | [] => c.partsLoop boundary maxParts last' multipart' feed.drained.finish []
      | chunk :: body => c.partsLoop boundary maxParts last' multipart' (feed.drained.push chunk) body) := by
  obtain ⟨parts, current⟩ := c
  cases current with
  | none =>
    have hnext : (m.reader boundary).poll MulterItem.isData multipart feed = (none, multipart') := hpoll
    refine ⟨none, ?_⟩
    cases body with
    | nil =>
      simp [Multer.partsStep, FormSoFar.partsLoop, PartReader.nextPart, Multer.pollNextField, hnext, Parts.pull, hopen,
        PartReader.finish, Stream.finish]
    | cons chunk body =>
      simp [Multer.partsStep, FormSoFar.partsLoop, PartReader.nextPart, Multer.pollNextField, hnext, Parts.pull, hopen,
        PartReader.feedChunk, Stream.push, Stream.drained]
  | some part =>
    have hnext : (m.reader boundary).poll (fun _ => false) multipart feed = (none, multipart') := hpoll
    refine ⟨last, ?_⟩
    cases body with
    | nil =>
      simp [Multer.partsStep, FormSoFar.partsLoop, PartReader.read, Multer.pollField, hnext, Parts.pull, hopen,
        PartReader.finish, Stream.finish]
    | cons chunk body =>
      simp [Multer.partsStep, FormSoFar.partsLoop, PartReader.read, Multer.pollField, hnext, Parts.pull, hopen,
        PartReader.feedChunk, Stream.push, Stream.drained]

/-- The loop of `parts` ends, with the form that it is reading: each round takes an item or a chunk. -/
lemma parts_ends {batches : List (List (Arrival (List UInt8)))} (n : ℕ) (c : FormSoFar) (last : Option FieldHead)
    (multipart : Multipart) (feed : Stream (List UInt8)) (body : List (List UInt8))
    (hbatches : (multipart.take feed).past ++ toCome feed body = batches)
    (hopen : feed.done = false → multipart.ended = false)
    (hleft : ((m.reader boundary).yields batches).length - multipart.given + (toCome feed body).length ≤ n)
    (h : c.Reading maxParts (((m.reader boundary).yields batches).drop multipart.given) e) :
    ∃ r, Ends m.partsStep (.inl (c.partsLoop boundary maxParts last multipart feed body)) r ∧
      Tells FormRefusal.status ReadPart.streamed r e := by
  induction n generalizing c last multipart feed body with
  | zero =>
    obtain ⟨-, hnone⟩ | ⟨item, -, -, hlt, -⟩ := h.poll hbatches
    · have hpos := List.length_pos_of_ne_nil hnone
      omega
    · omega
  | succ n ih =>
    obtain ⟨hpoll, hnone⟩ | ⟨item, hpoll, hskips, hlt, hgo, hend⟩ := h.poll hbatches
    · have hdone : feed.done = false := by
        by_contra hdone
        exact hnone (if_pos (by simpa using hdone))
      have hended : (multipart.take feed).ended = false := by
        simp [State.take, hopen hdone, hdone]
      have hcome : toCome feed body = body.map (fun chunk => [.chunk chunk]) ++ [[.ended]] := by
        simp [toCome, hdone]
      obtain ⟨last', hstep⟩ := partsStep_of_pending maxParts c last body hpoll hdone
      rw [hcome] at hbatches hleft
      cases body with
      | nil =>
        have hpast : ((multipart.take feed).take feed.drained.finish).past ++ toCome feed.drained.finish [] = batches := by
          rw [past_take_finish hdone (hopen hdone), ← hbatches]
          exact List.append_nil _
        have hfewer : ((m.reader boundary).yields batches).length - (multipart.take feed).given +
            (toCome feed.drained.finish []).length ≤ n := by
          change _ - multipart.given + 0 ≤ n
          rw [List.length_append, List.length_map, List.length_singleton, List.length_nil] at hleft
          omega
        obtain ⟨r, hends, htells⟩ := ih c last' _ _ [] hpast (by rintro ⟨⟩) hfewer h
        exact ⟨r, hends.round hstep, htells⟩
      | cons chunk body =>
        have hnext : toCome (feed.drained.push chunk) body = body.map (fun chunk => [.chunk chunk]) ++ [[.ended]] := by
          simp [toCome, Stream.push, Stream.drained, hdone]
        have hpast : ((multipart.take feed).take (feed.drained.push chunk)).past ++
            toCome (feed.drained.push chunk) body = batches := by
          rw [past_take_push chunk hdone, hnext, ← hbatches, List.append_assoc]
          rfl
        have hfewer : ((m.reader boundary).yields batches).length - (multipart.take feed).given +
            (toCome (feed.drained.push chunk) body).length ≤ n := by
          change _ - multipart.given + _ ≤ n
          rw [hnext, List.length_append, List.length_map, List.length_singleton]
          rw [List.length_append, List.length_map, List.length_singleton, List.length_cons] at hleft
          omega
        obtain ⟨r, hends, htells⟩ := ih c last' _ _ body hpast (fun _ => hended) hfewer h
        exact ⟨r, hends.round hstep, htells⟩
    · obtain ⟨c', last', hnext, hstep⟩ | ⟨e', r, hnext, hstep, htells⟩ := partsStep_of_item maxParts c last body hpoll hskips
      · have hpast : ((multipart.take feed).next.take feed.drained).past ++ toCome feed.drained body = batches := by
          rw [past_next_take]
          exact hbatches
        have hended : feed.drained.done = false → (multipart.take feed).next.ended = false := by
          intro hdone
          change (multipart.ended || feed.done) = false
          rw [hopen hdone]
          exact hdone
        have hfewer : ((m.reader boundary).yields batches).length - (multipart.take feed).next.given +
            (toCome feed.drained body).length ≤ n := by
          change _ - (multipart.given + 1) + (toCome feed body).length ≤ n
          omega
        obtain ⟨r, hends, htells⟩ := ih c' last' _ _ body hpast hended hfewer (hgo c' hnext)
        exact ⟨r, hends.round hstep, htells⟩
      · obtain rfl := hend e' hnext
        exact ⟨r, Ends.now.round hstep, htells⟩

end Loops

/-! ## The same form -/

/-- A part that was streamed, as `form` has it. -/
def asForm (read : Part × List UInt8) : FormPart :=
  match read.1.filename with
  | some filename => .file read.1.name filename read.1.contentType read.2
  | none => .field read.1.name (fromUtf8Lossy read.2)

/-- The same parts, where a text field is its name and its text, or refusals with the same status. -/
def SameForm : Except FormRefusal (List (Part × List UInt8)) → Except FormError (List FormPart) → Prop
  | .ok read, .ok parts => read.map asForm = parts
  | .error refusal, .error err => refusal.status = err.refusal.status
  | _, _ => False

lemma asForm_streamed (part : ReadPart) : asForm part.streamed = part.formed := by
  have hname : part.streamed.1.filename = part.head.filename := rfl
  unfold asForm ReadPart.formed formPart
  rw [hname]
  cases part.head.filename with
  | none => rfl
  | some filename => rfl

lemma SameForm.of_tells {streamed : Except FormRefusal (List (Part × List UInt8))}
    {formed : Except FormError (List FormPart)} {e : Except ℕ (List ReadPart)}
    (h : Tells FormRefusal.status ReadPart.streamed streamed e) (h' : Tells FormError.status ReadPart.formed formed e) :
    SameForm streamed formed := by
  cases e with
  | error status =>
    cases streamed with
    | ok read => cases h
    | error refusal =>
      cases formed with
      | ok parts => cases h'
      | error err => exact h.trans h'.symm
  | ok parts =>
    cases streamed with
    | error refusal => cases h
    | ok read =>
      cases formed with
      | error err => cases h'
      | ok formed =>
        obtain rfl : read = parts.map ReadPart.streamed := h
        obtain rfl : formed = parts.map ReadPart.formed := h'
        change (parts.map ReadPart.streamed).map asForm = parts.map ReadPart.formed
        rw [List.map_map]
        exact List.map_congr_left fun part _ => asForm_streamed part

/-- The form of a body with the boundary. -/
lemma reading_start (m : Multer) (boundary : String) (maxParts : ℕ) {batches : List (List (Arrival (List UInt8)))}
    {chunks : List (List UInt8)} (h : batches.flatten = chunks.map Arrival.chunk ++ [Arrival.ended]) :
    FormSoFar.Reading maxParts ⟨[], none⟩ ((m.reader boundary).yields batches)
      ((m.outlines boundary chunks.flatten).read maxParts 0) := by
  refine ⟨nofun, _, m.reads boundary batches chunks h, ?_⟩
  cases (m.outlines boundary chunks.flatten).read maxParts 0 with
  | error status => rfl
  | ok parts => rfl

section Start

variable (m : Multer) (urlencodedPairs : List UInt8 → List (String × String)) {contentType : String}
  (chunks : List (List UInt8)) (body : List UInt8) (maxParts : ℕ)

/-- With a boundary, both ways begin with nothing read. -/
lemma start_of_boundary (multipart : essence contentType = multipartType) {boundary : String}
    (h : m.parseBoundary contentType = .ok boundary) :
    m.parts (some contentType) chunks maxParts =
        .inl (FormSoFar.partsLoop boundary maxParts ⟨[], none⟩ none .start .start chunks) ∧
      m.parse urlencodedPairs (some contentType) body maxParts =
        .inl (FormSoFar.formLoop boundary ⟨[], none⟩ .start ⟨[body], true⟩) := by
  have hne : multipartType ≠ urlencodedType := by decide
  constructor
  · unfold Multer.parts Multer.newReader
    rw [if_neg (by simp [multipart]), Option.getD_some, h]
    rfl
  · unfold Multer.parse
    dsimp only
    rw [multipart, if_neg hne, if_pos rfl, h]
    rfl

/-- Without one, both refuse. -/
lemma refused_of_boundary (multipart : essence contentType = multipartType) {reason : String}
    (h : m.parseBoundary contentType = .error reason) :
    m.parts (some contentType) chunks maxParts = .inr (.error (FormError.malformed reason).refusal) ∧
      m.parse urlencodedPairs (some contentType) body maxParts = .inr (.error (.malformed reason)) := by
  have hne : multipartType ≠ urlencodedType := by decide
  constructor
  · unfold Multer.parts Multer.newReader
    rw [if_neg (by simp [multipart]), Option.getD_some, h]
  · unfold Multer.parse
    dsimp only
    rw [multipart, if_neg hne, if_pos rfl, h]

/-- What is not multipart both refuse. -/
lemma refused_of_essence (multipart : essence contentType ≠ multipartType)
    (urlencoded : essence contentType ≠ urlencodedType) :
    m.parts (some contentType) chunks maxParts = .inr (.error ⟨415, "expected a multipart/form-data body"⟩) ∧
      m.parse urlencodedPairs (some contentType) body maxParts = .inr (.error .unsupported) := by
  constructor
  · unfold Multer.parts Multer.newReader
    rw [if_pos (by simpa using multipart)]
  · unfold Multer.parse
    dsimp only
    rw [if_neg urlencoded, if_neg multipart]

end Start

/-- **A form reads the same streamed and buffered.**  For each content type other than the urlencoded one, and however
the body is divided, both ways end: with the same parts, or refused with the same status. -/
theorem streamed_as_buffered (m : Multer) (urlencodedPairs : List UInt8 → List (String × String))
    (contentType : Option String) (chunks : List (List UInt8)) (maxParts : ℕ)
    (other : contentType.map essence ≠ some urlencodedType) :
    ∃ streamed formed, Ends m.partsStep (m.parts contentType chunks maxParts) streamed ∧
      Ends (m.formStep maxParts) (m.parse urlencodedPairs contentType chunks.flatten maxParts) formed ∧
        SameForm streamed formed := by
  cases contentType with
  | none => exact ⟨_, _, .now, .now, rfl⟩
  | some contentType =>
    by_cases hessence : essence contentType = multipartType
    · cases hboundary : m.parseBoundary contentType with
      | error reason =>
        obtain ⟨hparts, hparse⟩ :=
          refused_of_boundary m urlencodedPairs chunks chunks.flatten maxParts hessence hboundary
        rw [hparts, hparse]
        exact ⟨_, _, .now, .now, rfl⟩
      | ok boundary =>
        have hchunks : (chunks.map (fun chunk => [Arrival.chunk chunk]) ++ [[Arrival.ended]]).flatten =
            chunks.map Arrival.chunk ++ [Arrival.ended] := by
          rw [List.flatten_append, ← List.flatMap_def, List.flatten_singleton]
          exact congrArg (· ++ [Arrival.ended]) (List.map_eq_flatMap ..).symm
        have hbody : [[Arrival.chunk chunks.flatten, Arrival.ended]].flatten =
            [chunks.flatten].map Arrival.chunk ++ [Arrival.ended] := rfl
        have hformed := reading_start m boundary maxParts hbody
        rw [List.flatten_singleton] at hformed
        obtain ⟨streamed, hstreamed, htells⟩ := parts_ends _ _ none .start .start chunks rfl (fun _ => rfl) le_rfl
          (reading_start m boundary maxParts hchunks)
        obtain ⟨formed, hends, htells'⟩ := form_ends _ _ .start ⟨[chunks.flatten], true⟩ rfl le_rfl hformed
        obtain ⟨hparts, hparse⟩ := start_of_boundary m urlencodedPairs chunks chunks.flatten maxParts hessence hboundary
        rw [hparts, hparse]
        exact ⟨streamed, formed, hstreamed, hends, .of_tells htells htells'⟩
    · have hurlencoded : essence contentType ≠ urlencodedType := fun h => other (congrArg some h)
      obtain ⟨hparts, hparse⟩ := refused_of_essence m urlencodedPairs chunks chunks.flatten maxParts hessence hurlencoded
      rw [hparts, hparse]
      exact ⟨_, _, .now, .now, rfl⟩

/-! ## A note with a content type -/

def noteType : String := "multipart/form-data; boundary=b"

def noteHead : FieldHead :=
  ⟨some "note", none, some "text/plain", [("content-type", "text/plain".toByteArray.data.toList)]⟩

/-- One text part, `hi`, with a content type of its own. -/
def noteBody : List UInt8 := String.toByteArray
  "--b\r\nContent-Disposition: form-data; name=\"note\"\r\nContent-Type: text/plain\r\n\r\nhi\r\n--b--\r\n" |>.data.toList

/-- What multer makes of the note; any other body is not there in full. -/
def noteItems (body : List UInt8) : List MulterItem :=
  if body = noteBody then [.field noteHead, .piece [0x68], .piece [0x69], .dataEnd, .finish]
  else [.error "incomplete multipart stream"]

/-- A parser that waits for the end of the body. -/
def noteMulter : Multer where
  parseBoundary contentType :=
    if contentType = noteType then .ok "b" else .error "multipart boundary not found in Content-Type"
  reader _ := Producer.atEnd fun chunks => noteItems chunks.flatten
  outlines _ body := if body = noteBody then .part noteHead [0x68, 0x69] .finish else .broken
  reads boundary batches chunks h := by
    have hend : Producer.beforeEnd batches.flatten = some chunks := by
      rw [h]
      exact Producer.beforeEnd_of_complete chunks
    unfold Producer.atEnd
    dsimp only
    rw [hend]
    change outline none (noteItems chunks.flatten) = _
    unfold noteItems
    split
    · rfl
    · rfl

/-- The note, cut in its boundary. -/
def noteChunks : List (List UInt8) := [noteBody.take 2, [], noteBody.drop 2]

theorem streamed_as_buffered_note : ∃ streamed,
    Ends noteMulter.partsStep (noteMulter.parts (some noteType) noteChunks 1000) streamed ∧
      SameForm streamed (.ok [.field "note" "hi"]) := by
  have hother : (some noteType).map essence ≠ some urlencodedType := by decide +kernel
  obtain ⟨streamed, formed, hstreamed, hformed, hsame⟩ :=
    streamed_as_buffered noteMulter (fun _ => []) (some noteType) noteChunks 1000 hother
  have hrun : performed (noteMulter.formStep 1000)
      10 (noteMulter.parse (fun _ => []) (some noteType) noteChunks.flatten 1000) = some (.ok [.field "note" "hi"]) := by
    decide +kernel
  rw [hformed.unique (.of_performed 10 hrun)] at hsame
  exact ⟨streamed, hstreamed, hsame⟩

/-- What is told of a part, and which of its data as text. -/
structure PartView where
  name : String
  filename : Option String
  contentType : Option String
  data : String ⊕ List UInt8
  deriving DecidableEq

def viewStreamed (read : Part × List UInt8) : PartView where
  name := read.1.name
  filename := read.1.filename
  contentType := read.1.contentType
  data := if read.1.filename.isNone then .inl (fromUtf8Lossy read.2) else .inr read.2

/-- A text field of `form` has no content type. -/
def FormPart.view : FormPart → PartView
  | field name value => ⟨name, none, none, .inl value⟩
  | file name filename contentType data => ⟨name, some filename, contentType, .inr data⟩

/-- The same of every part, or refusals with the same status. -/
def SameViews : Except FormRefusal (List (Part × List UInt8)) → Except FormError (List FormPart) → Prop
  | .ok read, .ok parts => read.map viewStreamed = parts.map FormPart.view
  | .error refusal, .error err => refusal.status = err.refusal.status
  | _, _ => False

/-- The content type of a text part is told by `parts`, and not by `form`. -/
theorem content_type_of_text : ∃ streamed formed,
    Ends noteMulter.partsStep (noteMulter.parts (some noteType) noteChunks 1000) streamed ∧
      Ends (noteMulter.formStep 1000) (noteMulter.parse (fun _ => []) (some noteType) noteChunks.flatten 1000) formed ∧
        ¬ SameViews streamed formed := by
  have hstreamed : (performed noteMulter.partsStep 20 (noteMulter.parts (some noteType) noteChunks 1000)).any (fun r =>
      decide (r.toOption.map (List.map viewStreamed) = some [⟨"note", none, some "text/plain", .inl "hi"⟩])) = true := by
    decide +kernel
  have hformed : performed (noteMulter.formStep 1000)
      10 (noteMulter.parse (fun _ => []) (some noteType) noteChunks.flatten 1000) = some (.ok [.field "note" "hi"]) := by
    decide +kernel
  obtain ⟨streamed, hrun, hviews⟩ := (Option.any_eq_true ..).mp hstreamed
  refine ⟨streamed, _, .of_performed 20 hrun, .of_performed 10 hformed, ?_⟩
  intro hsame
  cases streamed with
  | error refusal => exact hsame
  | ok read =>
    have hread := Option.some.inj (of_decide_eq_true hviews)
    have hother : read.map viewStreamed = [⟨"note", none, none, .inl "hi"⟩] := hsame
    rw [hread] at hother
    exact absurd hother (by decide)

end Oxbrook
