import Mathlib.Data.List.Basic
import Oxbrook.Foundation.Numerals

/-!
# Event streams

Texts cut at their line breaks, and the algorithm by which a client of the `text/event-stream` format reads a
stream.  A line ends at a carriage return, at a line feed, or at both.  `breakLines` is the text between the
breaks; `breakLines_lines` says that lines without breaks are found again, and `intercalate_breakLines` what is
left of the breaks.

The reader keeps a buffer for the data, for the type and for the id of the event, and hands out an event at each
empty line.  `run_append` lets a stream be read block by block.
-/

namespace EventStream

/-! ## Lines -/

section Lines

variable {α β : Type*}

/-- A line has no break in it. -/
def IsLine (cr lf : α) (text : List α) : Prop := cr ∉ text ∧ lf ∉ text

variable {cr lf c : α} {text line : List α}

lemma isLine_cons : IsLine cr lf (c :: text) ↔ (c ≠ cr ∧ c ≠ lf) ∧ IsLine cr lf text := by
  simp only [IsLine, List.mem_cons, not_or, ne_comm (a := c)]
  exact and_and_and_comm

lemma isLine_append {more : List α} :
    IsLine cr lf (text ++ more) ↔ IsLine cr lf text ∧ IsLine cr lf more := by
  simp only [IsLine, List.mem_append, not_or]
  exact and_and_and_comm

/-- Lines with a line feed after each. -/
lemma flatMap_lines {lines : List (List α)} (hne : lines ≠ []) (lf : α) :
    (lines.flatMap fun line => line ++ [lf]) = [lf].intercalate lines ++ [lf] := by
  induction lines with
  | nil => exact absurd rfl hne
  | cons line lines ih =>
    cases lines with
    | nil => simp [List.intercalate]
    | cons next lines =>
      rw [List.flatMap_cons, ih (List.cons_ne_nil _ _)]
      simp [List.intercalate]

variable [DecidableEq α] [DecidableEq β]

/-- The pieces of a text between its line breaks. -/
def breakLines (cr lf : α) : List α → List (List α)
  | [] => [[]]
  | [c] => if c = cr ∨ c = lf then [[], []] else [[c]]
  | c :: d :: rest =>
    if c = cr ∧ d = lf then [] :: breakLines cr lf rest
    else if c = cr ∨ c = lf then [] :: breakLines cr lf (d :: rest)
    else (breakLines cr lf (d :: rest)).modifyHead (c :: ·)

/-- A text with every line break as a line feed. -/
def unifyBreaks (cr lf : α) : List α → List α
  | [] => []
  | [c] => if c = cr then [lf] else [c]
  | c :: d :: rest =>
    if c = cr ∧ d = lf then lf :: unifyBreaks cr lf rest
    else (if c = cr then lf else c) :: unifyBreaks cr lf (d :: rest)

lemma breakLines_cons (hc : c ≠ cr ∧ c ≠ lf) :
    breakLines cr lf (c :: text) = (breakLines cr lf text).modifyHead (c :: ·) := by
  cases text with
  | nil => simp [breakLines, hc.1, hc.2]
  | cons d rest => simp [breakLines, hc.1, hc.2]

lemma breakLines_lf (hne : cr ≠ lf) : breakLines cr lf (lf :: text) = [] :: breakLines cr lf text := by
  cases text with
  | nil => simp [breakLines]
  | cons d rest => simp [breakLines, hne.symm]

/-- A line is found again. -/
lemma breakLines_line_append (hne : cr ≠ lf) (hline : IsLine cr lf line) :
    breakLines cr lf (line ++ lf :: text) = line :: breakLines cr lf text := by
  induction line with
  | nil => exact breakLines_lf hne
  | cons c line ih =>
    obtain ⟨hc, hline⟩ := isLine_cons.mp hline
    rw [List.cons_append, breakLines_cons hc, ih hline, List.modifyHead_cons]

/-- Lines that end with a line feed are found again. -/
lemma breakLines_lines (hne : cr ≠ lf) {lines : List (List α)} (hlines : ∀ line ∈ lines, IsLine cr lf line) :
    breakLines cr lf (lines.flatMap fun line => line ++ [lf]) = lines ++ [[]] := by
  induction lines with
  | nil => rfl
  | cons line lines ih =>
    obtain ⟨hline, hlines⟩ := List.forall_mem_cons.mp hlines
    rw [List.flatMap_cons, List.append_assoc, List.singleton_append, breakLines_line_append hne hline, ih hlines,
      List.cons_append]

lemma exists_breakLines (cr lf : α) (text : List α) : ∃ first more, breakLines cr lf text = first :: more := by
  fun_induction breakLines cr lf text with
  | case1 | case2 | case3 | case4 | case5 => exact ⟨_, _, rfl⟩
  | case6 c d rest _ _ ih =>
    obtain ⟨first, more, hpieces⟩ := ih
    exact ⟨c :: first, more, by rw [hpieces, List.modifyHead_cons]⟩

lemma isLine_of_mem_breakLines (hmem : line ∈ breakLines cr lf text) : IsLine cr lf line := by
  fun_induction breakLines cr lf text generalizing line with
  | case1 | case2 => simp_all [IsLine]
  | case3 c hc =>
    obtain rfl := List.mem_singleton.mp hmem
    exact isLine_cons.mpr ⟨not_or.mp hc, by simp [IsLine]⟩
  | case4 c d rest _ ih | case5 c d rest _ _ ih =>
    obtain rfl | hmem := List.mem_cons.mp hmem
    · simp [IsLine]
    · exact ih hmem
  | case6 c d rest _ hc ih =>
    obtain ⟨first, more, hpieces⟩ := exists_breakLines cr lf (d :: rest)
    rw [hpieces, List.modifyHead_cons, List.mem_cons] at hmem
    rw [hpieces] at ih
    obtain rfl | hmem := hmem
    · exact isLine_cons.mpr ⟨not_or.mp hc, ih List.mem_cons_self⟩
    · exact ih (List.mem_cons_of_mem _ hmem)

/-- The pieces with a line feed between them: every break has become one. -/
lemma intercalate_breakLines : [lf].intercalate (breakLines cr lf text) = unifyBreaks cr lf text := by
  fun_induction breakLines cr lf text with
  | case1 => rfl
  | case2 c hc =>
    rw [unifyBreaks]
    split
    · rfl
    · obtain rfl := hc.resolve_left ‹_›
      rfl
  | case3 c hc =>
    rw [unifyBreaks, if_neg (not_or.mp hc).1]
    rfl
  | case4 c d rest hbreak ih =>
    rw [unifyBreaks, if_pos hbreak, ← ih]
    obtain ⟨first, more, hpieces⟩ := exists_breakLines cr lf rest
    rw [hpieces]
    rfl
  | case5 c d rest hpair hbreak ih =>
    rw [unifyBreaks, if_neg hpair, ← ih]
    obtain ⟨first, more, hpieces⟩ := exists_breakLines cr lf (d :: rest)
    have hc : (if c = cr then lf else c) = lf := by
      split
      · rfl
      · exact hbreak.resolve_left ‹_›
    rw [hpieces, hc]
    rfl
  | case6 c d rest hpair hc ih =>
    rw [unifyBreaks, if_neg hpair, if_neg (not_or.mp hc).1, ← ih]
    obtain ⟨first, more, hpieces⟩ := exists_breakLines cr lf (d :: rest)
    rw [hpieces, List.modifyHead_cons]
    cases more with
    | nil => simp [List.intercalate]
    | cons => simp [List.intercalate]

/-- Every character of a text is a break or in one of the pieces. -/
lemma mem_breakLines (cr lf : α) (hmem : c ∈ text) : (c = cr ∨ c = lf) ∨ ∃ piece ∈ breakLines cr lf text, c ∈ piece := by
  fun_induction breakLines cr lf text with
  | case1 => exact absurd hmem List.not_mem_nil
  | case2 d hd =>
    obtain rfl := List.mem_singleton.mp hmem
    exact .inl hd
  | case3 d hd => exact .inr ⟨[d], List.mem_singleton_self _, hmem⟩
  | case4 d e rest hbreak ih =>
    obtain ⟨rfl, rfl⟩ := hbreak
    obtain rfl | hmem := List.mem_cons.mp hmem
    · exact .inl (.inl rfl)
    obtain rfl | hmem := List.mem_cons.mp hmem
    · exact .inl (.inr rfl)
    · exact (ih hmem).imp_right fun ⟨piece, hpiece, hc⟩ => ⟨piece, List.mem_cons_of_mem _ hpiece, hc⟩
  | case5 d e rest _ hbreak ih =>
    obtain rfl | hmem := List.mem_cons.mp hmem
    · exact .inl hbreak
    · exact (ih hmem).imp_right fun ⟨piece, hpiece, hc⟩ => ⟨piece, List.mem_cons_of_mem _ hpiece, hc⟩
  | case6 d e rest _ _ ih =>
    obtain ⟨first, more, hpieces⟩ := exists_breakLines cr lf (e :: rest)
    rw [hpieces] at ih ⊢
    rw [List.modifyHead_cons]
    obtain rfl | hmem := List.mem_cons.mp hmem
    · exact .inr ⟨_, List.mem_cons_self, List.mem_cons_self⟩
    obtain hbreak | ⟨piece, hpiece, hc⟩ := ih hmem
    · exact .inl hbreak
    obtain rfl | hpiece := List.mem_cons.mp hpiece
    · exact .inr ⟨_, List.mem_cons_self, List.mem_cons_of_mem _ hc⟩
    · exact .inr ⟨piece, List.mem_cons_of_mem _ hpiece, hc⟩

lemma breakLines_map {f : α → β} (hf : Function.Injective f) :
    breakLines (f cr) (f lf) (text.map f) = (breakLines cr lf text).map (List.map f) := by
  fun_induction breakLines cr lf text with
  | case1 => rfl
  | case2 c hc =>
    have hc' : f c = f cr ∨ f c = f lf := hc.imp (congrArg f) (congrArg f)
    simp [breakLines, hc']
  | case3 c hc =>
    have hc' : ¬ (f c = f cr ∨ f c = f lf) := by simpa [hf.eq_iff] using hc
    simp [breakLines, hc']
  | case4 c d rest hbreak ih =>
    obtain ⟨rfl, rfl⟩ := hbreak
    simp [breakLines, ih]
  | case5 c d rest hpair hbreak ih =>
    have hpair' : ¬ (f c = f cr ∧ f d = f lf) := by simpa [hf.eq_iff] using hpair
    have hbreak' : f c = f cr ∨ f c = f lf := hbreak.imp (congrArg f) (congrArg f)
    rw [List.map_cons, List.map_cons, breakLines, if_neg hpair', if_pos hbreak', ← List.map_cons, ih]
    rfl
  | case6 c d rest hpair hc ih =>
    have hc' : f c ≠ f cr ∧ f c ≠ f lf := by simpa [hf.eq_iff] using hc
    obtain ⟨first, more, hpieces⟩ := exists_breakLines cr lf (d :: rest)
    rw [List.map_cons, breakLines_cons hc', ih, hpieces]
    rfl

end Lines

/-! ## The reader -/

/-- An event as the client gets it. -/
structure Event where
  type : List Char
  data : List Char
  lastEventId : List Char
  deriving DecidableEq

/-- The buffers of the client, and what it keeps from event to event. -/
structure Reader where
  data : List Char
  type : List Char
  idBuffer : List Char
  lastEventId : List Char
  reconnectionTime : Option ℕ
  deriving DecidableEq

namespace Reader

def new : Reader := ⟨[], [], [], [], none⟩

/-- A field of an event. -/
def field (reader : Reader) (name value : List Char) : Reader :=
  if name = "event".toList then { reader with type := value }
  else if name = "data".toList then { reader with data := reader.data ++ (value ++ ['\n']) }
  else if name = "id".toList then if '\x00' ∈ value then reader else { reader with idBuffer := value }
  else if name = "retry".toList then
    if value ≠ [] ∧ value.all Char.isDigit then { reader with reconnectionTime := Numerals.readDigits 10 value }
    else reader
  else reader

/-- The end of an event: without data there is none. -/
def dispatch (reader : Reader) : Reader × List Event :=
  let event : Event := {
    type := if reader.type = [] then "message".toList else reader.type
    data := if reader.data.getLast? = some '\n' then reader.data.dropLast else reader.data
    lastEventId := reader.idBuffer }
  ({ reader with data := [], type := [], lastEventId := reader.idBuffer },
    if reader.data = [] then [] else [event])

/-- The text without a space in front. -/
def unspaced (value : List Char) : List Char := if value.head? = some ' ' then value.tail else value

/-- A field as it is written. -/
def fieldLine (name value : List Char) : List Char := name ++ ": ".toList ++ value

/-- A line of the stream. -/
def line (reader : Reader) (text : List Char) : Reader × List Event :=
  if text = [] then reader.dispatch
  else if text.head? = some ':' then (reader, [])
  else
    (reader.field (text.takeWhile fun c => c ≠ ':') (unspaced (text.dropWhile fun c => c ≠ ':').tail), [])

def run : Reader → List (List Char) → Reader × List Event
  | reader, [] => (reader, [])
  | reader, text :: texts =>
    let next := (reader.line text).1.run texts
    (next.1, (reader.line text).2 ++ next.2)

end Reader

/-- A byte order mark at the start does not count. -/
def withoutMark (text : List Char) : List Char := if text.head? = some '\uFEFF' then text.tail else text

/-- The events of a stream.  What follows the last break is discarded. -/
def events (text : List Char) : List Event :=
  (Reader.new.run (breakLines '\r' '\n' (withoutMark text)).dropLast).2

/-- The events of a stream of bytes, which has to be UTF-8. -/
def read (bytes : ByteArray) : Option (List Event) := bytes.utf8Decode?.map fun text => events text.toList

namespace Reader

variable {reader : Reader} {name value : List Char} {texts : List (List Char)}

lemma run_append (reader : Reader) (texts more : List (List Char)) :
    reader.run (texts ++ more) =
      (((reader.run texts).1.run more).1, (reader.run texts).2 ++ ((reader.run texts).1.run more).2) := by
  induction texts generalizing reader with
  | nil => rfl
  | cons text texts ih =>
    simp only [List.cons_append, run, ih, List.append_assoc]

/-- Lines after some that hand out nothing. -/
lemma run_append_silent {next : Reader} (h : reader.run texts = (next, [])) (more : List (List Char)) :
    reader.run (texts ++ more) = next.run more := by
  rw [run_append, h]
  rfl

lemma line_field (hname : name ≠ []) (hcolon : ':' ∉ name) :
    reader.line (fieldLine name value) = (reader.field name value, []) := by
  obtain ⟨c, rest, rfl⟩ := List.exists_cons_of_ne_nil hname
  have hc : c ≠ ':' := fun h => hcolon (h ▸ List.mem_cons_self)
  have hall : ∀ d ∈ c :: rest, decide (d ≠ ':') = true := by
    intro d hd
    simpa using ne_of_mem_of_not_mem hd hcolon
  rw [line, fieldLine, if_neg (by simp), if_neg (by simpa using hc), List.append_assoc,
    List.takeWhile_append_of_pos hall, List.dropWhile_append_of_pos hall]
  simp [unspaced]

lemma line_comment (text : List Char) : reader.line (':' :: text) = (reader, []) := rfl

/-- The lines of the data fill the buffer. -/
lemma run_data (reader : Reader) (texts : List (List Char)) :
    reader.run (texts.map (fieldLine "data".toList)) =
      ({ reader with data := reader.data ++ texts.flatMap fun text => text ++ ['\n'] }, []) := by
  induction texts generalizing reader with
  | nil => simp [run]
  | cons text texts ih =>
    have hline : reader.line (fieldLine "data".toList text) = (reader.field "data".toList text, []) :=
      line_field (by decide) (by decide)
    rw [List.map_cons, run, hline, ih, List.flatMap_cons]
    simp [field]

end Reader

/-- A stream of lines that end with a line feed is read line by line. -/
lemma events_lines {lines : List (List Char)} (hlines : ∀ line ∈ lines, IsLine '\r' '\n' line)
    (hmark : ∀ line ∈ lines, line.head? ≠ some '\uFEFF') :
    events (lines.flatMap fun line => line ++ ['\n']) = (Reader.new.run lines).2 := by
  have hfirst : (lines.flatMap fun line => line ++ ['\n']).head? ≠ some '\uFEFF' := by
    cases lines with
    | nil => nofun
    | cons line lines =>
      have hline := hmark line List.mem_cons_self
      cases line with
      | nil => simp
      | cons c line => simpa using hline
  rw [events, withoutMark, if_neg hfirst, breakLines_lines (by decide) hlines, List.dropLast_concat]

/-- What was encoded is decoded. -/
lemma read_encoded (text : List Char) : read (String.ofList text).toUTF8 = some (events text) := by
  rw [String.toUTF8_eq_toByteArray, String.toByteArray_ofList, read, List.utf8Decode?_utf8Encode, Option.map_some]

end EventStream
