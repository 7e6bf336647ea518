import Oxbrook.Files.Mount
import Oxbrook.Foundation.Numerals
import Oxbrook.Origins.Checks
import Oxbrook.Origins.Texts

/-!
# Ranges of a file

`respond` of `src/files.rs`, with `parse_range` before it and `stream` after it: what is sent of an open file.  A
request may ask for a range of its bytes, on the condition that the file is still the one it has seen; the bytes are
read whole into one buffer, or streamed as the system reads them.

`range_exact_iff` compares an answer with what the headers ask for, which is said of their bytes.  The two differ
where `Asked::from` takes a header for absent because it has a byte that is not visible ASCII.

The dates are those of the `httpdate` crate and the content type that of `mime_guess`; both are given.
-/

namespace Oxbrook

open Numerals

/-! ## Numbers of 64 bits -/

/-- `a - b` of `u64`, or nothing where it would go below zero. -/
def checkedSub (a b : ℕ) : Option ℕ := if b ≤ a then some (a - b) else none

/-- `a + b` of `u64`, or nothing where it would go over. -/
def checkedAdd (a b : ℕ) : Option ℕ := if a + b < 2 ^ 64 then some (a + b) else none

/-- `str::parse::<u64>`. -/
def parseU64 (text : Text) : Option ℕ :=
  let digits := match text with
    | '+' :: digits => digits
    | digits => digits
  if digits.isEmpty then none else (readDigits 10 digits).bind fun n => if n < 2 ^ 64 then some n else none

/-- A number as `format!` writes it. -/
def decimal (n : ℕ) : Text := Nat.toDigits 10 n

/-! ## Ranges -/

/-- What `parse_range` makes of a header: the whole file, some of its bytes, or nothing that could be sent. -/
inductive RangeAnswer
  | whole
  | part (start stop : ℕ)
  | unsatisfiable
  deriving DecidableEq

/-- The last test of `parse_range`. -/
def checkedRange (len start stop : ℕ) : RangeAnswer :=
  if len = 0 ∨ len ≤ start ∨ stop < start then .unsatisfiable else .part start stop

/-- The range between the two texts around the dash. -/
def rangeBetween (start stop : Text) (len : ℕ) : Option RangeAnswer :=
  if start = [] then
    match parseU64 stop with
    | none => some .unsatisfiable
    | some suffix =>
      if suffix = 0 ∨ len = 0 then some .unsatisfiable
      else (checkedSub len 1).map fun last => checkedRange len (len - suffix) last
  else match parseU64 start with
    | none => some .unsatisfiable
    | some first =>
      -- `saturating_sub`, as the truncated subtraction.
      match if stop = [] then some (len - 1) else (parseU64 stop).map fun last => min last (len - 1) with
      | none => some .unsatisfiable
      | some last => some (checkedRange len first last)

/-- `parse_range`; nothing if its arithmetic goes out of bounds. -/
def parseRange (header : Text) (len : ℕ) : Option RangeAnswer :=
  match (strip header).dropPrefix? "bytes=".toList with
  | none => some .whole
  | some spec =>
    if ',' ∈ spec then some .whole
    else match splitOnce spec ['-'] with
      | none => some .unsatisfiable
      | some (start, stop) => rangeBetween (strip start) (strip stop) len

/-! ## What is asked -/

/-- `Asked`: the headers an answer depends on. -/
structure AskedTexts where
  ifNoneMatch : Option Text
  ifModifiedSince : Option Text
  range : Option Text
  ifRange : Option Text
  acceptEncoding : Option Text
  wantsHtml : Bool
  head : Bool

/-- `Asked::from`. -/
def AskedTexts.of (headers : HeaderMap) (head encodings : Bool) : AskedTexts where
  ifNoneMatch := headers.header "if-none-match"
  ifModifiedSince := headers.header "if-modified-since"
  range := headers.header "range"
  ifRange := headers.header "if-range"
  acceptEncoding := if encodings then headers.header "accept-encoding" else none
  wantsHtml := (headers.header "accept").any fun accept => (splitOnce accept "text/html".toList).isSome
  head := head

/-- A character that is visible ASCII, or a space. -/
def visibleChar (c : Char) : Prop := 32 ≤ c.toNat ∧ c.toNat < 127

instance : DecidablePred visibleChar := fun c => inferInstanceAs (Decidable (32 ≤ c.toNat ∧ c.toNat < 127))

/-- The dates of HTTP, of times in nanoseconds from the epoch. -/
structure HttpDates where
  format : ℤ → Text
  parse : Text → Option ℤ
  ascii : ∀ time, ∀ c ∈ format time, visibleChar c

/-- An open file, and what its answer says beside its bytes. -/
structure OpenFile where
  content : List UInt8
  modified : ℤ
  encoding : Option Encoding
  contentType : Text
  cacheControl : Option Text
  precompressed : Bool

/-- `Encoding::token`. -/
def Encoding.token : Encoding → Text
  | brotli => "br".toList
  | gzip => "gzip".toList

/-- `etag_for`. -/
def etagFor (len : ℕ) (modified : ℤ) : Text :=
  "W/\"".toList ++ Nat.toDigits 16 len ++ '-' :: Nat.toDigits 16 modified.toNat ++ ['"']

/-- The tag of what is sent: the token of an encoding goes before the last quote. -/
def OpenFile.etag (file : OpenFile) : Text :=
  let etag := etagFor file.content.length file.modified
  match file.encoding with
  | none => etag
  | some encoding => etag.take (etag.length - 1) ++ '-' :: encoding.token ++ etag.drop (etag.length - 1)

/-- `trim_start_matches("W/")`. -/
def withoutWeak : Text → Text
  | 'W' :: '/' :: rest => withoutWeak rest
  | text => text

/-- `matches_etag`. -/
def matchesEtag (header etag : Text) : Bool :=
  ((header.splitOn ',').map strip).any fun candidate =>
    candidate = ['*'] || withoutWeak candidate = withoutWeak etag

/-- Whole seconds from the epoch. -/
def epochSeconds (time : ℤ) : ℕ := time.toNat / 10 ^ 9

/-- Whether the answer is a 304. -/
def unchanged (dates : HttpDates) (file : OpenFile) (asked : AskedTexts) : Bool :=
  match asked.ifNoneMatch with
  | some tags => matchesEtag tags file.etag
  | none => (asked.ifModifiedSince.bind dates.parse).any fun since =>
      decide (epochSeconds file.modified ≤ epochSeconds since)

/-! ## Answers -/

/-- `CHUNK`. -/
def chunkSize : ℕ := 64 * 1024

/-- `READ_WHOLE`. -/
def readWhole : ℕ := 256 * 1024

/-- `Outcome`: a response that is ready, or one whose body is streamed from an open file at its position. -/
inductive FileReply
  | ready (status : ℕ) (headers : List (String × Text)) (body : List UInt8)
  | stream (status : ℕ) (headers : List (String × Text)) (rest : List UInt8) (length : ℕ)

/-- The end of `respond`: the length, and how the bytes are delivered. -/
def deliver (content : List UInt8) (head : Bool) (status : ℕ) (headers : List (String × Text)) (start stop : ℕ) :
    Option FileReply := do
  let length ← if content.length = 0 then some 0 else (checkedSub stop start).bind fun n => checkedAdd n 1
  let headers := headers ++ [("content-length", decimal length)]
  if head || length = 0 then return .ready status headers []
  else if length ≤ readWhole then return .ready status headers ((content.drop start).take length)
  else return .stream status headers (content.drop start) length

/-- The headers of every answer. -/
def OpenFile.headers (dates : HttpDates) (file : OpenFile) : List (String × Text) :=
  [("etag", file.etag), ("last-modified", dates.format file.modified), ("accept-ranges", "bytes".toList)] ++
    file.cacheControl.toList.map (fun cache => ("cache-control", cache)) ++
    (if file.precompressed then [("vary", "Accept-Encoding".toList)] else []) ++
    file.encoding.toList.map fun encoding => ("content-encoding", encoding.token)

/-- `respond`; nothing if its arithmetic goes out of bounds. -/
def respond (dates : HttpDates) (file : OpenFile) (asked : AskedTexts) : Option FileReply :=
  if unchanged dates file asked then some (.ready 304 (file.headers dates) [])
  else do
    let headers := file.headers dates ++ [("content-type", file.contentType)]
    let len := file.content.length
    let applies := asked.ifRange.all fun condition =>
      decide (condition = file.etag ∨ condition = dates.format file.modified)
    let range ← match asked.range with
      | some header => if applies then parseRange header len else some .whole
      | none => some .whole
    match range with
    | .part start stop =>
      let shown := "bytes ".toList ++ decimal start ++ '-' :: decimal stop ++ '/' :: decimal len
      deliver file.content asked.head 206 (headers ++ [("content-range", shown)]) start stop
    | .whole => deliver file.content asked.head 200 headers 0 (len - 1)
    | .unsatisfiable => return .ready 416 (headers ++ [("content-range", "bytes */".toList ++ decimal len)]) []

/-- The chunks of `stream`: `sizes` is how much each read is given, which ends the stream if it is nothing.  There are
none if the arithmetic goes out of bounds. -/
def chunks (sizes : ℕ → ℕ) (i : ℕ) (rest : List UInt8) (remaining : ℕ) : Option (List (List UInt8)) :=
  let n := min (sizes i) (min (min chunkSize remaining) rest.length)
  if 0 < n then
    match _hleft : checkedSub remaining n with
    | some left => (chunks sizes (i + 1) (rest.drop n) left).map fun later => rest.take n :: later
    | none => none
  else some []
termination_by remaining
decreasing_by
  unfold checkedSub at _hleft
  split_ifs at _hleft with hle
  obtain rfl := Option.some.inj _hleft
  omega

/-- The body a client receives, if the reads go as `sizes` says. -/
def FileReply.received (sizes : ℕ → ℕ) : FileReply → Option (List UInt8)
  | .ready _ _ body => some body
  | .stream _ _ rest length => (chunks sizes 0 rest length).map List.flatten

/-! ## What a range asks for -/

/-- The range of a single `bytes=` header: the last bytes, all bytes from one on, or those from one to another. -/
inductive RangeSpec
  | suffix (count : ℕ)
  | onward (first : ℕ)
  | span (first last : ℕ)

namespace RangeSpec

/-- How it is written. -/
def Written (text : Text) : RangeSpec → Prop
  | suffix count => ∃ before after, text = before ++ '-' :: after ∧ strip before = [] ∧
      parseU64 (strip after) = some count
  | onward first => ∃ before after, text = before ++ '-' :: after ∧ parseU64 (strip before) = some first ∧
      strip after = []
  | span first last => ∃ before after, text = before ++ '-' :: after ∧ parseU64 (strip before) = some first ∧
      parseU64 (strip after) = some last

/-- The first and the last byte it names in a file of a given length, if it names any. -/
def positions (n : ℕ) : RangeSpec → Option (ℕ × ℕ)
  | suffix count => if 0 < min count n then some (n - min count n, n - 1) else none
  | onward first => if first < n then some (first, n - 1) else none
  | span first last => if first < n ∧ first ≤ last then some (first, min last (n - 1)) else none

end RangeSpec

/-- A text without the optional white space of HTTP around it. -/
def trimOws (text : Text) : Text :=
  (text.dropWhile fun c => c = ' ' || c = '\t').rdropWhile fun c => c = ' ' || c = '\t'

/-- A `Range` header with one range of bytes, and its text. -/
def SingleRange (v : HeaderValue) (spec : Text) : Prop := trimOws v.raw = "bytes=".toList ++ spec ∧ ',' ∉ spec

/-- An `If-Range` header lets a range apply if it names the file. -/
def Applicable (dates : HttpDates) (file : OpenFile) (ifRange : Option HeaderValue) : Prop :=
  ∀ v ∈ ifRange, v.raw = file.etag ∨ v.raw = dates.format file.modified

/-- What a request asks for, by its `Range` header and whether that applies. -/
inductive AsksFor (n : ℕ) (range : Option HeaderValue) (applies : Prop) : RangeAnswer → Prop
  | whole (h : ∀ v ∈ range, ∀ spec, SingleRange v spec → ¬ applies) : AsksFor n range applies .whole
  | part {v : HeaderValue} {spec : Text} {asked : RangeSpec} {start stop : ℕ} (hrange : range = some v)
    (hsingle : SingleRange v spec) (happlies : applies) (hwritten : asked.Written spec)
    (hpositions : asked.positions n = some (start, stop)) : AsksFor n range applies (.part start stop)
  | unsatisfiable {v : HeaderValue} {spec : Text} (hrange : range = some v) (hsingle : SingleRange v spec)
    (happlies : applies) (hnone : ∀ asked : RangeSpec, asked.Written spec → asked.positions n = none) :
    AsksFor n range applies .unsatisfiable

namespace FileReply

def status : FileReply → ℕ
  | ready status _ _ => status
  | stream status _ _ _ => status

def headers : FileReply → List (String × Text)
  | ready _ headers _ => headers
  | stream _ headers _ _ => headers

/-- The body is some bytes, however much each read is given. -/
def Delivers (reply : FileReply) (bytes : List UInt8) : Prop :=
  ∀ sizes : ℕ → ℕ, (∀ i, 0 < sizes i) → reply.received sizes = some bytes

/-- A reply is what is asked of a file. -/
def Gives (reply : FileReply) (content : List UInt8) : RangeAnswer → Prop
  | .whole => reply.status = 200 ∧ reply.headers.lookup "content-length" = some (decimal content.length) ∧
      reply.headers.lookup "content-range" = none ∧ reply.Delivers content
  | .part start stop => start ≤ stop ∧ stop < content.length ∧ reply.status = 206 ∧
      reply.headers.lookup "content-range" = some ("bytes ".toList ++ decimal start ++ '-' :: decimal stop ++
        '/' :: decimal content.length) ∧
      reply.headers.lookup "content-length" = some (decimal (stop - start + 1)) ∧
      reply.Delivers ((content.drop start).take (stop - start + 1))
  | .unsatisfiable => reply.status = 416 ∧
      reply.headers.lookup "content-range" = some ("bytes */".toList ++ decimal content.length)

end FileReply

/-! ## Delivering -/

/-- However the reads go, what is streamed is the bytes that remain. -/
lemma chunks_flatten {sizes : ℕ → ℕ} (positive : ∀ i, 0 < sizes i) {rest : List UInt8} {remaining : ℕ}
    (h : remaining ≤ rest.length) (i : ℕ) :
    (chunks sizes i rest remaining).map List.flatten = some (rest.take remaining) := by
  induction remaining using Nat.strongRecOn generalizing rest i with
  | ind remaining ih =>
    rw [chunks]
    split_ifs with hread
    · generalize hn : min (sizes i) (min (min chunkSize remaining) rest.length) = n at hread ⊢
      have hle : n ≤ remaining := by omega
      have hleft : checkedSub remaining n = some (remaining - n) := if_pos hle
      have hrest : remaining - n ≤ (rest.drop n).length := by
        rw [List.length_drop]
        omega
      have hlater := ih (remaining - n) (by omega) hrest (i + 1)
      obtain ⟨later, hsome, hflatten⟩ := Option.map_eq_some_iff.mp hlater
      split
      · rename_i left hleft'
        obtain rfl : remaining - n = left := by
          rw [hleft, Option.some.injEq] at hleft'
          exact hleft'
        rw [hsome, Option.map_some, Option.map_some, List.flatten_cons, hflatten, ← List.take_add,
          Nat.add_sub_cancel' hle]
      · rename_i hnone
        rw [hleft] at hnone
        exact absurd hnone (by simp)
    · have hsize := positive i
      have hchunk : 0 < chunkSize := by decide
      obtain rfl : remaining = 0 := by omega
      rfl

variable {content : List UInt8} {start stop : ℕ}

/-- A part of a file is delivered with its length. -/
lemma deliver_part (status : ℕ) (headers : List (String × Text)) (small : content.length < 2 ^ 64) (hle : start ≤ stop)
    (hlt : stop < content.length) :
    ∃ reply, deliver content false status headers start stop = some reply ∧ reply.status = status ∧
      reply.headers = headers ++ [("content-length", decimal (stop - start + 1))] ∧
      reply.Delivers ((content.drop start).take (stop - start + 1)) := by
  have hne : content.length ≠ 0 := by omega
  have hsub : checkedSub stop start = some (stop - start) := if_pos hle
  have hadd : checkedAdd (stop - start) 1 = some (stop - start + 1) := if_pos (by omega)
  simp only [deliver, if_neg hne, hsub, Option.bind_some, hadd, bind, Bool.false_or, pure]
  rw [if_neg (by simp)]
  split_ifs with hwhole
  · exact ⟨_, rfl, rfl, rfl, fun _ _ => rfl⟩
  · refine ⟨_, rfl, rfl, rfl, ?_⟩
    intro sizes positive
    exact chunks_flatten positive (by rw [List.length_drop]; omega) 0

/-- The whole file is, also an empty one. -/
lemma deliver_whole (status : ℕ) (headers : List (String × Text)) (small : content.length < 2 ^ 64) :
    ∃ reply, deliver content false status headers 0 (content.length - 1) = some reply ∧ reply.status = status ∧
      reply.headers = headers ++ [("content-length", decimal content.length)] ∧ reply.Delivers content := by
  by_cases hempty : content.length = 0
  · obtain rfl := List.length_eq_zero_iff.mp hempty
    exact ⟨.ready status (headers ++ [("content-length", decimal 0)]) [], rfl, rfl, rfl, fun _ _ => rfl⟩
  · have hpart := deliver_part status headers small (Nat.zero_le (content.length - 1)) (by omega)
    rwa [Nat.sub_zero, Nat.sub_add_cancel (by omega), List.drop_zero, List.take_length] at hpart

/-! ## Numbers of a range -/

lemma dash_not_mem_strip {text : Text} (h : '-' ∉ strip text) : '-' ∉ text := by
  intro hmem
  obtain ⟨before, after, rfl⟩ := List.append_of_mem hmem
  rw [strip_append_cons (by decide)] at h
  exact h (by simp)

lemma dash_not_mem_number {text : Text} {n : ℕ} (h : parseU64 text = some n) : '-' ∉ text := by
  intro hmem
  have hdigits : ∀ digits : Text,
      (readDigits 10 digits).bind (fun n => if n < 2 ^ 64 then some n else none) = some n → '-' ∉ digits := by
    intro digits hread hdash
    obtain ⟨v, hv, -⟩ := Option.bind_eq_some_iff.mp hread
    obtain ⟨d, hd⟩ := valueOfDigit_of_readDigits hv hdash
    have hnone : valueOfDigit '-' = none := by decide
    rw [hnone] at hd
    exact absurd hd (by simp)
  unfold parseU64 at h
  split at h
  · rename_i digits
    dsimp only at h
    split_ifs at h with hempty
    exact hdigits digits h (by simpa using hmem)
  · dsimp only at h
    split_ifs at h with hempty
    exact hdigits text h hmem

lemma dash_unique {before after before' after' : Text} (h : before ++ '-' :: after = before' ++ '-' :: after')
    (hfree : '-' ∉ before) (hfree' : '-' ∉ before') : before = before' ∧ after = after' := by
  have hsplit : splitOnce (before ++ '-' :: after) ['-'] = some (before, after) :=
    splitOnce_char_iff.mpr ⟨rfl, hfree⟩
  rw [splitOnce_char_iff.mpr ⟨h, hfree'⟩, Option.some.injEq, Prod.mk.injEq] at hsplit
  exact ⟨hsplit.1.symm, hsplit.2.symm⟩

lemma parseU64_nil : parseU64 [] = none := by decide

section Written

variable {before after : Text} {n : ℕ}

lemma written_suffix_iff (hfree : '-' ∉ before) {count : ℕ} :
    (RangeSpec.suffix count).Written (before ++ '-' :: after) ↔
      strip before = [] ∧ parseU64 (strip after) = some count := by
  constructor
  · rintro ⟨before', after', htext, hbefore, hafter⟩
    have hfree' : '-' ∉ before' := dash_not_mem_strip (by simp [hbefore])
    obtain ⟨rfl, rfl⟩ := dash_unique htext hfree hfree'
    exact ⟨hbefore, hafter⟩
  · rintro ⟨hbefore, hafter⟩
    exact ⟨before, after, rfl, hbefore, hafter⟩

lemma written_onward_iff (hfree : '-' ∉ before) {first : ℕ} :
    (RangeSpec.onward first).Written (before ++ '-' :: after) ↔
      parseU64 (strip before) = some first ∧ strip after = [] := by
  constructor
  · rintro ⟨before', after', htext, hbefore, hafter⟩
    obtain ⟨rfl, rfl⟩ := dash_unique htext hfree (dash_not_mem_strip (dash_not_mem_number hbefore))
    exact ⟨hbefore, hafter⟩
  · rintro ⟨hbefore, hafter⟩
    exact ⟨before, after, rfl, hbefore, hafter⟩

lemma written_span_iff (hfree : '-' ∉ before) {first last : ℕ} :
    (RangeSpec.span first last).Written (before ++ '-' :: after) ↔
      parseU64 (strip before) = some first ∧ parseU64 (strip after) = some last := by
  constructor
  · rintro ⟨before', after', htext, hbefore, hafter⟩
    obtain ⟨rfl, rfl⟩ := dash_unique htext hfree (dash_not_mem_strip (dash_not_mem_number hbefore))
    exact ⟨hbefore, hafter⟩
  · rintro ⟨hbefore, hafter⟩
    exact ⟨before, after, rfl, hbefore, hafter⟩

/-- The range in the two texts around a dash. -/
def readSpec (start stop : Text) : Option RangeSpec :=
  if start = [] then (parseU64 stop).map .suffix
  else (parseU64 start).bind fun first =>
    if stop = [] then some (.onward first) else (parseU64 stop).map fun last => .span first last

/-- A text is written as one range at most: that of its first dash. -/
lemma written_iff_readSpec (hfree : '-' ∉ before) {asked : RangeSpec} :
    asked.Written (before ++ '-' :: after) ↔ readSpec (strip before) (strip after) = some asked := by
  rw [readSpec]
  by_cases hstart : strip before = []
  · have hfirst : parseU64 (strip before) = none := by rw [hstart, parseU64_nil]
    rw [if_pos hstart]
    cases asked with
    | suffix count => simp [written_suffix_iff hfree, hstart]
    | onward first => simp [written_onward_iff hfree, hfirst]
    | span first last => simp [written_span_iff hfree, hfirst]
  · rw [if_neg hstart]
    cases hfirst : parseU64 (strip before) with
    | none =>
      cases asked with
      | suffix count => simp [written_suffix_iff hfree, hstart]
      | onward first => simp [written_onward_iff hfree, hfirst]
      | span first last => simp [written_span_iff hfree, hfirst]
    | some first =>
      by_cases hstop : strip after = []
      · cases asked with
        | suffix count => simp [written_suffix_iff hfree, hstart, hstop]
        | onward first => simp [written_onward_iff hfree, hfirst, hstop]
        | span first last => simp [written_span_iff hfree, hstop, parseU64_nil]
      · cases asked with
        | suffix count => simp [written_suffix_iff hfree, hstart, hstop]
        | onward first => simp [written_onward_iff hfree, hstop]
        | span first last => simp [written_span_iff hfree, hfirst, hstop, and_comm]

/-- The answer to positions that are there, or are not. -/
def answerAt : Option (ℕ × ℕ) → RangeAnswer
  | some (start, stop) => .part start stop
  | none => .unsatisfiable

lemma checkedRange_eq {len start stop : ℕ} :
    checkedRange len start stop = answerAt (if start < len ∧ start ≤ stop then some (start, stop) else none) := by
  rw [checkedRange]
  split_ifs with hbad hgood hgood
  · omega
  · rfl
  · rfl
  · omega

/-- No arithmetic goes out of bounds, and what is left is what the range names. -/
lemma rangeBetween_eq (start stop : Text) (n : ℕ) :
    rangeBetween start stop n = some (answerAt ((readSpec start stop).bind (RangeSpec.positions n))) := by
  rw [rangeBetween, readSpec]
  by_cases hstart : start = []
  · rw [if_pos hstart, if_pos hstart]
    cases hstop : parseU64 stop with
    | none => rfl
    | some suffix =>
      simp only [Option.map_some, Option.bind_some, RangeSpec.positions]
      by_cases hempty : suffix = 0 ∨ n = 0
      · rw [if_pos hempty, if_neg (by omega)]
        rfl
      · have hsub : checkedSub n 1 = some (n - 1) := if_pos (by omega)
        have hfirst : n - min suffix n = n - suffix := by omega
        rw [if_neg hempty, hsub, Option.map_some, checkedRange_eq, if_pos (by omega), if_pos (by omega), hfirst]
  · rw [if_neg hstart, if_neg hstart]
    cases hfirst : parseU64 start with
    | none => rfl
    | some first =>
      simp only [Option.bind_some]
      by_cases hstop : stop = []
      · simp only [if_pos hstop, Option.bind_some, RangeSpec.positions]
        rw [checkedRange_eq]
        congr 3
        exact propext (by omega)
      · rw [if_neg hstop, if_neg hstop]
        cases hlast : parseU64 stop with
        | none => rfl
        | some last =>
          simp only [Option.map_some, Option.bind_some, RangeSpec.positions]
          rw [checkedRange_eq]
          congr 3
          exact propext (by omega)

end Written

/-! ## Headers -/

section Headers

variable {v : HeaderValue} {n : ℕ}

lemma whiteSpace_of_visible_byte {b : UInt8} (h : visibleAscii b = true) :
    whiteSpace (Char.ofUInt8 b) = (Char.ofUInt8 b = ' ' || Char.ofUInt8 b = '\t') := by
  have hall : ∀ b : BitVec 8, visibleAscii ⟨b⟩ = true →
      whiteSpace (Char.ofUInt8 ⟨b⟩) = (Char.ofUInt8 ⟨b⟩ = ' ' || Char.ofUInt8 ⟨b⟩ = '\t') := by
    decide
  exact hall b.toBitVec h

lemma dropWhile_congr {p q : Char → Bool} {text : Text} (h : ∀ c ∈ text, p c = q c) :
    text.dropWhile p = text.dropWhile q := by
  induction text with
  | nil => rfl
  | cons c text ih =>
    obtain ⟨hc, htext⟩ := List.forall_mem_cons.mp h
    rw [List.dropWhile_cons, List.dropWhile_cons, hc, ih htext]

/-- Of visible text the white space around is that of HTTP. -/
lemma strip_raw (visible : v.Visible) : strip v.raw = trimOws v.raw := by
  have hsame : ∀ c ∈ v.raw, whiteSpace c = (c = ' ' || c = '\t') := by
    intro c hc
    obtain ⟨b, hb, rfl⟩ := List.mem_map.mp hc
    exact whiteSpace_of_visible_byte (visible b hb)
  have hleft := dropWhile_congr hsame
  unfold strip trimOws List.rdropWhile
  rw [hleft]
  congr 1
  apply dropWhile_congr
  intro c hc
  exact hsame c (List.dropWhile_sublist _ |>.subset (List.mem_reverse.mp hc))

lemma parseRange_single {header spec : Text} (h : strip header = "bytes=".toList ++ spec) (hcomma : ',' ∉ spec)
    (n : ℕ) :
    ∃ read : Option RangeSpec, (∀ asked : RangeSpec, asked.Written spec ↔ read = some asked) ∧
      parseRange header n = some (answerAt (read.bind (RangeSpec.positions n))) := by
  have hdrop : (strip header).dropPrefix? "bytes=".toList = some spec :=
    List.dropPrefix?_eq_some_iff.mpr ⟨_, h, beq_self_eq_true _⟩
  rw [parseRange, hdrop]
  dsimp only
  rw [if_neg hcomma]
  cases hsplit : splitOnce spec ['-'] with
  | none =>
    refine ⟨none, ?_, rfl⟩
    have hdash := splitOnce_char_eq_none_iff.mp hsplit
    intro asked
    refine iff_of_false ?_ (by simp)
    intro hwritten
    cases asked <;> obtain ⟨before, after, rfl, -⟩ := hwritten <;> exact hdash (by simp)
  | some parts =>
    obtain ⟨before, after⟩ := parts
    obtain ⟨rfl, hfree⟩ := splitOnce_char_iff.mp hsplit
    exact ⟨_, fun asked => written_iff_readSpec hfree, rangeBetween_eq _ _ n⟩

lemma parseRange_other {header : Text} (h : ∀ spec, strip header = "bytes=".toList ++ spec → ',' ∈ spec) (n : ℕ) :
    parseRange header n = some .whole := by
  rw [parseRange]
  split
  · rfl
  · rename_i spec hdrop
    obtain ⟨pre, htext, hpre⟩ := List.dropPrefix?_eq_some_iff.mp hdrop
    obtain rfl := eq_of_beq hpre
    rw [if_pos (h spec htext)]

/-- What is read in a single range that applies is what the request asks for. -/
lemma asksFor_answerAt {range : Option HeaderValue} {applies : Prop} {spec : Text} (hrange : range = some v)
    (hsingle : SingleRange v spec) (happlies : applies) {read : Option RangeSpec}
    (hread : ∀ asked : RangeSpec, asked.Written spec ↔ read = some asked) :
    AsksFor n range applies (answerAt (read.bind (RangeSpec.positions n))) := by
  cases hpositions : read.bind (RangeSpec.positions n) with
  | none =>
    refine .unsatisfiable hrange hsingle happlies ?_
    intro asked hwritten
    rwa [(hread asked).mp hwritten] at hpositions
  | some positions =>
    obtain ⟨asked, hasked, hpositions⟩ := Option.bind_eq_some_iff.mp hpositions
    exact .part hrange hsingle happlies ((hread asked).mpr hasked) hpositions

/-- The positions a range names are in the file. -/
lemma positions_bounds {asked : RangeSpec} {start stop : ℕ} (h : asked.positions n = some (start, stop)) :
    start ≤ stop ∧ stop < n := by
  cases asked with
  | suffix count =>
    simp only [RangeSpec.positions] at h
    split_ifs at h with hpos
    obtain ⟨rfl, rfl⟩ := Prod.mk.inj (Option.some.inj h)
    omega
  | onward first =>
    simp only [RangeSpec.positions] at h
    split_ifs at h with hpos
    obtain ⟨rfl, rfl⟩ := Prod.mk.inj (Option.some.inj h)
    omega
  | span first last =>
    simp only [RangeSpec.positions] at h
    split_ifs at h with hpos
    obtain ⟨rfl, rfl⟩ := Prod.mk.inj (Option.some.inj h)
    omega

end Headers

/-! ## Answers -/

section Answers

variable {dates : HttpDates} {file : OpenFile} {asked : AskedTexts}

lemma lookup_headers {name : String} (h : name ∉ ["etag", "last-modified", "accept-ranges", "cache-control", "vary",
    "content-encoding"]) : (file.headers dates).lookup name = none := by
  rw [List.lookup_eq_none_iff]
  intro header hheader
  simp only [List.mem_cons, List.not_mem_nil, or_false, not_or] at h
  obtain ⟨hetag, hmodified, haccept, hcache, hvary, hencoding⟩ := h
  simp only [OpenFile.headers, List.mem_append, List.mem_cons, List.not_mem_nil, or_false, List.mem_map,
    Option.mem_toList] at hheader
  rw [bne_iff_ne]
  obtain ((((rfl | rfl | rfl) | ⟨cache, -, rfl⟩) | hprecompressed) | ⟨encoding, -, rfl⟩) := hheader
  · exact hetag
  · exact hmodified
  · exact haccept
  · exact hcache
  · split_ifs at hprecompressed with hvaried
    · rw [List.mem_singleton.mp hprecompressed]
      exact hvary
    · exact absurd hprecompressed List.not_mem_nil
  · exact hencoding

/-- The range `respond` goes by. -/
def chosenRange (dates : HttpDates) (file : OpenFile) (asked : AskedTexts) : Option RangeAnswer :=
  match asked.range with
  | some header =>
    if asked.ifRange.all fun condition => decide (condition = file.etag ∨ condition = dates.format file.modified) then
      parseRange header file.content.length
    else some .whole
  | none => some .whole

/-- The answer to a GET is that of the range it goes by. -/
lemma respond_gives (small : file.content.length < 2 ^ 64) (changed : unchanged dates file asked = false)
    (get : asked.head = false) {answer : RangeAnswer} (hchosen : chosenRange dates file asked = some answer)
    (hbounds : ∀ start stop, answer = .part start stop → start ≤ stop ∧ stop < file.content.length) :
    ∃ reply, respond dates file asked = some reply ∧ reply.Gives file.content answer := by
  have hrespond : respond dates file asked = (chosenRange dates file asked).bind fun range => match range with
      | .part start stop => deliver file.content asked.head 206 (file.headers dates ++
          [("content-type", file.contentType)] ++ [("content-range", "bytes ".toList ++ decimal start ++
            '-' :: decimal stop ++ '/' :: decimal file.content.length)]) start stop
      | .whole => deliver file.content asked.head 200 (file.headers dates ++ [("content-type", file.contentType)]) 0
          (file.content.length - 1)
      | .unsatisfiable => some (.ready 416 (file.headers dates ++ [("content-type", file.contentType)] ++
          [("content-range", "bytes */".toList ++ decimal file.content.length)]) []) := by
    unfold respond chosenRange
    rw [changed, if_neg Bool.false_ne_true]
    cases asked.range with
    | none => rfl
    | some header =>
      dsimp only
      split_ifs with happlies
      · rfl
      · rfl
  have hlength : (file.headers dates).lookup "content-length" = none := lookup_headers (by decide)
  have hrange : (file.headers dates).lookup "content-range" = none := lookup_headers (by decide)
  rw [hrespond, hchosen, Option.bind_some, get]
  cases answer with
  | whole =>
    obtain ⟨reply, hreply, hstatus, hheaders, hbody⟩ := deliver_whole 200
      (file.headers dates ++ [("content-type", file.contentType)]) small
    refine ⟨reply, hreply, hstatus, ?_, ?_, hbody⟩
    · rw [hheaders, List.lookup_append, List.lookup_append, hlength]
      rfl
    · rw [hheaders, List.lookup_append, List.lookup_append, hrange]
      rfl
  | part start stop =>
    obtain ⟨hle, hlt⟩ := hbounds start stop rfl
    obtain ⟨reply, hreply, hstatus, hheaders, hbody⟩ := deliver_part 206 (file.headers dates ++
      [("content-type", file.contentType)] ++ [("content-range", "bytes ".toList ++ decimal start ++
        '-' :: decimal stop ++ '/' :: decimal file.content.length)]) small hle hlt
    refine ⟨reply, hreply, hle, hlt, hstatus, ?_, ?_, hbody⟩
    · rw [hheaders, List.lookup_append, List.lookup_append, List.lookup_append, hrange]
      rfl
    · rw [hheaders, List.lookup_append, List.lookup_append, List.lookup_append, hlength]
      rfl
  | unsatisfiable =>
    refine ⟨_, rfl, rfl, ?_⟩
    rw [FileReply.headers, List.lookup_append, List.lookup_append, hrange]
    rfl

/-- A reply that sends the whole file is no other reply. -/
lemma FileReply.Gives.eq_whole {reply : FileReply} {content : List UInt8} {answer : RangeAnswer}
    (h : reply.Gives content answer) (hwhole : reply.Gives content .whole) : answer = .whole := by
  have hstatus : reply.status = 200 := hwhole.1
  cases answer with
  | whole => rfl
  | part start stop =>
    have hpart : reply.status = 206 := h.2.2.1
    omega
  | unsatisfiable =>
    have hnone : reply.status = 416 := h.1
    omega

lemma AsksFor.of_not {n : ℕ} {range : Option HeaderValue} {applies : Prop} {answer : RangeAnswer}
    (h : AsksFor n range applies answer) (hnot : ∀ v ∈ range, ∀ spec, SingleRange v spec → ¬ applies) :
    answer = .whole := by
  cases h with
  | whole => rfl
  | part hrange hsingle happlies => exact absurd happlies (hnot _ hrange _ hsingle)
  | unsatisfiable hrange hsingle happlies => exact absurd happlies (hnot _ hrange _ hsingle)

lemma AsksFor.of_single {n : ℕ} {v : HeaderValue} {spec : Text} {applies : Prop} {answer : RangeAnswer}
    (h : AsksFor n (some v) applies answer) (hsingle : SingleRange v spec) (happlies : applies) : answer ≠ .whole := by
  rintro rfl
  cases h with
  | whole hnot => exact hnot v rfl spec hsingle happlies

lemma AsksFor.bounds {n : ℕ} {range : Option HeaderValue} {applies : Prop} {start stop : ℕ}
    (h : AsksFor n range applies (.part start stop)) : start ≤ stop ∧ stop < n := by
  cases h with
  | part hrange hsingle happlies hwritten hpositions => exact positions_bounds hpositions

lemma visible_etagFor {len : ℕ} {modified : ℤ} {c : Char} (h : c ∈ etagFor len modified) : visibleChar c := by
  have hdigits : ∀ n, ∀ c ∈ Nat.toDigits 16 n, visibleChar c := by
    intro n c hc
    obtain ⟨d, hd, rfl⟩ := mem_toDigits (by decide) (by decide) hc
    have hall : ∀ d : Fin 16, visibleChar (Nat.digitChar d) := by decide
    exact hall ⟨d, hd⟩
  have hmarks : ∀ c ∈ "W/\"".toList ++ ['-', '"'], visibleChar c := by
    intro c hc
    exact of_decide_eq_true (List.all_eq_true.mp (by decide :
      (("W/\"".toList ++ ['-', '"']).all fun c => decide (visibleChar c)) = true) c hc)
  simp only [etagFor, List.mem_append, List.mem_cons, List.not_mem_nil, or_false] at h
  rcases h with ((h | h) | rfl | h) | rfl
  · exact hmarks c (List.mem_append_left _ h)
  · exact hdigits _ c h
  · exact hmarks _ (by simp)
  · exact hdigits _ c h
  · exact hmarks _ (by simp)

lemma visible_etag {c : Char} (h : c ∈ file.etag) : visibleChar c := by
  unfold OpenFile.etag at h
  cases hencoding : file.encoding with
  | none =>
    rw [hencoding] at h
    exact visible_etagFor h
  | some encoding =>
    simp only [hencoding, List.mem_append, List.mem_cons] at h
    rcases h with (h | rfl | h) | h
    · exact visible_etagFor (List.mem_of_mem_take h)
    · decide
    · cases encoding with
      | brotli =>
        have hall : (Encoding.brotli.token.all fun c => decide (visibleChar c)) = true := by decide
        exact of_decide_eq_true (List.all_eq_true.mp hall c h)
      | gzip =>
        have hall : (Encoding.gzip.token.all fun c => decide (visibleChar c)) = true := by decide
        exact of_decide_eq_true (List.all_eq_true.mp hall c h)
    · exact visible_etagFor (List.mem_of_mem_drop h)

/-- A value that names the file is visible. -/
lemma visible_of_names {v : HeaderValue} (h : v.raw = file.etag ∨ v.raw = dates.format file.modified) : v.Visible := by
  intro b hb
  have hmem : Char.ofUInt8 b ∈ v.raw := List.mem_map_of_mem hb
  have hchar : visibleChar (Char.ofUInt8 b) := by
    rcases h with h | h
    · exact visible_etag (h ▸ hmem)
    · exact dates.ascii _ _ (h ▸ hmem)
  have hall : ∀ b : BitVec 8, visibleChar (Char.ofUInt8 ⟨b⟩) → visibleAscii ⟨b⟩ = true := by decide
  exact hall b.toBitVec hchar

variable {headers : HeaderMap} {encodings : Bool}

/-- Without a `Range` that is text the whole file is sent. -/
lemma chosenRange_whole (h : headers.header "range" = none) :
    chosenRange dates file (.of headers false encodings) = some .whole := by
  rw [chosenRange, AskedTexts.of, h]

/-- A visible `Range` is gone by unless a visible `If-Range` names another file. -/
lemma chosenRange_visible (dates : HttpDates) (file : OpenFile) (encodings : Bool) {v : HeaderValue}
    (hrange : headers.get "range" = some v) (hvisible : v.Visible) :
    chosenRange dates file (.of headers false encodings) =
      if ∀ w ∈ headers.get "if-range", w.Visible → w.raw = file.etag ∨ w.raw = dates.format file.modified then
        parseRange v.raw file.content.length else some .whole := by
  have htext : headers.header "range" = some v.raw := by
    rw [HeaderMap.header, hrange, Option.bind_some, HeaderValue.text_of_visible hvisible]
  rw [chosenRange, AskedTexts.of, htext]
  dsimp only
  rw [HeaderMap.header]
  cases hif : headers.get "if-range" with
  | none => simp
  | some w =>
    by_cases hw : w.Visible
    · simp [HeaderValue.text_of_visible hw, hw]
    · simp [HeaderValue.text_of_not_visible hw, hw]

/-- A request whose `Range` or `If-Range` is taken for absent, with an answer that depends on it. -/
def Overlooked (dates : HttpDates) (file : OpenFile) (range ifRange : Option HeaderValue) : Prop :=
  ∃ v spec, range = some v ∧ SingleRange v spec ∧
    (¬ v.Visible ∧ Applicable dates file ifRange ∨ v.Visible ∧ ∃ w, ifRange = some w ∧ ¬ w.Visible)

/-- What is overlooked is not answered as it is asked. -/
lemma not_gives_of_overlooked (small : file.content.length < 2 ^ 64)
    (changed : unchanged dates file (.of headers false encodings) = false)
    (h : Overlooked dates file (headers.get "range") (headers.get "if-range")) {reply : FileReply}
    {answer : RangeAnswer} (hreply : respond dates file (.of headers false encodings) = some reply)
    (hasks : AsksFor file.content.length (headers.get "range") (Applicable dates file (headers.get "if-range"))
      answer) : ¬ reply.Gives file.content answer := by
  intro hanswer
  obtain ⟨v, spec, hrange, hsingle, hoverlooked⟩ := h
  rw [hrange] at hasks
  rcases hoverlooked with ⟨hv, happlies⟩ | ⟨hv, w, hif, hw⟩
  · -- The `Range` is taken for absent.
    have hnone : headers.header "range" = none := by
      rw [HeaderMap.header, hrange, Option.bind_some, HeaderValue.text_of_not_visible hv]
    obtain ⟨reply', hreply', hwhole⟩ := respond_gives small changed rfl (chosenRange_whole hnone) (by simp)
    obtain rfl : reply' = reply := Option.some.inj (hreply'.symm.trans hreply)
    exact hasks.of_single hsingle happlies (hanswer.eq_whole hwhole)
  · -- The `If-Range` is.
    have hnot : ¬ Applicable dates file (headers.get "if-range") := by
      intro happlies
      exact hw (visible_of_names (happlies w hif))
    obtain rfl := hasks.of_not fun _ _ _ _ => hnot
    have hlet : ∀ w ∈ headers.get "if-range", w.Visible →
        w.raw = file.etag ∨ w.raw = dates.format file.modified := by
      intro w' hw' hvisible
      rw [hif] at hw'
      exact absurd hvisible (Option.some.inj hw' ▸ hw)
    obtain ⟨read, hread, hparse⟩ := parseRange_single ((strip_raw hv).trans hsingle.1) hsingle.2 file.content.length
    have hchosen := chosenRange_visible dates file encodings hrange hv
    rw [if_pos hlet, hparse] at hchosen
    have hsome : AsksFor file.content.length (some v) True (answerAt (read.bind (RangeSpec.positions _))) :=
      asksFor_answerAt rfl hsingle trivial hread
    obtain ⟨reply', hreply', hpart⟩ := respond_gives small changed rfl hchosen fun start stop h => (h ▸ hsome).bounds
    obtain rfl : reply' = reply := Option.some.inj (hreply'.symm.trans hreply)
    exact hsome.of_single hsingle trivial (hpart.eq_whole hanswer)

/-- If nothing is overlooked, `respond` goes by what the request asks for. -/
lemma chosenRange_asked (hseen : ¬ Overlooked dates file (headers.get "range") (headers.get "if-range")) :
    ∃ answer, chosenRange dates file (.of headers false encodings) = some answer ∧
      AsksFor file.content.length (headers.get "range") (Applicable dates file (headers.get "if-range")) answer := by
  cases hrange : headers.get "range" with
  | none =>
    have hnone : headers.header "range" = none := by rw [HeaderMap.header, hrange, Option.bind_none]
    exact ⟨.whole, chosenRange_whole hnone, .whole fun _ hv => absurd hv (Option.not_mem_none _)⟩
  | some v =>
    by_cases hv : v.Visible
    · have hchosen := chosenRange_visible dates file encodings hrange hv
      by_cases hsingle : ∃ spec, SingleRange v spec
      · obtain ⟨spec, hsingle⟩ := hsingle
        have hif : ∀ w ∈ headers.get "if-range", w.Visible := by
          intro w hw
          by_contra hnot
          exact hseen ⟨v, spec, hrange, hsingle, .inr ⟨hv, w, hw, hnot⟩⟩
        by_cases happlies : Applicable dates file (headers.get "if-range")
        · obtain ⟨read, hread, hparse⟩ := parseRange_single ((strip_raw hv).trans hsingle.1) hsingle.2
            file.content.length
          rw [if_pos fun w hw _ => happlies w hw, hparse] at hchosen
          exact ⟨_, hchosen, asksFor_answerAt rfl hsingle happlies hread⟩
        · rw [if_neg fun hlet => happlies fun w hw => hlet w hw (hif w hw)] at hchosen
          exact ⟨_, hchosen, .whole fun _ _ _ _ => happlies⟩
      · have hother : parseRange v.raw file.content.length = some .whole := by
          apply parseRange_other
          intro spec hspec
          by_contra hcomma
          exact hsingle ⟨spec, (strip_raw hv).symm.trans hspec, hcomma⟩
        rw [hother, ite_self] at hchosen
        refine ⟨_, hchosen, .whole ?_⟩
        intro v' hv' spec hspec
        exact absurd ⟨spec, Option.some.inj hv' ▸ hspec⟩ hsingle
    · have hnone : headers.header "range" = none := by
        rw [HeaderMap.header, hrange, Option.bind_some, HeaderValue.text_of_not_visible hv]
      refine ⟨_, chosenRange_whole hnone, .whole ?_⟩
      intro v' hv' spec hspec happlies
      obtain rfl := Option.some.inj hv'
      exact hseen ⟨v, spec, hrange, hspec, .inl ⟨hv, happlies⟩⟩

end Answers

/-- The answer to a GET that is not a 304 is what its headers ask for, if and only if neither `Range` nor `If-Range`
is overlooked. -/
theorem range_exact_iff (dates : HttpDates) (file : OpenFile) (headers : HeaderMap) (encodings : Bool)
    (small : file.content.length < 2 ^ 64) (changed : unchanged dates file (.of headers false encodings) = false) :
    (∃ reply answer, respond dates file (.of headers false encodings) = some reply ∧
      AsksFor file.content.length (headers.get "range") (Applicable dates file (headers.get "if-range")) answer ∧
      reply.Gives file.content answer) ↔
      ¬ Overlooked dates file (headers.get "range") (headers.get "if-range") := by
  constructor
  · rintro ⟨reply, answer, hreply, hasks, hanswer⟩ hoverlooked
    exact not_gives_of_overlooked small changed hoverlooked hreply hasks hanswer
  · intro hseen
    obtain ⟨answer, hchosen, hasks⟩ := chosenRange_asked hseen
    obtain ⟨reply, hreply, hanswer⟩ := respond_gives small changed rfl hchosen fun start stop h => (h ▸ hasks).bounds
    exact ⟨reply, answer, hreply, hasks, hanswer⟩

/-! ## One file -/

/-- The dates as they are at the epoch. -/
def epochDates : HttpDates where
  format _ := "Thu, 01 Jan 1970 00:00:00 GMT".toList
  parse _ := none
  ascii := by
    intro time c hc
    have hall : ("Thu, 01 Jan 1970 00:00:00 GMT".toList.all fun c => decide (visibleChar c)) = true := by decide
    exact of_decide_eq_true (List.all_eq_true.mp hall c hc)

/-- A file of two bytes, last written at the epoch. -/
def twoBytes : OpenFile := ⟨[104, 105], 0, none, "text/plain; charset=utf-8".toList, none, false⟩

/-- `bytes=0-0`. -/
def firstByteRange : HeaderValue := ⟨[98, 121, 116, 101, 115, 61, 48, 45, 48], List.all_eq_true.mp (by decide)⟩

/-- A quoted tag with a byte that is not ASCII. -/
def otherTag : HeaderValue := ⟨[34, 233, 34], List.all_eq_true.mp (by decide)⟩

/-- The first byte of the file is sent. -/
theorem range_exact_first : (∃ reply answer,
    respond epochDates twoBytes (.of [("range", firstByteRange)] false false) = some reply ∧
      AsksFor 2 (some firstByteRange) (Applicable epochDates twoBytes none) answer ∧ reply.Gives [104, 105] answer) ↔
      ¬ Overlooked epochDates twoBytes (some firstByteRange) none :=
  range_exact_iff epochDates twoBytes [("range", firstByteRange)] false (by decide) rfl

/-- It is also sent if `If-Range` is a tag that is not the file's, but no ASCII. -/
theorem range_of_other_tag : unchanged epochDates twoBytes
      (.of [("range", firstByteRange), ("if-range", otherTag)] false false) = false ∧
    ¬ Applicable epochDates twoBytes (some otherTag) ∧
    (respond epochDates twoBytes (.of [("range", firstByteRange), ("if-range", otherTag)] false false)).map
      FileReply.status = some 206 ∧
    ¬ ∃ reply answer,
      respond epochDates twoBytes (.of [("range", firstByteRange), ("if-range", otherTag)] false false) = some reply ∧
      AsksFor 2 (some firstByteRange) (Applicable epochDates twoBytes (some otherTag)) answer ∧
      reply.Gives [104, 105] answer := by
  have hvisible : firstByteRange.Visible := List.all_eq_true.mp (by decide)
  have hother : ¬ otherTag.Visible := fun h => absurd (h 233 (by simp [otherTag])) (by decide)
  have hsingle : SingleRange firstByteRange "0-0".toList := ⟨by decide, by decide⟩
  have hasked : AskedTexts.of [("range", firstByteRange), ("if-range", otherTag)] false false =
      ⟨none, none, some firstByteRange.raw, none, none, false, false⟩ := by
    have hget : HeaderMap.get [("range", firstByteRange), ("if-range", otherTag)] "range" = some firstByteRange := by
      simp [HeaderMap.get, HeaderMap.getAll]
    have hget' : HeaderMap.get [("range", firstByteRange), ("if-range", otherTag)] "if-range" = some otherTag := by
      simp [HeaderMap.get, HeaderMap.getAll]
    have hrange : HeaderMap.header [("range", firstByteRange), ("if-range", otherTag)] "range" =
        some firstByteRange.raw := by
      rw [HeaderMap.header, hget, Option.bind_some, HeaderValue.text_of_visible hvisible]
    have hif : HeaderMap.header [("range", firstByteRange), ("if-range", otherTag)] "if-range" = none := by
      rw [HeaderMap.header, hget', Option.bind_some, HeaderValue.text_of_not_visible hother]
    rw [AskedTexts.of, hrange, hif]
    rfl
  refine ⟨rfl, ?_, ?_, ?_⟩
  · intro happlies
    exact hother (visible_of_names (happlies otherTag rfl))
  · rw [hasked]
    decide
  · rintro ⟨reply, answer, hreply, hasks, hanswer⟩
    have hoverlooked : Overlooked epochDates twoBytes (some firstByteRange) (some otherTag) :=
      ⟨firstByteRange, _, rfl, hsingle, .inr ⟨hvisible, otherTag, rfl, hother⟩⟩
    have hsmall : twoBytes.content.length < 2 ^ 64 := by decide
    exact not_gives_of_overlooked hsmall rfl hoverlooked hreply hasks hanswer

end Oxbrook
