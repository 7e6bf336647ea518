import Mathlib
import Oxbrook.Files.Negotiation
import Oxbrook.Origins.Vary
import Oxbrook.Replies.Once

/-!
# Compressed replies

`src/compress.rs`, and the end of `handle` in `src/server.rs`, which makes the response of a handler's reply.  The
same reply goes out as the handler wrote it, or in one of two codings, as the client's `Accept-Encoding` has it.

`answers_name_encoding` says that a cache is told of this wherever it makes a difference, `answer_decodes` that who
takes the coding off has the reply of the handler, and `strong_tag_iff` when a tag that promises the handler's bytes
goes out with other bytes.
-/

namespace Oxbrook.Compress

open Attempt Preference

/-! ## Configuration -/

/-- `CompressionTuple`. -/
structure CompressionTuple where
  minSize : ℕ
  gzipLevel : ℕ
  brotliQuality : ℕ
  encodings : List Text

/-- `Compression` of the server, as `build` makes it. -/
structure Compression where
  minSize : ℕ
  gzipLevel : ℕ
  brotliQuality : ℕ
  prefer : List Encoding
  offers : prefer ≠ []
  distinct : prefer.Nodup
  gzip : 1 ≤ gzipLevel ∧ gzipLevel ≤ 9
  brotli : brotliQuality ≤ 11

/-- Why a configuration is refused. -/
inductive BuildError
  | unknown (name : Text)
  | nothing
  | gzipLevel (level : ℕ)
  | brotliQuality (quality : ℕ)
  deriving DecidableEq

/-- The message of an error, with `format!("\x7b:?\x7d")` as `debug`. -/
def BuildError.text (debug : Text → Text) : BuildError → Text
  | .unknown name => "unknown content coding ".toList ++ debug name
  | .nothing => "no content codings to offer".toList
  | .gzipLevel level => "gzip level ".toList ++ Nat.toDigits 10 level ++ " is outside 1..=9".toList
  | .brotliQuality quality => "brotli quality ".toList ++ Nat.toDigits 10 quality ++ " is outside 0..=11".toList

/-- One name of the loop of `build`. -/
def offer (prefer : List Encoding) (name : Text) : Except BuildError (List Encoding) :=
  match Encoding.parse name with
  | none => .error (.unknown name)
  | some encoding => .ok (if encoding ∈ prefer then prefer else prefer ++ [encoding])

/-- The loop of `build`. -/
def offered (prefer : List Encoding) : List Text → Except BuildError (List Encoding)
  | [] => .ok prefer
  | name :: names => (offer prefer name).bind fun prefer => offered prefer names

lemma nodup_offered {prefer : List Encoding} {names : List Text} {all : List Encoding} (distinct : prefer.Nodup)
    (h : offered prefer names = .ok all) : all.Nodup := by
  induction names generalizing prefer with
  | nil => exact Except.ok.inj h ▸ distinct
  | cons name names ih =>
    rw [offered, offer] at h
    split at h
    · cases h
    · rename_i encoding _
      refine ih ?_ h
      split_ifs with hmem
      · exact distinct
      · rw [List.nodup_append]
        refine ⟨distinct, List.nodup_singleton _, ?_⟩
        rintro a ha b hb rfl
        exact hmem (List.mem_singleton.mp hb ▸ ha)

/-- `Compression::build`. -/
def Compression.build (spec : CompressionTuple) : Except BuildError Compression :=
  match found : offered [] spec.encodings with
  | .error error => .error error
  | .ok prefer =>
    if offers : prefer = [] then .error .nothing
    else if gzip : 1 ≤ spec.gzipLevel ∧ spec.gzipLevel ≤ 9 then
      if brotli : 11 < spec.brotliQuality then .error (.brotliQuality spec.brotliQuality)
      else .ok ⟨spec.minSize, spec.gzipLevel, spec.brotliQuality, prefer, offers,
        nodup_offered List.nodup_nil found, gzip, Nat.le_of_not_lt brotli⟩
    else .error (.gzipLevel spec.gzipLevel)

/-- The fields of `Compression` in Python. -/
structure CompressionSettings where
  minSize : ℤ
  encodings : List Text
  gzipLevel : ℤ
  brotliQuality : ℤ

/-- The `ValueError` of a field. -/
inductive SettingsError
  | unknown (encodings : List Text)
  | nothing
  | negative
  | gzipLevel (level : ℤ)
  | brotliQuality (quality : ℤ)
  deriving DecidableEq

/-- `_KNOWN`. -/
def known : List Text := ["br".toList, "gzip".toList]

local instance lawfulCoding : LawfulBEq Text := inferInstance

/-- `Compression.__post_init__`, of fields that have their types. -/
def CompressionSettings.postInit (py : Lowering) (s : CompressionSettings) : Except SettingsError CompressionSettings :=
  let encodings := s.encodings.map py.lower
  let unknown := encodings.filter fun e => e ∉ known
  if unknown ≠ [] then .error (.unknown unknown)
  else if encodings = [] then .error .nothing
  else if s.minSize < 0 then .error .negative
  else if ¬ (1 ≤ s.gzipLevel ∧ s.gzipLevel ≤ 9) then .error (.gzipLevel s.gzipLevel)
  else if ¬ (0 ≤ s.brotliQuality ∧ s.brotliQuality ≤ 11) then .error (.brotliQuality s.brotliQuality)
  else .ok { s with encodings := encodings.eraseDups }

/-- `Compression.as_spec`. -/
def CompressionSettings.asSpec (s : CompressionSettings) : CompressionTuple :=
  ⟨s.minSize.toNat, s.gzipLevel.toNat, s.brotliQuality.toNat, s.encodings⟩

lemma build_of_offered {spec : CompressionTuple} {prefer : List Encoding} (h : offered [] spec.encodings = .ok prefer)
    (offers : prefer ≠ []) (gzip : 1 ≤ spec.gzipLevel ∧ spec.gzipLevel ≤ 9) (brotli : spec.brotliQuality ≤ 11) :
    ∃ c, Compression.build spec = .ok c ∧ c.minSize = spec.minSize ∧ c.gzipLevel = spec.gzipLevel ∧
      c.brotliQuality = spec.brotliQuality ∧ c.prefer = prefer := by
  unfold Compression.build
  split
  · rename_i error herror
    rw [herror] at h
    cases h
  · rename_i found hfound
    rw [hfound] at h
    obtain rfl := Except.ok.inj h
    rw [dif_neg offers, dif_pos gzip, dif_neg (Nat.not_lt.mpr brotli)]
    exact ⟨_, rfl, rfl, rfl, rfl, rfl⟩

lemma nodup_eraseDups {α : Type} [BEq α] [LawfulBEq α] (l : List α) : l.eraseDups.Nodup := by
  induction h : l.length using Nat.strong_induction_on generalizing l with
  | _ n ih =>
    cases l with
    | nil => exact List.nodup_nil
    | cons a l =>
      rw [List.eraseDups_cons, List.nodup_cons]
      constructor
      · rw [List.mem_eraseDups, List.mem_filter]
        simp
      · apply ih _ _ _ rfl
        have hle := List.length_filter_le (fun b => !b == a) l
        rw [List.length_cons] at h
        omega

lemma offered_known {prefer : List Encoding} {names : List Text} (hknown : ∀ name ∈ names, name ∈ known)
    (hnew : (prefer.map Encoding.token ++ names).Nodup) :
    ∃ all, offered prefer names = .ok all ∧ all.map Encoding.token = prefer.map Encoding.token ++ names := by
  induction names generalizing prefer with
  | nil => exact ⟨prefer, rfl, (List.append_nil _).symm⟩
  | cons name names ih =>
    rw [List.forall_mem_cons] at hknown
    have hparse : ∃ encoding, Encoding.parse name = some encoding ∧ encoding.token = name := by
      obtain rfl | hname := List.mem_cons.mp hknown.1
      · exact ⟨.brotli, by decide, rfl⟩
      · obtain rfl := List.mem_singleton.mp hname
        exact ⟨.gzip, by decide, rfl⟩
    obtain ⟨encoding, hencoding, rfl⟩ := hparse
    have hnot : encoding ∉ prefer := by
      intro hmem
      exact (List.nodup_append.mp hnew).2.2 _ (List.mem_map_of_mem hmem) _ List.mem_cons_self rfl
    have hlater : ((prefer ++ [encoding]).map Encoding.token ++ names).Nodup := by
      rwa [List.map_append, List.append_assoc]
    obtain ⟨all, hall, htokens⟩ := ih hknown.2 hlater
    refine ⟨all, ?_, ?_⟩
    · rw [offered, offer, hencoding]
      dsimp only
      rw [if_neg hnot]
      exact hall
    · rw [htokens, List.map_append, List.append_assoc]
      rfl

/-- **What Python accepts, the server builds**, with the same codings in the same order.  A `min_size` is any number
here; the `usize` of the server ends at `2^64 - 1`. -/
theorem build_asSpec {py : Lowering} {s s' : CompressionSettings} (h : s.postInit py = .ok s') :
    ∃ c, Compression.build s'.asSpec = .ok c ∧ (c.minSize : ℤ) = s.minSize ∧ (c.gzipLevel : ℤ) = s.gzipLevel ∧
      (c.brotliQuality : ℤ) = s.brotliQuality ∧
      c.prefer.map Encoding.token = (s.encodings.map py.lower).eraseDups := by
  unfold CompressionSettings.postInit at h
  dsimp only at h
  split_ifs at h with hunknown hempty hsize hgzip hbrotli
  obtain rfl := Except.ok.inj h
  rw [not_not] at hunknown
  have hknown : ∀ name ∈ (s.encodings.map py.lower).eraseDups, name ∈ known := by
    intro name hname
    by_contra hnot
    have hmem : name ∈ (s.encodings.map py.lower).filter fun e => e ∉ known :=
      List.mem_filter.mpr ⟨List.mem_eraseDups.mp hname, decide_eq_true hnot⟩
    rw [hunknown] at hmem
    exact absurd hmem List.not_mem_nil
  have hnodup : (([] : List Encoding).map Encoding.token ++ (s.encodings.map py.lower).eraseDups).Nodup :=
    nodup_eraseDups _
  obtain ⟨prefer, hprefer, htokens⟩ := offered_known hknown hnodup
  have hoffers : prefer ≠ [] := by
    rintro rfl
    apply hempty
    rw [List.eq_nil_iff_forall_not_mem]
    intro name hname
    have hmem := List.mem_eraseDups.mpr hname
    rw [← List.nil_append (List.eraseDups _)] at hmem
    exact absurd (htokens ▸ hmem) List.not_mem_nil
  have hlevels : 1 ≤ s.gzipLevel.toNat ∧ s.gzipLevel.toNat ≤ 9 ∧ s.brotliQuality.toNat ≤ 11 := by omega
  obtain ⟨c, hbuild, hmin, hlevel, hquality, hprefers⟩ := @build_of_offered
    ⟨s.minSize.toNat, s.gzipLevel.toNat, s.brotliQuality.toNat, (s.encodings.map py.lower).eraseDups⟩ _ hprefer hoffers
    ⟨hlevels.1, hlevels.2.1⟩ hlevels.2.2
  refine ⟨c, hbuild, ?_, ?_, ?_, ?_⟩
  · rw [hmin]
    exact Int.toNat_of_nonneg (not_lt.mp hsize)
  · rw [hlevel]
    exact Int.toNat_of_nonneg (le_trans zero_le_one hgzip.1)
  · rw [hquality]
    exact Int.toNat_of_nonneg hbrotli.1
  · rw [hprefers, htokens]
    rfl

/-! ## What becomes of a reply -/

inductive Plan
  | skip
  | identity
  | encode (encoding : Encoding)
  deriving DecidableEq

def Plan.encodes : Plan → Bool
  | .encode _ => true
  | _ => false

/-- The subtypes of `application` that are compressed. -/
def applications : List Text :=
  ["json".toList, "xml".toList, "javascript".toList, "x-javascript".toList, "ecmascript".toList, "wasm".toList,
    "x-ndjson".toList, "ndjson".toList, "jsonl".toList, "yaml".toList, "x-yaml".toList, "toml".toList,
    "graphql".toList, "x-www-form-urlencoded".toList, "rtf".toList]

/-- `compressible`. -/
def compressible (contentType : Text) : Bool :=
  match splitOnce (lowercase (strip ((contentType.splitOn ';').headD []))) ['/'] with
  | none => false
  | some (kind, subtype) =>
    if kind = "text".toList then subtype ≠ "event-stream".toList
    else "+json".toList <:+ subtype || "+xml".toList <:+ subtype || "+yaml".toList <:+ subtype ||
      (kind = "application".toList && subtype ∈ applications)

def contentEncoding : String := "content-encoding"
def acceptEncoding : String := "accept-encoding"
def etagName : String := "etag"

/-- A name in lower case. -/
def lowerName (name : String) : String := String.ofList (lowercase name.toList)

/-- A header of the handler that names a coding. -/
def namesCoding (header : String × String) : Bool := lowerName header.1 = contentEncoding

/-- A header of the handler with which its reply is left as it is. -/
def optsOut (header : String × String) : Bool :=
  namesCoding header || (lowerName header.1 = "cache-control" &&
    (header.2.toList.splitOn ',').any fun directive => lowercase (strip directive) = "no-transform".toList)

/-- `Compression::plan`. -/
def Compression.plan (c : Compression) (accept : Option HeaderValue) (status : ℕ) (contentType : String)
    (headers : Headers) (len : ℕ) : Plan :=
  if status < 200 ∨ status = 204 ∨ status = 206 ∨ status = 304 then .skip
  else if len < c.minSize ∨ compressible contentType.toList = false then .skip
  else if headers.any optsOut then .skip
  else match (accept.bind HeaderValue.text).bind fun accept => negotiate accept c.prefer with
    | some encoding => .encode encoding
    | none => .identity

/-! ## Coding -/

/-- What is known of `flate2` and `brotli`, and of a client that has them: in the ranges that they document, what one
has compressed the other takes apart again. -/
structure Codec where
  gzip : ℕ → List UInt8 → List UInt8
  brotli : ℕ → ℕ → List UInt8 → List UInt8
  ungzip : List UInt8 → Option (List UInt8)
  unbrotli : List UInt8 → Option (List UInt8)
  ungzip_gzip : ∀ level ≤ 9, ∀ body, ungzip (gzip level body) = some body
  unbrotli_brotli : ∀ quality ≤ 11, ∀ window, 10 ≤ window → window ≤ 24 → ∀ body,
    unbrotli (brotli quality window body) = some body

/-- `window`. -/
def window (len : ℕ) : ℕ := max 10 (min (Nat.log 2 (max len 1) + 1) 22)

/-- `Compression::encode`. -/
def Compression.encoded (c : Compression) (codec : Codec) (encoding : Encoding) (body : List UInt8) : List UInt8 :=
  match encoding with
  | .gzip => codec.gzip c.gzipLevel body
  | .brotli => codec.brotli c.brotliQuality (window body.length) body

/-- One that leaves everything as it is. -/
instance : Inhabited Codec where
  default :=
    { gzip := fun _ body => body
      brotli := fun _ _ body => body
      ungzip := some
      unbrotli := some
      ungzip_gzip := fun _ _ _ => rfl
      unbrotli_brotli := fun _ _ _ _ _ _ => rfl }

/-- A client that takes a coding off. -/
def Codec.decode (codec : Codec) : Encoding → List UInt8 → Option (List UInt8)
  | .gzip => codec.ungzip
  | .brotli => codec.unbrotli

/-! ## Headers -/

/-- A value of `Vary` that covers `Accept-Encoding`. -/
def mentions (value : HeaderValue) : Bool :=
  match value.text with
  | none => false
  | some text => (text.splitOn ',').any fun item =>
      strip item = ['*'] || lowercase (strip item) = acceptEncoding.toList

/-- `vary`. -/
def vary (headers : HeaderMap) : HeaderMap :=
  if (headers.getAll varyName).any mentions then headers
  else headers.append varyName (staticValue "Accept-Encoding")

/-- `weaken_etag`. -/
def weakenEtag (headers : HeaderMap) : HeaderMap :=
  match headers.get etagName with
  | none => headers
  | some tag =>
    match tag.text with
    | none => headers
    | some text =>
      if "W/".toList <+: text then headers
      else headers.insertSome etagName (HeaderValue.fromStr ("W/".toList ++ text))

/-- `HeaderValue::from_static(encoding.token())`. -/
def tokenValue (encoding : Encoding) : HeaderValue := staticValue (String.ofList encoding.token)

/-- `encoded` of the server. -/
def Plan.headers (headers : HeaderMap) : Plan → HeaderMap
  | .skip => headers
  | .identity => vary headers
  | .encode encoding => weakenEtag (vary (headers.insert contentEncoding (tokenValue encoding)))

/-! ## The response -/

/-- One header given to `Response::builder`. -/
def headerOf (header : String × String) : Option (String × HeaderValue) :=
  if validName header.1 then (HeaderValue.fromStr header.2.toList).map fun value => (lowerName header.1, value)
  else none

/-- `Response::builder` with a status and headers. -/
def builder (status : ℕ) (headers : Headers) : Option HeaderMap :=
  if 100 ≤ status ∧ status ≤ 999 then headers.mapM headerOf else none

/-- The plan of `handle` for a reply. -/
def planned (compression : Option Compression) (accept : Option HeaderValue) (reply : HandlerReply) : Plan :=
  match compression, reply.body with
  | some c, .full bytes => c.plan accept reply.status reply.contentType reply.headers bytes.length
  | _, _ => .skip

/-- The body of a response. -/
def bodyOf (codec : Codec) (compression : Option Compression) (plan : Plan) : ReplyBody → ResponseBody
  | .full bytes =>
    match plan, compression with
    | .encode encoding, some c => .bytes (c.encoded codec encoding bytes)
    | _, _ => .bytes bytes
  | .stream => .stream

/-- The end of `handle`, for a reply of the handler. -/
def respond (codec : Codec) (compression : Option Compression) (accept : Option HeaderValue) (head : Bool)
    (reply : HandlerReply) : WireResponse :=
  let reply := Server.unmarked reply
  let plan := planned compression accept reply
  let length := match reply.body with
    | .full bytes => bytes.length
    | .stream => 0
  let lengths := if head && ! plan.encodes then [("content-length", Nat.repr length)] else []
  match builder reply.status (("content-type", reply.contentType) :: lengths ++ reply.headers) with
  | none => plainResponse 500 "bad response header"
  | some headers =>
    ⟨reply.status, plan.headers headers, if head then .empty else bodyOf codec compression plan reply.body, false⟩

/-- What goes out for a request: `cors_and_handle`, where `handle` has the reply of a handler. -/
def answer (codec : Codec) (cors : Option CorsLayer) (compression : Option Compression) (r : CorsRequest)
    (reply : HandlerReply) : WireResponse :=
  corsAndHandle cors r (respond codec compression (r.headers.get acceptEncoding) (r.method = "HEAD") reply)

/-! ## What is said of the answers -/

/-- A cache is told that the answer depends on `Accept-Encoding`. -/
def NamesEncoding (headers : HeaderMap) : Prop := ∃ value ∈ headers.getAll varyName, mentions value = true

/-- Two requests that differ in `Accept-Encoding` alone. -/
structure Alike (r₁ r₂ : CorsRequest) : Prop where
  method : r₁.method = r₂.method
  headers : ∀ name, name ≠ acceptEncoding → r₁.headers.getAll name = r₂.headers.getAll name

/-- A reply that may be compressed. -/
structure Candidate (c : Compression) (status : ℕ) (contentType : String) (headers : Headers) (len : ℕ) : Prop where
  whole : ¬ (status < 200 ∨ status = 204 ∨ status = 206 ∨ status = 304)
  worth : ¬ (len < c.minSize ∨ compressible contentType.toList = false)
  free : headers.any optsOut = false

variable {c : Compression} {compression : Option Compression} {codec : Codec} {cors : Option CorsLayer}
  {accept : Option HeaderValue} {status len : ℕ} {contentType : String} {headers : Headers} {map : HeaderMap}
  {reply : HandlerReply} {encoding : Encoding} {name : String} {r₁ r₂ : CorsRequest}

/-! ### Values -/

lemma tokenValue_text (encoding : Encoding) : (tokenValue encoding).text = some encoding.token := by
  have htoken : ((String.ofList encoding.token).toList.all fun c => 32 ≤ c.toNat && c.toNat < 127) = true := by
    cases encoding <;> decide +kernel
  rw [tokenValue, staticValue_text htoken, String.toList_ofList]

/-! ### What the functions on headers leave -/

lemma getAll_vary_ne (h : name ≠ varyName) : (vary map).getAll name = map.getAll name := by
  unfold vary
  split_ifs
  · rfl
  · exact HeaderMap.getAll_append_ne h

lemma namesEncoding_vary (map : HeaderMap) : NamesEncoding (vary map) := by
  unfold vary
  split_ifs with hmentions
  · exact List.any_eq_true.mp hmentions
  · refine ⟨staticValue "Accept-Encoding", ?_, ?_⟩
    · rw [HeaderMap.getAll_append_self]
      exact List.mem_append_right _ List.mem_cons_self
    · rw [mentions, staticValue_text (by decide)]
      decide +kernel

lemma getAll_weakenEtag_ne (h : name ≠ etagName) : (weakenEtag map).getAll name = map.getAll name := by
  unfold weakenEtag
  split
  · rfl
  · split
    · rfl
    · split_ifs
      · rfl
      · cases HeaderValue.fromStr _ with
        | none => rfl
        | some weak => exact HeaderMap.getAll_insert_ne h

/-- What the plan adds: at the most a coding, a value of `Vary`, and a weaker tag. -/
lemma getAll_headers (plan : Plan) (hvary : name ≠ varyName) (hcoding : name ≠ contentEncoding)
    (htag : name ≠ etagName) :
    (plan.headers map).getAll name = map.getAll name := by
  cases plan with
  | skip => rfl
  | identity => exact getAll_vary_ne hvary
  | encode encoding =>
    rw [Plan.headers, getAll_weakenEtag_ne htag, getAll_vary_ne hvary, HeaderMap.getAll_insert_ne hcoding]

lemma namesEncoding_headers {plan : Plan} (h : plan ≠ .skip) : NamesEncoding (plan.headers map) := by
  cases plan with
  | skip => exact absurd rfl h
  | identity => exact namesEncoding_vary map
  | encode encoding =>
    unfold NamesEncoding
    rw [Plan.headers, getAll_weakenEtag_ne (by decide)]
    exact namesEncoding_vary _

lemma getAll_contentEncoding_headers (plan : Plan) : (plan.headers map).getAll contentEncoding =
    match plan with
    | .encode encoding => [tokenValue encoding]
    | _ => map.getAll contentEncoding := by
  cases plan with
  | skip => rfl
  | identity => exact getAll_vary_ne (by decide)
  | encode encoding =>
    rw [Plan.headers, getAll_weakenEtag_ne (by decide), getAll_vary_ne (by decide), HeaderMap.getAll_insert_self]

/-! ### The plan -/

lemma plan_of_candidate (h : Candidate c status contentType headers len) (accept : Option HeaderValue) :
    c.plan accept status contentType headers len =
      ((accept.bind HeaderValue.text).bind fun accept => negotiate accept c.prefer).elim .identity .encode := by
  rw [Compression.plan, if_neg h.whole, if_neg h.worth, if_neg (by simp [h.free])]
  cases (accept.bind HeaderValue.text).bind fun accept => negotiate accept c.prefer with
  | none => rfl
  | some encoding => rfl

lemma plan_of_not_candidate (h : ¬ Candidate c status contentType headers len) (accept : Option HeaderValue) :
    c.plan accept status contentType headers len = .skip := by
  unfold Compression.plan
  by_cases hwhole : status < 200 ∨ status = 204 ∨ status = 206 ∨ status = 304
  · rw [if_pos hwhole]
  by_cases hworth : len < c.minSize ∨ compressible contentType.toList = false
  · rw [if_neg hwhole, if_pos hworth]
  · have hopen : headers.any optsOut = true := by
      by_contra hnot
      exact h ⟨hwhole, hworth, Bool.eq_false_iff.mpr hnot⟩
    rw [if_neg hwhole, if_neg hworth, if_pos hopen]

/-- Either a reply is never compressed, or it depends on the client. -/
lemma planned_cases (compression : Option Compression) (reply : HandlerReply) :
    (∀ accept, planned compression accept reply = .skip) ∨
      ∃ c bytes, compression = some c ∧ reply.body = .full bytes ∧
        Candidate c reply.status reply.contentType reply.headers bytes.length ∧
        ∀ accept, planned compression accept reply =
          ((accept.bind HeaderValue.text).bind fun accept => negotiate accept c.prefer).elim .identity .encode := by
  unfold planned
  cases compression with
  | none => exact Or.inl fun _ => rfl
  | some c =>
    cases reply.body with
    | stream => exact Or.inl fun _ => rfl
    | full bytes =>
      by_cases h : Candidate c reply.status reply.contentType reply.headers bytes.length
      · exact Or.inr ⟨c, bytes, rfl, rfl, h, plan_of_candidate h⟩
      · exact Or.inl (plan_of_not_candidate h)

/-! ### The builder -/

lemma isSome_mapM {headers : Headers} : (headers.mapM headerOf).isSome ↔ ∀ h ∈ headers, (headerOf h).isSome := by
  induction headers with
  | nil => simp
  | cons h headers ih =>
    rw [List.mapM_cons, List.forall_mem_cons, ← ih]
    cases headerOf h with
    | none => simp
    | some header => cases headers.mapM headerOf <;> simp

lemma isSome_builder : (builder status headers).isSome ↔
    (100 ≤ status ∧ status ≤ 999) ∧ ∀ h ∈ headers, (headerOf h).isSome := by
  rw [builder, ← isSome_mapM]
  split_ifs with hstatus
  · exact (and_iff_right hstatus).symm
  · exact iff_of_false (by simp) fun h => hstatus h.1

/-- A length is always a header. -/
lemma isSome_headerOf_length (len : ℕ) : (headerOf ("content-length", Nat.repr len)).isSome := by
  have hdigits : ∀ c ∈ (Nat.repr len).toList, 32 ≤ c.toNat ∧ c.toNat < 127 := by
    intro c hc
    rw [Nat.toList_repr] at hc
    obtain ⟨d, hd, rfl⟩ := Numerals.mem_toDigits (by norm_num) (by norm_num) hc
    clear hc
    interval_cases d <;> decide
  obtain ⟨v, hv, -⟩ := fromStr_ascii hdigits
  have hname : validName "content-length" = true := by decide +kernel
  rw [headerOf, if_pos hname, hv]
  rfl

/-- Whether the builder fails does not depend on the client. -/
lemma isSome_builder_lengths {first : String × String} {lengths : Headers}
    (h : lengths = [] ∨ ∃ len, lengths = [("content-length", Nat.repr len)]) :
    (builder status (first :: lengths ++ headers)).isSome = (builder status (first :: headers)).isSome := by
  obtain rfl | ⟨len, rfl⟩ := h
  · rfl
  · rw [Bool.eq_iff_iff, isSome_builder, isSome_builder]
    simp [isSome_headerOf_length]

/-- The handler's own headers, as the builder takes them. -/
def own (reply : HandlerReply) : Option HeaderMap :=
  builder reply.status (("content-type", reply.contentType) :: reply.headers)

lemma unmarked_fields (reply : HandlerReply) : (Server.unmarked reply).status = reply.status ∧
    (Server.unmarked reply).contentType = reply.contentType ∧ (Server.unmarked reply).body = reply.body := by
  unfold Server.unmarked
  split_ifs <;> exact ⟨rfl, rfl, rfl⟩

/-- **The response of a reply**: without headers that can be sent an error, and else the plan carried out. -/
lemma respond_cases (codec : Codec) (compression : Option Compression) (accept : Option HeaderValue) (head : Bool)
    (reply : HandlerReply) :
    (own (Server.unmarked reply) = none ∧
      respond codec compression accept head reply = plainResponse 500 "bad response header") ∨
    ∃ map, (head = false → own (Server.unmarked reply) = some map) ∧ (own (Server.unmarked reply)).isSome ∧
      respond codec compression accept head reply =
        ⟨reply.status, (planned compression accept (Server.unmarked reply)).headers map,
          if head then .empty
          else bodyOf codec compression (planned compression accept (Server.unmarked reply)) reply.body, false⟩ := by
  obtain ⟨hstatus, -, hbody⟩ := unmarked_fields reply
  unfold respond
  dsimp only
  rw [hstatus, hbody]
  generalize hlengths : (if head && ! (planned compression accept (Server.unmarked reply)).encodes then _ else _ :
    Headers) = lengths
  have hor : lengths = [] ∨ ∃ len, lengths = [("content-length", Nat.repr len)] := by
    rw [← hlengths]
    split_ifs
    · exact Or.inr ⟨_, rfl⟩
    · exact Or.inl rfl
  have hsame : (builder reply.status (("content-type", (Server.unmarked reply).contentType) :: lengths ++
      (Server.unmarked reply).headers)).isSome = (own (Server.unmarked reply)).isSome := by
    rw [own, hstatus]
    exact isSome_builder_lengths hor
  split
  · rename_i hnone
    rw [hnone] at hsame
    exact Or.inl ⟨Option.isNone_iff_eq_none.mp (by simpa using hsame.symm), rfl⟩
  · rename_i map hmap
    rw [hmap] at hsame
    refine Or.inr ⟨map, ?_, hsame.symm, rfl⟩
    rintro rfl
    rw [Bool.false_and, if_neg Bool.false_ne_true] at hlengths
    rw [own, hstatus, ← hmap, ← hlengths]
    rfl

/-! ## Caches -/

lemma Alike.get (h : Alike r₁ r₂) (hname : name ≠ acceptEncoding) : r₁.headers.get name = r₂.headers.get name := by
  rw [HeaderMap.get, HeaderMap.get, h.headers name hname]

lemma Alike.isPreflight (h : Alike r₁ r₂) : r₁.isPreflight = r₂.isPreflight := by
  have hkey (name : String) (hname : name ≠ acceptEncoding) :
      r₁.headers.containsKey name = r₂.headers.containsKey name := by
    rw [Bool.eq_iff_iff, ← not_iff_not, Bool.not_eq_true, Bool.not_eq_true, HeaderMap.containsKey_eq_false_iff,
      HeaderMap.containsKey_eq_false_iff, h.headers name hname]
  rw [CorsRequest.isPreflight, CorsRequest.isPreflight, h.method, hkey "origin" (by decide),
    hkey requestMethod (by decide)]

/-- CORS does not look at `Accept-Encoding`. -/
lemma Alike.preflight (h : Alike r₁ r₂) (layer : CorsLayer) :
    layer.preflight r₁.headers = layer.preflight r₂.headers := by
  have hheader (name : String) (hname : name ≠ acceptEncoding) : r₁.headers.header name = r₂.headers.header name := by
    rw [HeaderMap.header, HeaderMap.header, h.get hname]
  rw [CorsLayer.preflight, CorsLayer.preflight, hheader "origin" (by decide), hheader requestMethod (by decide),
    hheader askedHeadersName (by decide)]

lemma Alike.decorated (h : Alike r₁ r₂) (cors : Option CorsLayer) (handled : WireResponse) :
    corsAndHandle cors r₁ handled = corsAndHandle cors r₂ handled := by
  cases cors with
  | none => rfl
  | some layer => rw [corsAndHandle, corsAndHandle, h.isPreflight, h.preflight layer, h.get (by decide)]

/-- A preflight is answered without the handler. -/
lemma cors_preflight {layer : CorsLayer} (h : r₁.isPreflight = true) (handled other : WireResponse) :
    corsAndHandle (some layer) r₁ handled = corsAndHandle (some layer) r₁ other := by
  rw [corsAndHandle, corsAndHandle, if_pos h, if_pos h]

/-- What a cache is told is not taken back by CORS. -/
lemma namesEncoding_cors {handled : WireResponse} (h : NamesEncoding handled.headers)
    (hcors : ∀ layer, cors = some layer → r₁.isPreflight = false) :
    NamesEncoding (corsAndHandle cors r₁ handled).headers := by
  cases cors with
  | none => exact h
  | some layer =>
    rw [corsAndHandle, hcors layer rfl, if_neg Bool.false_ne_true]
    split_ifs
    · exact h
    · unfold NamesEncoding
      rw [CorsLayer.getAll_varyName_decorate, CorsLayer.varied]
      split_ifs
      · exact h
      · obtain ⟨value, hvalue, hmentions⟩ := h
        refine ⟨value, ?_, hmentions⟩
        rw [HeaderMap.getAll_append_self]
        exact List.mem_append_left _ hvalue

/-- **Caches are told.**  Two requests that differ in `Accept-Encoding` alone, and a reply of the handler: the answers
are the same, or the `Vary` of both names `Accept-Encoding`, whatever CORS adds. -/
theorem answers_name_encoding (codec : Codec) (cors : Option CorsLayer) (compression : Option Compression)
    (reply : HandlerReply) (alike : Alike r₁ r₂) :
    answer codec cors compression r₁ reply = answer codec cors compression r₂ reply ∨
      NamesEncoding (answer codec cors compression r₁ reply).headers ∧
        NamesEncoding (answer codec cors compression r₂ reply).headers := by
  unfold answer
  rw [alike.decorated cors, alike.method]
  by_cases hpreflight : ∀ layer, cors = some layer → r₂.isPreflight = false
  swap
  · push Not at hpreflight
    obtain ⟨layer, rfl, hpreflight⟩ := hpreflight
    exact Or.inl (cors_preflight (by simpa using hpreflight) _ _)
  obtain hskip | ⟨c, bytes, -, -, -, hplan⟩ := planned_cases compression (Server.unmarked reply)
  · left
    unfold respond
    dsimp only
    rw [hskip, hskip]
  · have hnot (accept : Option HeaderValue) : planned compression accept (Server.unmarked reply) ≠ .skip := by
      rw [hplan]
      cases (accept.bind HeaderValue.text).bind fun accept => negotiate accept c.prefer <;> simp
    obtain ⟨hnone, h₁⟩ | ⟨map₁, -, hsome, h₁⟩ := respond_cases codec compression (r₁.headers.get acceptEncoding)
      (r₂.method = "HEAD") reply
    · obtain ⟨-, h₂⟩ | ⟨map₂, -, hsome, -⟩ := respond_cases codec compression (r₂.headers.get acceptEncoding)
        (r₂.method = "HEAD") reply
      · exact Or.inl (by rw [h₁, h₂])
      · rw [hnone] at hsome
        cases hsome
    · obtain ⟨hnone, -⟩ | ⟨map₂, -, -, h₂⟩ := respond_cases codec compression (r₂.headers.get acceptEncoding)
        (r₂.method = "HEAD") reply
      · rw [hnone] at hsome
        cases hsome
      · right
        constructor
        · apply namesEncoding_cors _ hpreflight
          rw [h₁]
          exact namesEncoding_headers (hnot _)
        · apply namesEncoding_cors _ hpreflight
          rw [h₂]
          exact namesEncoding_headers (hnot _)

/-- `Compression(min_size=0)`. -/
def everything : Compression where
  minSize := 0
  gzipLevel := 6
  brotliQuality := 4
  prefer := [.brotli, .gzip]
  offers := List.cons_ne_nil _ _
  distinct := by decide
  gzip := by decide
  brotli := by decide

/-- `Response("hi", headers={"etag": '"v1"', "vary": "Cookie"})`, as `text/plain`. -/
def taggedReply : HandlerReply where
  status := 200
  contentType := "text/plain"
  headers := [("ETag", "\"v1\""), ("Vary", "Cookie")]
  body := .full [104, 105]

def plainHead : CorsRequest := ⟨"HEAD", []⟩

def gzipHead : CorsRequest := ⟨"HEAD", [(acceptEncoding, staticValue "gzip")]⟩

/-- One of two HEAD requests takes gzip, and the answers to both tell a cache. -/
theorem answers_name_encoding_head :
    NamesEncoding (answer default none (some everything) plainHead taggedReply).headers ∧
      NamesEncoding (answer default none (some everything) gzipHead taggedReply).headers := by
  have alike : Alike plainHead gzipHead := by
    refine ⟨rfl, ?_⟩
    intro name hname
    simp [plainHead, gzipHead, HeaderMap.getAll, hname.symm]
  have hplain : ((answer default none (some everything) plainHead taggedReply).headers.getAll
      contentEncoding).length = 0 := by decide +kernel
  have hgzip : ((answer default none (some everything) gzipHead taggedReply).headers.getAll
      contentEncoding).length = 1 := by decide +kernel
  obtain hsame | hboth := answers_name_encoding default none (some everything) taggedReply alike
  · rw [hsame, hgzip] at hplain
    cases hplain
  · exact hboth

/-! ## Clients -/

/-- What a client has of a response once the coding that it names is taken off. -/
def received (codec : Codec) (r : WireResponse) : Option (List UInt8) :=
  match r.body with
  | .bytes body =>
    match r.headers.getAll contentEncoding with
    | [] => some body
    | [coding] => (coding.text.bind Encoding.parse).bind fun encoding => codec.decode encoding body
    | _ => none
  | _ => none

/-- The client takes a coding, and none that is offered better. -/
def Taken (compression : Option Compression) (accept : Option HeaderValue) (encoding : Encoding) : Prop :=
  ∃ c text, compression = some c ∧ encoding ∈ c.prefer ∧ accept.bind HeaderValue.text = some text ∧
    0 < weight text encoding ∧ ∀ other ∈ c.prefer, weight text other ≤ weight text encoding

/-! ### Replies that were checked -/

lemma utf8_toList (text : String) : utf8 (String.ofList text.toList) = text.toUTF8.data.toList := by
  rw [String.ofList_toList]
  rfl

lemma isSome_headerOf {header : String × String} (hname : validName header.1 = true)
    (hvalue : validValue header.2 = true) : (headerOf header).isSome := by
  have hbytes : ∀ b ∈ utf8 (String.ofList header.2.toList), headerByte b = true := by
    intro b hb
    rw [utf8_toList] at hb
    rw [validValue, Array.all_eq_true'] at hvalue
    exact hvalue b (Array.mem_toList_iff.mp hb)
  rw [headerOf, if_pos hname, HeaderValue.fromStr, dif_pos hbytes]
  rfl

lemma checkHeader_eq_ok_iff {α : Type} {host : PyHost α} {header : String × String} :
    host.checkHeader header = .ok () ↔ validName header.1 = true ∧ validValue header.2 = true := by
  unfold PyHost.checkHeader
  cases validName header.1 with
  | false => simp
  | true => cases validValue header.2 <;> simp

lemma checkHeaders_eq_ok_iff {α : Type} {host : PyHost α} : host.checkHeaders headers = .ok () ↔
    ∀ header ∈ headers, validName header.1 = true ∧ validValue header.2 = true := by
  induction headers with
  | nil => exact iff_of_true rfl fun header hmem => absurd hmem List.not_mem_nil
  | cons first rest ih =>
    rw [PyHost.checkHeaders, bind_eq_ok, List.forall_mem_cons, ← ih, ← @checkHeader_eq_ok_iff _ host]
    constructor
    · rintro ⟨done, hfirst, hrest⟩
      exact ⟨hfirst, hrest⟩
    · rintro ⟨hfirst, hrest⟩
      exact ⟨(), hfirst, hrest⟩

/-- What `Responder::deliver` lets through. -/
lemma check_eq_ok_iff {α : Type} {host : PyHost α} : host.check reply = .ok () ↔
    (100 ≤ reply.status ∧ reply.status ≤ 599) ∧ validValue reply.contentType = true ∧
      ∀ header ∈ reply.headers, validName header.1 = true ∧ validValue header.2 = true := by
  rw [← @checkHeaders_eq_ok_iff _ _ host]
  unfold PyHost.check
  by_cases hstatus : 100 ≤ reply.status ∧ reply.status ≤ 599
  · rw [if_neg (not_not.mpr hstatus), and_iff_right hstatus]
    cases validValue reply.contentType <;> simp
  · rw [if_pos hstatus]
    exact iff_of_false (by simp) fun h => hstatus h.1

lemma mem_unmarked {header : String × String} (h : header ∈ (Server.unmarked reply).headers) :
    header ∈ reply.headers := by
  unfold Server.unmarked at h
  split_ifs at h
  · exact List.mem_of_mem_filter h
  · exact h

/-- **A reply that was checked** can be sent. -/
lemma isSome_own {α : Type} {host : PyHost α} (checked : host.check reply = .ok ()) :
    (own (Server.unmarked reply)).isSome := by
  obtain ⟨hstatus, htype, -⟩ := unmarked_fields reply
  obtain ⟨hrange, hvalue, hheaders⟩ := check_eq_ok_iff.mp checked
  rw [own, isSome_builder, hstatus, htype]
  refine ⟨⟨by omega, by omega⟩, ?_⟩
  rw [List.forall_mem_cons]
  have hname : validName "content-type" = true := by decide +kernel
  refine ⟨isSome_headerOf hname hvalue, ?_⟩
  intro header hmem
  obtain ⟨hname, hvalue⟩ := hheaders header (mem_unmarked hmem)
  exact isSome_headerOf hname hvalue

/-- Only the mark of a limit is taken off. -/
lemma any_unmarked {p : String × String → Bool}
    (h : ∀ header, lowerName header.1 = "x-oxbrook-limited" → p header = false) :
    (Server.unmarked reply).headers.any p = reply.headers.any p := by
  unfold Server.unmarked
  split_ifs
  · rw [Bool.eq_iff_iff, List.any_eq_true, List.any_eq_true]
    constructor
    · rintro ⟨header, hmem, hp⟩
      exact ⟨header, List.mem_of_mem_filter hmem, hp⟩
    · rintro ⟨header, hmem, hp⟩
      refine ⟨header, List.mem_filter.mpr ⟨hmem, ?_⟩, hp⟩
      rw [decide_eq_true_eq]
      intro hname
      have hlower : lowerName header.1 = "x-oxbrook-limited" := by
        rw [lowerName, lowercase, hname, String.ofList_toList]
      rw [h header hlower] at hp
      cases hp
  · rfl

lemma mem_of_mapM {headers : Headers} {map : HeaderMap} (h : headers.mapM headerOf = some map)
    {entry : String × HeaderValue} (hmem : entry ∈ map) : ∃ header ∈ headers, headerOf header = some entry := by
  induction headers generalizing map with
  | nil =>
    rw [List.mapM_nil] at h
    cases h
    exact absurd hmem List.not_mem_nil
  | cons header headers ih =>
    rw [List.mapM_cons] at h
    obtain ⟨first, hfirst, h⟩ := Option.bind_eq_some_iff.mp h
    obtain ⟨rest, hrest, h⟩ := Option.bind_eq_some_iff.mp h
    cases h
    obtain rfl | hmem := List.mem_cons.mp hmem
    · exact ⟨header, List.mem_cons_self, hfirst⟩
    · obtain ⟨header', hmem', heq⟩ := ih hrest hmem
      exact ⟨header', List.mem_cons_of_mem _ hmem', heq⟩

/-- A handler that names no coding has none among its own headers. -/
lemma getAll_contentEncoding_own (hmap : own reply = some map) (h : reply.headers.any namesCoding = false) :
    map.getAll contentEncoding = [] := by
  rw [own, builder] at hmap
  split_ifs at hmap
  rw [← HeaderMap.containsKey_eq_false_iff, HeaderMap.containsKey, List.any_eq_false]
  intro entry hentry hname
  obtain ⟨header, hmem, heq⟩ := mem_of_mapM hmap hentry
  rw [headerOf] at heq
  split_ifs at heq
  obtain ⟨v, -, rfl⟩ := Option.map_eq_some_iff.mp heq
  obtain rfl | hmem := List.mem_cons.mp hmem
  · have hne : lowerName "content-type" ≠ contentEncoding := by decide +kernel
    exact hne (of_decide_eq_true hname)
  · exact List.any_eq_false.mp h header hmem (by simpa [namesCoding] using hname)

/-! ### Coding and decoding -/

lemma window_bounds (len : ℕ) : 10 ≤ window len ∧ window len ≤ 24 := by
  unfold window
  omega

/-- Every built compression stays in the ranges of its coders. -/
lemma decode_encoded (c : Compression) (codec : Codec) (encoding : Encoding) (body : List UInt8) :
    codec.decode encoding (c.encoded codec encoding body) = some body := by
  cases encoding with
  | gzip => exact codec.ungzip_gzip c.gzipLevel c.gzip.2 body
  | brotli =>
    obtain ⟨hlow, hhigh⟩ := window_bounds body.length
    exact codec.unbrotli_brotli c.brotliQuality c.brotli _ hlow hhigh body

lemma parse_token (encoding : Encoding) : Encoding.parse encoding.token = some encoding := by
  cases encoding <;> decide

lemma optsOut_of_namesCoding (header : String × String) (h : optsOut header = false) : namesCoding header = false := by
  rw [optsOut, Bool.or_eq_false_iff] at h
  exact h.1

lemma any_unmarked_optsOut : (Server.unmarked reply).headers.any optsOut = reply.headers.any optsOut := by
  apply any_unmarked
  intro header hname
  rw [optsOut, namesCoding, hname]
  rfl

lemma any_unmarked_namesCoding : (Server.unmarked reply).headers.any namesCoding = reply.headers.any namesCoding := by
  apply any_unmarked
  intro header hname
  rw [namesCoding, hname]
  rfl

/-- A plan to compress is one that the client asked for. -/
lemma taken_of_planned (h : planned compression accept reply = .encode encoding) :
    Taken compression accept encoding ∧ reply.headers.any optsOut = false := by
  obtain hskip | ⟨c, bytes, rfl, -, hcandidate, hplan⟩ := planned_cases compression reply
  · rw [hskip] at h
    cases h
  · rw [hplan] at h
    refine ⟨?_, hcandidate.free⟩
    cases hchoice : (accept.bind HeaderValue.text).bind fun accept => negotiate accept c.prefer with
    | none =>
      rw [hchoice] at h
      cases h
    | some found =>
      rw [hchoice] at h
      cases h
      obtain ⟨text, htext, hnegotiate⟩ := Option.bind_eq_some_iff.mp hchoice
      have hbest := (negotiate_some_iff text c.prefer _).mp hnegotiate
      exact ⟨c, text, rfl, hbest.mem, htext, hbest.pos, fun other hother => hbest.le hother⟩

/-- **Coding changes nothing for the client.**  A whole reply that `Responder` let through is answered with its own
status and headers, but for `Vary`, the coding and the tag.  Who takes the coding off has the bytes of the handler,
and every coding is one that the client takes and none is taken better.  A reply whose handler names a coding itself
or says `no-transform` goes out as it is. -/
theorem answer_decodes {α : Type} {host : PyHost α} {bytes : List UInt8} (codec : Codec)
    (compression : Option Compression) (accept : Option HeaderValue) (checked : host.check reply = .ok ())
    (whole : reply.body = .full bytes) :
    ∃ headers, own (Server.unmarked reply) = some headers ∧
      (respond codec compression accept false reply).status = reply.status ∧
      (∀ name, name ≠ varyName → name ≠ contentEncoding → name ≠ etagName →
        (respond codec compression accept false reply).headers.getAll name = headers.getAll name) ∧
      (reply.headers.any optsOut = true →
        (respond codec compression accept false reply).headers = headers ∧
          (respond codec compression accept false reply).body = .bytes bytes) ∧
      (reply.headers.any namesCoding = false →
        received codec (respond codec compression accept false reply) = some bytes ∧
        ∀ v ∈ (respond codec compression accept false reply).headers.getAll contentEncoding,
          ∃ encoding, v = tokenValue encoding ∧ Taken compression accept encoding) := by
  obtain ⟨hnone, -⟩ | ⟨headers, hown, -, hrespond⟩ := respond_cases codec compression accept false reply
  · have hsome := isSome_own checked
    rw [hnone] at hsome
    cases hsome
  rw [hrespond, if_neg Bool.false_ne_true, whole]
  refine ⟨headers, hown rfl, rfl, fun name hvary hcoding htag => getAll_headers _ hvary hcoding htag, ?_, ?_⟩
  · intro hopts
    rw [← any_unmarked_optsOut] at hopts
    obtain hskip | ⟨c, bytes', -, -, hcandidate, -⟩ := planned_cases compression (Server.unmarked reply)
    · rw [hskip]
      exact ⟨rfl, rfl⟩
    · rw [hcandidate.free] at hopts
      cases hopts
  · intro hnames
    have hnil := getAll_contentEncoding_own (hown rfl) (any_unmarked_namesCoding.trans hnames)
    unfold received
    dsimp only
    rw [getAll_contentEncoding_headers, hnil]
    cases hplan : planned compression accept (Server.unmarked reply) with
    | skip => exact ⟨rfl, fun v hv => absurd hv List.not_mem_nil⟩
    | identity => exact ⟨rfl, fun v hv => absurd hv List.not_mem_nil⟩
    | encode encoding =>
      obtain ⟨htaken, -⟩ := taken_of_planned hplan
      obtain ⟨c, -, rfl, -⟩ := id htaken
      constructor
      · show ((tokenValue encoding).text.bind Encoding.parse).bind
          (fun found => codec.decode found (c.encoded codec encoding bytes)) = some bytes
        rw [tokenValue_text, Option.bind_some, parse_token, Option.bind_some, decode_encoded]
      · intro v hv
        exact ⟨encoding, List.mem_singleton.mp hv, htaken⟩

/-- A client that says nothing of codings has the bytes of the handler. -/
theorem answer_decodes_hi :
    received default (respond default (some everything) none false taggedReply) = some [104, 105] := by
  have checked : plainHost.check taggedReply = .ok () := check_eq_ok_iff.mpr (by decide +kernel)
  obtain ⟨headers, -, -, -, -, hreceived⟩ := answer_decodes default (some everything) none checked rfl
  have hnames : taggedReply.headers.any namesCoding = false := by decide +kernel
  exact (hreceived hnames).1

/-! ## Tags -/

/-- The bytes `W/`. -/
def weakMark : List UInt8 := [87, 47]

/-- A tag that promises the exact bytes. -/
def Strong (tag : HeaderValue) : Prop := ¬ weakMark <+: tag.bytes

/-- What two tags are compared by where the bytes do not matter. -/
def tagCore (tag : HeaderValue) : List UInt8 := if weakMark <+: tag.bytes then tag.bytes.drop 2 else tag.bytes

/-- The tag of a response that is compressed. -/
def weakened (tag : HeaderValue) : HeaderValue :=
  match tag.text with
  | none => tag
  | some text => if "W/".toList <+: text then tag else (HeaderValue.fromStr ("W/".toList ++ text)).getD tag

lemma get_weakenEtag : (weakenEtag map).get etagName = (map.get etagName).map weakened := by
  unfold weakenEtag
  cases hget : map.get etagName with
  | none => exact hget
  | some tag =>
    rw [Option.map_some, weakened]
    dsimp only
    cases tag.text with
    | none => exact hget
    | some text =>
      dsimp only
      split_ifs with hweak
      · exact hget
      · cases HeaderValue.fromStr ("W/".toList ++ text) with
        | none => exact hget
        | some weak =>
          rw [HeaderMap.insertSome, Option.elim_some, HeaderMap.get, HeaderMap.getAll_insert_self]
          rfl

lemma prefix_raw (tag : HeaderValue) : "W/".toList <+: tag.raw ↔ weakMark <+: tag.bytes := by
  have hmark : "W/".toList = weakMark.map Char.ofUInt8 := by decide
  have hinj : ∀ a b : UInt8, Char.ofUInt8 a = Char.ofUInt8 b → a = b := by
    intro a b h
    have hcode := congrArg Char.toNat h
    exact UInt8.toNat_inj.mp hcode
  rw [hmark, HeaderValue.raw]
  constructor
  · rintro ⟨rest, heq⟩
    obtain ⟨front, back, hbytes, hfront, -⟩ := List.map_eq_append_iff.mp heq.symm
    exact ⟨back, by rw [hbytes, List.map_injective_iff.mpr hinj hfront]⟩
  · rintro ⟨rest, heq⟩
    exact ⟨rest.map Char.ofUInt8, by rw [← heq, List.map_append]⟩

/-- A tag that can be read is weak afterwards, and one that cannot be read stays. -/
lemma weakened_spec (tag : HeaderValue) : (¬ tag.Visible ∧ weakened tag = tag) ∨
    (tag.Visible ∧ ¬ Strong tag ∧ weakened tag = tag) ∨
    (tag.Visible ∧ Strong tag ∧ (weakened tag).bytes = weakMark ++ tag.bytes) := by
  unfold weakened
  by_cases hvisible : tag.Visible
  · rw [HeaderValue.text_of_visible hvisible]
    dsimp only
    by_cases hweak : weakMark <+: tag.bytes
    · rw [if_pos ((prefix_raw tag).mpr hweak)]
      exact Or.inr (Or.inl ⟨hvisible, not_not.mpr hweak, rfl⟩)
    · rw [if_neg (fun h => hweak ((prefix_raw tag).mp h))]
      have hmarked : ∀ b ∈ weakMark ++ tag.bytes, visibleAscii b = true := by
        intro b hb
        obtain hb | hb := List.mem_append.mp hb
        · have hmark : (weakMark.all visibleAscii) = true := by decide
          exact List.all_eq_true.mp hmark b hb
        · exact hvisible b hb
      let weak : HeaderValue := ⟨weakMark ++ tag.bytes, fun b hb => headerByte_of_visibleAscii (hmarked b hb)⟩
      have htext : weak.text = some ("W/".toList ++ tag.raw) := by
        have hweak : weak.Visible := hmarked
        rw [HeaderValue.text_of_visible hweak, HeaderValue.raw, HeaderValue.raw, List.map_append]
        rfl
      rw [fromStr_text htext]
      exact Or.inr (Or.inr ⟨hvisible, hweak, rfl⟩)
  · rw [HeaderValue.text_of_not_visible hvisible]
    exact Or.inl ⟨hvisible, rfl⟩

lemma strong_weakened_iff (tag : HeaderValue) : Strong (weakened tag) ↔ Strong tag ∧ ¬ tag.Visible := by
  obtain ⟨hvisible, heq⟩ | ⟨hvisible, hweak, heq⟩ | ⟨hvisible, -, heq⟩ := weakened_spec tag
  · rw [heq]
    exact (and_iff_left hvisible).symm
  · rw [heq]
    exact iff_of_false hweak fun h => hweak h.1
  · refine iff_of_false ?_ fun h => h.2 hvisible
    rw [Strong, heq, not_not]
    exact List.prefix_append _ _

lemma tagCore_weakened (tag : HeaderValue) : tagCore (weakened tag) = tagCore tag := by
  obtain ⟨-, heq⟩ | ⟨-, -, heq⟩ | ⟨-, hstrong, heq⟩ := weakened_spec tag
  · rw [heq]
  · rw [heq]
  · rw [tagCore, tagCore, heq, if_pos (List.prefix_append _ _), if_neg hstrong]
    rfl

/-- **Strong tags.**  The tag of an answer compares equal to the handler's wherever bytes do not matter.  It promises
exact bytes if and only if the handler's does and the answer is not compressed, or the handler's tag has a byte
outside ASCII, which keeps it from being weakened. -/
theorem strong_tag_iff {α : Type} {host : PyHost α} (codec : Codec) (compression : Option Compression)
    (accept : Option HeaderValue) (checked : host.check reply = .ok ()) :
    ∃ headers, own (Server.unmarked reply) = some headers ∧
      ((respond codec compression accept false reply).headers.get etagName).map tagCore =
        (headers.get etagName).map tagCore ∧
      ((∃ tag, (respond codec compression accept false reply).headers.get etagName = some tag ∧ Strong tag) ↔
        ∃ tag, headers.get etagName = some tag ∧ Strong tag ∧
          ((respond codec compression accept false reply).headers.getAll contentEncoding ≠
            headers.getAll contentEncoding → ¬ tag.Visible)) := by
  obtain ⟨hnone, -⟩ | ⟨headers, hown, -, hrespond⟩ := respond_cases codec compression accept false reply
  · have hsome := isSome_own checked
    rw [hnone] at hsome
    cases hsome
  refine ⟨headers, hown rfl, ?_⟩
  rw [hrespond]
  dsimp only
  rw [getAll_contentEncoding_headers]
  cases hplan : planned compression accept (Server.unmarked reply) with
  | skip =>
    refine ⟨rfl, ?_⟩
    simp [Plan.headers]
  | identity =>
    have hget : (vary headers).get etagName = headers.get etagName := by
      rw [HeaderMap.get, HeaderMap.get, getAll_vary_ne (by decide)]
    rw [Plan.headers, hget]
    refine ⟨rfl, ?_⟩
    simp
  | encode encoding =>
    obtain ⟨-, hopts⟩ := taken_of_planned hplan
    have hnames : (Server.unmarked reply).headers.any namesCoding = false := by
      rw [List.any_eq_false] at hopts ⊢
      intro header hmem
      have hfree := optsOut_of_namesCoding header (Bool.eq_false_iff.mpr (hopts header hmem))
      rw [hfree]
      exact Bool.false_ne_true
    have hchanged : [tokenValue encoding] ≠ headers.getAll contentEncoding := by
      rw [getAll_contentEncoding_own (hown rfl) hnames]
      exact List.cons_ne_nil _ _
    have hget : (vary (headers.insert contentEncoding (tokenValue encoding))).get etagName = headers.get etagName := by
      rw [HeaderMap.get, HeaderMap.get, getAll_vary_ne (by decide), HeaderMap.getAll_insert_ne (by decide)]
    rw [Plan.headers, get_weakenEtag, hget]
    constructor
    · rw [Option.map_map]
      congr 1
      exact funext tagCore_weakened
    · constructor
      · rintro ⟨tag, htag, hstrong⟩
        obtain ⟨handlers, hhandlers, rfl⟩ := Option.map_eq_some_iff.mp htag
        obtain ⟨hstrong, hvisible⟩ := (strong_weakened_iff handlers).mp hstrong
        exact ⟨handlers, hhandlers, hstrong, fun _ => hvisible⟩
      · rintro ⟨tag, htag, hstrong, hvisible⟩
        refine ⟨weakened tag, by rw [htag, Option.map_some], ?_⟩
        exact (strong_weakened_iff tag).mpr ⟨hstrong, hvisible hchanged⟩

/-- `Response("hi", headers={"etag": '"\u00e9"'})`, as `text/plain`. -/
def accentReply : HandlerReply where
  status := 200
  contentType := "text/plain"
  headers := [("ETag", "\"\u00e9\"")]
  body := .full [104, 105]

/-- A tag outside ASCII goes out as it is, beside a coding. -/
theorem strong_tag_accent :
    (∃ tag, (respond default (some everything) (some (staticValue "gzip")) false accentReply).headers.get etagName =
      some tag ∧ Strong tag) ∧
    ((respond default (some everything) (some (staticValue "gzip")) false accentReply).headers.getAll
      contentEncoding).length = 1 := by
  have checked : plainHost.check accentReply = .ok () := check_eq_ok_iff.mpr (by decide +kernel)
  obtain ⟨headers, hown, -, hiff⟩ :=
    strong_tag_iff default (some everything) (some (staticValue "gzip")) checked
  have htag : ((own (Server.unmarked accentReply)).bind fun headers => headers.get etagName).any
      (fun tag => ¬ weakMark <+: tag.bytes ∧ ¬ tag.Visible) = true := by decide +kernel
  rw [hown, Option.bind_some, Option.any_eq_true] at htag
  obtain ⟨tag, hget, htag⟩ := htag
  obtain ⟨hstrong, hvisible⟩ := of_decide_eq_true htag
  constructor
  · exact hiff.mpr ⟨tag, hget, hstrong, fun _ => hvisible⟩
  · decide +kernel

end Oxbrook.Compress
