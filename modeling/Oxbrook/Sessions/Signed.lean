import Oxbrook.Foundation.Base64
import Oxbrook.Foundation.Doubles
import Oxbrook.Foundation.Percent
import Oxbrook.Mcp.Message
import Oxbrook.Origins.Texts
import Oxbrook.Sessions.Middleware

/-!
# Signed session cookies

What a `Sessions` of `_sessions.py` writes into its cookie and reads from it, and `Request::cookies` of
`src/request.rs`, which takes a `Cookie` header apart.  The content of a session and the second it was issued in are a
JSON text in base 64; its signature follows after a dot.  The MAC and the reader and writer of JSON are parameters.

`signed_sessions_iff` says when a session comes back from the header that carries it, and when a text that is not a
cookie of these sessions is harmless.  A header with a byte that is not visible ASCII is passed over with all its
cookies, and a payload that is signed but is not what `encode` writes may raise.
-/

namespace Oxbrook

open Attempt PyStr Percent

/-! ## The clock -/

/-- A `float`. -/
inductive PyFloat
  | finite (q : ℚ)
  | infinite (negative : Bool)
  | nan

namespace PyFloat

/-- `float(n)`. -/
def ofInt (n : ℤ) : Except PyError PyFloat :=
  if 2 ^ 1024 ≤ |Doubles.rounded n| then
    .error (.plain ⟨"OverflowError", false⟩ (lit "int too large to convert to float"))
  else .ok (.finite (Doubles.rounded n))

/-- `seconds - x`. -/
def subFrom (seconds : ℚ) : PyFloat → PyFloat
  | finite q => finite (Doubles.rounded (seconds - q))
  | infinite negative => infinite (!negative)
  | nan => nan

/-- `x > n`, which compares the values. -/
def gt (n : ℤ) : PyFloat → Bool
  | finite q => n < q
  | infinite negative => !negative
  | nan => false

end PyFloat

/-- What `time.time()` returns: a double, and no time before the epoch. -/
structure ClockReading where
  seconds : ℚ
  nonneg : 0 ≤ seconds
  small : seconds < 2 ^ 53
  double : Doubles.nearest seconds = seconds

namespace ClockReading

/-- `int(time.time())`. -/
def second (now : ClockReading) : ℤ := ⌊now.seconds⌋

/-- `time.time() - issued`. -/
def since (now : ClockReading) : JsonValue PyFloat → Except PyError PyFloat
  | .int n => (PyFloat.ofInt n).map (PyFloat.subFrom now.seconds)
  | .bool b => .ok (PyFloat.subFrom now.seconds (.finite (if b then 1 else 0)))
  | .float x => .ok (PyFloat.subFrom now.seconds x)
  | _ => .error (.plain ⟨"TypeError", false⟩ (lit "unsupported operand type(s) for -"))

end ClockReading

/-! ## Cookies -/

/-- What the code calls: `hmac.new(secret, _, sha256).digest()`, `json.dumps` and `json.loads`. -/
structure SigningHost where
  hmac : List UInt8 → List UInt8 → Vector UInt8 32
  dumps : JsonValue PyFloat → Text
  dumps_ne : ∀ v, dumps v ≠ []
  loads : List UInt8 → Except PyError (JsonValue PyFloat)

/-- The settings of a `Sessions`, with its secret. -/
structure SignedSessions extends SessionsObject where
  secret : List UInt8
  secret_ne : secret ≠ []

/-- `_b64encode`. -/
def b64encode (raw : List UInt8) : Text := Base64.urlsafe.unpadded raw

/-- `_b64decode`, or nothing where it raises a `ValueError`. -/
def b64decode (text : Text) : Option (List UInt8) :=
  if text.all fun c => c.toNat < 128 then Base64.urlsafe.decode (Base64.repad text) else none

/-- `hmac.compare_digest`, of two `str`. -/
def compareDigest (a b : Text) : Except PyError Bool :=
  if (a ++ b).all fun c => c.toNat < 128 then .ok (a = b)
  else .error (.plain ⟨"TypeError", false⟩ (lit "comparing strings with non-ASCII characters is not supported"))

/-- `except (ValueError, TypeError)`. -/
def PyError.unreadable (e : PyError) : Bool := e.isValueError || e.cls.name = "TypeError"

/-- A dict of the members of an object. -/
def dictOf (members : List (PyStr × JsonValue PyFloat)) : OrderedDict PyStr (JsonValue PyFloat) :=
  OrderedDict.empty.update members

/-- What is signed: the data, and the second it was issued in. -/
def sessionBody (data : OrderedDict PyStr (JsonValue PyFloat)) (second : ℤ) : JsonValue PyFloat :=
  .obj [(lit "d", .obj data.items), (lit "t", .int second)]

/-- The name and the value of a piece of a `Cookie` header. -/
def cookieOfPiece (piece : Text) : Option (Text × Text) :=
  let pair := strip piece
  if pair = [] then none
  else (splitOnce pair ['=']).map fun (name, value) => (strip name, strip value)

/-- `Request::cookies`. -/
def requestCookies (headers : HeaderMap) : OrderedDict Text Text :=
  OrderedDict.empty.update <| ((headers.getAll "cookie").filterMap HeaderValue.text).flatMap fun raw =>
    (raw.splitOn ';').filterMap cookieOfPiece

namespace SignedSessions

variable (host : SigningHost) (self : SignedSessions)

/-- `_sign`. -/
def sign (payload : Text) : Text := b64encode (host.hmac self.secret (bytesOf payload)).toList

/-- `encode`. -/
def encode (data : OrderedDict PyStr (JsonValue PyFloat)) (now : ClockReading) : Text :=
  let payload := b64encode (bytesOf (host.dumps (sessionBody data now.second)))
  payload ++ '.' :: self.sign host payload

/-- `max_age and (time.time() - issued) > max_age`. -/
def expired (issued : JsonValue PyFloat) (now : ClockReading) : Except PyError Bool :=
  if self.maxAge ≠ 0 then (now.since issued).map (PyFloat.gt self.maxAge) else .ok false

/-- What `decode` makes of a body whose signature is right. -/
def readBody (body : JsonValue PyFloat) (now : ClockReading) :
    Except PyError (OrderedDict PyStr (JsonValue PyFloat)) :=
  match body with
  | .obj members =>
    let body := dictOf members
    let issued := (body.get (lit "t")).getD (.int 0)
    (self.expired issued now).map fun late =>
      if late then .empty
      else
        match body.get (lit "d") with
        | some (.obj data) => dictOf data
        | _ => .empty
  | _ => .error (.plain ⟨"AttributeError", false⟩ (lit "object has no attribute 'get'"))

/-- `decode`. -/
def decode (raw : Text) (now : ClockReading) : Except PyError (OrderedDict PyStr (JsonValue PyFloat)) :=
  match splitOnce raw ['.'] with
  | none => .ok .empty
  | some (payload, signature) =>
    if payload = [] ∨ signature = [] then .ok .empty
    else do
      let same ← compareDigest signature (self.sign host payload)
      if !same then .ok .empty
      else
        match b64decode payload with
        | none => .ok .empty
        | some bytes =>
          match host.loads bytes with
          | .error e => if e.unreadable then .ok .empty else .error e
          | .ok body => self.readBody body now

/-- `load`. -/
def load (headers : HeaderMap) (now : ClockReading) : Except PyError (CookieSession PyStr (JsonValue PyFloat)) :=
  match (requestCookies headers).get self.cookie.toList with
  | none => .ok (.new .empty)
  | some raw => if raw = [] then .ok (.new .empty) else (self.decode host raw now).map .new

/-- These sessions among those of an app, for a request whose cookie was read. -/
def world (now : ClockReading) (decoded : OrderedDict PyStr (JsonValue PyFloat)) :
    SessionsWorld Unit PyStr (JsonValue PyFloat) where
  object _ := self.toSessionsObject
  encode _ data := .ok (String.ofList (self.encode host data now))
  decoded _ := decoded

end SignedSessions

/-! ## What a client sends -/

/-- A token of HTTP. -/
def IsToken (name : Text) : Prop :=
  name ≠ [] ∧ ∀ c ∈ name, c.isAlphanum = true ∨ c ∈ "!#$%&'*+-.^_`|~".toList

/-- The part of a `Set-Cookie` header that a client sends back. -/
def cookiePair (header : String) : Text := header.toList.takeWhile (· ≠ ';')

/-- A piece of a `Cookie` header that is no cookie of this name. -/
def OtherCookie (name piece : Text) : Prop :=
  ∀ other value, splitOnce (strip piece) ['='] = some (other, value) → strip other ≠ name

/-- This line of `Cookie` carries the pair, and everything beside it is of other names. -/
def HeaderMap.Carries (headers : HeaderMap) (name pair : Text) (line : HeaderValue) : Prop :=
  ∃ earlier later before left right after, headers.getAll "cookie" = earlier ++ line :: later ∧
    line.raw.splitOn ';' = before ++ (left ++ pair ++ right) :: after ∧ (∀ c ∈ left ++ right, c = ' ' ∨ c = '\t') ∧
    (∀ piece ∈ before ++ after, OtherCookie name piece) ∧
    ∀ other ∈ earlier ++ later, ∀ piece ∈ other.raw.splitOn ';', OtherCookie name piece

namespace SignedSessions

variable (host : SigningHost) (self : SignedSessions)

/-- A session that was issued at one time is given back at another, or the empty one if it is too old. -/
def ComesBack (data : OrderedDict PyStr (JsonValue PyFloat)) (issued : ClockReading) (headers : HeaderMap)
    (now : ClockReading) : Prop :=
  self.load host headers now = .ok (.new (if now.seconds - issued.second ≤ self.maxAge then data else .empty))

/-- A payload with the MAC of exactly this payload. -/
def Signed (raw : Text) : Prop := ∃ payload, raw = payload ++ '.' :: self.sign host payload

/-- What is not signed is the empty session, and nothing raises. -/
def Harmless (raw : Text) (now : ClockReading) : Prop :=
  (¬ self.Signed host raw → self.decode host raw now = .ok .empty) ∧ ∃ data, self.decode host raw now = .ok data

end SignedSessions

/-- A number that a double is not too small for. -/
def JsonValue.Numeric : JsonValue PyFloat → Prop
  | .int n => |Doubles.rounded n| < 2 ^ 1024
  | .bool _ => True
  | .float _ => True
  | _ => False

/-- The bytes are no JSON, or an object whose time of issue is a number or missing. -/
def SigningHost.Sound (host : SigningHost) (bytes : List UInt8) : Prop :=
  match host.loads bytes with
  | .error e => e.unreadable = true
  | .ok (.obj members) => ∀ issued, (dictOf members).get (lit "t") = some issued → issued.Numeric
  | .ok _ => False

/-- Every payload that is signed is sound. -/
def SignedSessions.SoundWhereSigned (host : SigningHost) (self : SignedSessions) (raw : Text) : Prop :=
  ∀ payload bytes, raw = payload ++ '.' :: self.sign host payload → '.' ∉ payload → payload ≠ [] →
    b64decode payload = some bytes → host.Sound bytes

/-! ## The characters of a cookie -/

/-- The characters of base 64 mean nothing to what a cookie passes through. -/
lemma plain_of_b64 {raw : List UInt8} {c : Char} (h : c ∈ b64encode raw) :
    c ≠ '.' ∧ c ≠ ';' ∧ c ≠ '=' ∧ whiteSpace c = false ∧ c.toNat < 128 := by
  obtain ⟨n, hn, rfl⟩ := Base64.Alphabet.mem_unpadded h
  have hall : ∀ n : Fin 64, Base64.urlsafe.digit n ≠ '.' ∧ Base64.urlsafe.digit n ≠ ';' ∧
      Base64.urlsafe.digit n ≠ '=' ∧ whiteSpace (Base64.urlsafe.digit n) = false ∧
        (Base64.urlsafe.digit n).toNat < 128 := by
    decide
  exact hall ⟨n, hn⟩

lemma b64decode_b64encode (raw : List UInt8) : b64decode (b64encode raw) = some raw := by
  have hascii : ((b64encode raw).all fun c => c.toNat < 128) = true := by
    rw [List.all_eq_true]
    intro c hc
    exact decide_eq_true (plain_of_b64 hc).2.2.2.2
  rw [b64decode, if_pos hascii, b64encode, Base64.Alphabet.repad_unpadded, Base64.Alphabet.decode_encode]

lemma plain_of_token {name : Text} (token : IsToken name) {c : Char} (h : c ∈ name) :
    c ≠ ';' ∧ c ≠ '=' ∧ whiteSpace c = false := by
  rcases token.2 c h with halnum | hmark
  · have hsmall : c.toNat < 128 := by
      delta Char.isAlphanum Char.isAlpha Char.isUpper Char.isLower Char.isDigit at halnum
      simp only [Bool.or_eq_true, Bool.and_eq_true, decide_eq_true_eq, ge_iff_le, UInt32.le_iff_toNat_le] at halnum
      change c.val.toNat < 128
      rcases halnum with (⟨_, h⟩ | ⟨_, h⟩) | ⟨_, h⟩
      · exact h.trans_lt (by decide)
      · exact h.trans_lt (by decide)
      · exact h.trans_lt (by decide)
    have hall : ∀ n : Fin 128, (Char.ofNat n).isAlphanum = true →
        Char.ofNat n ≠ ';' ∧ Char.ofNat n ≠ '=' ∧ whiteSpace (Char.ofNat n) = false := by
      decide
    have hc := hall ⟨c.toNat, hsmall⟩
    rw [Char.ofNat_toNat] at hc
    exact hc halnum
  · have hall : ("!#$%&'*+-.^_`|~".toList.all fun c => c ≠ ';' && c ≠ '=' && !whiteSpace c) = true := by decide
    have hc := List.all_eq_true.mp hall c hmark
    simpa [and_assoc] using hc

namespace SignedSessions

variable {host : SigningHost} {self : SignedSessions} {payload raw : Text}

lemma sign_ne_nil : self.sign host payload ≠ [] := by
  apply Base64.Alphabet.unpadded_ne_nil
  intro hnil
  have hlength := congrArg List.length hnil
  rw [Vector.length_toList] at hlength
  cases hlength

lemma dot_not_mem_sign : '.' ∉ self.sign host payload := by
  intro hmem
  exact (plain_of_b64 hmem).1 rfl

/-- A cookie is cut before its signature. -/
lemma signed_cut {signature : Text} (hsplit : splitOnce raw ['.'] = some (payload, signature)) {payload' : Text}
    (hraw : raw = payload' ++ '.' :: self.sign host payload') (hfree : '.' ∉ payload') :
    payload' = payload ∧ signature = self.sign host payload := by
  have hsplit' := splitOnce_char_iff.mpr ⟨hraw, hfree⟩
  rw [hsplit, Option.some.injEq, Prod.mk.injEq] at hsplit'
  obtain ⟨rfl, hsignature⟩ := hsplit'
  exact ⟨rfl, hsignature⟩

end SignedSessions

/-! ## What is read -/

lemma since_ok_iff {now : ClockReading} {issued : JsonValue PyFloat} :
    (∃ age, now.since issued = .ok age) ↔ issued.Numeric := by
  cases issued with
  | int n =>
    simp only [ClockReading.since, PyFloat.ofInt, JsonValue.Numeric]
    by_cases hlarge : 2 ^ 1024 ≤ |Doubles.rounded n|
    · rw [if_pos hlarge]
      simp [Except.map, not_lt.mpr hlarge]
    · rw [if_neg hlarge]
      simp [Except.map, not_le.mp hlarge]
  | _ => simp [ClockReading.since, JsonValue.Numeric]

lemma numeric_zero : (JsonValue.int 0 : JsonValue PyFloat).Numeric := by
  have hzero : Doubles.rounded ((0 : ℤ) : ℚ) = 0 := by
    rw [Int.cast_zero, Doubles.rounded, if_neg (lt_irrefl 0), Doubles.nearest_zero]
  simp only [JsonValue.Numeric]
  rw [hzero, abs_zero]
  positivity

lemma compareDigest_of_ascii {a b : Text} (ha : ∀ c ∈ a, c.toNat < 128) (hb : ∀ c ∈ b, c.toNat < 128) :
    compareDigest a b = .ok (decide (a = b)) := by
  have hascii : ((a ++ b).all fun c => c.toNat < 128) = true := by
    rw [List.all_eq_true]
    intro c hc
    rcases List.mem_append.mp hc with hc | hc
    · exact decide_eq_true (ha c hc)
    · exact decide_eq_true (hb c hc)
  rw [compareDigest, if_pos hascii]

namespace SignedSessions

variable {host : SigningHost} {self : SignedSessions} {payload raw : Text} {now : ClockReading}

/-- A body is read without an exception if it is an object and its time is a number. -/
lemma readBody_ok_iff (lasting : 0 < self.maxAge) {body : JsonValue PyFloat} :
    (∃ data, self.readBody body now = .ok data) ↔
      match body with
      | .obj members => ∀ issued, (dictOf members).get (lit "t") = some issued → issued.Numeric
      | _ => False := by
  cases body with
  | obj members =>
    have hissued : (∀ issued, (dictOf members).get (lit "t") = some issued → issued.Numeric) ↔
        (((dictOf members).get (lit "t")).getD (.int 0)).Numeric := by
      cases (dictOf members).get (lit "t") with
      | none => simp [numeric_zero]
      | some issued => simp
    dsimp only
    rw [hissued, ← @since_ok_iff now]
    simp only [readBody, expired, if_pos lasting.ne']
    cases now.since (((dictOf members).get (lit "t")).getD (.int 0)) with
    | error e => simp [Except.map]
    | ok age => simp [Except.map]
  | _ => simp [readBody]

/-- A text without a right signature is the empty session. -/
lemma decode_unsigned (ascii : ∀ c ∈ raw, c.toNat < 128)
    (unsigned : ∀ payload, raw = payload ++ '.' :: self.sign host payload → '.' ∉ payload → payload = []) :
    self.decode host raw now = .ok .empty := by
  unfold decode
  cases hsplit : splitOnce raw ['.'] with
  | none => rfl
  | some pieces =>
    obtain ⟨payload, signature⟩ := pieces
    obtain ⟨hraw, hfree⟩ := splitOnce_char_iff.mp hsplit
    dsimp only
    by_cases hempty : payload = [] ∨ signature = []
    · rw [if_pos hempty]
    · have hother : signature ≠ self.sign host payload := by
        intro heq
        exact hempty (.inl (unsigned payload (heq ▸ hraw) hfree))
      have hsignature : ∀ c ∈ signature, c.toNat < 128 := by
        intro c hc
        exact ascii c (hraw ▸ List.mem_append_right _ (List.mem_cons_of_mem _ hc))
      have hsign : ∀ c ∈ self.sign host payload, c.toNat < 128 := fun c hc => (plain_of_b64 hc).2.2.2.2
      rw [if_neg hempty, compareDigest_of_ascii hsignature hsign, decide_eq_false hother]
      rfl

/-- One with a right signature is what its payload says. -/
lemma decode_signed (hfree : '.' ∉ payload) (hne : payload ≠ []) :
    self.decode host (payload ++ '.' :: self.sign host payload) now =
      match b64decode payload with
      | none => .ok .empty
      | some bytes =>
        match host.loads bytes with
        | .error e => if e.unreadable then .ok .empty else .error e
        | .ok body => self.readBody body now := by
  have hsplit : splitOnce (payload ++ '.' :: self.sign host payload) ['.'] = some (payload, self.sign host payload) :=
    splitOnce_char_iff.mpr ⟨rfl, hfree⟩
  have hsign : ∀ c ∈ self.sign host payload, c.toNat < 128 := fun c hc => (plain_of_b64 hc).2.2.2.2
  have hnonempty : ¬ (payload = [] ∨ self.sign host payload = []) := by
    rintro (h | h)
    · exact hne h
    · exact sign_ne_nil h
  unfold decode
  rw [hsplit]
  dsimp only
  rw [if_neg hnonempty, compareDigest_of_ascii hsign hsign, decide_eq_true rfl]
  rfl

/-- **Forged cookies.**  A text is harmless exactly if what it may sign is sound. -/
lemma harmless_iff (lasting : 0 < self.maxAge) (ascii : ∀ c ∈ raw, c.toNat < 128) :
    self.Harmless host raw now ↔ self.SoundWhereSigned host raw := by
  by_cases hunsigned : ∀ payload, raw = payload ++ '.' :: self.sign host payload → '.' ∉ payload → payload = []
  · have hempty : self.decode host raw now = .ok .empty := decode_unsigned ascii hunsigned
    refine iff_of_true ⟨fun _ => hempty, _, hempty⟩ ?_
    intro payload bytes hraw hfree hne
    exact absurd (hunsigned payload hraw hfree) hne
  · push Not at hunsigned
    obtain ⟨payload, hraw, hfree, hne⟩ := hunsigned
    have hsound : self.SoundWhereSigned host raw ↔ ∀ bytes, b64decode payload = some bytes → host.Sound bytes := by
      constructor
      · intro h bytes
        exact h payload bytes hraw hfree hne
      · intro h payload' bytes hraw' hfree' _ hbytes
        obtain ⟨rfl, -⟩ := signed_cut (splitOnce_char_iff.mpr ⟨hraw, hfree⟩) hraw' hfree'
        exact h bytes hbytes
    have hharmless : self.Harmless host raw now ↔ ∃ data, self.decode host raw now = .ok data := by
      constructor
      · exact And.right
      · intro h
        exact ⟨fun hnot => absurd ⟨payload, hraw⟩ hnot, h⟩
    rw [hsound, hharmless, hraw, decode_signed hfree hne]
    cases b64decode payload with
    | none => simp
    | some bytes =>
      simp only [Option.some.injEq, forall_eq']
      unfold SigningHost.Sound
      cases hloads : host.loads bytes with
      | error e =>
        dsimp only
        cases hread : e.unreadable with
        | true => simp
        | false => simp
      | ok body =>
        dsimp only
        rw [readBody_ok_iff lasting]
        cases body with
        | _ => rfl

/-! ## What is written -/

lemma second_eq (issued : ClockReading) : ∃ n : ℕ, issued.second = n ∧ n < 2 ^ 53 := by
  obtain ⟨n, hn⟩ := Int.eq_ofNat_of_zero_le (Int.floor_nonneg.mpr issued.nonneg)
  refine ⟨n, hn, ?_⟩
  have hle := Int.floor_le issued.seconds
  rw [hn] at hle
  have hlt := hle.trans_lt issued.small
  exact_mod_cast hlt

/-- The time of issue, read back, is compared as it was. -/
lemma expired_second (lasting : 0 < self.maxAge) (issued : ClockReading) :
    self.expired (.int issued.second) now = .ok (decide (self.maxAge < now.seconds - issued.second)) := by
  obtain ⟨n, hn, hsmall⟩ := second_eq issued
  have hrounded : Doubles.rounded ((n : ℤ) : ℚ) = n := by
    rw [Int.cast_natCast, Doubles.rounded, if_neg (not_lt.mpr (Nat.cast_nonneg n)), Doubles.nearest_natCast hsmall]
  have hfits : ¬ 2 ^ 1024 ≤ |(n : ℚ)| := by
    have hcast : (n : ℚ) < 2 ^ 53 := by exact_mod_cast hsmall
    rw [abs_of_nonneg (Nat.cast_nonneg n), not_le]
    exact hcast.trans (pow_lt_pow_right₀ (by norm_num) (by norm_num))
  rw [expired, if_pos lasting.ne', hn]
  simp only [ClockReading.since, PyFloat.ofInt, hrounded]
  rw [if_neg hfits]
  have hcompare := Doubles.lt_rounded_sub_iff (n := n) now.small now.double lasting.le
  simp [Except.map, PyFloat.subFrom, PyFloat.gt, hcompare]

variable {data : OrderedDict PyStr (JsonValue PyFloat)} {issued : ClockReading}

/-- What is encoded is decoded, until it is too old. -/
lemma decode_encode (lasting : 0 < self.maxAge)
    (inverse : host.loads (bytesOf (host.dumps (sessionBody data issued.second))) = .ok (sessionBody data issued.second)) :
    self.decode host (self.encode host data issued) now =
      .ok (if now.seconds - issued.second ≤ self.maxAge then data else .empty) := by
  have hbytes : bytesOf (host.dumps (sessionBody data issued.second)) ≠ [] := by
    cases htext : host.dumps (sessionBody data issued.second) with
    | nil => exact absurd htext (host.dumps_ne _)
    | cons c rest =>
      rw [bytesOf_cons]
      simp [String.utf8EncodeChar_ne_nil]
  have hfree : '.' ∉ b64encode (bytesOf (host.dumps (sessionBody data issued.second))) := by
    intro hmem
    exact (plain_of_b64 hmem).1 rfl
  have hdict : dictOf data.items = data := data.update_empty_items
  have htime : (dictOf [(lit "d", .obj data.items), (lit "t", .int issued.second)]).get (lit "t") =
      some (.int issued.second) := by
    rw [dictOf, OrderedDict.get_update]
    rfl
  have hdata : (dictOf [(lit "d", .obj data.items), (lit "t", .int issued.second)]).get (lit "d") =
      some (.obj data.items) := by
    rw [dictOf, OrderedDict.get_update]
    rfl
  unfold encode
  rw [decode_signed hfree (Base64.Alphabet.unpadded_ne_nil hbytes), b64decode_b64encode]
  dsimp only
  rw [inverse]
  simp only [sessionBody, readBody, htime, hdata, Option.getD_some, expired_second lasting, Except.map, hdict]
  by_cases hfresh : now.seconds - issued.second ≤ self.maxAge
  · simp [hfresh, not_lt.mpr hfresh]
  · simp [hfresh, not_le.mp hfresh]

end SignedSessions

/-! ## Through the header -/

section Header

variable {name text left right : Text} {pieces : List Text}

/-- A text without white space is what is left of it when it is trimmed. -/
lemma strip_padded (hleft : ∀ c ∈ left, whiteSpace c = true) (hright : ∀ c ∈ right, whiteSpace c = true)
    (htext : ∀ c ∈ text, whiteSpace c = false) (hne : text ≠ []) : strip (left ++ text ++ right) = text := by
  have hends : ∀ t : Text, t ≠ [] → (∀ c ∈ t, whiteSpace c = false) → ∀ rest, (t ++ rest).dropWhile whiteSpace = t ++ rest := by
    intro t ht hplain rest
    cases t with
    | nil => exact absurd rfl ht
    | cons c t => exact List.dropWhile_cons_of_neg (by simp [hplain c (List.mem_cons_self ..)])
  unfold strip List.rdropWhile
  rw [List.append_assoc, List.dropWhile_append_of_pos hleft, hends text hne htext, List.reverse_append,
    List.dropWhile_append_of_pos (by simpa using hright)]
  have hback := hends text.reverse (by simpa using hne) (by simpa using htext) []
  rw [List.append_nil] at hback
  rw [hback, List.reverse_reverse]

lemma strip_plain (htext : ∀ c ∈ text, whiteSpace c = false) (hne : text ≠ []) : strip text = text := by
  have hstrip := @strip_padded text [] [] (by simp) (by simp) htext hne
  rw [List.nil_append, List.append_nil] at hstrip
  exact hstrip

lemma other_names (h : ∀ piece ∈ pieces, OtherCookie name piece) :
    ∀ pair ∈ pieces.filterMap cookieOfPiece, pair.1 ≠ name := by
  intro pair hpair
  obtain ⟨piece, hpiece, hread⟩ := List.mem_filterMap.mp hpair
  unfold cookieOfPiece at hread
  dsimp only at hread
  split at hread
  · cases hread
  · obtain ⟨⟨other, value⟩, hsplit, rfl⟩ := Option.map_eq_some_iff.mp hread
    exact h piece hpiece other value hsplit

lemma HeaderValue.raw_of_text {v : HeaderValue} {raw : Text} (h : v.text = some raw) : raw = v.raw := by
  by_cases hv : v.Visible
  · rw [HeaderValue.text_of_visible hv] at h
    exact (Option.some.inj h).symm
  · rw [HeaderValue.text_of_not_visible hv] at h
    cases h

/-- No cookie of some lines has a name. -/
lemma lines_names {lines : List HeaderValue}
    (h : ∀ line ∈ lines, ∀ piece ∈ line.raw.splitOn ';', OtherCookie name piece) :
    ∀ pair ∈ (lines.filterMap HeaderValue.text).flatMap fun raw => (raw.splitOn ';').filterMap cookieOfPiece,
      pair.1 ≠ name := by
  intro pair hpair
  obtain ⟨raw, hraw, hmem⟩ := List.mem_flatMap.mp hpair
  obtain ⟨line, hline, htext⟩ := List.mem_filterMap.mp hraw
  rw [HeaderValue.raw_of_text htext] at hmem
  exact other_names (h line hline) pair hmem

/-- The cookie is found if the line that carries it can be read. -/
lemma cookies_of_carries {headers : HeaderMap} {line : HeaderValue} {value : Text} (token : IsToken name)
    (hvalue : ∀ c ∈ value, whiteSpace c = false) (hne : value ≠ [])
    (carries : headers.Carries name (name ++ '=' :: value) line) :
    (requestCookies headers).get name = if line.Visible then some value else none := by
  obtain ⟨earlier, later, before, left, right, after, hlines, hpieces, hpadding, hothers, hrest⟩ := carries
  have hnames : ∀ pair ∈ after.filterMap cookieOfPiece, pair.1 ≠ name :=
    other_names fun piece hpiece => hothers piece (List.mem_append_right _ hpiece)
  have hlater := lines_names fun other hother => hrest other (List.mem_append_right earlier hother)
  have hearlier := lines_names fun other hother => hrest other (List.mem_append_left later hother)
  have hspace : ∀ c ∈ left ++ right, whiteSpace c = true := by
    intro c hc
    rcases hpadding c hc with rfl | rfl
    · decide
    · decide
  have hplain : ∀ c ∈ name ++ '=' :: value, whiteSpace c = false := by
    intro c hc
    rcases List.mem_append.mp hc with hc | hc
    · exact (plain_of_token token hc).2.2
    · rcases List.mem_cons.mp hc with rfl | hc
      · decide
      · exact hvalue c hc
  have hfree : '=' ∉ name := by
    intro hmem
    exact (plain_of_token token hmem).2.1 rfl
  have hread : cookieOfPiece (left ++ (name ++ '=' :: value) ++ right) = some (name, value) := by
    have hstrip := strip_padded (fun c hc => hspace c (List.mem_append_left _ hc))
      (fun c hc => hspace c (List.mem_append_right _ hc)) hplain (by simp)
    have hname := strip_plain (fun c hc => (plain_of_token token hc).2.2) token.1
    rw [cookieOfPiece, hstrip, if_neg (by simp), splitOnce_char_iff.mpr ⟨rfl, hfree⟩, Option.map_some]
    dsimp only
    rw [hname, strip_plain hvalue hne]
  unfold requestCookies
  rw [hlines]
  by_cases hvisible : line.Visible
  · rw [if_pos hvisible]
    rw [List.filterMap_append, List.filterMap_cons, HeaderValue.text_of_visible hvisible, List.flatMap_append,
      List.flatMap_cons, hpieces, List.filterMap_append, List.filterMap_cons, hread]
    dsimp only
    rw [List.append_assoc, List.cons_append, ← List.append_assoc]
    apply OrderedDict.get_update_append_cons
    intro pair hpair
    rcases List.mem_append.mp hpair with hpair | hpair
    · exact hnames pair hpair
    · exact hlater pair hpair
  · rw [if_neg hvisible, List.filterMap_append, List.filterMap_cons, HeaderValue.text_of_not_visible hvisible,
      List.flatMap_append]
    apply OrderedDict.get_update_of_ne
    intro pair hpair
    rcases List.mem_append.mp hpair with hpair | hpair
    · exact hearlier pair hpair
    · exact hlater pair hpair

end Header

namespace SignedSessions

variable {host : SigningHost} {self : SignedSessions} {data decoded : OrderedDict PyStr (JsonValue PyFloat)}
  {issued now : ClockReading}

lemma plain_of_encode {c : Char} (h : c ∈ self.encode host data issued) : c ≠ ';' ∧ whiteSpace c = false := by
  rcases List.mem_append.mp h with hc | hc
  · exact ⟨(plain_of_b64 hc).2.1, (plain_of_b64 hc).2.2.2.1⟩
  · rcases List.mem_cons.mp hc with rfl | hc
    · decide
    · exact ⟨(plain_of_b64 hc).2.1, (plain_of_b64 hc).2.2.2.1⟩

/-- What a client keeps of the header is the name and the value. -/
lemma cookiePair_header (token : IsToken self.cookie.toList) {header : String}
    (h : (self.world host issued decoded).cookieHeader () data = .ok header) :
    cookiePair header = self.cookie.toList ++ '=' :: self.encode host data issued := by
  have hpair : ∀ c ∈ self.cookie.toList ++ '=' :: self.encode host data issued, c ≠ ';' := by
    intro c hc
    rcases List.mem_append.mp hc with hc | hc
    · exact (plain_of_token token hc).1
    · rcases List.mem_cons.mp hc with rfl | hc
      · decide
      · exact (plain_of_encode hc).1
  unfold SessionsWorld.cookieHeader at h
  obtain ⟨encoded, hencoded, rfl⟩ := map_eq_ok.mp h
  obtain rfl := Except.ok.inj hencoded
  rw [List.cons_append, String.intercalate_cons_of_ne_nil (by simp)]
  unfold cookiePair
  simp only [String.toList_append, String.toList_ofList, List.append_assoc]
  have hassoc : ∀ rest, (self.world host issued decoded |>.object ()).cookie.toList ++
      ("=".toList ++ (self.encode host data issued ++ ("; ".toList ++ rest))) =
        (self.cookie.toList ++ '=' :: self.encode host data issued) ++ ';' :: ' ' :: rest := by
    intro rest
    simp [world]
  rw [hassoc, List.takeWhile_append_of_pos (by simpa using hpair), List.takeWhile_cons_of_neg (by simp),
    List.append_nil]

/-- **Sessions that come back.**  The header has to be readable, unless there is nothing to give back. -/
lemma comesBack_iff (token : IsToken self.cookie.toList) (lasting : 0 < self.maxAge) {header : String}
    (hheader : (self.world host issued decoded).cookieHeader () data = .ok header)
    (inverse : host.loads (bytesOf (host.dumps (sessionBody data issued.second))) = .ok (sessionBody data issued.second))
    {headers : HeaderMap} {line : HeaderValue}
    (carries : headers.Carries self.cookie.toList (cookiePair header) line) :
    self.ComesBack host data issued headers now ↔
      line.Visible ∨ data = .empty ∨ self.maxAge < now.seconds - issued.second := by
  have hne : self.encode host data issued ≠ [] := by simp [encode]
  rw [cookiePair_header token hheader] at carries
  have hget := cookies_of_carries token (fun c hc => (plain_of_encode hc).2) hne carries
  unfold ComesBack load
  rw [hget]
  by_cases hvisible : line.Visible
  · rw [if_pos hvisible]
    dsimp only
    rw [if_neg hne, decode_encode lasting inverse]
    exact iff_of_true rfl (.inl hvisible)
  · rw [if_neg hvisible]
    dsimp only
    by_cases hfresh : now.seconds - issued.second ≤ self.maxAge
    · simp only [hfresh, if_true, hvisible, false_or, not_lt.mpr hfresh, or_false, Except.ok.injEq,
        CookieSession.new, CookieSession.mk.injEq, and_true]
      exact eq_comm
    · simp [hfresh, not_le.mp hfresh]

end SignedSessions

/-- **Session cookies.**  A session comes back from the header that carries it exactly if that header is visible, or
the session is empty or too old; and a text, not signed or signed, does no harm exactly if the payloads it signs are
such as `encode` writes. -/
theorem signed_sessions_iff (host : SigningHost) (self : SignedSessions) (token : IsToken self.cookie.toList)
    (lasting : 0 < self.maxAge) :
    (∀ (data decoded : OrderedDict PyStr (JsonValue PyFloat)) (issued now : ClockReading) (header : String)
      (headers : HeaderMap) (line : HeaderValue),
      (self.world host issued decoded).cookieHeader () data = .ok header →
      host.loads (bytesOf (host.dumps (sessionBody data issued.second))) = .ok (sessionBody data issued.second) →
      headers.Carries self.cookie.toList (cookiePair header) line →
        (self.ComesBack host data issued headers now ↔
          line.Visible ∨ data = .empty ∨ self.maxAge < now.seconds - issued.second)) ∧
      ∀ (raw : Text) (now : ClockReading), (∀ c ∈ raw, c.toNat < 128) →
        (self.Harmless host raw now ↔ self.SoundWhereSigned host raw) := by
  constructor
  · intro data decoded issued now header headers line hheader inverse carries
    exact SignedSessions.comesBack_iff token lasting hheader inverse carries
  · intro raw now ascii
    exact SignedSessions.harmless_iff lasting ascii

/-! ## A session with a user -/

def adaSession : OrderedDict PyStr (JsonValue PyFloat) := ⟨[(lit "user", .str (lit "ada"))], by decide⟩

def adaJson : Text := "\x7b\"d\":\x7b\"user\":\"ada\"\x7d,\"t\":1700000000\x7d".toList

def adaPayload : Text := "eyJkIjp7InVzZXIiOiJhZGEifSwidCI6MTcwMDAwMDAwMH0".toList

/-- HMAC-SHA256 and JSON, on what is signed and read here. -/
def adaHost : SigningHost where
  hmac _ payload :=
    if payload = bytesOf adaPayload then
      #v[163, 11, 234, 135, 155, 132, 16, 147, 220, 157, 97, 215, 203, 132, 215, 70, 118, 175, 227, 138, 17, 15, 176,
        126, 56, 104, 97, 106, 109, 178, 207, 36]
    else
      #v[5, 166, 37, 120, 4, 132, 176, 253, 119, 71, 250, 71, 164, 235, 205, 67, 177, 186, 13, 236, 232, 98, 81, 186,
        129, 121, 86, 125, 150, 63, 41, 163]
  dumps _ := adaJson
  dumps_ne _ := by decide
  loads bytes :=
    if bytes = bytesOf adaJson then .ok (sessionBody adaSession 1700000000)
    else if bytes = [91, 93] then .ok (.arr [])
    else .error (.plain ⟨"JSONDecodeError", true⟩ (lit "Expecting value"))

def shopSessions : SignedSessions where
  cookie := "shop"
  maxAge := 1209600
  secure := true
  sameSite := "Lax"
  path := "/"
  named := by decide
  secret := bytesOf "unit-test-secret".toList
  secret_ne := by decide

/-- A whole number of seconds. -/
def atSecond (n : ℕ) (h : n < 2 ^ 53) : ClockReading where
  seconds := n
  nonneg := Nat.cast_nonneg n
  small := by exact_mod_cast h
  double := Doubles.nearest_natCast h

lemma second_atSecond (n : ℕ) (h : n < 2 ^ 53) : (atSecond n h).second = n := Int.floor_natCast n

/-- The cookie that is issued in second 1700000000. -/
def adaCookie : Text :=
  "shop=eyJkIjp7InVzZXIiOiJhZGEifSwidCI6MTcwMDAwMDAwMH0.owvqh5uEEJPcnWHXy4TXRnav44oRD7B-OGhham2yzyQ".toList

/-- A `Cookie` header with this cookie after another one. -/
def cookieLine (other : List UInt8) (h : other.all headerByte = true) : HeaderValue where
  bytes := other ++ [59, 32] ++ bytesOf adaCookie
  valid := by
    intro b hb
    have hall : ([59, 32] ++ bytesOf adaCookie).all headerByte = true := by decide
    rw [List.append_assoc] at hb
    rcases List.mem_append.mp hb with hb | hb
    · exact List.all_eq_true.mp h b hb
    · exact List.all_eq_true.mp hall b hb

/-- `theme=dark` -/
def darkLine : HeaderValue := cookieLine [116, 104, 101, 109, 101, 61, 100, 97, 114, 107] (by decide)

/-- `city=Köln` -/
def cityLine : HeaderValue := cookieLine [99, 105, 116, 121, 61, 75, 195, 182, 108, 110] (by decide)

abbrev adaIssued : ClockReading := atSecond 1700000000 (by decide)

lemma adaCookie_eq : "shop".toList ++ '=' :: shopSessions.encode adaHost adaSession adaIssued = adaCookie := by
  decide +kernel

lemma shop_token : IsToken shopSessions.cookie.toList := by
  have hall : ("shop".toList.all fun c => c.isAlphanum) = true := by decide
  exact ⟨by decide, fun c hc => .inl (List.all_eq_true.mp hall c hc)⟩

/-- A `Cookie` header of two cookies carries the second. -/
lemma carries_ada {line : HeaderValue} {other : Text} (hpieces : line.raw.splitOn ';' = [other, ' ' :: adaCookie])
    (hother : OtherCookie shopSessions.cookie.toList other) :
    HeaderMap.Carries [("cookie", line)] shopSessions.cookie.toList adaCookie line := by
  refine ⟨[], [], [other], [' '], [], [], rfl, ?_, by simp, ?_, by simp⟩
  · rw [hpieces, List.append_nil]
    rfl
  · intro piece hpiece
    rw [List.append_nil, List.mem_singleton] at hpiece
    rw [hpiece]
    exact hother

lemma other_cookie {piece name value : Text} (hcut : splitOnce (strip piece) ['='] = some (name, value))
    (hname : strip name ≠ shopSessions.cookie.toList) : OtherCookie shopSessions.cookie.toList piece := by
  intro other value' hsplit
  rw [hcut, Option.some.injEq, Prod.mk.injEq] at hsplit
  rw [← hsplit.1]
  exact hname

/-- Ada's session is there a minute later, and a session that nobody signed is not. -/
theorem ada_comes_back :
    shopSessions.ComesBack adaHost adaSession adaIssued [("cookie", darkLine)] (atSecond 1700000060 (by decide)) ∧
      shopSessions.Harmless adaHost "W10.AAAA".toList (atSecond 1700000060 (by decide)) := by
  have hsettled := signed_sessions_iff adaHost shopSessions shop_token (by decide)
  constructor
  · apply (hsettled.1 adaSession .empty adaIssued _ _ _ darkLine rfl rfl ?_).mpr
    · exact .inl (List.all_eq_true.mp (by decide))
    · have hpieces : darkLine.raw.splitOn ';' = ["theme=dark".toList, ' ' :: adaCookie] := by decide +kernel
      have hcut : splitOnce (strip "theme=dark".toList) ['='] = some ("theme".toList, "dark".toList) := rfl
      rw [SignedSessions.cookiePair_header shop_token rfl]
      exact adaCookie_eq ▸ carries_ada hpieces (other_cookie hcut (by decide))
  · have hascii : ("W10.AAAA".toList.all fun c => c.toNat < 128) = true := by decide
    apply (hsettled.2 _ _ fun c hc => of_decide_eq_true (List.all_eq_true.mp hascii c hc)).mpr
    intro payload bytes hraw hfree _ _
    have hsplit : splitOnce "W10.AAAA".toList ['.'] = some ("W10".toList, "AAAA".toList) := rfl
    obtain ⟨-, hsignature⟩ := SignedSessions.signed_cut hsplit hraw hfree
    exact absurd hsignature (by decide +kernel)

/-- It is not, beside a cookie in German; and a list that is signed raises. -/
theorem ada_lost :
    HeaderMap.Carries [("cookie", cityLine)] shopSessions.cookie.toList adaCookie cityLine ∧
      ¬ shopSessions.ComesBack adaHost adaSession adaIssued [("cookie", cityLine)] (atSecond 1700000060 (by decide)) ∧
        ¬ ∃ data, shopSessions.decode adaHost "W10.BaYleASEsP13R_pHpOvNQ7G6DezoYlG6gXlWfZY_KaM".toList
          (atSecond 1700000060 (by decide)) = .ok data := by
  have hpieces : cityLine.raw.splitOn ';' = [cityLine.raw.take 10, ' ' :: adaCookie] := by decide +kernel
  have hcut : splitOnce (strip (cityLine.raw.take 10)) ['='] = some ("city".toList, (cityLine.raw.take 10).drop 5) := by
    decide +kernel
  have hcarries := carries_ada hpieces (other_cookie hcut (by decide))
  have hhidden : ¬ cityLine.Visible := fun h => absurd (h 195 (by simp [cityLine, cookieLine])) (by decide)
  refine ⟨hcarries, ?_, ?_⟩
  · have hpair : ∀ header, (shopSessions.world adaHost adaIssued .empty).cookieHeader () adaSession = .ok header →
        cookiePair header = adaCookie :=
      fun header h => (SignedSessions.cookiePair_header shop_token h).trans adaCookie_eq
    rw [SignedSessions.comesBack_iff shop_token (by decide) rfl rfl (by rw [hpair _ rfl]; exact hcarries)]
    rintro (hvisible | hempty | hlate)
    · exact hhidden hvisible
    · exact absurd (congrArg OrderedDict.items hempty) (by simp [adaSession, OrderedDict.empty])
    · rw [second_atSecond] at hlate
      norm_num [shopSessions, atSecond] at hlate
  · have hraw : "W10.BaYleASEsP13R_pHpOvNQ7G6DezoYlG6gXlWfZY_KaM".toList =
        "W10".toList ++ '.' :: shopSessions.sign adaHost "W10".toList := by
      decide +kernel
    rintro ⟨data, hdata⟩
    rw [hraw, SignedSessions.decode_signed (by decide) (by decide)] at hdata
    cases hdata

end Oxbrook
