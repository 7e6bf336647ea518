import Oxbrook.Bodies.Form
import Oxbrook.Foundation.Percent
import Oxbrook.Foundation.WebUrl
import Oxbrook.Origins.Texts
import Oxbrook.Sessions.Signed

/-!
# Where a login leads

`_target`, `_begin` and `_finish` of `OAuthLogin` in `_login.py`.  A login is begun with a query that may name a path to
go on to; this target is kept in the session, under the state that the provider hands back, and the login that is
finished with this state redirects to it.

The session is a cookie: a browser has all contents it was ever given, and may send any of them, to any of the flows of
the app.  `login_stays` follows the targets through all of this.  What the provider answers and what the app makes of it
are parameters.
-/

namespace Oxbrook

open Attempt Percent StepMachine

/-! ## Query strings -/

/-- `urllib.parse.unquote_plus`: runs of ASCII are unquoted and decoded, other characters are kept. -/
def unquotePlus (text : Text) : Text :=
  let ascii (c : Char) : Bool := c.toNat < 128
  let spaced := text.map fun c => if c = '+' then ' ' else c
  (spaced.splitBy fun a b => ascii a = ascii b).flatMap fun run =>
    if run.all ascii then decodeLossy none (decode (bytesOf run)) else run

/-- `urllib.parse.parse_qsl`. -/
def parseQsl (keepBlankValues : Bool) (query : Text) : List (Text × Text) :=
  (query.splitOn '&').filterMap fun field =>
    if field = [] then none
    else
      let (name, value) := (splitOnce field ['=']).getD (field, [])
      if value = [] ∧ keepBlankValues = false then none else some (unquotePlus name, unquotePlus value)

/-! ## Flows -/

/-- `_local`. -/
def localPath (value : Text) : Option Text :=
  if ¬ ("/".toList <+: value) ∨ "//".toList <+: value ∨ 2048 < value.length then none
  else if value.any fun c => c = '\\' || !('!' ≤ c && c ≤ '~') then none
  else some value

/-- An `OAuthLogin`, which refuses an `after_login` that is not a path on this site. -/
structure LoginFlow where
  name : Text
  openid : Bool
  afterLogin : Text
  checked : (localPath afterLogin).isSome

/-- A login in progress. -/
structure PendingLogin where
  name : Text
  verifier : Text
  nonce : Option Text
  target : Text
  redirectUri : Text
  issued : ℤ

/-- The logins in progress of a session, under their states. -/
abbrev PendingLogins := OrderedDict Text PendingLogin

namespace PendingLogins

/-- `_pending`. -/
def live (pending : PendingLogins) (now : ClockReading) : PendingLogins where
  items := pending.items.filter fun item => Doubles.rounded (now.seconds - item.2.issued) ≤ 600
  nodup := pending.nodup.sublist (List.filter_sublist.map _)

/-- `min(pending, key=...)` is deleted. -/
def dropOldest (pending : PendingLogins) : PendingLogins :=
  match pending.items.find? fun item => pending.items.all fun other => item.2.issued ≤ other.2.issued with
  | some item => pending.erase item.1
  | none => pending

/-- At most `PENDING_LIMIT` are kept. -/
def limit (pending : PendingLogins) : PendingLogins := dropOldest^[pending.items.length - 4] pending

end PendingLogins

/-- What `_begin` draws and works out: the secrets, and where the provider is to send the browser. -/
structure LoginDraw where
  state : Text
  verifier : Text
  nonce : Text
  redirectUri : Text

/-- What a provider answers, and what the app makes of it: whether the discovery document promises an `iss`, which are
accepted, and what `on_login` returns for the person, or a status. -/
structure LoginProvider (V : Type) where
  promised : Except ℕ Bool
  issuerOk : Text → Bool
  identify : LoginFlow → Text → PendingLogin → Except ℕ (Option V)

namespace LoginFlow

variable {V : Type} (self : LoginFlow)

/-- `_target`. -/
def target (query : Option Text) : Text :=
  match ((parseQsl false (query.getD [])).filter fun pair => pair.1 = "next".toList).map Prod.snd with
  | [value] => (localPath value).getD self.afterLogin
  | _ => self.afterLogin

/-- `_begin`: the logins in progress that it leaves. -/
def begin (query : Option Text) (draw : LoginDraw) (now : ClockReading) (pending : PendingLogins) : PendingLogins :=
  let entry : PendingLogin :=
    ⟨self.name, draw.verifier, if self.openid then some draw.nonce else none, self.target query, draw.redirectUri,
      now.second⟩
  PendingLogins.limit ((pending.live now).set draw.state entry)

/-- What `_endpoints` says of an `iss`. -/
def endpoints (provider : LoginProvider V) : Except ℕ Bool := if self.openid then provider.promised else .ok false

/-- What `_finish` does with the entry it has popped. -/
def complete (provider : LoginProvider V) (params : List (Text × Text)) (entry : PendingLogin) :
    Except ℕ (V × Text) := do
  let promised ← self.endpoints provider
  let iss := params.lookup "iss".toList
  if self.openid ∧ (iss.isSome ∨ promised) ∧ ¬ iss.any provider.issuerOk then .error 400
  else
    match params.lookup "error".toList with
    | some error => .error (if error = "access_denied".toList then 403 else 400)
    | none =>
      match params.lookup "code".toList with
      | none => .error 400
      | some [] => .error 400
      | some code => do
        let value ← provider.identify self code entry
        match value with
        | none => .error 403
        | some value => .ok (value, entry.target)

/-- The login in progress of a callback, with its state. -/
def entryOf (params : List (Text × Text)) (found : PendingLogins) : Option (Text × PendingLogin) :=
  (params.lookup "state".toList).bind fun state =>
    if state = [] then none else (found.get state).map fun entry => (state, entry)

/-- `_finish`: the value for the session with the place to go to, or a status, and the logins in progress that it
leaves. -/
def finish (provider : LoginProvider V) (query : Option Text) (now : ClockReading) (pending : PendingLogins) :
    Except ℕ (V × Text) × PendingLogins :=
  let params := parseQsl true (query.getD [])
  if (params.map Prod.fst).Nodup then
    match entryOf params (pending.live now) with
    | none => (.error 400, pending)
    | some (state, entry) =>
      if entry.name ≠ self.name then (.error 400, (pending.live now).erase state)
      else
        match self.complete provider params entry with
        | .error status => (.error status, (pending.live now).erase state)
        | .ok reply => (.ok reply, .empty)
  else (.error 400, pending)

end LoginFlow

/-! ## Browsers -/

/-- What a browser was given: the contents of its session, and where it was sent after a login. -/
structure LoginHistory where
  sessions : List PendingLogins
  redirects : List Text

namespace LoginHistory

def start : LoginHistory := ⟨[.empty], []⟩

end LoginHistory

/-- A request of a browser, with one of the contents of its session. -/
inductive LoginRequest (V : Type)
  | begin (flow : LoginFlow) (session : ℕ) (query : Option Text) (draw : LoginDraw) (now : ClockReading)
  | finish (flow : LoginFlow) (session : ℕ) (query : Option Text) (provider : LoginProvider V) (now : ClockReading)

def LoginHistory.step {V : Type} (h : LoginHistory) : LoginRequest V → Option LoginHistory
  | .begin flow session query draw now =>
    h.sessions[session]?.map fun pending => { h with sessions := h.sessions ++ [flow.begin query draw now pending] }
  | .finish flow session query provider now =>
    h.sessions[session]?.map fun pending =>
      let (reply, left) := flow.finish provider query now pending
      ⟨h.sessions ++ [left], h.redirects ++ (reply.toOption.map Prod.snd).toList⟩

/-! ## On this site -/

/-- A browser that is sent there from a page of any site stays on the site. -/
def StaysOnSite (location : Text) : Prop :=
  ∀ (H : Type) [DecidableEq H] (hosts : WebUrl.HostParser H) (base : WebUrl.Site H),
    base.scheme = "http".toList ∨ base.scheme = "https".toList → WebUrl.resolve hosts base location = some base

/-! ## Paths -/

/-- A path that `_local` lets pass. -/
def IsLocal (value : Text) : Prop := localPath value = some value

lemma isLocal_of_localPath {value path : Text} (h : localPath value = some path) : IsLocal path := by
  have hsame : path = value := by
    unfold localPath at h
    split_ifs at h
    exact (Option.some.inj h).symm
  rw [IsLocal, hsame, h, hsame]

/-- What `_local` asks of a path. -/
lemma IsLocal.spec {value : Text} (h : IsLocal value) :
    "/".toList <+: value ∧ ¬ "//".toList <+: value ∧ ∀ c ∈ value, c ≠ '\\' ∧ '!' ≤ c ∧ c ≤ '~' := by
  unfold IsLocal localPath at h
  split_ifs at h with hshape hchars
  push Not at hshape
  refine ⟨hshape.1, hshape.2.1, ?_⟩
  intro c hc
  simp only [List.any_eq_true, not_exists, not_and, Bool.not_eq_true, Bool.or_eq_false_iff, Bool.not_eq_false',
    decide_eq_false_iff_not, Bool.and_eq_true, decide_eq_true_eq] at hchars
  exact hchars c hc

lemma toNat_of_printable {c : Char} (h : '!' ≤ c ∧ c ≤ '~') : 32 < c.toNat ∧ c.toNat < 127 := by
  have hlow : '!'.toNat ≤ c.toNat := h.1
  have hhigh : c.toNat ≤ '~'.toNat := h.2
  constructor
  · exact lt_of_lt_of_le (by decide) hlow
  · exact lt_of_le_of_lt hhigh (by decide)

/-- **Staying.**  No browser leaves the site for such a path. -/
lemma IsLocal.stays {value : Text} (h : IsLocal value) : StaysOnSite value := by
  obtain ⟨⟨rest, rfl⟩, hdouble, hchars⟩ := h.spec
  intro H _ hosts base hbase
  apply WebUrl.resolve_path
  · rcases hbase with hscheme | hscheme
    · rw [hscheme]
      decide
    · rw [hscheme]
      decide
  · intro c hc
    exact (toNat_of_printable (hchars c hc).2).1
  · intro c hc
    have hmem : c ∈ rest := List.mem_of_mem_head? hc
    have hback := (hchars c (List.mem_append_right _ hmem)).1
    have hslash : c ≠ '/' := by
      rintro rfl
      obtain ⟨tail, rfl⟩ := List.head?_eq_some_iff.mp hc
      exact hdouble ⟨tail, rfl⟩
    simp [WebUrl.isSlash, hback, hslash]

/-- Such a path can be sent in a header. -/
lemma IsLocal.validValue {value : Text} (h : IsLocal value) : validValue (String.ofList value) = true := by
  obtain ⟨-, -, hchars⟩ := h.spec
  have hbytes : ∀ n : Fin 128, 32 < n.val → n.val < 127 →
      ((String.utf8EncodeChar (Char.ofNat n)).all headerByte) = true := by
    decide
  have hall : ((bytesOf value).all headerByte) = true := by
    rw [List.all_eq_true]
    intro b hb
    obtain ⟨c, hc, hmem⟩ := List.mem_flatMap.mp hb
    obtain ⟨hlow, hhigh⟩ := toNat_of_printable (hchars c hc).2
    have hchar := hbytes ⟨c.toNat, by omega⟩ hlow hhigh
    rw [Char.ofNat_toNat] at hchar
    exact List.all_eq_true.mp hchar b hmem
  have hdata : (String.ofList value).toUTF8.data = (bytesOf value).toArray := by
    rw [String.toUTF8_eq_toByteArray, String.toByteArray_ofList]
    exact List.data_toByteArray
  rw [Oxbrook.validValue, hdata, List.all_toArray]
  exact hall

/-! ## Targets -/

namespace LoginFlow

variable {V : Type} (self : LoginFlow)

lemma afterLogin_isLocal : IsLocal self.afterLogin := by
  obtain ⟨path, hpath⟩ := Option.isSome_iff_exists.mp self.checked
  have hlocal := isLocal_of_localPath hpath
  have hsame : path = self.afterLogin := by
    unfold localPath at hpath
    split_ifs at hpath
    exact (Option.some.inj hpath).symm
  exact hsame ▸ hlocal

/-- Whatever is asked for, the target is a path that was let pass. -/
lemma target_isLocal (query : Option Text) : IsLocal (self.target query) := by
  unfold target
  split
  · rename_i value _
    cases hpath : localPath value with
    | none => exact self.afterLogin_isLocal
    | some path => exact isLocal_of_localPath hpath
  · exact self.afterLogin_isLocal

end LoginFlow

/-- All targets of a session are such paths. -/
def PendingLogins.Local (pending : PendingLogins) : Prop := ∀ item ∈ pending.items, IsLocal item.2.target

namespace PendingLogins

variable {pending : PendingLogins} {now : ClockReading}

lemma Local.live (h : pending.Local) : (pending.live now).Local := by
  intro item hitem
  exact h item (List.mem_of_mem_filter hitem)

lemma Local.erase (h : pending.Local) (state : Text) : Local (OrderedDict.erase pending state) := by
  intro item hitem
  exact h item (List.mem_of_mem_filter hitem)

lemma Local.set (h : pending.Local) (state : Text) {entry : PendingLogin} (hentry : IsLocal entry.target) :
    Local (OrderedDict.set pending state entry) := by
  intro item hitem
  rcases OrderedDict.mem_setItems.mp hitem with rfl | ⟨hitem, -⟩
  · exact hentry
  · exact h item hitem

lemma Local.dropOldest (h : pending.Local) : pending.dropOldest.Local := by
  unfold PendingLogins.dropOldest
  split
  · exact h.erase _
  · exact h

lemma Local.limit (h : pending.Local) : pending.limit.Local := by
  unfold PendingLogins.limit
  induction pending.items.length - 4 generalizing pending with
  | zero => exact h
  | succ n ih =>
    rw [Function.iterate_succ_apply]
    exact ih h.dropOldest

/-- The entry of a callback is one of the session. -/
lemma Local.entryOf (h : pending.Local) {params : List (Text × Text)} {state : Text} {entry : PendingLogin}
    (hentry : LoginFlow.entryOf params pending = some (state, entry)) : IsLocal entry.target := by
  obtain ⟨asked, -, hfound⟩ := Option.bind_eq_some_iff.mp hentry
  split_ifs at hfound
  obtain ⟨found, hget, heq⟩ := Option.map_eq_some_iff.mp hfound
  cases heq
  exact h (state, entry) (OrderedDict.get_eq_some_iff.mp hget)

end PendingLogins

/-! ## Runs -/

namespace LoginFlow

variable {V : Type} {self : LoginFlow} {provider : LoginProvider V} {query : Option Text} {now : ClockReading}
  {pending : PendingLogins}

lemma begin_local (query : Option Text) (draw : LoginDraw) (now : ClockReading) (h : pending.Local) : (self.begin query draw now pending).Local :=
  (h.live.set draw.state (self.target_isLocal query)).limit

/-- A login that is completed leads to the target of its entry. -/
lemma complete_target {params : List (Text × Text)} {entry : PendingLogin} {reply : V × Text}
    (h : self.complete provider params entry = .ok reply) : reply.2 = entry.target := by
  unfold complete at h
  obtain ⟨promised, _, h⟩ := bind_eq_ok.mp h
  dsimp only at h
  split_ifs at h
  split at h
  · cases h
  · split at h
    · cases h
    · cases h
    · obtain ⟨value, _, h⟩ := bind_eq_ok.mp h
      cases value with
      | none => cases h
      | some value =>
        cases h
        rfl

/-- All that `_finish` can do: it refuses or fails, or it redirects to the target of a login in progress. -/
lemma finish_cases (provider : LoginProvider V) (query : Option Text) (now : ClockReading) (h : pending.Local) :
    (self.finish provider query now pending).2.Local ∧
      ∀ reply, (self.finish provider query now pending).1 = .ok reply → IsLocal reply.2 := by
  unfold finish
  dsimp only
  by_cases hnodup : ((parseQsl true (query.getD [])).map Prod.fst).Nodup
  · rw [if_pos hnodup]
    cases hentry : entryOf (parseQsl true (query.getD [])) (pending.live now) with
    | none => exact ⟨h, by simp⟩
    | some found =>
      obtain ⟨state, entry⟩ := found
      have hlocal := h.live.entryOf hentry
      dsimp only
      by_cases hname : entry.name ≠ self.name
      · rw [if_pos hname]
        exact ⟨h.live.erase state, by simp⟩
      · rw [if_neg hname]
        cases hcomplete : self.complete provider (parseQsl true (query.getD [])) entry with
        | error status => exact ⟨h.live.erase state, by simp⟩
        | ok reply =>
          refine ⟨by simp [PendingLogins.Local, OrderedDict.empty], ?_⟩
          intro reply' heq
          rw [← Except.ok.inj heq, complete_target hcomplete]
          exact hlocal
  · rw [if_neg hnodup]
    exact ⟨h, by simp⟩

end LoginFlow

/-- What a browser was given is all local. -/
structure LoginHistory.AllLocal (h : LoginHistory) : Prop where
  sessions : ∀ pending ∈ h.sessions, pending.Local
  redirects : ∀ location ∈ h.redirects, IsLocal location

namespace LoginHistory

variable {V : Type} {h h' : LoginHistory}

lemma allLocal_start : start.AllLocal where
  sessions := by
    intro pending hmem
    rw [List.mem_singleton.mp hmem]
    intro item hitem
    cases hitem
  redirects _ hmem := by cases hmem

/-- A request keeps it so. -/
lemma AllLocal.step (hlocal : h.AllLocal) {request : LoginRequest V} (taken : h.step request = some h') :
    h'.AllLocal := by
  cases request with
  | begin flow session query draw now =>
    obtain ⟨pending, hpending, rfl⟩ := Option.map_eq_some_iff.mp taken
    have hbegun := flow.begin_local query draw now (hlocal.sessions pending (List.mem_of_getElem? hpending))
    refine ⟨?_, hlocal.redirects⟩
    intro other hother
    rcases List.mem_append.mp hother with hother | hother
    · exact hlocal.sessions other hother
    · rw [List.mem_singleton.mp hother]
      exact hbegun
  | finish flow session query provider now =>
    obtain ⟨pending, hpending, rfl⟩ := Option.map_eq_some_iff.mp taken
    obtain ⟨hleft, hreply⟩ := LoginFlow.finish_cases provider query now
      (hlocal.sessions pending (List.mem_of_getElem? hpending))
    constructor
    · intro other hother
      rcases List.mem_append.mp hother with hother | hother
      · exact hlocal.sessions other hother
      · rw [List.mem_singleton.mp hother]
        exact hleft
    · intro location hlocation
      rcases List.mem_append.mp hlocation with hlocation | hlocation
      · exact hlocal.redirects location hlocation
      · cases hfinished : (flow.finish provider query now pending).1 with
        | error status =>
          rw [hfinished] at hlocation
          cases hlocation
        | ok reply =>
          rw [hfinished] at hlocation
          rw [List.mem_singleton.mp hlocation]
          exact hreply reply hfinished

end LoginHistory

/-- **Logins.**  Whatever the query of a login asks for, its target keeps a browser on the site and can be sent in a
header; and so does every place that a login redirects to, whichever logins a browser begins and finishes, with
whatever sessions it was given. -/
theorem login_stays {V : Type} :
    (∀ (flow : LoginFlow) (query : Option Text),
      StaysOnSite (flow.target query) ∧ validValue (String.ofList (flow.target query)) = true) ∧
      ∀ history : LoginHistory, Reachable (LoginHistory.step (V := V)) LoginHistory.start history →
        ∀ location ∈ history.redirects, StaysOnSite location ∧ validValue (String.ofList location) = true := by
  constructor
  · intro flow query
    have hlocal := flow.target_isLocal query
    exact ⟨hlocal.stays, hlocal.validValue⟩
  · intro history hreachable
    have hall : history.AllLocal := hreachable.invariant LoginHistory.allLocal_start
      fun _ _ _ hlocal taken => hlocal.step taken
    intro location hlocation
    have hlocal := hall.redirects location hlocation
    exact ⟨hlocal.stays, hlocal.validValue⟩

/-! ## A login -/

def acmeFlow : LoginFlow := ⟨"acme".toList, false, "/".toList, by decide⟩

/-- A provider that knows whoever comes back with a code. -/
def acmeProvider : LoginProvider String := ⟨.ok false, fun _ => true, fun _ _ _ => .ok (some "acme:7")⟩

lemma acmeLogin_fits : 1700000000 < 2 ^ 53 := by decide

def acmeRequests : List (LoginRequest String) :=
  [.begin acmeFlow 0 (some "next=%2Fnotes".toList)
      ⟨"s1".toList, "v1".toList, "n1".toList, "https://shop.example/callback".toList⟩ (atSecond 1700000000 acmeLogin_fits),
    .finish acmeFlow 1 (some "state=s1&code=c1".toList) acmeProvider (atSecond 1700000060 (by decide))]

/-- A browser that logs in on its way to the notes comes to the notes, on the same site. -/
theorem notes_stay : ∃ history, Reachable (LoginHistory.step (V := String)) LoginHistory.start history ∧
    history.redirects = ["/notes".toList] ∧ StaysOnSite "/notes".toList := by
  obtain ⟨history, hrun, hredirects⟩ : ∃ history,
      exec (LoginHistory.step (V := String)) (fun _ _ => True) LoginHistory.start acmeRequests = some history ∧
        history.redirects = ["/notes".toList] := by
    refine ⟨_, rfl, ?_⟩
    decide +kernel
  have hreachable : Reachable LoginHistory.step LoginHistory.start history := Reaches.of_exec acmeRequests hrun
  refine ⟨history, hreachable, hredirects, ?_⟩
  exact (login_stays.2 history hreachable _ (by rw [hredirects]; exact List.mem_singleton_self _)).1

end Oxbrook
