import Oxbrook.Foundation.Numerals
import Oxbrook.Origins.Texts

/-!
# A page and its own server

`SocketOrigins::permits` without configured origins, for requests as a browser sends them: the origin of the page and
the host it asks are written without the default port of their scheme.  Of the origin the code drops the default port
of the scheme; a host comes without a scheme, and of it the code drops either default port.

So the two differ where a page was loaded from the default port of the other scheme: `own_server_iff` says that this is
the only exception, and that no page of another host or of another port gets in.
-/

namespace Oxbrook

/-! ## How browsers write -/

inductive WebScheme
  | http
  | https
  deriving DecidableEq

namespace WebScheme

def name : WebScheme → Text
  | http => "http".toList
  | https => "https".toList

def defaultPort : WebScheme → ℕ
  | http => 80
  | https => 443

end WebScheme

/-- A host as a browser writes it: visible, in lower case, and with colons only between brackets. -/
structure WebHost where
  text : Text
  visible : ∀ c ∈ text, 33 ≤ c.toNat ∧ c.toNat ≤ 126
  lower : ∀ c ∈ text, c.toLower = c
  colons : ':' ∈ text → text.getLast? = some ']'

/-- A port as it is written, unless it is the default one of the scheme. -/
def writtenPort (scheme : WebScheme) (port : ℕ) : Option Text :=
  if port = scheme.defaultPort then none else some (Nat.toDigits 10 port)

/-- What a browser sends in `Host`. -/
def hostText (scheme : WebScheme) (host : WebHost) (port : ℕ) : Text := host.text ++ portText (writtenPort scheme port)

/-- What a browser sends in `Origin`. -/
def originText (scheme : WebScheme) (host : WebHost) (port : ℕ) : Text :=
  scheme.name ++ "://".toList ++ hostText scheme host port

/-! ## Requests -/

/-- A header or an entry of one names an address, in any case and with white space around it. -/
def NamesAddress (value : Option Text) (scheme : WebScheme) (host : WebHost) (port : ℕ) : Prop :=
  ∃ text, value = some text ∧ lowercase (strip text) = hostText scheme host port

/-- A header names another host, or another port where neither is a default one; or there is none that can be read. -/
def NamesForeign (value : Option Text) (host : WebHost) (port : ℕ) : Prop :=
  value = none ∨ ∃ scheme' host' port', NamesAddress value scheme' host' port' ∧
    (host'.text ≠ host.text ∨ port' ≠ port ∧ port' ∉ [80, 443] ∧ port ∉ [80, 443])

/-- The first entry of `X-Forwarded-Host`. -/
def forwardedHost (headers : HeaderMap) : Option Text := (headers.header "x-forwarded-host").map firstItem

/-- The headers of a request are those of a page of the server itself. -/
def FromOwnPage (headers : HeaderMap) (scheme : WebScheme) (host : WebHost) (port : ℕ) : Prop :=
  NamesAddress (headers.header "host") scheme host port ∨ NamesAddress (forwardedHost headers) scheme host port

/-- Neither header names the address of the page. -/
def FromForeignPage (headers : HeaderMap) (host : WebHost) (port : ℕ) : Prop :=
  NamesForeign (headers.header "host") host port ∧ NamesForeign (forwardedHost headers) host port

/-- A page of `http` on 443, or of `https` on 80. -/
def OnOtherDefault (scheme : WebScheme) (port : ℕ) : Prop := port ≠ scheme.defaultPort ∧ port ∈ [80, 443]

section Addresses

variable {scheme scheme' : WebScheme} {host host' : WebHost} {port port' : ℕ} {text : Text}

open Numerals in
lemma digits_inj {m n : ℕ} (h : Nat.toDigits 10 m = Nat.toDigits 10 n) : m = n := by
  have hread := congrArg (readDigits 10) h
  rw [readDigits_toDigits (by decide) (by decide), readDigits_toDigits (by decide) (by decide)] at hread
  exact Option.some.inj hread

lemma not_mem_digits {c : Char} (hc : c.isDigit = false) (n : ℕ) : c ∉ Nat.toDigits 10 n := by
  intro hmem
  rw [Nat.isDigit_of_mem_toDigits (by decide) (by decide) hmem] at hc
  cases hc

/-- A host does not end with a port. -/
lemma WebHost.ne_append {digits : Text} (h : ']' ∉ digits) : host.text ≠ text ++ ':' :: digits := by
  intro heq
  have hlast := host.colons (by rw [heq]; simp)
  rw [heq, List.getLast?_append_of_ne_nil _ (List.cons_ne_nil _ _)] at hlast
  rcases List.mem_cons.mp (List.mem_of_getLast? hlast) with hcolon | hmem
  · cases hcolon
  · exact h hmem

/-- A written port is read back. -/
lemma writtenPort_cases (scheme : WebScheme) (port : ℕ) :
    port = scheme.defaultPort ∧ writtenPort scheme port = none ∨
      port ≠ scheme.defaultPort ∧ writtenPort scheme port = some (Nat.toDigits 10 port) := by
  unfold writtenPort
  split
  · rename_i h
    exact .inl ⟨h, rfl⟩
  · rename_i h
    exact .inr ⟨h, rfl⟩

/-- A host and a written port are determined by the text made of them. -/
lemma hostText_inj (h : hostText scheme host port = hostText scheme' host' port') :
    host.text = host'.text ∧ writtenPort scheme port = writtenPort scheme' port' := by
  unfold hostText at h
  have hbracket : ∀ n, ']' ∉ Nat.toDigits 10 n := not_mem_digits (by decide)
  have hcolon : ∀ n, ':' ∉ Nat.toDigits 10 n := not_mem_digits (by decide)
  obtain ⟨-, hport⟩ | ⟨-, hport⟩ := writtenPort_cases scheme port
  · obtain ⟨-, hport'⟩ | ⟨-, hport'⟩ := writtenPort_cases scheme' port'
    · rw [hport, hport', portText, List.append_nil, List.append_nil] at h
      exact ⟨h, by rw [hport, hport']⟩
    · rw [hport, hport', portText, portText, List.append_nil] at h
      exact absurd h (WebHost.ne_append (hbracket port'))
  · obtain ⟨-, hport'⟩ | ⟨-, hport'⟩ := writtenPort_cases scheme' port'
    · rw [hport, hport', portText, portText, List.append_nil] at h
      exact absurd h.symm (WebHost.ne_append (hbracket port))
    · have hread : hostAndPort (host.text ++ portText (writtenPort scheme port)) =
          (host.text, writtenPort scheme port) := by
        rw [hport]
        exact hostAndPort_eq_iff.mpr ⟨rfl, hcolon port⟩
      have hread' : hostAndPort (host.text ++ portText (writtenPort scheme port)) =
          (host'.text, writtenPort scheme' port') := by
        rw [h, hport']
        exact hostAndPort_eq_iff.mpr ⟨rfl, hcolon port'⟩
      exact Prod.mk.inj (hread.symm.trans hread')

/-- What ends with a port in digits was written with it. -/
lemma port_of_suffix {n : ℕ} (h : hostText scheme host port = text ++ ':' :: Nat.toDigits 10 n) :
    text = host.text ∧ port = n ∧ port ≠ scheme.defaultPort := by
  have hbracket : ']' ∉ Nat.toDigits 10 n := not_mem_digits (by decide) n
  have hcolon : ∀ n, ':' ∉ Nat.toDigits 10 n := not_mem_digits (by decide)
  unfold hostText at h
  obtain ⟨-, hport⟩ | ⟨hne, hport⟩ := writtenPort_cases scheme port
  · rw [hport, portText, List.append_nil] at h
    exact absurd h (WebHost.ne_append hbracket)
  · rw [hport, portText] at h
    have hread : hostAndPort (host.text ++ ':' :: Nat.toDigits 10 port) = (host.text, some (Nat.toDigits 10 port)) :=
      hostAndPort_eq_iff.mpr ⟨rfl, hcolon port⟩
    have hread' : hostAndPort (host.text ++ ':' :: Nat.toDigits 10 port) = (text, some (Nat.toDigits 10 n)) :=
      hostAndPort_eq_iff.mpr ⟨h, hcolon n⟩
    obtain ⟨rfl, hdigits⟩ := Prod.mk.inj (hread.symm.trans hread')
    exact ⟨rfl, digits_inj (Option.some.inj hdigits), hne⟩

/-- What is left of a host without either default port. -/
def bareText (scheme : WebScheme) (host : WebHost) (port : ℕ) : Text :=
  if port ∈ [80, 443] then host.text else hostText scheme host port

/-- Of an origin nothing is dropped. -/
lemma withoutDefault_origin : WithoutDefault (defaultPorts scheme.name) (hostText scheme host port)
    (hostText scheme host port) := by
  refine .inr ⟨?_, rfl⟩
  rintro digits hdigits ⟨bare, hbare⟩
  have hdefault : digits = Nat.toDigits 10 scheme.defaultPort := by
    cases scheme with
    | http =>
      have hports : defaultPorts WebScheme.http.name = [Nat.toDigits 10 80] := by decide
      exact List.mem_singleton.mp (hports ▸ hdigits)
    | https =>
      have hports : defaultPorts WebScheme.https.name = [Nat.toDigits 10 443] := by decide
      exact List.mem_singleton.mp (hports ▸ hdigits)
  rw [hdefault] at hbare
  obtain ⟨-, hport, hne⟩ := port_of_suffix hbare.symm
  exact hne hport

/-- Of a host either default port is dropped. -/
lemma withoutDefault_host : WithoutDefault ["80".toList, "443".toList] (hostText scheme host port)
    (bareText scheme host port) := by
  have hdigits : ["80".toList, "443".toList] = [80, 443].map (Nat.toDigits 10) := by decide
  rw [hdigits]
  unfold bareText
  by_cases hmem : port ∈ [80, 443]
  · rw [if_pos hmem]
    obtain ⟨hdefault, hport⟩ | ⟨hne, hport⟩ := writtenPort_cases scheme port
    · refine .inr ⟨?_, ?_⟩
      · intro digits hdigits hsuffix
        obtain ⟨n, -, rfl⟩ := List.mem_map.mp hdigits
        obtain ⟨bare, hbare⟩ := hsuffix
        exact (port_of_suffix hbare.symm).2.2 hdefault
      · rw [hostText, hport, portText, List.append_nil]
    · refine .inl ⟨Nat.toDigits 10 port, List.mem_map_of_mem hmem, ?_⟩
      rw [hostText, hport, portText]
  · rw [if_neg hmem]
    refine .inr ⟨?_, rfl⟩
    intro digits hdigits hsuffix
    obtain ⟨n, hn, rfl⟩ := List.mem_map.mp hdigits
    obtain ⟨bare, hbare⟩ := hsuffix
    obtain ⟨-, rfl, -⟩ := port_of_suffix hbare.symm
    exact hmem hn

/-- A host is named as the origin is, unless its port is the default one of the other scheme. -/
lemma bareText_eq_iff : bareText scheme host port = hostText scheme host port ↔ ¬ OnOtherDefault scheme port := by
  unfold bareText OnOtherDefault
  by_cases hmem : port ∈ [80, 443]
  · rw [if_pos hmem, hostText]
    obtain ⟨hdefault, hport⟩ | ⟨hne, hport⟩ := writtenPort_cases scheme port
    · rw [hport, portText, List.append_nil]
      exact iff_of_true rfl fun h => h.1 hdefault
    · rw [hport, portText]
      refine iff_of_false ?_ (fun h => h ⟨hne, hmem⟩)
      exact WebHost.ne_append (not_mem_digits (by decide) port)
  · rw [if_neg hmem]
    exact iff_of_true rfl fun h => hmem h.2

/-- A foreign host is not named as the origin is. -/
lemma bareText_ne (h : host'.text ≠ host.text ∨ port' ≠ port ∧ port' ∉ [80, 443] ∧ port ∉ [80, 443]) :
    bareText scheme' host' port' ≠ hostText scheme host port := by
  intro heq
  unfold bareText at heq
  have hdefault : scheme.defaultPort ∈ [80, 443] := by cases scheme <;> decide
  have hdefault' : scheme'.defaultPort ∈ [80, 443] := by cases scheme' <;> decide
  by_cases hmem : port' ∈ [80, 443]
  · rw [if_pos hmem, hostText] at heq
    obtain hhost | ⟨-, hport', -⟩ := h
    · obtain ⟨-, hport⟩ | ⟨-, hport⟩ := writtenPort_cases scheme port
      · rw [hport, portText, List.append_nil] at heq
        exact hhost heq
      · rw [hport, portText] at heq
        exact WebHost.ne_append (not_mem_digits (by decide) port) heq
    · exact hport' hmem
  · rw [if_neg hmem] at heq
    obtain ⟨hhost, hwritten⟩ := hostText_inj heq
    obtain hne | ⟨hne, -, hport⟩ := h
    · exact hne hhost
    · unfold writtenPort at hwritten
      have hscheme : port ≠ scheme.defaultPort := ne_of_mem_of_not_mem hdefault hport |>.symm
      have hscheme' : port' ≠ scheme'.defaultPort := ne_of_mem_of_not_mem hdefault' hmem |>.symm
      rw [if_neg hscheme, if_neg hscheme'] at hwritten
      exact hne (digits_inj (Option.some.inj hwritten))

/-! ## Permission -/

lemma strip_eq_self (h : ∀ c ∈ text, whiteSpace c = false) : strip text = text := by
  unfold strip
  have hleft : text.dropWhile whiteSpace = text := by
    cases text with
    | nil => rfl
    | cons c rest => exact List.dropWhile_cons_of_neg (by simp [h c List.mem_cons_self])
  rw [hleft, List.rdropWhile_eq_self_iff]
  intro hne
  simp [h _ (List.getLast_mem hne)]

/-- An origin is visible and in lower case. -/
lemma mem_originText {c : Char} (h : c ∈ originText scheme host port) :
    33 ≤ c.toNat ∧ c.toNat ≤ 126 ∧ c.toLower = c := by
  have hdigit : ∀ n, ∀ d ∈ Nat.toDigits 10 n, 33 ≤ d.toNat ∧ d.toNat ≤ 126 ∧ d.toLower = d := by
    intro n d hd
    have hisDigit := Nat.isDigit_of_mem_toDigits (by decide) (by decide) hd
    unfold Char.isDigit at hisDigit
    simp only [Bool.and_eq_true, decide_eq_true_eq] at hisDigit
    have hlow : 48 ≤ d.toNat := hisDigit.1
    have hhigh : d.toNat ≤ 57 := hisDigit.2
    obtain ⟨hsame, -⟩ | ⟨hletter, -, -⟩ := toLower_cases d
    · exact ⟨by omega, by omega, hsame⟩
    · omega
  unfold originText hostText at h
  rcases List.mem_append.mp h with hfront | hback
  · have hall : ((scheme.name ++ "://".toList).all fun d =>
        decide (33 ≤ d.toNat ∧ d.toNat ≤ 126 ∧ d.toLower = d)) = true := by
      cases scheme <;> decide
    exact of_decide_eq_true (List.all_eq_true.mp hall c hfront)
  · rcases List.mem_append.mp hback with hhost | hport
    · exact ⟨(host.visible c hhost).1, (host.visible c hhost).2, host.lower c hhost⟩
    · obtain ⟨-, hwritten⟩ | ⟨-, hwritten⟩ := writtenPort_cases scheme port
      · rw [hwritten] at hport
        cases hport
      · rw [hwritten] at hport
        rcases List.mem_cons.mp hport with rfl | hmem
        · decide
        · exact hdigit port c hmem

lemma whiteSpace_of_visible {c : Char} (hlow : 33 ≤ c.toNat) (hhigh : c.toNat ≤ 126) : whiteSpace c = false := by
  unfold whiteSpace
  simp only [List.contains_eq_mem, List.mem_cons, List.not_mem_nil, or_false]
  simp only [Bool.or_eq_false_iff, Bool.and_eq_false_iff, decide_eq_false_iff_not]
  omega

/-- A value that names an address, compared with the authority of an origin. -/
lemma named_iff {value : Option Text} (h : NamesAddress value scheme' host' port') :
    SocketOrigins.named (hostText scheme host port) value = true ↔
      bareText scheme' host' port' = hostText scheme host port := by
  obtain ⟨text, rfl, htext⟩ := h
  have hbare : withoutDefaultPort text none = bareText scheme' host' port' := by
    apply withoutDefaultPort_iff.mpr
    rw [htext]
    exact withoutDefault_host
  unfold SocketOrigins.named
  rw [Option.any_some, hbare, decide_eq_true_eq]

lemma named_foreign {value : Option Text} (h : NamesForeign value host port) :
    SocketOrigins.named (hostText scheme host port) value = false := by
  obtain rfl | ⟨scheme', host', port', haddress, hdiffers⟩ := h
  · rfl
  · rw [← Bool.not_eq_true, named_iff haddress]
    exact bareText_ne hdiffers

lemma hostText_normal : lowercase (strip (hostText scheme host port)) = hostText scheme host port := by
  have hmem : ∀ c ∈ hostText scheme host port, c ∈ originText scheme host port := fun c hc =>
    List.mem_append_right _ hc
  rw [strip_eq_self, lowercase_eq_self_iff.mpr fun c hc => (mem_originText (hmem c hc)).2.2]
  intro c hc
  obtain ⟨hlow, hhigh, -⟩ := mem_originText (hmem c hc)
  exact whiteSpace_of_visible hlow hhigh

/-- Without configured origins the two headers are looked at, and nothing else. -/
lemma permits_own_eq {headers : HeaderMap} (h : headers.header "origin" = some (originText scheme host port)) :
    (SocketOrigins.build false []).permits headers =
      (SocketOrigins.named (hostText scheme host port) (headers.header "host") ||
        SocketOrigins.named (hostText scheme host port) (forwardedHost headers)) := by
  obtain ⟨value, hget, hvalue⟩ := Option.bind_eq_some_iff.mp h
  have hlower : lowercase (originText scheme host port) = originText scheme host port :=
    lowercase_eq_self_iff.mpr fun c hc => (mem_originText hc).2.2
  have hstrip : strip (originText scheme host port) = originText scheme host port := by
    apply strip_eq_self
    intro c hc
    obtain ⟨hlow, hhigh, -⟩ := mem_originText hc
    exact whiteSpace_of_visible hlow hhigh
  have hcut : splitOnce (originText scheme host port) "://".toList = some (scheme.name, hostText scheme host port) := by
    apply splitOnce_scheme_iff.mpr
    refine ⟨rfl, ?_⟩
    unfold SchemeFree
    cases scheme <;> decide
  have hbare : withoutDefaultPort (hostText scheme host port) (some scheme.name) = hostText scheme host port := by
    apply withoutDefaultPort_iff.mpr
    rw [hostText_normal]
    exact withoutDefault_origin
  unfold SocketOrigins.permits
  rw [hget]
  dsimp only
  rw [hvalue]
  dsimp only
  rw [hstrip, hlower]
  unfold SocketOrigins.namesServer
  rw [hcut]
  dsimp only
  rw [hbare]
  rfl

lemma visibleAscii_of_visible {c : Char} (h : 33 ≤ c.toNat ∧ c.toNat ≤ 126) :
    visibleAscii c.toNat.toUInt8 = true := by
  have hall : ∀ n : Fin 127, 33 ≤ n.val → visibleAscii n.val.toUInt8 = true := by decide
  exact hall ⟨c.toNat, by omega⟩ h.1

/-- A value of visible characters. -/
def visibleValue (text : Text) (h : ∀ c ∈ text, 33 ≤ c.toNat ∧ c.toNat ≤ 126) : HeaderValue where
  bytes := text.map fun c => c.toNat.toUInt8
  valid b hb := by
    obtain ⟨c, hc, rfl⟩ := List.mem_map.mp hb
    exact headerByte_of_visibleAscii (visibleAscii_of_visible (h c hc))

lemma visibleValue_text (text : Text) (h : ∀ c ∈ text, 33 ≤ c.toNat ∧ c.toNat ≤ 126) :
    (visibleValue text h).text = some text := by
  have hvisible : (visibleValue text h).Visible := by
    intro b hb
    obtain ⟨c, hc, rfl⟩ := List.mem_map.mp hb
    exact visibleAscii_of_visible (h c hc)
  have hread : text.map (Char.ofUInt8 ∘ fun c => c.toNat.toUInt8) = text := by
    conv_rhs => rw [← List.map_id text]
    apply List.map_congr_left
    intro c hc
    apply Char.toNat_inj.mp
    change c.toNat % 256 = c.toNat
    have hsmall := (h c hc).2
    omega
  unfold HeaderValue.text HeaderValue.toStr
  rw [if_pos hvisible, Option.map_some]
  change some ((text.map fun c => c.toNat.toUInt8).map Char.ofUInt8) = some text
  rw [List.map_map, hread]

end Addresses

/-- **Whose pages may open a socket without configured origins.**  Those of the server itself, on every port but the
default one of the other scheme, and no page of another host or of another port. -/
theorem own_server_iff (scheme : WebScheme) (host : WebHost) (port : ℕ) :
    (∀ headers : HeaderMap, headers.header "origin" = some (originText scheme host port) →
      (FromOwnPage headers scheme host port → (SocketOrigins.build false []).permits headers = true) ∧
      (FromForeignPage headers host port → (SocketOrigins.build false []).permits headers = false)) ↔
    ¬ OnOtherDefault scheme port := by
  constructor
  · intro hall
    have horigin : ∀ c ∈ originText scheme host port, 33 ≤ c.toNat ∧ c.toNat ≤ 126 := fun c hc =>
      ⟨(mem_originText hc).1, (mem_originText hc).2.1⟩
    have hhost : ∀ c ∈ hostText scheme host port, 33 ≤ c.toNat ∧ c.toNat ≤ 126 := fun c hc =>
      horigin c (List.mem_append_right _ hc)
    let headers : HeaderMap := [("origin", visibleValue _ horigin), ("host", visibleValue _ hhost)]
    have hreadOrigin : headers.header "origin" = some (originText scheme host port) := visibleValue_text _ horigin
    have hreadHost : headers.header "host" = some (hostText scheme host port) := visibleValue_text _ hhost
    have hnames : NamesAddress (headers.header "host") scheme host port :=
      ⟨hostText scheme host port, hreadHost, hostText_normal⟩
    have hpermits := (hall headers hreadOrigin).1 (.inl hnames)
    rw [permits_own_eq hreadOrigin] at hpermits
    have hforwarded : SocketOrigins.named (hostText scheme host port) (forwardedHost headers) = false := rfl
    rw [hforwarded, Bool.or_false, named_iff hnames] at hpermits
    exact bareText_eq_iff.mp hpermits
  · intro hport headers horigin
    rw [permits_own_eq horigin]
    have hsame : bareText scheme host port = hostText scheme host port := bareText_eq_iff.mpr hport
    constructor
    · rintro (hnames | hnames)
      · rw [(named_iff hnames).mpr hsame, Bool.true_or]
      · rw [(named_iff hnames).mpr hsame, Bool.or_true]
    · rintro ⟨hhost, hforwarded⟩
      rw [named_foreign hhost, named_foreign hforwarded, Bool.or_false]

/-- A host for tests. -/
def siteHost : WebHost where
  text := "example.com".toList
  visible c hc := of_decide_eq_true (List.all_eq_true.mp (by decide +kernel :
    ("example.com".toList.all fun c => decide (33 ≤ c.toNat ∧ c.toNat ≤ 126)) = true) c hc)
  lower := lowercase_eq_self_iff.mp (by decide +kernel)
  colons := by decide +kernel

/-- The request of a page on `http://example.com:443` to its own server. -/
def otherDefaultRequest : HeaderMap :=
  [("host", ⟨asciiBytes "example.com:443", by decide +kernel⟩),
    ("origin", ⟨asciiBytes "http://example.com:443", by decide +kernel⟩)]

theorem own_page_refused :
    otherDefaultRequest.header "origin" = some (originText .http siteHost 443) ∧
      FromOwnPage otherDefaultRequest .http siteHost 443 ∧
      (SocketOrigins.build false []).permits otherDefaultRequest = false := by
  have hhost : otherDefaultRequest.header "host" = some (hostText .http siteHost 443) := by decide +kernel
  exact ⟨by decide +kernel, .inl ⟨_, hhost, hostText_normal⟩, by decide +kernel⟩

end Oxbrook
