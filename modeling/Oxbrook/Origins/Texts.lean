import Oxbrook.Origins.OneAnswer

/-!
# Cutting texts

What `split_once`, `rsplit_once`, `trim` and the dropping of a default port make of a text, each as one equivalence:
the text is put together from the pieces, and the cut stands where it may.
-/

namespace Oxbrook

variable {text a b : Text} {c : Char}

/-! ## Separators -/

/-- A text is cut at the first place of a character. -/
lemma splitOnce_char_iff : splitOnce text [c] = some (a, b) ↔ text = a ++ c :: b ∧ c ∉ a := by
  unfold splitOnce
  rw [List.dropInfix?_eq_some_iff]
  constructor
  · rintro ⟨⟨i, htext, hi⟩, hfirst⟩
    obtain rfl := eq_of_beq hi
    refine ⟨by simpa using htext, ?_⟩
    intro hmem
    obtain ⟨x, y, rfl⟩ := List.append_of_mem hmem
    have hle := hfirst x [c] (y ++ c :: b) (by simp [htext]) (by simp)
    simp at hle
  · rintro ⟨rfl, hfree⟩
    refine ⟨⟨[c], by simp, by simp⟩, ?_⟩
    intro x i y htext hi
    obtain rfl := eq_of_beq hi
    by_contra hlt
    have hmem : c ∈ a := by
      have hx : x ++ [c] <+: a := by
        have hleft : x ++ [c] <+: a ++ c :: b := ⟨y, htext.symm⟩
        apply List.prefix_of_prefix_length_le hleft (List.prefix_append ..)
        simp
        omega
      exact hx.subset (by simp)
    exact hfree hmem

lemma splitOnce_char_eq_none_iff : splitOnce text [c] = none ↔ c ∉ text := by
  constructor
  · intro hnone hmem
    obtain ⟨x, y, htext, hfree⟩ := List.eq_append_cons_of_mem hmem
    rw [splitOnce_char_iff.mpr ⟨htext, hfree⟩] at hnone
    cases hnone
  · intro hfree
    cases hsplit : splitOnce text [c] with
    | none => rfl
    | some pieces =>
      obtain ⟨rfl, -⟩ := splitOnce_char_iff.mp hsplit
      exact absurd (by simp) hfree

/-- A text is cut at the last place of a character. -/
lemma rsplitOnce_iff : rsplitOnce text c = some (a, b) ↔ text = a ++ c :: b ∧ c ∉ b := by
  have hrsplit : rsplitOnce text c = (splitOnce text.reverse [c]).map fun parts =>
      (parts.2.reverse, parts.1.reverse) := rfl
  rw [hrsplit, Option.map_eq_some_iff]
  constructor
  · rintro ⟨⟨after, before⟩, hsplit, heq⟩
    obtain ⟨htext, hfree⟩ := splitOnce_char_iff.mp hsplit
    obtain ⟨rfl, rfl⟩ := Prod.mk.inj heq
    refine ⟨?_, by simpa using hfree⟩
    rw [← List.reverse_reverse text, htext]
    simp
  · rintro ⟨rfl, hfree⟩
    exact ⟨(b.reverse, a.reverse), splitOnce_char_iff.mpr ⟨by simp, by simpa using hfree⟩, by simp⟩

lemma rsplitOnce_eq_none_iff : rsplitOnce text c = none ↔ c ∉ text := by
  have hrsplit : rsplitOnce text c = (splitOnce text.reverse [c]).map fun parts =>
      (parts.2.reverse, parts.1.reverse) := rfl
  rw [hrsplit, Option.map_eq_none_iff, splitOnce_char_eq_none_iff, List.mem_reverse]

/-- A text in which no separator `://` begins, also not with what follows it. -/
def SchemeFree (scheme : Text) : Prop := ¬ "://".toList <:+: scheme ++ [':', '/']

/-- A text is cut at the first `://`. -/
lemma splitOnce_scheme_iff :
    splitOnce text "://".toList = some (a, b) ↔ text = a ++ "://".toList ++ b ∧ SchemeFree a := by
  unfold splitOnce
  rw [List.dropInfix?_eq_some_iff]
  constructor
  · rintro ⟨⟨i, htext, hi⟩, hfirst⟩
    obtain rfl := eq_of_beq hi
    refine ⟨htext, ?_⟩
    rintro ⟨x, y, hxy⟩
    have hle := hfirst x "://".toList (y ++ '/' :: b) (by rw [htext, ← List.append_assoc, hxy]; simp) (by simp)
    have hlength := congrArg List.length hxy
    simp at hlength hle
    omega
  · rintro ⟨rfl, hfree⟩
    refine ⟨⟨"://".toList, rfl, by simp⟩, ?_⟩
    intro x i y htext hi
    obtain rfl := eq_of_beq hi
    by_contra hlt
    apply hfree
    have hx : x ++ "://".toList <+: a ++ [':', '/'] := by
      have hleft : x ++ "://".toList <+: a ++ "://".toList ++ b := ⟨y, htext.symm⟩
      apply List.prefix_of_prefix_length_le hleft
      · exact ⟨'/' :: b, by simp⟩
      · simp
        omega
    obtain ⟨z, hz⟩ := hx
    exact ⟨x, z, hz⟩

/-- Where a scheme is cut off one text it is cut off another. -/
lemma splitOnce_scheme {scheme authority other : Text} (h : splitOnce text "://".toList = some (scheme, authority)) :
    splitOnce (scheme ++ "://".toList ++ other) "://".toList = some (scheme, other) :=
  splitOnce_scheme_iff.mpr ⟨rfl, (splitOnce_scheme_iff.mp h).2⟩

/-! ## Case and white space -/

/-- A letter in upper case goes up by 32, and nothing else changes. -/
lemma toLower_cases (c : Char) :
    c.toLower = c ∧ ¬ (65 ≤ c.toNat ∧ c.toNat ≤ 90) ∨
      65 ≤ c.toNat ∧ c.toNat ≤ 90 ∧ c.toLower.toNat = c.toNat + 32 := by
  unfold Char.toLower
  split
  · rename_i hupper
    have hlow : 65 ≤ c.val.toNat := hupper.1
    have hhigh : c.val.toNat ≤ 90 := hupper.2
    refine .inr ⟨hlow, hhigh, ?_⟩
    change (c.val.toNat + 32) % 2 ^ 32 = c.val.toNat + 32
    omega
  · rename_i hupper
    exact .inl ⟨rfl, hupper⟩

/-- What is no letter in lower case comes from itself. -/
lemma eq_of_toLower {c d : Char} (h : c.toLower = d) (hd : ¬ (97 ≤ d.toNat ∧ d.toNat ≤ 122)) : c = d := by
  obtain ⟨hsame, -⟩ | ⟨hlow, hhigh, hup⟩ := toLower_cases c
  · exact hsame.symm.trans h
  · rw [h] at hup
    omega

lemma toLower_toLower (c : Char) : c.toLower.toLower = c.toLower := by
  obtain ⟨hsame, -⟩ | ⟨hlow, hhigh, hup⟩ := toLower_cases c
  · rw [hsame, hsame]
  · obtain ⟨hsame, -⟩ | ⟨hlow', hhigh', -⟩ := toLower_cases c.toLower
    · exact hsame
    · omega

lemma whiteSpace_of_letter {c : Char} (hlow : 65 ≤ c.toNat) (hhigh : c.toNat ≤ 122) : whiteSpace c = false := by
  unfold whiteSpace
  simp only [List.contains_eq_mem, List.mem_cons, List.not_mem_nil, or_false]
  simp only [Bool.or_eq_false_iff, Bool.and_eq_false_iff, decide_eq_false_iff_not]
  omega

lemma whiteSpace_toLower (c : Char) : whiteSpace c.toLower = whiteSpace c := by
  obtain ⟨hsame, -⟩ | ⟨hlow, hhigh, hup⟩ := toLower_cases c
  · rw [hsame]
  · rw [whiteSpace_of_letter hlow (by omega), whiteSpace_of_letter (by omega) (by omega)]

lemma lowercase_append : lowercase (a ++ b) = lowercase a ++ lowercase b := List.map_append

lemma lowercase_lowercase : lowercase (lowercase text) = lowercase text := by
  unfold lowercase
  rw [List.map_map]
  apply List.map_congr_left
  intro d _
  exact toLower_toLower d

lemma lowercase_eq_self_iff : lowercase text = text ↔ ∀ d ∈ text, d.toLower = d := by
  have hid := List.map_inj_left (l := text) (f := Char.toLower) (g := id)
  rw [List.map_id] at hid
  exact hid

lemma eq_of_lowercase (h : lowercase a = b) (hb : ∀ d ∈ b, ¬ (97 ≤ d.toNat ∧ d.toNat ≤ 122)) : a = b := by
  induction a generalizing b with
  | nil => exact h
  | cons d a ih =>
    subst h
    obtain ⟨hd, ha⟩ := List.forall_mem_cons.mp hb
    exact congrArg₂ List.cons (eq_of_toLower rfl hd) (ih rfl ha)

lemma mem_lowercase {d : Char} (hd : ¬ (97 ≤ d.toNat ∧ d.toNat ≤ 122)) (hfix : d.toLower = d) :
    d ∈ lowercase text ↔ d ∈ text := by
  unfold lowercase
  rw [List.mem_map]
  constructor
  · rintro ⟨e, he, heq⟩
    rw [← eq_of_toLower heq hd]
    exact he
  · intro hmem
    exact ⟨d, hmem, hfix⟩

lemma dropWhile_append_cons {p : Char → Bool} (h : p c = false) :
    (a ++ c :: b).dropWhile p = a.dropWhile p ++ c :: b := by
  induction a with
  | nil => exact List.dropWhile_cons_of_neg (by simp [h])
  | cons d a ih =>
    rw [List.cons_append, List.dropWhile_cons, List.dropWhile_cons, ih]
    split <;> rfl

lemma rdropWhile_append_cons {p : Char → Bool} (h : p c = false) :
    (a ++ c :: b).rdropWhile p = a ++ c :: b.rdropWhile p := by
  unfold List.rdropWhile
  rw [show (a ++ c :: b).reverse = b.reverse ++ c :: a.reverse by simp, dropWhile_append_cons h]
  simp

lemma rdropWhile_lowercase : (lowercase text).rdropWhile whiteSpace = lowercase (text.rdropWhile whiteSpace) := by
  have hspace : whiteSpace ∘ Char.toLower = whiteSpace := funext whiteSpace_toLower
  unfold List.rdropWhile lowercase
  rw [← List.map_reverse, List.dropWhile_map, hspace, List.map_reverse]

/-- White space is trimmed on either side of what is none. -/
lemma strip_append_cons (h : whiteSpace c = false) :
    strip (a ++ c :: b) = a.dropWhile whiteSpace ++ c :: b.rdropWhile whiteSpace := by
  unfold strip
  rw [dropWhile_append_cons h, rdropWhile_append_cons h]

lemma strip_scheme : strip (a ++ "://".toList ++ b) =
    a.dropWhile whiteSpace ++ "://".toList ++ b.rdropWhile whiteSpace := by
  have hslash : whiteSpace '/' = false := by decide
  have hcolon : whiteSpace ':' = false := by decide
  have hleft : a ++ "://".toList ++ b = a ++ ':' :: (['/'] ++ '/' :: b) := by simp
  have hright : a.dropWhile whiteSpace ++ "://".toList ++ b.rdropWhile whiteSpace =
      a.dropWhile whiteSpace ++ ':' :: (['/'] ++ '/' :: b.rdropWhile whiteSpace) := by simp
  rw [hleft, strip_append_cons hcolon, rdropWhile_append_cons hslash, hright]

lemma SchemeFree.of_suffix (h : SchemeFree a) (hsuffix : b <:+ a) : SchemeFree b := by
  obtain ⟨x, rfl⟩ := hsuffix
  rintro ⟨y, z, hyz⟩
  exact h ⟨x ++ y, z, by simp [← hyz]⟩

lemma SchemeFree.lowercase (h : SchemeFree a) : SchemeFree (lowercase a) := by
  rintro ⟨x, y, hxy⟩
  have hlower : Oxbrook.lowercase (a ++ [':', '/']) = Oxbrook.lowercase a ++ [':', '/'] := lowercase_append
  rw [← hlower] at hxy
  obtain ⟨left, y', hleft, hx, -⟩ := List.map_eq_append_iff.mp hxy.symm
  obtain ⟨x', mark, rfl, -, hmark⟩ := List.map_eq_append_iff.mp hx
  have hall : ("://".toList.all fun d => decide ¬ (97 ≤ d.toNat ∧ d.toNat ≤ 122)) = true := by decide
  have hplain := eq_of_lowercase hmark fun d hd => of_decide_eq_true (List.all_eq_true.mp hall d hd)
  refine h ⟨x', y', ?_⟩
  rw [hleft, hplain]

/-- Where an origin is cut once it is trimmed and in lower case. -/
lemma splitOnce_scheme_strip (h : splitOnce text "://".toList = some (a, b)) :
    splitOnce (lowercase (strip text)) "://".toList =
      some (lowercase (a.dropWhile whiteSpace), lowercase (b.rdropWhile whiteSpace)) := by
  obtain ⟨rfl, hfree⟩ := splitOnce_scheme_iff.mp h
  rw [strip_scheme, lowercase_append, lowercase_append]
  exact splitOnce_scheme_iff.mpr ⟨rfl, (hfree.of_suffix (List.dropWhile_suffix _)).lowercase⟩

/-! ## Hosts and ports -/

/-- How a port is written after a host. -/
def portText : Option Text → Text
  | none => []
  | some port => ':' :: port

/-- A host and a port that can be read off the text made of them. -/
def PortReads (host : Text) : Option Text → Prop
  | none => ':' ∉ host
  | some port => ':' ∉ port

lemma hostAndPort_eq_iff {host : Text} {port : Option Text} :
    hostAndPort text = (host, port) ↔ text = host ++ portText port ∧ PortReads host port := by
  unfold hostAndPort
  constructor
  · intro h
    cases hsplit : rsplitOnce text ':' with
    | none =>
      rw [hsplit] at h
      obtain ⟨rfl, rfl⟩ := Prod.mk.inj h
      exact ⟨(List.append_nil _).symm, rsplitOnce_eq_none_iff.mp hsplit⟩
    | some pieces =>
      rw [hsplit] at h
      obtain ⟨rfl, rfl⟩ := Prod.mk.inj h
      exact rsplitOnce_iff.mp hsplit
  · rintro ⟨htext, hreads⟩
    cases port with
    | none =>
      rw [portText, List.append_nil] at htext
      rw [rsplitOnce_eq_none_iff.mpr (htext ▸ hreads), htext]
    | some port => rw [rsplitOnce_iff.mpr ⟨htext, hreads⟩]

lemma hostAndPort_reads (text : Text) : text = (hostAndPort text).1 ++ portText (hostAndPort text).2 ∧
    PortReads (hostAndPort text).1 (hostAndPort text).2 := hostAndPort_eq_iff.mp Prod.mk.eta.symm

/-- The ports that are dropped: those of the scheme, or both where it is another one than these. -/
def defaultPorts (scheme : Text) : List Text :=
  if scheme = "https".toList ∨ scheme = "wss".toList then ["443".toList]
  else if scheme = "http".toList ∨ scheme = "ws".toList then ["80".toList]
  else ["80".toList, "443".toList]

/-- An authority and what is left of it without a default port. -/
def WithoutDefault (ports : List Text) (authority bare : Text) : Prop :=
  (∃ port ∈ ports, authority = bare ++ ':' :: port) ∨ (∀ port ∈ ports, ¬ ':' :: port <:+ authority) ∧ bare = authority

lemma mem_defaultPorts {scheme port : Text} (h : port ∈ defaultPorts scheme) : port ∈ ["80".toList, "443".toList] := by
  unfold defaultPorts at h
  split at h
  · exact List.mem_cons_of_mem _ h
  · split at h
    · rw [List.mem_singleton.mp h]
      exact List.mem_cons_self
    · exact h

lemma not_mem_defaultPorts {port : Text} (h : port ∈ ["80".toList, "443".toList]) : ':' ∉ port := by
  simp only [List.mem_cons, List.not_mem_nil, or_false] at h
  obtain rfl | rfl := h <;> decide

/-- There is one way to leave out a port. -/
lemma WithoutDefault.unique {ports : List Text} (hports : ∀ port ∈ ports, ':' ∉ port) {authority bare bare' : Text}
    (h : WithoutDefault ports authority bare) (h' : WithoutDefault ports authority bare') : bare = bare' := by
  rcases h with ⟨port, hport, rfl⟩ | ⟨hnone, rfl⟩
  · rcases h' with ⟨port', hport', heq⟩ | ⟨hnone', -⟩
    · have hread : hostAndPort (bare ++ ':' :: port) = (bare, some port) :=
        hostAndPort_eq_iff.mpr ⟨rfl, hports port hport⟩
      have hread' : hostAndPort (bare ++ ':' :: port) = (bare', some port') :=
        hostAndPort_eq_iff.mpr ⟨heq, hports port' hport'⟩
      exact (Prod.mk.inj (hread.symm.trans hread')).1
    · exact absurd (List.suffix_append ..) (hnone' port hport)
  · rcases h' with ⟨port', hport', rfl⟩ | ⟨-, rfl⟩
    · exact absurd (List.suffix_append ..) (hnone port' hport')
    · rfl

/-- What is done with a list of ports. -/
lemma withoutDefault_findSome (ports : List Text) :
    WithoutDefault ports text ((ports.findSome? fun port => text.dropSuffix? (':' :: port)).getD text) := by
  cases hfound : ports.findSome? fun port => text.dropSuffix? (':' :: port) with
  | some bare =>
    obtain ⟨port, hport, hdrop⟩ := List.exists_of_findSome?_eq_some hfound
    obtain ⟨suffix, htext, hsuffix⟩ := List.dropSuffix?_eq_some_iff.mp hdrop
    obtain rfl := eq_of_beq hsuffix
    exact .inl ⟨port, hport, htext⟩
  | none =>
    refine .inr ⟨?_, rfl⟩
    rintro port hport ⟨bare, hbare⟩
    have hnone := List.findSome?_eq_none_iff.mp hfound port hport
    rw [List.dropSuffix?_eq_some_iff.mpr ⟨':' :: port, hbare.symm, by simp⟩] at hnone
    cases hnone

/-- `without_default_port`, of an authority under a scheme or of one without. -/
lemma withoutDefaultPort_iff {scheme : Option Text} {bare : Text} : withoutDefaultPort text scheme = bare ↔
    WithoutDefault (scheme.elim ["80".toList, "443".toList] defaultPorts) (lowercase (strip text)) bare := by
  have hports : ∀ port ∈ scheme.elim ["80".toList, "443".toList] defaultPorts, ':' ∉ port := by
    intro port hport
    cases scheme with
    | none => exact not_mem_defaultPorts hport
    | some scheme => exact not_mem_defaultPorts (mem_defaultPorts hport)
  have hdone : WithoutDefault (scheme.elim ["80".toList, "443".toList] defaultPorts) (lowercase (strip text))
      (withoutDefaultPort text scheme) := by
    cases scheme with
    | none => exact withoutDefault_findSome ["80".toList, "443".toList]
    | some scheme =>
      unfold withoutDefaultPort
      simp only [Option.elim_some, defaultPorts, Option.some.injEq]
      split
      · exact withoutDefault_findSome _
      · split
        · exact withoutDefault_findSome _
        · exact withoutDefault_findSome ["80".toList, "443".toList]
  constructor
  · rintro rfl
    exact hdone
  · intro h
    exact hdone.unique hports h

end Oxbrook
