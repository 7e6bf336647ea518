import Oxbrook.Origins.Texts

/-!
# What an origin pattern stands for

`check_origin` of `_cors.py` takes a pattern into the configuration, and `Pattern::parse` and `Pattern::matches` of
`origin.rs` read it.  The two cut the same text at colons, dots and stars in different ways.  `OriginForm` says which
origins a pattern stands for, and `pattern_form_iff` for which patterns and origins the code agrees with it.

A pattern with several colons may be taken by the check and passed over by the parser, as the check cuts a port off
only where there is one colon.  And an authority is trimmed before it is compared, also that of an origin.
-/

namespace Oxbrook

/-! ## `str.lower` -/

/-- What becomes of a character: of an ASCII character or white space its lower case in ASCII, and of another one
something in which only letters are ASCII. -/
structure LowerImage (c : Char) (image : Text) : Prop where
  nonempty : image ≠ []
  plain : c.toNat < 128 ∨ whiteSpace c = true → image = [c.toLower]
  letters : 128 ≤ c.toNat → ∀ d ∈ image, d.toNat < 128 → 97 ≤ d.toNat ∧ d.toNat ≤ 122

/-- Every character becomes its image. -/
def Lowered (text low : Text) : Prop := ∃ images, List.Forall₂ LowerImage text images ∧ images.flatten = low

/-- `str.lower`, character by character.  An image may depend on what stands around. -/
structure FullLowering extends Lowering where
  by_char : ∀ text, Lowered text (lower text)

/-- A mark of the syntax of origins, which no letter becomes. -/
def IsMark (d : Char) : Prop := d ∈ ['.', '*', ':', '@']

instance : DecidablePred IsMark := fun d => inferInstanceAs (Decidable (d ∈ ['.', '*', ':', '@']))

section Lowered

variable {text low x y : Text} {c d : Char}

lemma IsMark.not_letter (h : IsMark d) : d.toNat < 128 ∧ ¬ (97 ≤ d.toNat ∧ d.toNat ≤ 122) ∧ d.toLower = d := by
  unfold IsMark at h
  simp only [List.mem_cons, List.not_mem_nil, or_false] at h
  obtain rfl | rfl | rfl | rfl := h <;> decide

/-- A mark comes from itself. -/
lemma LowerImage.eq_of_mark {image : Text} (h : LowerImage c image) (hd : IsMark d) (hmem : d ∈ image) :
    c = d ∧ image = [d] := by
  obtain ⟨hascii, hletter, -⟩ := hd.not_letter
  have hc : c.toNat < 128 := by
    by_contra hlarge
    exact hletter (h.letters (by omega) d hmem hascii)
  have himage := h.plain (.inl hc)
  rw [himage, List.mem_singleton] at hmem
  exact ⟨eq_of_toLower hmem.symm hletter, by rw [himage, hmem]⟩

lemma lowered_nil : Lowered [] [] := ⟨[], .nil, rfl⟩

/-- Where there is a mark, the text around it was lowered around the same mark. -/
lemma Lowered.of_append_mark (h : Lowered text (x ++ d :: y)) (hd : IsMark d) :
    ∃ x₀ y₀, text = x₀ ++ d :: y₀ ∧ Lowered x₀ x ∧ Lowered y₀ y := by
  obtain ⟨images, himages, heq⟩ := h
  induction himages generalizing x with
  | nil => simp at heq
  | @cons c image text images himage hrest ih =>
    rw [List.flatten_cons] at heq
    rcases List.append_eq_append_iff.mp heq with ⟨x', rfl, hx'⟩ | ⟨x', hx, hx'⟩
    · obtain ⟨x₀, y₀, rfl, ⟨before, hbefore, rfl⟩, hy⟩ := ih hx'
      exact ⟨c :: x₀, y₀, rfl, ⟨image :: before, .cons himage hbefore, rfl⟩, hy⟩
    · cases x' with
      | nil =>
        rw [List.append_nil] at hx
        obtain ⟨x₀, y₀, rfl, ⟨before, hbefore, hnil⟩, hy⟩ := ih (x := []) hx'.symm
        exact ⟨c :: x₀, y₀, rfl, ⟨image :: before, .cons himage hbefore, by simp [hnil, hx]⟩, hy⟩
      | cons e x' =>
        obtain ⟨rfl, rfl⟩ := List.cons.inj hx'
        obtain ⟨rfl, himage'⟩ := himage.eq_of_mark hd (by simp [hx])
        have hnil : x = [] ∧ x' = [] := by
          rw [himage'] at hx
          simpa [List.append_eq_cons_iff] using hx.symm
        obtain ⟨rfl, rfl⟩ := hnil
        exact ⟨[], text, rfl, lowered_nil, ⟨images, hrest, rfl⟩⟩

/-- A mark that is not in the image was not in the text. -/
lemma Lowered.not_mem (h : Lowered text low) (hd : IsMark d) (hfree : d ∉ low) : d ∉ text := by
  obtain ⟨images, himages, rfl⟩ := h
  induction himages with
  | nil => exact List.not_mem_nil
  | @cons c image text images himage _ ih =>
    rw [List.flatten_cons, List.mem_append, not_or] at hfree
    rw [List.mem_cons, not_or]
    refine ⟨?_, ih hfree.2⟩
    rintro rfl
    obtain ⟨hascii, -, hfix⟩ := hd.not_letter
    rw [himage.plain (.inl hascii), hfix] at hfree
    exact hfree.1 (List.mem_singleton_self d)

lemma wild_iff : Pattern.wild c = true ↔
    97 ≤ c.toNat ∧ c.toNat ≤ 122 ∨ 48 ≤ c.toNat ∧ c.toNat ≤ 57 ∨ c.toNat = 45 := by
  delta Pattern.wild Char.isLower Char.isDigit
  simp only [Bool.or_eq_true, Bool.and_eq_true, decide_eq_true_eq, or_assoc]
  refine or_congr Iff.rfl (or_congr Iff.rfl ?_)
  constructor
  · rintro rfl
    rfl
  · intro h
    exact Char.toNat_inj.mp h

lemma not_isMark_of_wild (h : Pattern.wild c = true) : ¬ IsMark c := by
  intro hmark
  unfold IsMark at hmark
  simp only [List.mem_cons, List.not_mem_nil, or_false] at hmark
  obtain rfl | rfl | rfl | rfl := hmark <;> exact absurd h (by decide)

lemma not_whiteSpace_of_wild (h : Pattern.wild c = true) : whiteSpace c = false := by
  unfold whiteSpace
  simp only [List.contains_eq_mem, List.mem_cons, List.not_mem_nil, or_false]
  simp only [Bool.or_eq_false_iff, Bool.and_eq_false_iff, decide_eq_false_iff_not]
  obtain h := wild_iff.mp h
  omega

/-- A character that becomes letters, digits and hyphens is no mark and no white space. -/
lemma LowerImage.plain_of_wild {image : Text} (h : LowerImage c image) (hwild : ∀ e ∈ image, Pattern.wild e = true) :
    ¬ IsMark c ∧ whiteSpace c = false := by
  by_cases hplain : c.toNat < 128 ∨ whiteSpace c = true
  · have hlower : Pattern.wild c.toLower = true := hwild _ (by rw [h.plain hplain]; exact List.mem_singleton_self _)
    refine ⟨?_, ?_⟩
    · intro hmark
      rw [hmark.not_letter.2.2] at hlower
      exact not_isMark_of_wild hlower hmark
    · rw [← whiteSpace_toLower]
      exact not_whiteSpace_of_wild hlower
  · rw [not_or, Bool.not_eq_true] at hplain
    exact ⟨fun hmark => hplain.1 hmark.not_letter.1, hplain.2⟩

lemma Lowered.plain_of_wild (h : Lowered text low) (hwild : low.all Pattern.wild = true) :
    ∀ c ∈ text, ¬ IsMark c ∧ whiteSpace c = false := by
  obtain ⟨images, himages, rfl⟩ := h
  induction himages with
  | nil => exact nofun
  | @cons c image text images himage _ ih =>
    rw [List.flatten_cons, List.all_append, Bool.and_eq_true] at hwild
    rw [List.forall_mem_cons]
    exact ⟨himage.plain_of_wild (List.all_eq_true.mp hwild.1), ih hwild.2⟩

end Lowered

/-! ## What the check makes sure of -/

/-- A text without the marks of an origin and without white space. -/
def PlainText (text : Text) : Prop := ∀ c ∈ text, ¬ IsMark c ∧ whiteSpace c = false

lemma PlainText.not_mem {text : Text} {d : Char} (h : PlainText text) (hd : IsMark d) : d ∉ text := fun hmem =>
  (h d hmem).1 hd

/-- The host of a pattern: one star in the first label, and two more labels or more. -/
structure ShapedHost (host before after labels : Text) : Prop where
  text : host = before ++ '*' :: (after ++ '.' :: labels)
  before : PlainText before
  after : PlainText after
  dots : '.' ∈ labels
  stars : '*' ∉ labels

lemma not_mem_intercalate {c sep : Char} (hsep : c ≠ sep) {words : List Text} (h : ∀ word ∈ words, c ∉ word) :
    c ∉ [sep].intercalate words := by
  induction words with
  | nil => exact List.not_mem_nil
  | cons word words ih =>
    obtain ⟨hword, hwords⟩ := List.forall_mem_cons.mp h
    cases words with
    | nil => simpa [List.intercalate] using hword
    | cons next words =>
      rw [List.intercalate_cons_cons, List.append_assoc, List.mem_append, List.mem_append, not_or, not_or]
      exact ⟨hword, by simpa using hsep, ih hwords⟩

/-- The labels after the first, put together. -/
lemma splitOn_cons {host first : Text} {labels : List Text} (h : host.splitOn '.' = first :: labels)
    (hlength : 2 ≤ labels.length) (hstars : ∀ label ∈ labels, '*' ∉ label) :
    ∃ rest, host = first ++ '.' :: rest ∧ '.' ∈ rest ∧ '*' ∉ rest := by
  have hjoin := @List.intercalate_splitOn _ host _ _ '.'
  rw [h] at hjoin
  match labels, hlength with
  | second :: third :: labels, _ =>
    refine ⟨['.'].intercalate (second :: third :: labels), ?_, ?_, not_mem_intercalate (by decide) hstars⟩
    · rw [← hjoin, List.intercalate_cons_cons]
      simp
    · rw [List.intercalate_cons_cons]
      simp

/-- What `_check_pattern` takes for the host has one star, in the first of three labels or more. -/
lemma shapedHost_of_check {py : FullLowering} {value scheme authority : Text}
    (h : checkPattern py.toLowering value = true) (hcut : splitOnce value "://".toList = some (scheme, authority)) :
    '*' ∉ scheme ∧ ∃ before after labels,
      ShapedHost (if authority.count ':' = 1 then (hostAndPort authority).1 else authority) before after labels := by
  unfold checkPattern at h
  rw [hcut] at h
  dsimp only [Option.getD_some] at h
  generalize (if authority.count ':' = 1 then (hostAndPort authority).1 else authority) = host at h ⊢
  cases hsplit : (py.lower host).splitOn '.' with
  | nil =>
    rw [hsplit] at h
    cases h
  | cons first labels =>
    rw [hsplit] at h
    simp only [Bool.and_eq_true, decide_eq_true_eq, List.all_eq_true] at h
    obtain ⟨⟨⟨hscheme, hwild⟩, hlabels⟩, hlength⟩ := h
    obtain ⟨rest, hlower, hdots, hstars⟩ := splitOn_cons hsplit hlength fun label hlabel => (hlabels label hlabel).1
    unfold wildLabel at hwild
    cases hstar : splitOnce first ['*'] with
    | none =>
      rw [hstar] at hwild
      cases hwild
    | some pieces =>
      rw [hstar, Bool.and_eq_true] at hwild
      obtain ⟨hfirst, -⟩ := splitOnce_char_iff.mp hstar
      have hall := py.by_char host
      rw [hlower, hfirst, List.append_assoc, List.cons_append] at hall
      obtain ⟨before, y, rfl, hbefore, hy⟩ := hall.of_append_mark (by decide)
      obtain ⟨after, labels', rfl, hafter, hlabels'⟩ := hy.of_append_mark (by decide)
      refine ⟨hscheme, before, after, labels', rfl, hbefore.plain_of_wild hwild.1, hafter.plain_of_wild hwild.2, ?_, ?_⟩
      · obtain ⟨x, z, rfl⟩ := List.append_of_mem hdots
        obtain ⟨x', z', rfl, -, -⟩ := hlabels'.of_append_mark (by decide)
        simp
      · exact hlabels'.not_mem (by decide) hstars

/-- An authority of which the check takes that host: it goes on with a port if it has one colon. -/
inductive CheckedAuthority (host : Text) : Text → Prop
  | whole (h : host.count ':' ≠ 1) : CheckedAuthority host host
  | withPort (port : Text) (hhost : ':' ∉ host) (hport : ':' ∉ port) : CheckedAuthority host (host ++ ':' :: port)

lemma checkedAuthority (authority : Text) :
    CheckedAuthority (if authority.count ':' = 1 then (hostAndPort authority).1 else authority) authority := by
  by_cases hone : authority.count ':' = 1
  · rw [if_pos hone]
    have hmem : ':' ∈ authority := List.count_pos_iff.mp (by omega)
    obtain ⟨host, port, rfl, hhost⟩ := List.eq_append_cons_of_mem hmem
    have hport : ':' ∉ port := by
      intro hmem
      have hpos := List.count_pos_iff.mpr hmem
      rw [List.count_append, List.count_cons_self] at hone
      omega
    have hread : hostAndPort (host ++ ':' :: port) = (host, some port) := hostAndPort_eq_iff.mpr ⟨rfl, hport⟩
    rw [hread]
    exact .withPort port hhost hport
  · rw [if_neg hone]
    exact .whole hone

/-! ## What the parser reads -/

section Parse

variable {x y u v : Text}

/-- A colon does not stand in a text without one. -/
lemma split_colon (hx : ':' ∉ x) (h : x ++ y = u ++ ':' :: v) : ∃ z, u = x ++ z ∧ y = z ++ ':' :: v := by
  rcases List.append_eq_append_iff.mp h with ⟨z, rfl, hz⟩ | ⟨z, rfl, hz⟩
  · exact ⟨z, rfl, hz⟩
  · cases z with
    | nil => exact ⟨[], by simp, hz.symm⟩
    | cons c z =>
      obtain ⟨rfl, -⟩ := List.cons.inj hz
      exact absurd (by simp) hx

/-- A default port is taken off the end of an authority. -/
lemma WithoutDefault.of_append {ports : List Text} {bare : Text} (hx : ':' ∉ x)
    (h : WithoutDefault ports (x ++ y) bare) : ∃ z, bare = x ++ z ∧ WithoutDefault ports y z := by
  rcases h with ⟨port, hport, heq⟩ | ⟨hnone, rfl⟩
  · obtain ⟨z, rfl, rfl⟩ := split_colon hx heq
    exact ⟨z, rfl, .inl ⟨port, hport, rfl⟩⟩
  · refine ⟨y, rfl, .inr ⟨?_, rfl⟩⟩
    intro port hport hsuffix
    exact hnone port hport (hsuffix.trans (List.suffix_append x y))

lemma hostAndPort_append (hx : ':' ∉ x) : hostAndPort (x ++ y) = (x ++ (hostAndPort y).1, (hostAndPort y).2) := by
  obtain ⟨hy, hreads⟩ := hostAndPort_reads y
  apply hostAndPort_eq_iff.mpr
  constructor
  · rw [List.append_assoc, ← hy]
  · cases hport : (hostAndPort y).2 with
    | none =>
      rw [hport] at hreads
      exact fun hmem => (List.mem_append.mp hmem).elim hx hreads
    | some port =>
      rw [hport] at hreads
      exact hreads

/-- The labels after the first, and the port. -/
structure PatternTail (scheme tail labels : Text) (port : Option Text) : Prop where
  bare : ∃ z, WithoutDefault (defaultPorts scheme) tail z ∧ z = labels ++ portText port
  reads : PortReads labels port

variable {p scheme before after tail : Text}

/-- What the parser makes of a pattern with a star in its first label. -/
lemma parse_eq (hcut : splitOnce (lowercase (strip p)) "://".toList =
      some (scheme, before ++ '*' :: (after ++ '.' :: tail)))
    (hbefore : PlainText before) (hafter : PlainText after)
    (hstrip : lowercase (strip (before ++ '*' :: (after ++ '.' :: tail))) = before ++ '*' :: (after ++ '.' :: tail)) :
    ∃ labels port, PatternTail scheme tail labels port ∧
      (hostAndPort (withoutDefaultPort (before ++ '*' :: (after ++ '.' :: tail)) (some scheme))).1 =
        before ++ '*' :: (after ++ '.' :: labels) ∧
      Pattern.parse p = if '*' ∈ labels ∨ '.' ∉ labels then none
        else some { scheme, before, after, rest := '.' :: labels, port } := by
  have hx : ':' ∉ before ++ '*' :: (after ++ ['.']) := by
    simp [hbefore.not_mem (by decide : IsMark ':'), hafter.not_mem (by decide : IsMark ':')]
  have hauthority (z : Text) : before ++ '*' :: (after ++ '.' :: z) = before ++ '*' :: (after ++ ['.']) ++ z := by simp
  have hwithout := withoutDefaultPort_iff.mp
    (rfl : withoutDefaultPort (before ++ '*' :: (after ++ '.' :: tail)) (some scheme) = _)
  rw [hstrip, hauthority tail] at hwithout
  obtain ⟨z, hz, htail⟩ := hwithout.of_append hx
  obtain ⟨hreads, hport⟩ := hostAndPort_reads z
  refine ⟨(hostAndPort z).1, (hostAndPort z).2, ⟨⟨z, htail, hreads⟩, hport⟩, ?_, ?_⟩
  · rw [hauthority tail, hz, hostAndPort_append hx, ← hauthority]
  · unfold Pattern.parse
    rw [hcut]
    have hfirst : splitOnce (before ++ '*' :: (after ++ '.' :: (hostAndPort z).1)) ['.'] =
        some (before ++ '*' :: after, (hostAndPort z).1) := by
      apply splitOnce_char_iff.mpr
      refine ⟨by simp, ?_⟩
      simp [hbefore.not_mem (by decide : IsMark '.'), hafter.not_mem (by decide : IsMark '.')]
    have hstar : splitOnce (before ++ '*' :: after) ['*'] = some (before, after) :=
      splitOnce_char_iff.mpr ⟨rfl, hbefore.not_mem (by decide : IsMark '*')⟩
    have hnone : '*' ∉ after := hafter.not_mem (by decide : IsMark '*')
    simp only [Option.bind_eq_bind, Option.bind_some]
    rw [hauthority, hz, hostAndPort_append hx, ← hauthority]
    simp only [hfirst, hstar, hnone, Option.bind_some, false_or]

lemma PatternTail.unique {labels labels' : Text} {port port' : Option Text} (h : PatternTail scheme tail labels port)
    (h' : PatternTail scheme tail labels' port') : labels = labels' ∧ port = port' := by
  obtain ⟨⟨z, hz, htext⟩, hreads⟩ := h
  obtain ⟨⟨z', hz', htext'⟩, hreads'⟩ := h'
  obtain rfl := hz.unique (fun port hport => not_mem_defaultPorts (mem_defaultPorts hport)) hz'
  have heq := (hostAndPort_eq_iff.mpr ⟨htext, hreads⟩).symm.trans (hostAndPort_eq_iff.mpr ⟨htext', hreads'⟩)
  exact Prod.mk.inj heq

lemma PatternTail.prefix_tail {labels : Text} {port : Option Text} (h : PatternTail scheme tail labels port) :
    labels <+: tail := by
  obtain ⟨⟨z, hz, rfl⟩, -⟩ := h
  rcases hz with ⟨d, -, rfl⟩ | ⟨-, rfl⟩
  · rw [List.append_assoc]
    exact List.prefix_append ..
  · exact List.prefix_append ..

/-- Without a colon there is no port. -/
lemma PatternTail.of_no_colon {labels : Text} {port : Option Text} (h : PatternTail scheme tail labels port)
    (hfree : ':' ∉ tail) : labels = tail := by
  obtain ⟨⟨z, hz, rfl⟩, -⟩ := h
  rcases hz with ⟨d, -, rfl⟩ | ⟨-, rfl⟩
  · simp at hfree
  · cases port with
    | none => exact (List.append_nil _).symm
    | some port => simp [portText] at hfree

/-- With one colon the labels end there. -/
lemma PatternTail.of_one_colon {labels : Text} {port : Option Text} (h : PatternTail scheme (x ++ ':' :: y) labels port)
    (hx : ':' ∉ x) (hy : ':' ∉ y) : labels = x := by
  obtain ⟨⟨z, hz, rfl⟩, hreads⟩ := h
  have hread : hostAndPort (x ++ ':' :: y) = (x, some y) := hostAndPort_eq_iff.mpr ⟨rfl, hy⟩
  rcases hz with ⟨d, hd, heq⟩ | ⟨-, heq⟩
  · have hread' : hostAndPort (x ++ ':' :: y) = (labels ++ portText port, some d) :=
      hostAndPort_eq_iff.mpr ⟨heq, not_mem_defaultPorts (mem_defaultPorts hd)⟩
    obtain ⟨rfl, -⟩ := Prod.mk.inj (hread.symm.trans hread')
    cases port with
    | none => exact (List.append_nil _).symm
    | some port => simp [portText] at hx
  · exact (Prod.mk.inj ((hostAndPort_eq_iff.mpr ⟨heq.symm, hreads⟩).symm.trans hread)).1

end Parse

/-! ## The form of an origin -/

/-- The origins that a pattern stands for, both in lower case and the pattern trimmed: its scheme, the text before the
star, one character or more for the star, the text after it, the other labels and the port, where a default port on
either side does not count. -/
def OriginForm (pattern origin : Text) : Prop :=
  ∃ scheme before after tail labels port star authority,
    splitOnce pattern "://".toList = some (scheme, before ++ '*' :: (after ++ '.' :: tail)) ∧
    PlainText before ∧ PlainText after ∧ PatternTail scheme tail labels port ∧
    star ≠ [] ∧ star.all Pattern.wild = true ∧ origin = scheme ++ "://".toList ++ authority ∧
    WithoutDefault (defaultPorts scheme) authority (before ++ star ++ after ++ '.' :: labels ++ portText port)

/-- An origin with the white space around its authority taken away. -/
def trimmedOrigin (origin : Text) : Text :=
  match splitOnce origin "://".toList with
  | some (scheme, authority) => scheme ++ "://".toList ++ strip authority
  | none => origin

/-- The host of a pattern as the parser cuts it out. -/
def patternHost (p : Text) : Text :=
  match splitOnce (lowercase (strip p)) "://".toList with
  | some (scheme, authority) => (hostAndPort (withoutDefaultPort authority (some scheme))).1
  | none => []

/-- The host has three labels or more. -/
def TwoDots (p : Text) : Prop := 2 ≤ (patternHost p).count '.'

section Form

variable {pattern origin scheme before after tail labels : Text} {port : Option Text}

/-- The parts of a pattern are determined. -/
lemma originForm_iff
    (hcut : splitOnce pattern "://".toList = some (scheme, before ++ '*' :: (after ++ '.' :: tail)))
    (hbefore : PlainText before) (hafter : PlainText after) (htail : PatternTail scheme tail labels port) :
    OriginForm pattern origin ↔ ∃ star authority, star ≠ [] ∧ star.all Pattern.wild = true ∧
      splitOnce origin "://".toList = some (scheme, authority) ∧
      WithoutDefault (defaultPorts scheme) authority (before ++ star ++ after ++ '.' :: labels ++ portText port) := by
  constructor
  · rintro ⟨scheme', before', after', tail', labels', port', star, authority, hcut', hbefore', hafter', htail', hne,
      hwild, rfl, hwithout⟩
    obtain ⟨rfl, hauthority⟩ := Prod.mk.inj (Option.some.inj (hcut.symm.trans hcut'))
    have hstar : some (before, after ++ '.' :: tail) = some (before', after' ++ '.' :: tail') := by
      rw [← splitOnce_char_iff.mpr ⟨rfl, hbefore.not_mem (by decide : IsMark '*')⟩, hauthority]
      exact splitOnce_char_iff.mpr ⟨rfl, hbefore'.not_mem (by decide)⟩
    obtain ⟨rfl, hrest⟩ := Prod.mk.inj (Option.some.inj hstar)
    have hdot : some (after, tail) = some (after', tail') := by
      rw [← splitOnce_char_iff.mpr ⟨rfl, hafter.not_mem (by decide : IsMark '.')⟩, hrest]
      exact splitOnce_char_iff.mpr ⟨rfl, hafter'.not_mem (by decide)⟩
    obtain ⟨rfl, rfl⟩ := Prod.mk.inj (Option.some.inj hdot)
    obtain ⟨rfl, rfl⟩ := htail.unique htail'
    exact ⟨star, authority, hne, hwild, splitOnce_scheme hcut, hwithout⟩
  · rintro ⟨star, authority, hne, hwild, hsplit, hwithout⟩
    exact ⟨scheme, before, after, tail, labels, port, star, authority, hcut, hbefore, hafter, htail, hne, hwild,
      (splitOnce_scheme_iff.mp hsplit).1, hwithout⟩

/-- What stands for the star, if the host has the rest of the pattern around it. -/
lemma middle_eq_some_iff {host rest star : Text} :
    (do
      let first ← host.dropSuffix? rest
      let later ← first.dropPrefix? before
      later.dropSuffix? after) = some star ↔ host = before ++ star ++ after ++ rest := by
  constructor
  · intro h
    obtain ⟨first, hfirst, h⟩ := Option.bind_eq_some_iff.mp h
    obtain ⟨later, hlater, hstar⟩ := Option.bind_eq_some_iff.mp h
    obtain ⟨rest', rfl, hrest⟩ := List.dropSuffix?_eq_some_iff.mp hfirst
    obtain ⟨before', rfl, hbefore⟩ := List.dropPrefix?_eq_some_iff.mp hlater
    obtain ⟨after', rfl, hafter⟩ := List.dropSuffix?_eq_some_iff.mp hstar
    rw [eq_of_beq hrest, eq_of_beq hbefore, eq_of_beq hafter, List.append_assoc before star]
  · rintro rfl
    refine Option.bind_eq_some_iff.mpr ⟨before ++ star ++ after, ?_, ?_⟩
    · exact List.dropSuffix?_eq_some_iff.mpr ⟨rest, rfl, by simp⟩
    · refine Option.bind_eq_some_iff.mpr ⟨star ++ after, ?_, ?_⟩
      · exact List.dropPrefix?_eq_some_iff.mpr ⟨before, by simp, by simp⟩
      · exact List.dropSuffix?_eq_some_iff.mpr ⟨after, rfl, by simp⟩

/-- `Pattern::matches`, of an origin in lower case. -/
lemma matchesOrigin_iff (hbefore : PlainText before) (hafter : PlainText after) (hport : PortReads labels port)
    (hlower : lowercase origin = origin) :
    Pattern.matchesOrigin { scheme, before, after, rest := '.' :: labels, port } origin = true ↔
      ∃ star authority, star ≠ [] ∧ star.all Pattern.wild = true ∧
        splitOnce origin "://".toList = some (scheme, authority) ∧
        WithoutDefault (defaultPorts scheme) (strip authority)
          (before ++ star ++ after ++ '.' :: labels ++ portText port) := by
  unfold Pattern.matchesOrigin
  cases hsplit : splitOnce origin "://".toList with
  | none => exact iff_of_false (by simp) (by rintro ⟨_, _, _, _, h, _⟩; cases h)
  | some pieces =>
    obtain ⟨scheme', authority⟩ := pieces
    have hlower' : lowercase (strip authority) = strip authority := by
      rw [lowercase_eq_self_iff] at hlower ⊢
      exact fun d hd => hlower d (mem_of_splitOnce hsplit (mem_of_mem_strip hd))
    simp only [Bool.and_eq_true, decide_eq_true_eq, Option.any_eq_true, and_assoc]
    constructor
    · rintro ⟨rfl, hportEq, star, hstar, hne, hwild⟩
      have hhost := middle_eq_some_iff.mp hstar
      obtain ⟨hbare, -⟩ := hostAndPort_reads (withoutDefaultPort authority (some scheme'))
      rw [hhost, hportEq] at hbare
      have hwithout := withoutDefaultPort_iff.mp hbare
      rw [hlower'] at hwithout
      exact ⟨star, authority, hne, hwild, rfl, hwithout⟩
    · rintro ⟨star, authority', hne, hwild, heq, hwithout⟩
      obtain ⟨rfl, rfl⟩ := Prod.mk.inj (Option.some.inj heq)
      rw [← hlower'] at hwithout
      have hbare : withoutDefaultPort authority (some scheme') = _ := withoutDefaultPort_iff.mpr hwithout
      have hread : hostAndPort (withoutDefaultPort authority (some scheme')) =
          (before ++ star ++ after ++ '.' :: labels, port) := by
        apply hostAndPort_eq_iff.mpr
        refine ⟨hbare, ?_⟩
        cases port with
        | some port => exact hport
        | none =>
          have hstar : ':' ∉ star := fun hmem =>
            not_isMark_of_wild (List.all_eq_true.mp hwild ':' hmem) (by decide)
          have hlabels : ':' ∉ labels := hport
          have hb := hbefore.not_mem (by decide : IsMark ':')
          have ha := hafter.not_mem (by decide : IsMark ':')
          simp [PortReads, hb, ha, hstar, hlabels]
      rw [hread]
      exact ⟨rfl, rfl, star, middle_eq_some_iff.mpr rfl, hne, hwild⟩

end Form

/-! ## Patterns that are configured -/

section Configured

variable {py : FullLowering} {p : Text}

lemma PlainText.lowercase {text : Text} (h : PlainText text) : PlainText (lowercase text) := by
  intro c hc
  obtain ⟨d, hd, rfl⟩ := List.mem_map.mp hc
  obtain ⟨hmark, hspace⟩ := h d hd
  refine ⟨?_, by rw [whiteSpace_toLower]; exact hspace⟩
  intro hlower
  obtain ⟨-, hletter, -⟩ := hlower.not_letter
  rw [← eq_of_toLower rfl hletter] at hlower
  exact hmark hlower

/-- What the check has taken, as the parser reads it. -/
structure Configured (p scheme before after tail labels : Text) (port : Option Text) : Prop where
  cut : splitOnce (lowercase (strip p)) "://".toList = some (scheme, before ++ '*' :: (after ++ '.' :: tail))
  plain_before : PlainText before
  plain_after : PlainText after
  parts : PatternTail scheme tail labels port
  host : patternHost p = before ++ '*' :: (after ++ '.' :: labels)
  parse : Pattern.parse p = if '*' ∈ labels ∨ '.' ∉ labels then none
    else some { scheme, before, after, rest := '.' :: labels, port }

/-- A text with a star in its first label is read so once it is trimmed and in lower case. -/
lemma configured_of_parts {scheme before after tail : Text}
    (hcut : splitOnce p "://".toList = some (scheme, before ++ '*' :: (after ++ '.' :: tail)))
    (hbefore : PlainText before) (hafter : PlainText after) :
    ∃ labels port, Configured p (lowercase (scheme.dropWhile whiteSpace)) (lowercase before) (lowercase after)
      (lowercase (tail.rdropWhile whiteSpace)) labels port := by
  have hdot : whiteSpace '.' = false := by decide
  have htrim : (before ++ '*' :: (after ++ '.' :: tail)).rdropWhile whiteSpace =
      before ++ '*' :: (after ++ '.' :: tail.rdropWhile whiteSpace) := by
    rw [rdropWhile_append_cons (by decide), rdropWhile_append_cons hdot]
  have hlow : lowercase ((before ++ '*' :: (after ++ '.' :: tail)).rdropWhile whiteSpace) =
      lowercase before ++ '*' :: (lowercase after ++ '.' :: lowercase (tail.rdropWhile whiteSpace)) := by
    rw [htrim]
    simp [lowercase, show Char.toLower '*' = '*' by decide, show Char.toLower '.' = '.' by decide]
  have hcut' := splitOnce_scheme_strip hcut
  rw [hlow] at hcut'
  have hstrip : lowercase (strip (lowercase before ++ '*' :: (lowercase after ++ '.' ::
      lowercase (tail.rdropWhile whiteSpace)))) =
        lowercase before ++ '*' :: (lowercase after ++ '.' :: lowercase (tail.rdropWhile whiteSpace)) := by
    have hhead : (lowercase before).dropWhile whiteSpace = lowercase before := by
      cases hlower : lowercase before with
      | nil => rfl
      | cons c rest =>
        have hspace := (hbefore.lowercase c (by rw [hlower]; exact List.mem_cons_self)).2
        exact List.dropWhile_cons_of_neg (by simp [hspace])
    have htail : (lowercase (tail.rdropWhile whiteSpace)).rdropWhile whiteSpace =
        lowercase (tail.rdropWhile whiteSpace) := by
      rw [rdropWhile_lowercase, List.rdropWhile_idempotent]
    rw [strip_append_cons (by decide), rdropWhile_append_cons hdot, hhead, htail]
    rw [← hlow, lowercase_lowercase]
  obtain ⟨labels, port, hparts, hhost, hparse⟩ := parse_eq hcut' hbefore.lowercase hafter.lowercase hstrip
  refine ⟨labels, port, hcut', hbefore.lowercase, hafter.lowercase, hparts, ?_, hparse⟩
  unfold patternHost
  rw [hcut']
  exact hhost

/-- A pattern that the check takes has no star but the first, and two dots if it has one colon at most. -/
lemma configured_of_check (h : checkOrigin py.toLowering p = true) (hstar : '*' ∈ p) (hany : p ≠ ['*']) :
    ∃ scheme before after tail labels port, Configured p scheme before after tail labels port ∧ '*' ∉ labels ∧
      ∀ scheme authority, splitOnce p "://".toList = some (scheme, authority) → authority.count ':' ≤ 1 →
        '.' ∈ labels := by
  unfold checkOrigin at h
  simp only [Bool.or_eq_true, Bool.and_eq_true, decide_eq_true_eq, hany, false_or, hstar, not_true_eq_false] at h
  obtain ⟨⟨hsome, -⟩, hcheck⟩ := h
  obtain ⟨⟨scheme, authority⟩, hcut⟩ := Option.isSome_iff_exists.mp hsome
  obtain ⟨-, before, after, labels, hshape⟩ := shapedHost_of_check hcheck hcut
  have hauthority := checkedAuthority authority
  generalize (if authority.count ':' = 1 then (hostAndPort authority).1 else authority) = host at hshape hauthority
  obtain ⟨rfl, hbefore, hafter, hdots, hstars⟩ := hshape
  cases hauthority with
  | whole hcount =>
    obtain ⟨labels', port, hconfigured⟩ := configured_of_parts hcut hbefore hafter
    have hstars' : '*' ∉ lowercase (labels.rdropWhile whiteSpace) := by
      rw [mem_lowercase (by decide) (by decide)]
      exact fun hmem => hstars ((List.rdropWhile_prefix _ _).subset hmem)
    refine ⟨_, _, _, _, labels', port, hconfigured, ?_, ?_⟩
    · exact fun hmem => hstars' (hconfigured.parts.prefix_tail.subset hmem)
    · intro scheme' authority' hcut' hle
      obtain ⟨rfl, rfl⟩ := Prod.mk.inj (Option.some.inj (hcut.symm.trans hcut'))
      have hcolon : ':' ∉ before ++ '*' :: (after ++ '.' :: labels) := List.count_eq_zero.mp (by omega)
      rw [hconfigured.parts.of_no_colon ?_, mem_lowercase (by decide) (by decide)]
      · obtain ⟨x, y, rfl⟩ := List.append_of_mem hdots
        rw [rdropWhile_append_cons (by decide)]
        simp
      · rw [mem_lowercase (by decide) (by decide)]
        intro hmem
        have hmem' := (List.rdropWhile_prefix _ _).subset hmem
        exact hcolon (by simp [hmem'])
  | withPort port hhost hport =>
    have hcut' : splitOnce p "://".toList =
        some (scheme, before ++ '*' :: (after ++ '.' :: (labels ++ ':' :: port))) := by
      rw [hcut]
      simp
    obtain ⟨labels', port', hconfigured⟩ := configured_of_parts hcut' hbefore hafter
    have hlabels : labels' = lowercase labels := by
      have hparts := hconfigured.parts
      rw [rdropWhile_append_cons (by decide), lowercase_append] at hparts
      apply hparts.of_one_colon
      · rw [mem_lowercase (by decide) (by decide)]
        exact fun hmem => hhost (by simp [hmem])
      · change ':' ∉ lowercase (port.rdropWhile whiteSpace)
        rw [mem_lowercase (by decide) (by decide)]
        exact fun hmem => hport ((List.rdropWhile_prefix _ _).subset hmem)
    refine ⟨_, _, _, _, labels', port', hconfigured, ?_, fun _ _ _ _ => ?_⟩
    · rw [hlabels, mem_lowercase (by decide) (by decide)]
      exact hstars
    · rw [hlabels, mem_lowercase (by decide) (by decide)]
      exact hdots

end Configured

/-! ## The pattern and its origins -/

lemma count_withoutDefault {scheme authority bare : Text} {c : Char}
    (h : WithoutDefault (defaultPorts scheme) authority bare) (hc : c ≠ ':') (hdigits : c ∉ "80443".toList) :
    authority.count c = bare.count c := by
  rcases h with ⟨port, hport, rfl⟩ | ⟨-, rfl⟩
  · have hport' : c ∉ port := by
      have hports := mem_defaultPorts hport
      simp only [List.mem_cons, List.not_mem_nil, or_false] at hports
      rintro hmem
      rcases hports with rfl | rfl
      · exact hdigits (List.mem_append_left "443".toList hmem)
      · exact hdigits (List.mem_append_right "80".toList hmem)
    rw [List.count_append, List.count_cons_of_ne hc.symm, List.count_eq_zero.mpr hport', Nat.add_zero]
  · rfl

/-- An origin of the form has the dots and the at signs of the pattern. -/
lemma count_of_form {pattern origin : Text} (h : OriginForm pattern origin) {c : Char} (hmark : IsMark c)
    (hstar : c ≠ '*') (hcolon : c ≠ ':') : origin.count c = pattern.count c := by
  obtain ⟨scheme, before, after, tail, labels, port, star, authority, hcut, -, -, htail, -, hwild, rfl, hwithout⟩ := h
  have hdigits : c ∉ "80443".toList := by
    revert hmark
    unfold IsMark
    simp only [List.mem_cons, List.not_mem_nil, or_false]
    rintro (rfl | rfl | rfl | rfl) <;> decide
  obtain ⟨⟨z, hz, rfl⟩, -⟩ := htail
  have hnone : star.count c = 0 := List.count_eq_zero.mpr fun hmem =>
    not_isMark_of_wild (List.all_eq_true.mp hwild c hmem) hmark
  have hauthority := count_withoutDefault hwithout hcolon hdigits
  have htail := count_withoutDefault hz hcolon hdigits
  rw [(splitOnce_scheme_iff.mp hcut).1]
  simp only [List.count_append, List.count_cons_of_ne hstar.symm, List.count_cons] at hauthority htail hnone ⊢
  omega

section Main

variable {py : FullLowering} {p origin scheme before after tail labels : Text} {port : Option Text}

lemma Configured.twoDots_iff (h : Configured p scheme before after tail labels port) : TwoDots p ↔ '.' ∈ labels := by
  have hb := List.count_eq_zero.mpr (h.plain_before.not_mem (by decide : IsMark '.'))
  have ha := List.count_eq_zero.mpr (h.plain_after.not_mem (by decide : IsMark '.'))
  unfold TwoDots
  rw [h.host, List.count_append, List.count_cons_of_ne (by decide), List.count_append, List.count_cons_self, hb, ha,
    ← List.count_pos_iff]
  omega

/-- A pattern matches an origin if it has the form once it is trimmed. -/
lemma Configured.matches_iff (h : Configured p scheme before after tail labels port)
    (hlower : lowercase origin = origin) :
    Pattern.matchesOrigin { scheme, before, after, rest := '.' :: labels, port } origin = true ↔
      OriginForm (lowercase (strip p)) (trimmedOrigin origin) := by
  rw [matchesOrigin_iff h.plain_before h.plain_after h.parts.reads hlower,
    originForm_iff h.cut h.plain_before h.plain_after h.parts]
  unfold trimmedOrigin
  cases hsplit : splitOnce origin "://".toList with
  | none =>
    dsimp only
    rw [hsplit]
    exact iff_of_false (by rintro ⟨_, _, _, _, h, _⟩; cases h) (by rintro ⟨_, _, _, _, h, _⟩; cases h)
  | some pieces =>
    obtain ⟨scheme', authority⟩ := pieces
    dsimp only
    rw [splitOnce_scheme hsplit]
    constructor
    · rintro ⟨star, authority', hne, hwild, heq, hwithout⟩
      obtain ⟨rfl, rfl⟩ := Prod.mk.inj (Option.some.inj heq)
      exact ⟨star, strip authority, hne, hwild, rfl, hwithout⟩
    · rintro ⟨star, authority', hne, hwild, heq, hwithout⟩
      obtain ⟨rfl, rfl⟩ := Prod.mk.inj (Option.some.inj heq)
      exact ⟨star, authority, hne, hwild, rfl, hwithout⟩

/-- **When a pattern is read, and which origins it matches.**  For a pattern that the check takes and an origin in
lower case, the parser takes the pattern and it matches the origins of its form, if and only if the host of the pattern
has two dots, and white space around the authority of the origin does not matter for the form.  The host has two dots
if the authority has one colon at most; and an origin of the form has the dots and at signs of the pattern. -/
theorem pattern_form_iff (h : checkOrigin py.toLowering p = true) (hstar : '*' ∈ p) (hany : p ≠ ['*'])
    (hlower : lowercase origin = origin) :
    ((∃ pattern, Pattern.parse p = some pattern ∧
        (pattern.matchesOrigin origin = true ↔ OriginForm (lowercase (strip p)) origin)) ↔
      TwoDots p ∧ (OriginForm (lowercase (strip p)) (trimmedOrigin origin) ↔ OriginForm (lowercase (strip p)) origin)) ∧
    (∀ scheme authority, splitOnce p "://".toList = some (scheme, authority) → authority.count ':' ≤ 1 → TwoDots p) ∧
    (OriginForm (lowercase (strip p)) origin →
      origin.count '.' = (lowercase (strip p)).count '.' ∧ origin.count '@' = (lowercase (strip p)).count '@') := by
  obtain ⟨scheme, before, after, tail, labels, port, hconfigured, hstars, hdots⟩ := configured_of_check h hstar hany
  have htwo := hconfigured.twoDots_iff
  refine ⟨?_, fun scheme authority hcut hle => htwo.mpr (hdots scheme authority hcut hle), ?_⟩
  · rw [htwo, hconfigured.parse]
    by_cases hdot : '.' ∈ labels
    · rw [if_neg (by simp [hstars, hdot])]
      constructor
      · rintro ⟨pattern, heq, hmatches⟩
        obtain rfl := Option.some.inj heq
        exact ⟨hdot, (hconfigured.matches_iff hlower).symm.trans hmatches⟩
      · rintro ⟨-, htrim⟩
        exact ⟨_, rfl, (hconfigured.matches_iff hlower).trans htrim⟩
    · rw [if_pos (.inr hdot)]
      exact iff_of_false (by rintro ⟨_, h, _⟩; cases h) (fun h => hdot h.1)
  · intro hform
    exact ⟨count_of_form hform (by decide) (by decide) (by decide),
      count_of_form hform (by decide) (by decide) (by decide)⟩

end Main

/-- `str.lower` of texts in which only ASCII has case. -/
def fullAsciiLowering : FullLowering where
  toLowering := asciiLowering
  by_char text := by
    refine ⟨text.map fun c => [c.toLower], ?_, ?_⟩
    · rw [List.forall₂_map_right_iff, List.forall₂_same]
      intro c _
      refine ⟨List.cons_ne_nil _ _, fun _ => rfl, ?_⟩
      intro hlarge d hd hsmall
      rw [List.mem_singleton.mp hd] at hsmall
      obtain ⟨hsame, -⟩ | ⟨-, hhigh, -⟩ := toLower_cases c
      · rw [hsame] at hsmall
        omega
      · omega
    · induction text with
      | nil => rfl
      | cons c text ih => exact congrArg (c.toLower :: ·) ih

theorem pattern_form_preview : ∃ pattern,
    Pattern.parse "https://app-*.example.dev:443".toList = some pattern ∧
      (pattern.matchesOrigin "https://app-7.example.dev".toList = true ↔
        OriginForm (lowercase (strip "https://app-*.example.dev:443".toList)) "https://app-7.example.dev".toList) := by
  have hform := @pattern_form_iff fullAsciiLowering "https://app-*.example.dev:443".toList
    "https://app-7.example.dev".toList (by decide +kernel) (by decide +kernel) (by decide +kernel) (by decide +kernel)
  have htwo : TwoDots "https://app-*.example.dev:443".toList := by
    unfold TwoDots
    decide +kernel
  have htrimmed : trimmedOrigin "https://app-7.example.dev".toList = "https://app-7.example.dev".toList := by
    decide +kernel
  refine hform.1.mpr ⟨htwo, ?_⟩
  rw [htrimmed]

/-- The check takes the whole authority for the host where it has two colons, and the parser cuts it at the last. -/
theorem two_colons_misread :
    checkOrigin asciiLowering "https://*.a:1:b.c".toList = true ∧
      Pattern.parse "https://*.a:1:b.c".toList = none := by
  decide +kernel

end Oxbrook
