import Mathlib
import Oxbrook.Files.Ranges
import Oxbrook.Foundation.Doubles
import Oxbrook.Foundation.Preference

/-!
# Which encoding a client would rather have

`negotiate` of `src/compress.rs`, and the loop of `variant` in `src/files.rs`, which asks it again without the
encodings it has already tried.  The entries of `Accept-Encoding` are read one by one, a weight with each; a weight is
a number in single precision, and here the rational that this number is.

`weight` is what the header says of an encoding, in thousandths.  `negotiate_best` says that the weights in single
precision lead to the same choice, and which encodings `variant` tries in which order.
-/

namespace Oxbrook

open Numerals Preference

/-! ## Reading a header -/

/-- `Encoding::parse`. -/
def Encoding.parse (token : Text) : Option Encoding :=
  if token = "br".toList then some .brotli
  else if token = "gzip".toList ∨ token = "x-gzip".toList then some .gzip
  else none

/-- `str::parse::<f32>`, of a text of digits with or without a fraction. -/
def parseF32 (whole fraction : Text) : ℚ :=
  Doubles.nearest32 ((readDigits 10 (whole ++ fraction)).getD 0 / 10 ^ fraction.length)

/-- `qvalue`. -/
def qvalue (text : Text) : Option ℚ :=
  match splitOnce text ['.'] with
  | some (whole, fraction) =>
    if (whole = ['0'] ∨ whole = ['1']) ∧ fraction.length ≤ 3 ∧ (∀ c ∈ fraction, c.isDigit = true) ∧
        (whole = ['0'] ∨ ∀ c ∈ fraction, c = '0') then some (parseF32 whole fraction)
    else none
  | none => if text = ['0'] ∨ text = ['1'] then some (parseF32 text []) else none

/-- The weight of an entry, after one more parameter. -/
def paramWeight (weight : Option ℚ) (param : Text) : Option ℚ :=
  match splitOnce param ['='] with
  | some (key, value) => if lowercase (strip key) = ['q'] then qvalue (strip value) else weight
  | none => weight

/-- The weights read so far: that of `*`, and those of the encodings. -/
structure AcceptWeights where
  star : Option ℚ
  weights : List (Encoding × ℚ)

/-- The loop over the entries of `negotiate`. -/
def AcceptWeights.read (read : AcceptWeights) (item : Text) : AcceptWeights :=
  let parts := item.splitOn ';'
  let token := lowercase (strip (parts.headD []))
  if token = [] then read
  else match parts.tail.foldl paramWeight (some 1) with
    | none => read
    | some weight =>
      if token = ['*'] then { read with star := some weight }
      else match Encoding.parse token with
        | some encoding => { read with weights := read.weights ++ [(encoding, weight)] }
        | none => read

/-- The weight of an encoding: one the client did not name is acceptable only through `*`. -/
def AcceptWeights.of (read : AcceptWeights) (encoding : Encoding) : ℚ :=
  match ((read.weights.filter fun (e, _) => e = encoding).map Prod.snd).max? with
  | some weight => weight
  | none => read.star.getD 0

/-- `negotiate`. -/
def negotiate (accept : Text) (prefer : List Encoding) : Option Encoding :=
  let read := (accept.splitOn ',').foldl AcceptWeights.read ⟨none, []⟩
  let best := prefer.foldl (fun best encoding =>
    let weight := read.of encoding
    if 0 < weight ∧ (best.all fun (_, w) => decide (w < weight)) then some (encoding, weight) else best) none
  best.map Prod.fst

/-- What `resolve` and `variant` use of the headers. -/
def AskedTexts.asked (asked : AskedTexts) : Asked :=
  ⟨asked.range.isSome, asked.acceptEncoding.map negotiate, asked.wantsHtml⟩

/-- `VARIANTS`. -/
def variants : List Encoding := [.brotli, .gzip]

/-- One round of `variant`: the file of an encoding, if it may be sent. -/
def attemptVariant (files : Files) (root : List String) (original : FileTree.RawPath String) (location : List String)
    (encoding : Encoding) : Option (Encoding × FileTree.RawPath String) :=
  (contained files.toFileSystem root (withSuffix original encoding.suffix)).bind fun resolved =>
    (files.canonicalize resolved).bind fun found =>
      if files.tree.node found = some .file ∧ files.fresh found location then some (encoding, resolved) else none

/-! ## What the header says -/

/-- A weight as it is written, in thousandths: zero or one, with three decimals at most, and not above one. -/
def thousandths (text : Text) : Option ℕ :=
  let (whole, fraction) := (splitOnce text ['.']).getD (text, [])
  if (whole = ['0'] ∨ whole = ['1']) ∧ fraction.length ≤ 3 then
    (readDigits 10 (whole ++ fraction)).bind fun n =>
      if n * 10 ^ (3 - fraction.length) ≤ 1000 then some (n * 10 ^ (3 - fraction.length)) else none
  else none

/-- The name of an entry. -/
def itemName (item : Text) : Text := lowercase (strip ((item.splitOn ';').headD []))

/-- The values of the parameters named `q` of an entry. -/
def itemParams (item : Text) : List Text :=
  (item.splitOn ';').tail.filterMap fun param => (splitOnce param ['=']).bind fun (key, value) =>
    if lowercase (strip key) = ['q'] then some (strip value) else none

/-- The weight of an entry: that of its last parameter `q`, one if it has none, and nothing if that is malformed. -/
def itemWeight (item : Text) : Option ℕ :=
  match (itemParams item).getLast? with
  | none => some 1000
  | some value => thousandths value

/-- An entry that has a name and a weight. -/
def itemEntry (item : Text) : Option (Text × ℕ) :=
  if itemName item = [] then none else (itemWeight item).map fun weight => (itemName item, weight)

def entries (accept : Text) : List (Text × ℕ) := (accept.splitOn ',').filterMap itemEntry

/-- The weights of an encoding under any of its names. -/
def namedWeights (accept : Text) (encoding : Encoding) : List ℕ :=
  ((entries accept).filter fun entry => Encoding.parse entry.1 = some encoding).map Prod.snd

/-- The weight of the last `*`. -/
def starWeight (accept : Text) : Option ℕ :=
  (((entries accept).filter fun entry => entry.1 = ['*']).map Prod.snd).getLast?

/-- What a header says of an encoding, in thousandths. -/
def weight (accept : Text) (encoding : Encoding) : ℕ :=
  match (namedWeights accept encoding).max? with
  | some weight => weight
  | none => (starWeight accept).getD 0

/-! ## Weights in single precision -/

/-- Thousandths as a number in single precision. -/
def single (t : ℕ) : ℚ := Doubles.nearest32 (t / 1000)

lemma single_zero : single 0 = 0 := by
  rw [single, Nat.cast_zero, zero_div, Doubles.nearest32_zero]

/-- No two weights are rounded to one. -/
lemma single_strictMonoOn : StrictMonoOn single {t | t ≤ 1000} := by
  intro s _ t ht hlt
  have hle : (s : ℚ) + 1 ≤ t := by exact_mod_cast hlt
  have hone : (t : ℚ) ≤ 1000 := by exact_mod_cast ht
  apply Doubles.nearest32_lt
  · positivity
  · norm_num
    linarith
  · linarith

/-- The value of a character as a digit, by its code. -/
lemma valueOfDigit_cases (c : Char) :
    (48 ≤ c.toNat ∧ c.toNat ≤ 57 ∧ valueOfDigit c = some (c.toNat - 48)) ∨
      (¬ (48 ≤ c.toNat ∧ c.toNat ≤ 57) ∧ ∀ d, valueOfDigit c = some d → 10 ≤ d) := by
  have hle : ∀ a b : Char, a ≤ b ↔ a.toNat ≤ b.toNat := fun a b => Iff.rfl
  unfold valueOfDigit
  simp only [hle]
  have h0 : '0'.toNat = 48 := rfl
  have h9 : '9'.toNat = 57 := rfl
  by_cases hdigit : 48 ≤ c.toNat ∧ c.toNat ≤ 57
  · exact .inl ⟨hdigit.1, hdigit.2, if_pos hdigit⟩
  · refine .inr ⟨hdigit, ?_⟩
    intro d hd
    rw [h0, h9, if_neg hdigit] at hd
    split_ifs at hd with hlower hupper
    · have := Option.some.inj hd
      omega
    · have := Option.some.inj hd
      omega

lemma isDigit_iff {c : Char} : c.isDigit = true ↔ ∃ d < 10, valueOfDigit c = some d := by
  have hcode : c.isDigit = true ↔ 48 ≤ c.toNat ∧ c.toNat ≤ 57 := by
    simp only [Char.isDigit, Bool.and_eq_true, decide_eq_true_eq]
    exact Iff.rfl
  rw [hcode]
  obtain ⟨hlow, hhigh, hvalue⟩ | ⟨hnot, hlarge⟩ := valueOfDigit_cases c
  · exact iff_of_true ⟨hlow, hhigh⟩ ⟨_, by omega, hvalue⟩
  · refine iff_of_false hnot ?_
    rintro ⟨d, hd, hvalue⟩
    have := hlarge d hvalue
    omega

lemma valueOfDigit_eq_zero_iff {c : Char} : valueOfDigit c = some 0 ↔ c = '0' := by
  constructor
  · intro h
    obtain ⟨hlow, hhigh, hvalue⟩ | ⟨-, hlarge⟩ := valueOfDigit_cases c
    · rw [hvalue, Option.some.injEq] at h
      exact Char.toNat_inj.mp (by omega : c.toNat = 48)
    · exact absurd (hlarge 0 h) (by decide)
  · rintro rfl
    rfl

/-- The digits before and behind the dot, read as one number of thousandths. -/
lemma parseF32_eq {whole fraction : Text} {n : ℕ} (hread : readDigits 10 (whole ++ fraction) = some n)
    (hlength : fraction.length ≤ 3) : parseF32 whole fraction = single (n * 10 ^ (3 - fraction.length)) := by
  have hthousand : (10 : ℚ) ^ fraction.length * 10 ^ (3 - fraction.length) = 1000 := by
    rw [← pow_add, Nat.add_sub_cancel' hlength]
    norm_num
  have hpos : (10 : ℚ) ^ (3 - fraction.length) ≠ 0 := by positivity
  rw [parseF32, hread, Option.getD_some, single, ← hthousand]
  push_cast
  rw [mul_div_mul_right _ _ hpos]

/-- A fraction of digits behind a zero or a one: the number of thousandths, and when it is not above one. -/
lemma readDigits_fraction {whole fraction : Text} {first : ℕ} (hfirst : readDigits 10 whole = some first)
    (hdigits : ∀ c ∈ fraction, c.isDigit = true) (hlength : fraction.length ≤ 3) (hone : first ≤ 1) :
    ∃ n, readDigits 10 (whole ++ fraction) = some n ∧
      (n * 10 ^ (3 - fraction.length) ≤ 1000 ↔ first = 0 ∨ ∀ c ∈ fraction, c = '0') := by
  obtain ⟨n, hread, hlt, hzero⟩ := readDigits_of_digits fun c hc => isDigit_iff.mp (hdigits c hc)
  simp only [valueOfDigit_eq_zero_iff] at hzero
  refine ⟨first * 10 ^ fraction.length + n, ?_, ?_⟩
  · rw [readDigits_append, hfirst, hread]
    rfl
  · have hthousand : 10 ^ fraction.length * 10 ^ (3 - fraction.length) = 1000 := by
      rw [← pow_add, Nat.add_sub_cancel' hlength]
      norm_num
    have hpos : 0 < 10 ^ (3 - fraction.length) := by positivity
    rw [add_mul, mul_assoc, hthousand, ← hzero]
    obtain rfl | rfl : first = 0 ∨ first = 1 := by omega
    · have hsmall : n * 10 ^ (3 - fraction.length) ≤ 1000 := by
        rw [← hthousand]
        exact Nat.mul_le_mul_right _ hlt.le
      simpa using hsmall
    · constructor
      · intro h
        have hn : n * 10 ^ (3 - fraction.length) = 0 := by omega
        exact .inr ((Nat.mul_eq_zero.mp hn).resolve_right hpos.ne')
      · rintro (h | rfl)
        · omega
        · simp

lemma readDigits_zero_one {whole : Text} (h : whole = ['0'] ∨ whole = ['1']) :
    ∃ first ≤ 1, readDigits 10 whole = some first ∧ (first = 0 ↔ whole = ['0']) := by
  obtain rfl | rfl := h
  · exact ⟨0, by decide, rfl, by decide⟩
  · exact ⟨1, by decide, rfl, by decide⟩

/-- `qvalue` takes what is written as thousandths, and reads it so. -/
lemma qvalue_eq (text : Text) : qvalue text = (thousandths text).map single := by
  have hform : ∀ whole fraction : Text,
      (if (whole = ['0'] ∨ whole = ['1']) ∧ fraction.length ≤ 3 ∧ (∀ c ∈ fraction, c.isDigit = true) ∧
          (whole = ['0'] ∨ ∀ c ∈ fraction, c = '0') then some (parseF32 whole fraction) else none) =
        (if (whole = ['0'] ∨ whole = ['1']) ∧ fraction.length ≤ 3 then
          (readDigits 10 (whole ++ fraction)).bind fun n =>
            if n * 10 ^ (3 - fraction.length) ≤ 1000 then some (n * 10 ^ (3 - fraction.length)) else none
        else none).map single := by
    intro whole fraction
    by_cases hshape : (whole = ['0'] ∨ whole = ['1']) ∧ fraction.length ≤ 3
    · rw [if_pos hshape]
      obtain ⟨hwhole, hlength⟩ := hshape
      by_cases hdigits : ∀ c ∈ fraction, c.isDigit = true
      · obtain ⟨first, hone, hfirst, hzero⟩ := readDigits_zero_one hwhole
        obtain ⟨n, hread, hsmall⟩ := readDigits_fraction hfirst hdigits hlength hone
        rw [hzero] at hsmall
        rw [hread, Option.bind_some]
        by_cases hvalid : n * 10 ^ (3 - fraction.length) ≤ 1000
        · rw [if_pos ⟨hwhole, hlength, hdigits, hsmall.mp hvalid⟩, if_pos hvalid, parseF32_eq hread hlength]
          rfl
        · rw [if_neg fun h => hvalid (hsmall.mpr h.2.2.2), if_neg hvalid]
          rfl
      · push Not at hdigits
        obtain ⟨c, hc, hnot⟩ := hdigits
        have hnone : readDigits 10 (whole ++ fraction) = none := by
          refine readDigits_eq_none (List.mem_append_right _ hc) ?_
          intro d hd hlt
          exact hnot (isDigit_iff.mpr ⟨d, hlt, hd⟩)
        rw [if_neg fun h => hnot (h.2.2.1 c hc), hnone]
        rfl
    · rw [if_neg fun h => hshape ⟨h.1, h.2.1⟩, if_neg hshape]
      rfl
  rw [qvalue, thousandths]
  cases hsplit : splitOnce text ['.'] with
  | none =>
    have hplain := hform text []
    simp only [List.length_nil, List.not_mem_nil, false_implies, implies_true, or_true, and_true, Nat.zero_le] at hplain
    simpa using hplain
  | some parts => exact hform parts.1 parts.2

/-! ## Reading the header -/

lemma thousandths_le {text : Text} {t : ℕ} (h : thousandths text = some t) : t ≤ 1000 := by
  rw [thousandths] at h
  dsimp only at h
  split_ifs at h with hshape
  obtain ⟨n, -, h⟩ := Option.bind_eq_some_iff.mp h
  split_ifs at h with hle
  exact Option.some.inj h ▸ hle

lemma single_one : single 1000 = 1 := by
  have hexponent : Doubles.exponent32 1 = -23 := by
    rw [Doubles.exponent32, Int.log_one_right]
    rfl
  have hwhole : (1 : ℚ) / 2 ^ (-23 : ℤ) = ((2 ^ 23 : ℤ) : ℚ) := by norm_num
  have hone : ((1000 : ℕ) : ℚ) / 1000 = 1 := by norm_num
  rw [single, hone, Doubles.nearest32, hexponent, hwhole, Doubles.roundHalfEven_intCast]
  norm_num

/-- The weight after all parameters is that of the last one named `q`. -/
lemma foldl_paramWeight (params : List Text) (weight : Option ℚ) :
    params.foldl paramWeight weight = match (params.filterMap fun param =>
        (splitOnce param ['=']).bind fun (key, value) =>
          if lowercase (strip key) = ['q'] then some (strip value) else none).getLast? with
      | none => weight
      | some value => (thousandths value).map single := by
  induction params using List.reverseRecOn with
  | nil => rfl
  | append_singleton params param ih =>
    rw [List.foldl_append, List.foldl_cons, List.foldl_nil, ih, List.filterMap_append, paramWeight]
    cases hsplit : splitOnce param ['='] with
    | none => simp [hsplit]
    | some parts =>
      obtain ⟨key, value⟩ := parts
      by_cases hkey : lowercase (strip key) = ['q']
      · simp [hsplit, hkey, qvalue_eq]
      · simp [hsplit, hkey]

/-- The weight of an entry. -/
lemma itemWeight_eq (item : Text) :
    (item.splitOn ';').tail.foldl paramWeight (some 1) = (itemWeight item).map single := by
  rw [foldl_paramWeight, itemWeight, itemParams]
  split
  · rw [Option.map_some, single_one]
  · rfl

lemma itemWeight_le {item : Text} {t : ℕ} (h : itemWeight item = some t) : t ≤ 1000 := by
  rw [itemWeight] at h
  split at h
  · exact (Option.some.inj h).ge
  · exact thousandths_le h

lemma entries_le {accept : Text} {entry : Text × ℕ} (h : entry ∈ entries accept) : entry.2 ≤ 1000 := by
  rw [entries, List.mem_filterMap] at h
  obtain ⟨item, -, h⟩ := h
  rw [itemEntry] at h
  split_ifs at h with hname
  obtain ⟨weight, hweight, rfl⟩ := Option.map_eq_some_iff.mp h
  exact itemWeight_le hweight

/-- What is noted of an entry. -/
def AcceptWeights.note (read : AcceptWeights) (entry : Text × ℕ) : AcceptWeights :=
  if entry.1 = ['*'] then { read with star := some (single entry.2) }
  else match Encoding.parse entry.1 with
    | some encoding => { read with weights := read.weights ++ [(encoding, single entry.2)] }
    | none => read

lemma read_eq (read : AcceptWeights) (item : Text) : read.read item = (itemEntry item).elim read read.note := by
  have hname : lowercase (strip ((item.splitOn ';').headD [])) = itemName item := rfl
  rw [AcceptWeights.read, itemEntry, hname]
  by_cases hempty : itemName item = []
  · rw [if_pos hempty, if_pos hempty]
    rfl
  · rw [if_neg hempty, if_neg hempty, itemWeight_eq]
    cases itemWeight item with
    | none => rfl
    | some weight => rfl

/-- What is read of a header: the last weight of `*`, and all those of encodings. -/
lemma foldl_read (items : List Text) : items.foldl AcceptWeights.read ⟨none, []⟩ =
    ⟨((((items.filterMap itemEntry).filter fun entry => entry.1 = ['*']).map Prod.snd).getLast?).map single,
      (items.filterMap itemEntry).filterMap fun entry =>
        (Encoding.parse entry.1).map fun encoding => (encoding, single entry.2)⟩ := by
  induction items using List.reverseRecOn with
  | nil => rfl
  | append_singleton items item ih =>
    rw [List.foldl_append, List.foldl_cons, List.foldl_nil, ih, read_eq, List.filterMap_append,
      List.filterMap_cons, List.filterMap_nil]
    cases itemEntry item with
    | none => simp
    | some entry =>
      obtain ⟨name, weight⟩ := entry
      by_cases hstar : name = ['*']
      · have hparse : Encoding.parse ['*'] = none := by decide
        simp [AcceptWeights.note, hstar, hparse]
      · cases hparse : Encoding.parse name with
        | none => simp [AcceptWeights.note, hstar, hparse]
        | some encoding => simp [AcceptWeights.note, hstar, hparse]

/-- The greatest of some weights in single precision. -/
lemma max?_single {weights : List ℕ} (h : ∀ t ∈ weights, t ≤ 1000) :
    (weights.map single).max? = weights.max?.map single := by
  cases weights with
  | nil => rfl
  | cons t weights =>
    obtain ⟨ht, hweights⟩ := List.forall_mem_cons.mp h
    rw [List.map_cons, List.max?_cons', List.max?_cons', Option.map_some, Option.some.injEq]
    clear h
    induction weights generalizing t with
    | nil => rfl
    | cons s weights ih =>
      obtain ⟨hs, hweights⟩ := List.forall_mem_cons.mp hweights
      have hmax : max (single t) (single s) = single (max t s) := by
        symm
        exact single_strictMonoOn.monotoneOn.map_max ht hs
      rw [List.map_cons, List.foldl_cons, List.foldl_cons, hmax]
      exact ih (max t s) (max_le ht hs) hweights

/-- The weights read for an encoding are those of the header. -/
lemma weights_of (found : List (Text × ℕ)) (encoding : Encoding) :
    ((found.filterMap fun entry => (Encoding.parse entry.1).map fun e => (e, single entry.2)).filter
      fun (e, _) => e = encoding).map Prod.snd =
    ((found.filter fun entry => Encoding.parse entry.1 = some encoding).map Prod.snd).map single := by
  induction found with
  | nil => rfl
  | cons entry found ih =>
    cases hparse : Encoding.parse entry.1 with
    | none => simpa [hparse] using ih
    | some e =>
      by_cases he : e = encoding
      · simpa [hparse, he] using ih
      · simpa [hparse, he] using ih

lemma namedWeights_le {accept : Text} {encoding : Encoding} {t : ℕ} (h : t ∈ namedWeights accept encoding) :
    t ≤ 1000 := by
  obtain ⟨entry, hentry, rfl⟩ := List.mem_map.mp h
  exact entries_le (List.mem_filter.mp hentry).1

/-- The weight in single precision is that of the header. -/
lemma of_eq (accept : Text) (encoding : Encoding) :
    ((accept.splitOn ',').foldl AcceptWeights.read ⟨none, []⟩).of encoding = single (weight accept encoding) := by
  have hnamed : ((((accept.splitOn ',').foldl AcceptWeights.read ⟨none, []⟩).weights.filter
      fun (e, _) => e = encoding).map Prod.snd).max? = (namedWeights accept encoding).max?.map single := by
    rw [foldl_read, weights_of]
    exact max?_single fun t ht => namedWeights_le ht
  have hstar : ((accept.splitOn ',').foldl AcceptWeights.read ⟨none, []⟩).star = (starWeight accept).map single := by
    rw [foldl_read]
    rfl
  rw [AcceptWeights.of, hnamed, hstar, weight]
  cases (namedWeights accept encoding).max? with
  | some t => rfl
  | none =>
    cases starWeight accept with
    | some t => rfl
    | none => exact single_zero.symm

lemma weight_le (accept : Text) (encoding : Encoding) : weight accept encoding ≤ 1000 := by
  rw [weight]
  split
  · rename_i t ht
    exact namedWeights_le (List.max?_mem ht)
  · cases hstar : starWeight accept with
    | none => exact Nat.zero_le _
    | some t =>
      obtain ⟨entry, hentry, rfl⟩ := List.mem_map.mp (List.mem_of_getLast? hstar)
      exact entries_le (List.mem_filter.mp hentry).1

/-! ## The choice -/

/-- What is best in single precision is best by the header. -/
lemma best_single_iff (accept : Text) (prefer : List Encoding) (encoding : Encoding) :
    Best (fun e => single (weight accept e)) prefer encoding ↔ Best (weight accept) prefer encoding := by
  apply best_congr
  · intro e _
    rw [← single_zero]
    exact single_strictMonoOn.lt_iff_lt (by simp) (weight_le accept e)
  · intro e _ e' _
    exact single_strictMonoOn.lt_iff_lt (weight_le accept e) (weight_le accept e')

lemma negotiate_cases (accept : Text) (prefer : List Encoding) :
    negotiate accept prefer = none ∧ (∀ e ∈ prefer, ¬ 0 < weight accept e) ∨
      ∃ e, negotiate accept prefer = some e ∧ Best (weight accept) prefer e := by
  have hweights : (fun e => ((accept.splitOn ',').foldl AcceptWeights.read ⟨none, []⟩).of e) =
      fun e => single (weight accept e) := funext (of_eq accept)
  have hpass : negotiate accept prefer =
      (prefer.foldl (better fun e => single (weight accept e)) none).map Prod.fst := by
    rw [← hweights]
    rfl
  rw [hpass]
  obtain ⟨hnone, hzero⟩ | ⟨e, hsome, hbest⟩ := foldl_better (fun e => single (weight accept e)) prefer
  · refine .inl ⟨by rw [hnone, Option.map_none], ?_⟩
    intro e he hpos
    apply hzero e he
    rw [← single_zero]
    exact (single_strictMonoOn.lt_iff_lt (by simp) (weight_le accept e)).mpr hpos
  · exact .inr ⟨e, by rw [hsome, Option.map_some], (best_single_iff accept prefer e).mp hbest⟩

lemma negotiate_some_iff (accept : Text) (prefer : List Encoding) (e : Encoding) :
    negotiate accept prefer = some e ↔ Best (weight accept) prefer e := by
  obtain ⟨hnone, hzero⟩ | ⟨e', hsome, hbest⟩ := negotiate_cases accept prefer
  · refine iff_of_false (by simp [hnone]) ?_
    intro hbest
    exact hzero e hbest.mem hbest.pos
  · rw [hsome, Option.some.injEq]
    constructor
    · rintro rfl
      exact hbest
    · intro hbest'
      exact hbest.unique hbest'

lemma negotiate_none_iff (accept : Text) (prefer : List Encoding) :
    negotiate accept prefer = none ↔ ∀ e ∈ prefer, ¬ 0 < weight accept e := by
  obtain ⟨hnone, hzero⟩ | ⟨e, hsome, hbest⟩ := negotiate_cases accept prefer
  · exact iff_of_true hnone hzero
  · refine iff_of_false (by simp [hsome]) ?_
    intro hzero
    exact hzero e hbest.mem hbest.pos

/-- The loop of `variant` tries what it picks, in order. -/
lemma variantFrom_eq (files : Files) (root : List String) (original : FileTree.RawPath String) (location : List String)
    (accept : Text) (rounds : ℕ) (offered : List Encoding) :
    variantFrom files root original location (negotiate accept) rounds offered =
      (picks (negotiate accept) rounds offered).findSome? (attemptVariant files root original location) := by
  induction rounds generalizing offered with
  | zero => rfl
  | succ rounds ih =>
    rw [variantFrom, picks]
    cases negotiate accept offered with
    | none => rfl
    | some encoding =>
      rw [List.findSome?_cons, ← ih, attemptVariant]
      simp only [bind, Option.bind_some]
      cases contained files.toFileSystem root (withSuffix original encoding.suffix) with
      | none => rfl
      | some resolved =>
        simp only [Option.bind_some]
        cases files.canonicalize resolved with
        | none => rfl
        | some found =>
          simp only [Option.bind_some]
          split_ifs with hfile
          · rfl
          · rfl

/-- `negotiate` answers with the encoding of the greatest weight, the earliest of several, and with nothing if all
weights are zero; and the loop of `variant` tries the encodings of positive weight, each once and in the order of
preference, and has tried them all after two rounds. -/
theorem negotiate_best (accept : Text) :
    (∀ (prefer : List Encoding) (e : Encoding),
      negotiate accept prefer = some e ↔ Best (weight accept) prefer e) ∧
    (∀ prefer : List Encoding, negotiate accept prefer = none ↔ ∀ e ∈ prefer, weight accept e = 0) ∧
    ∃ tried : List Encoding, tried.Nodup ∧ (∀ e, e ∈ tried ↔ 0 < weight accept e) ∧
      tried.Pairwise (Preferred (weight accept) variants) ∧
      ∀ (files : Files) (root : List String) (original : FileTree.RawPath String) (location : List String),
        (∀ rounds, 2 ≤ rounds → variantFrom files root original location (negotiate accept) rounds variants =
          tried.findSome? (attemptVariant files root original location)) ∧
        ∀ asked : AskedTexts, asked.acceptEncoding = some accept → asked.range = none →
          variant files root original location asked.asked =
            tried.findSome? (attemptVariant files root original location) := by
  have hdistinct : variants.Nodup := by decide
  have hall : ∀ e, e ∈ variants := by
    intro e
    cases e <;> decide
  obtain ⟨hnodup, hmem, hpairwise⟩ :=
    picks_spec (negotiate_some_iff accept) (negotiate_none_iff accept) hdistinct (le_refl 2)
  have hrounds : ∀ rounds, 2 ≤ rounds →
      picks (negotiate accept) rounds variants = picks (negotiate accept) 2 variants := by
    intro rounds h
    apply picks_eq _ h (le_refl 2)
    intro offered e he
    exact ((negotiate_some_iff accept offered e).mp he).mem
  refine ⟨negotiate_some_iff accept, ?_, picks (negotiate accept) 2 variants, hnodup, ?_, hpairwise, ?_⟩
  · intro prefer
    simp only [negotiate_none_iff, Nat.not_lt, Nat.le_zero]
  · intro e
    rw [hmem]
    exact and_iff_right (hall e)
  · intro files root original location
    have hloop : ∀ rounds, 2 ≤ rounds → variantFrom files root original location (negotiate accept) rounds variants =
        (picks (negotiate accept) 2 variants).findSome? (attemptVariant files root original location) := by
      intro rounds h
      rw [variantFrom_eq, hrounds rounds h]
    refine ⟨hloop, ?_⟩
    intro asked haccept hrange
    rw [variant, AskedTexts.asked, haccept, hrange]
    exact hloop 3 (by decide)

end Oxbrook
