import Oxbrook.Limits.Address

/-!
# Addresses as Python writes them

`str` of an address of the `ipaddress` module, and that the readers of `src/limit.rs` read it back.  An IPv6 address
is written in groups of lower-case digits without leading zeros; the longest run of zero groups, if longer than one,
becomes `::`; and an address that stands for an IPv4 address ends in that one.
-/

namespace Oxbrook

/-! ## Numerals -/

/-- A number without leading zeros, in lower case. -/
def numeral (radix n : ℕ) : List UInt8 := (Nat.toDigits radix n).map fun c => UInt8.ofNat c.toNat

namespace AddrReader

/-- The byte of a digit. -/
def digitByte (d : ℕ) : UInt8 := UInt8.ofNat (Nat.digitChar d).toNat

variable {radix n : ℕ} {rest : List UInt8}

lemma digit_digitByte {d : ℕ} (hd : d < radix) (hradix : radix ≤ 16) : digit radix (digitByte d) = some d := by
  have hvalue : ∀ d : Fin 16, Numerals.valueOfDigit (Char.ofNat (digitByte d).toNat) = some d.val := by decide
  have hread := hvalue ⟨d, by omega⟩
  rw [digit, hread, Option.filter_some, if_pos (by simpa using hd)]

/-- The last digit comes off the end. -/
lemma numeral_eq (hone : 1 < radix) (n : ℕ) :
    numeral radix n = (if n < radix then [] else numeral radix (n / radix)) ++ [digitByte (n % radix)] := by
  by_cases hn : n < radix
  · rw [numeral, Nat.toDigits_of_lt_base hn, if_pos hn, Nat.mod_eq_of_lt hn]
    rfl
  · rw [numeral, Nat.toDigits_of_base_le hone (by omega), if_neg hn, List.map_append]
    rfl

lemma numeral_ne_nil (hone : 1 < radix) (n : ℕ) : numeral radix n ≠ [] := by
  rw [numeral_eq hone]
  exact List.concat_ne_nil _ _

lemma mem_numeral (hone : 1 < radix) {b : UInt8} (hb : b ∈ numeral radix n) : ∃ d < radix, b = digitByte d := by
  induction n using Nat.strongRecOn with
  | ind n ih =>
    rw [numeral_eq hone] at hb
    obtain hb | hb := List.mem_append.mp hb
    · by_cases hn : n < radix
      · rw [if_pos hn] at hb
        exact absurd hb List.not_mem_nil
      · rw [if_neg hn] at hb
        exact ih (n / radix) (Nat.div_lt_self (by omega) hone) hb
    · exact ⟨n % radix, Nat.mod_lt _ (by omega), List.mem_singleton.mp hb⟩

lemma length_numeral_le (hone : 1 < radix) {k : ℕ} (lt : n < radix ^ (k + 1)) : (numeral radix n).length ≤ k + 1 := by
  induction k generalizing n with
  | zero =>
    rw [Nat.zero_add, Nat.pow_one] at lt
    rw [numeral_eq hone, if_pos lt]
    exact le_rfl
  | succ k ih =>
    rw [numeral_eq hone]
    by_cases hn : n < radix
    · rw [if_pos hn]
      simp
    · have hquotient : n / radix < radix ^ (k + 1) := by
        rw [Nat.div_lt_iff_lt_mul (by omega), ← pow_succ]
        exact lt
      have hlength := ih hquotient
      rw [if_neg hn, List.length_append, List.length_singleton]
      omega

/-- Only zero starts with a zero. -/
lemma head_numeral (hone : 1 < radix) (hradix : radix ≤ 16) (hlong : 1 < (numeral radix n).length) :
    (numeral radix n).head? ≠ some 48 := by
  induction n using Nat.strongRecOn with
  | ind n ih =>
    by_cases hn : n < radix
    · rw [numeral_eq hone, if_pos hn] at hlong
      exact absurd hlong (by simp)
    · rw [numeral_eq hone, if_neg hn, List.head?_append_of_ne_nil _ (numeral_ne_nil hone _)]
      by_cases hq : n / radix < radix
      · have hpos : 0 < n / radix := Nat.div_pos (by omega) (by omega)
        have hzero : ∀ d : Fin 16, 0 < d.val → digitByte d ≠ 48 := by decide
        rw [numeral_eq hone, if_pos hq, Nat.mod_eq_of_lt hq]
        intro h48
        exact hzero ⟨n / radix, by omega⟩ hpos (Option.some.inj h48)
      · refine ih (n / radix) (Nat.div_lt_self (by omega) hone) ?_
        rw [numeral_eq hone, if_neg hq, List.length_append, List.length_singleton]
        have hpos := List.length_pos_iff.mpr (numeral_ne_nil hone (n / radix / radix))
        omega

lemma foldl_numeral (hone : 1 < radix) (hradix : radix ≤ 16) (n : ℕ) :
    (numeral radix n).foldl (fun v b => v * radix + (digit radix b).getD 0) 0 = n := by
  induction n using Nat.strongRecOn with
  | ind n ih =>
    have hdigit := digit_digitByte (Nat.mod_lt n (by omega)) hradix
    rw [numeral_eq hone, List.foldl_append, List.foldl_cons, List.foldl_nil, hdigit, Option.getD_some]
    by_cases hn : n < radix
    · rw [if_pos hn, List.foldl_nil, Nat.zero_mul, Nat.zero_add, Nat.mod_eq_of_lt hn]
    · rw [if_neg hn, ih (n / radix) (Nat.div_lt_self (by omega) hone), Nat.div_add_mod']

/-- The text does not go on with a digit. -/
def NoDigit (radix : ℕ) (rest : List UInt8) : Prop := ∀ b, rest.head? = some b → digit radix b = none

lemma NoDigit.takeWhile (h : NoDigit radix rest) : rest.takeWhile (fun b => (digit radix b).isSome) = [] := by
  cases rest with
  | nil => rfl
  | cons b rest =>
    have hb : digit radix b = none := h b rfl
    rw [List.takeWhile_cons_of_neg (by simp [hb])]

/-- A numeral is read as its number. -/
theorem number_numeral (hone : 1 < radix) (hradix : radix ≤ 16) {bound k : ℕ} (lt : n < bound)
    (short : n < radix ^ (k + 1)) (zeroPrefix : Bool) (hrest : NoDigit radix rest) :
    number radix bound (some (k + 1)) zeroPrefix (numeral radix n ++ rest) = some (n, rest) := by
  have hdigits : (numeral radix n ++ rest).takeWhile (fun b => (digit radix b).isSome) = numeral radix n := by
    rw [List.takeWhile_append_of_pos, hrest.takeWhile, List.append_nil]
    intro b hb
    obtain ⟨d, hd, rfl⟩ := mem_numeral hone hb
    rw [digit_digitByte hd hradix]
    rfl
  have hlength := length_numeral_le hone short
  have hlong : ¬ ∃ most ∈ some (k + 1), most < (numeral radix n).length := by
    rintro ⟨most, hmost, hlt⟩
    obtain rfl := Option.some.inj hmost
    omega
  have hzero : ¬ (! zeroPrefix && decide ((numeral radix n).head? = some 48) &&
      decide (1 < (numeral radix n).length)) = true := by
    intro hall
    simp only [Bool.and_eq_true, decide_eq_true_eq] at hall
    exact head_numeral hone hradix hall.2 hall.1.2
  simp only [number, hdigits, foldl_numeral hone hradix, if_neg (numeral_ne_nil hone n), if_neg hlong,
    if_neg (Nat.not_le.mpr lt), if_neg hzero, List.drop_left]

/-- What is left after a number goes on after its digits. -/
lemma number_rest {bound : ℕ} {maxDigits : Option ℕ} {zeroPrefix : Bool} {text rest : List UInt8} {v : ℕ}
    (h : number radix bound maxDigits zeroPrefix text = some (v, rest)) :
    rest = text.dropWhile fun b => (digit radix b).isSome := by
  simp only [number] at h
  split_ifs at h
  have hrest := (Prod.mk.inj (Option.some.inj h)).2
  have hsplit := List.takeWhile_append_dropWhile (p := fun b => (digit radix b).isSome) (l := text)
  rw [← hrest]
  nth_rewrite 2 [← hsplit]
  exact List.drop_left

end AddrReader

/-! ## Addresses of IPv4 -/

/-- `sep.join(words)`. -/
def joinWith (sep : UInt8) : List (List UInt8) → List UInt8
  | [] => []
  | [word] => word
  | word :: next :: words => word ++ sep :: joinWith sep (next :: words)

/-- `str` of an `IPv4Address`. -/
def dotted (addr : ℕ) : List UInt8 :=
  joinWith 46 ([addr / 2 ^ 24 % 256, addr / 2 ^ 16 % 256, addr / 2 ^ 8 % 256, addr % 256].map (numeral 10))

namespace AddrReader

variable {radix n : ℕ} {rest : List UInt8}

section Reading

variable {α β : Type} {x : AddrReader α} {text : List UInt8}

lemma read_bind {a : α} (f : α → AddrReader β) (h : x text = some (a, rest)) : (x >>= f) text = f a rest := by
  simp [bind, StateT.bind, h]

lemma read_bind_none (f : α → AddrReader β) (h : x text = none) : (x >>= f) text = none := by
  simp [bind, StateT.bind, h]

/-- After a separator. -/
lemma separated_cons {c : Char} {b : UInt8} {i : ℕ} {r : Option (α × List UInt8)} (hb : b.toNat = c.toNat)
    (h : x text = r) : separated c (i + 1) x (b :: text) = r := by
  have hgiven : given c (b :: text) = some ((), text) := if_pos hb
  exact (read_bind _ hgiven).trans h

end Reading

lemma given_eq_none {c : Char} {text : List UInt8} (h : ∀ b, text.head? = some b → b.toNat ≠ c.toNat) :
    given c text = none := by
  cases text with
  | nil => rfl
  | cons b text =>
    have hb : b.toNat ≠ c.toNat := h b rfl
    rw [given, if_neg hb]

lemma noDigit_cons {b : UInt8} (h : digit radix b = none) (text : List UInt8) : NoDigit radix (b :: text) := by
  intro b' hb'
  obtain rfl := Option.some.inj hb'
  exact h

/-- A part of a dotted address. -/
lemma number_part {n : ℕ} (lt : n < 256) (hrest : NoDigit 10 rest) :
    number 10 256 (some 3) false (numeral 10 n ++ rest) = some (n, rest) :=
  number_numeral (by decide) (by decide) (k := 2) lt (by omega) false hrest

theorem ipv4_dotted {addr : ℕ} (lt : addr < 2 ^ 32) (hrest : NoDigit 10 rest) :
    ipv4 (dotted addr ++ rest) = some (addr, rest) := by
  have hsum : ((addr / 2 ^ 24 % 256 * 256 + addr / 2 ^ 16 % 256) * 256 + addr / 2 ^ 8 % 256) * 256 + addr % 256 =
      addr := by omega
  have hfirst : ∀ n text, separated '.' 0 (number 10 256 (some 3) false) (numeral 10 (n % 256) ++ 46 :: text) =
      some (n % 256, 46 :: text) :=
    fun n text => number_part (Nat.mod_lt _ (by decide)) (noDigit_cons (by decide) text)
  have hnext : ∀ i n text,
      separated '.' (i + 1) (number 10 256 (some 3) false) (46 :: (numeral 10 (n % 256) ++ 46 :: text)) =
        some (n % 256, 46 :: text) := fun i n text => separated_cons rfl (hfirst n text)
  have hlast : separated '.' 3 (number 10 256 (some 3) false) (46 :: (numeral 10 (addr % 256) ++ rest)) =
      some (addr % 256, rest) := separated_cons rfl (number_part (Nat.mod_lt _ (by decide)) hrest)
  simp only [dotted, joinWith, List.map_cons, List.map_nil, List.append_assoc, List.cons_append]
  rw [ipv4, read_bind _ (hfirst _ _), read_bind _ (hnext 0 _ _), read_bind _ (hnext 1 _ _), read_bind _ hlast, hsum]
  rfl

/-- A text that does not go on with a dot after its first digits is not a dotted address. -/
lemma ipv4_eq_none {text : List UInt8}
    (h : (text.dropWhile fun b => (digit 10 b).isSome).head? ≠ some 46) : ipv4 text = none := by
  cases hfirst : number 10 256 (some 3) false text with
  | none => exact read_bind_none _ hfirst
  | some p =>
    obtain ⟨v, rest⟩ := p
    have hrest := number_rest hfirst
    have hgiven : given '.' rest = none := by
      refine given_eq_none fun b hb hdot => ?_
      rw [hrest] at hb
      have hb46 : b = 46 := UInt8.toNat_inj.mp hdot
      exact h (hb46 ▸ hb)
    have hsecond : separated '.' 1 (number 10 256 (some 3) false) rest = none := read_bind_none _ hgiven
    exact (read_bind _ hfirst).trans (read_bind_none _ hsecond)

end AddrReader

/-! ## Addresses of IPv6 -/

/-- The groups of an address, the highest first. -/
def hextets (addr : ℕ) : List ℕ := (List.range 8).map fun i => addr / 65536 ^ (7 - i) % 65536

/-- Where the loop of `_compress_hextets` stands: the longest run of zeros so far, and the one it is in. -/
structure ZeroRuns where
  bestStart : ℕ
  bestLen : ℕ
  start : Option ℕ
  len : ℕ

namespace ZeroRuns

/-- One turn. -/
def next (r : ZeroRuns) (word : List UInt8) (index : ℕ) : ZeroRuns :=
  if word = [48] then
    let len := r.len + 1
    let start := r.start.getD index
    if r.bestLen < len then { bestStart := start, bestLen := len, start := some start, len := len }
    else { r with start := some start, len := len }
  else { r with start := none, len := 0 }

def of (words : List (List UInt8)) : ZeroRuns :=
  words.zipIdx.foldl (fun r word => r.next word.1 word.2) { bestStart := 0, bestLen := 0, start := none, len := 0 }

end ZeroRuns

/-- `_compress_hextets`. -/
def compressHextets (words : List (List UInt8)) : List (List UInt8) :=
  let runs := ZeroRuns.of words
  if 1 < runs.bestLen then
    let stop := runs.bestStart + runs.bestLen
    let words := if stop = words.length then words ++ [[]] else words
    let words := words.take runs.bestStart ++ [] :: words.drop stop
    if runs.bestStart = 0 then [] :: words else words
  else words

/-- `_string_from_ip_int`. -/
def hexText (addr : ℕ) : List UInt8 := joinWith 58 (compressHextets ((hextets addr).map (numeral 16)))

/-- `str` of an address. -/
def IpAddr.str : IpAddr → List UInt8
  | .v4 addr => dotted addr.toNat
  | .v6 addr =>
    if addr >>> 32 = 0xffff then hexText (addr.toNat / 2 ^ 32) ++ 58 :: dotted (addr.toNat % 2 ^ 32)
    else hexText addr.toNat

/-! ### The longest run of zeros -/

namespace ZeroRuns

variable {r : ZeroRuns} {words : List (List UInt8)}

/-- What is known after the first `i` words. -/
structure Within (r : ZeroRuns) (words : List (List UInt8)) (i : ℕ) : Prop where
  best : r.bestStart + r.bestLen ≤ i
  zeros : ∀ j, r.bestStart ≤ j → j < r.bestStart + r.bestLen → words[j]? = some [48]
  current : ∀ s, r.start = some s → s + r.len = i
  running : ∀ s j, r.start = some s → s ≤ j → j < i → words[j]? = some [48]
  idle : r.start = none → r.len = 0

lemma Within.next {i : ℕ} {word : List UInt8} (h : r.Within words i) (hword : words[i]? = some word) :
    (r.next word i).Within words (i + 1) := by
  have hbest := h.best
  by_cases hzero : word = [48]
  · subst hzero
    -- the run that the word continues or starts
    have hrun : ∃ s, r.start.getD i = s ∧ s + r.len = i ∧ ∀ j, s ≤ j → j < i + 1 → words[j]? = some [48] := by
      cases hstart : r.start with
      | none =>
        refine ⟨i, rfl, by rw [h.idle hstart]; rfl, fun j hj hlt => ?_⟩
        obtain rfl : j = i := by omega
        exact hword
      | some s =>
        refine ⟨s, rfl, h.current s hstart, fun j hj hlt => ?_⟩
        obtain hlt | rfl : j < i ∨ j = i := by omega
        · exact h.running s j hstart hj hlt
        · exact hword
    obtain ⟨s, hs, hlen, hzeros⟩ := hrun
    simp only [ZeroRuns.next, if_true, hs]
    split
    · constructor
      · change s + (r.len + 1) ≤ i + 1
        omega
      · intro j hj hlt
        exact hzeros j hj (by change j < s + (r.len + 1) at hlt; omega)
      · intro s' hs'
        obtain rfl := Option.some.inj hs'
        change s + (r.len + 1) = i + 1
        omega
      · intro s' j hs' hj hlt
        obtain rfl := Option.some.inj hs'
        exact hzeros j hj hlt
      · exact nofun
    · constructor
      · exact hbest.trans (Nat.le_succ i)
      · exact h.zeros
      · intro s' hs'
        obtain rfl := Option.some.inj hs'
        change s + (r.len + 1) = i + 1
        omega
      · intro s' j hs' hj hlt
        obtain rfl := Option.some.inj hs'
        exact hzeros j hj hlt
      · exact nofun
  · rw [ZeroRuns.next, if_neg hzero]
    exact ⟨hbest.trans (Nat.le_succ i), h.zeros, nofun, nofun, fun _ => rfl⟩

lemma within_of (words : List (List UInt8)) : (of words).Within words words.length := by
  suffices h : ∀ (rest : List (List UInt8)) (i : ℕ) (r : ZeroRuns), words.drop i = rest → i ≤ words.length →
      r.Within words i →
        ((rest.zipIdx i).foldl (fun r word => r.next word.1 word.2) r).Within words words.length from
    h words 0 _ List.drop_zero (Nat.zero_le _) ⟨Nat.le_refl _, nofun, nofun, nofun, fun _ => rfl⟩
  intro rest
  induction rest with
  | nil =>
    intro i r hdrop hle hr
    have hlength := List.drop_eq_nil_iff.mp hdrop
    obtain rfl : i = words.length := by omega
    exact hr
  | cons word rest ih =>
    intro i r hdrop hle hr
    have hword : words[i]? = some word := by
      rw [← List.head?_drop, hdrop]
      rfl
    have hrest : words.drop (i + 1) = rest := by
      rw [← List.tail_drop, hdrop]
      rfl
    have hlt := (List.getElem?_eq_some_iff.mp hword).1
    rw [List.zipIdx_cons, List.foldl_cons]
    exact ih (i + 1) _ hrest hlt (hr.next hword)

end ZeroRuns

/-! ### What is written -/

section Written

variable {sep : UInt8} {xs ys : List (List UInt8)}

lemma joinWith_cons (x : List UInt8) (h : xs ≠ []) : joinWith sep (x :: xs) = x ++ sep :: joinWith sep xs := by
  cases xs with
  | nil => exact absurd rfl h
  | cons y xs => rfl

lemma joinWith_append (hx : xs ≠ []) (hy : ys ≠ []) :
    joinWith sep (xs ++ ys) = joinWith sep xs ++ sep :: joinWith sep ys := by
  induction xs with
  | nil => exact absurd rfl hx
  | cons x xs ih =>
    rw [List.cons_append]
    obtain rfl | hne := eq_or_ne xs []
    · rw [List.nil_append, joinWith_cons x hy]
      rfl
    · rw [joinWith_cons x (List.append_ne_nil_of_left_ne_nil hne ys), ih hne, joinWith_cons x hne,
        List.append_assoc]
      rfl

/-- Groups from position `i` on: each but the first of all has a colon before it. -/
def groupText (i : ℕ) : List ℕ → List UInt8
  | [] => []
  | h :: hs => (if i = 0 then [] else [58]) ++ numeral 16 h ++ groupText (i + 1) hs

lemma groupText_succ (i : ℕ) {hs : List ℕ} (h : hs ≠ []) :
    groupText (i + 1) hs = 58 :: joinWith 58 (hs.map (numeral 16)) := by
  induction hs generalizing i with
  | nil => exact absurd rfl h
  | cons h hs ih =>
    rw [groupText, if_neg (Nat.succ_ne_zero i), List.singleton_append, List.cons_append, List.map_cons]
    obtain rfl | hne := eq_or_ne hs []
    · rw [groupText, List.append_nil]
      rfl
    · rw [ih (i + 1) hne, joinWith_cons _ (by simpa using hne)]

lemma joinWith_numerals (hs : List ℕ) : joinWith 58 (hs.map (numeral 16)) = groupText 0 hs := by
  cases hs with
  | nil => rfl
  | cons h hs =>
    rw [groupText, if_pos rfl, List.nil_append, List.map_cons]
    obtain rfl | hne := eq_or_ne hs []
    · rw [groupText, List.append_nil]
      rfl
    · rw [groupText_succ 0 hne, joinWith_cons _ (by simpa using hne)]

lemma eq_zero_of_numeral {n : ℕ} (h : numeral 16 n = [48]) : n = 0 := by
  have hfold := AddrReader.foldl_numeral (by decide) (Nat.le_refl 16) n
  rw [h] at hfold
  exact hfold.symm

/-- The groups are written out, or with `::` for some of them that are zero. -/
lemma hexText_cases (hs : List ℕ) :
    joinWith 58 (compressHextets (hs.map (numeral 16))) = groupText 0 hs ∨
      ∃ head tail n, hs = head ++ List.replicate (n + 2) 0 ++ tail ∧
        joinWith 58 (compressHextets (hs.map (numeral 16))) = groupText 0 head ++ 58 :: 58 :: groupText 0 tail := by
  have hwithin := ZeroRuns.within_of (hs.map (numeral 16))
  by_cases hlong : 1 < (ZeroRuns.of (hs.map (numeral 16))).bestLen
  · refine .inr ?_
    obtain ⟨n, hn⟩ : ∃ n, (ZeroRuns.of (hs.map (numeral 16))).bestLen = n + 2 := Nat.exists_eq_add_of_le' hlong
    obtain ⟨s, hs'⟩ : ∃ s, (ZeroRuns.of (hs.map (numeral 16))).bestStart = s := ⟨_, rfl⟩
    have hend : s + (n + 2) ≤ hs.length := by
      have hbest := hwithin.best
      rw [hn, hs', List.length_map] at hbest
      exact hbest
    have hzeros : (hs.drop s).take (n + 2) = List.replicate (n + 2) 0 := by
      refine List.eq_replicate_iff.mpr ⟨by rw [List.length_take, List.length_drop]; omega, ?_⟩
      intro h hmem
      obtain ⟨j, hj⟩ := List.mem_iff_getElem?.mp hmem
      have hlt : j < n + 2 := by
        have hlength := (List.getElem?_eq_some_iff.mp hj).1
        rw [List.length_take] at hlength
        omega
      rw [List.getElem?_take_of_lt hlt, List.getElem?_drop] at hj
      have hzero := hwithin.zeros (s + j) (by omega) (by rw [hs', hn]; omega)
      rw [List.getElem?_map, hj] at hzero
      exact eq_zero_of_numeral (Option.some.inj hzero)
    have hsplit : hs = hs.take s ++ List.replicate (n + 2) 0 ++ hs.drop (s + (n + 2)) := by
      rw [← hzeros, ← List.drop_drop, List.append_assoc, List.take_append_drop, List.take_append_drop]
    refine ⟨hs.take s, hs.drop (s + (n + 2)), n, hsplit, ?_⟩
    have hhead : hs.take s = [] ↔ s = 0 := by
      rw [List.take_eq_nil_iff]
      constructor
      · rintro (h | h)
        · exact h
        · rw [h] at hend
          exact absurd hend (by simp)
      · exact .inl
    have htail : hs.drop (s + (n + 2)) = [] ↔ s + (n + 2) = hs.length := by
      rw [List.drop_eq_nil_iff]
      omega
    have hcompress : compressHextets (hs.map (numeral 16)) =
        (if s = 0 then [[]] else (hs.take s).map (numeral 16)) ++ [] ::
          if s + (n + 2) = hs.length then [[]] else (hs.drop (s + (n + 2))).map (numeral 16) := by
      have hwords : (hs.map (numeral 16)).take s = (hs.take s).map (numeral 16) := List.map_take.symm
      have hrest : (if s + (n + 2) = hs.length then hs.map (numeral 16) ++ [[]] else hs.map (numeral 16)).take s =
          (hs.take s).map (numeral 16) ∧
          (if s + (n + 2) = hs.length then hs.map (numeral 16) ++ [[]] else hs.map (numeral 16)).drop (s + (n + 2)) =
            if s + (n + 2) = hs.length then [[]] else (hs.drop (s + (n + 2))).map (numeral 16) := by
        by_cases hfull : s + (n + 2) = hs.length
        · rw [if_pos hfull, if_pos hfull, List.take_append_of_le_length (by rw [List.length_map]; omega), hwords]
          exact ⟨rfl, List.drop_left' (by rw [List.length_map, hfull])⟩
        · rw [if_neg hfull, if_neg hfull, hwords]
          exact ⟨rfl, List.map_drop.symm⟩
      simp only [compressHextets, hn, hs', List.length_map, hrest.1, hrest.2]
      rw [if_pos (by omega)]
      by_cases hzero : s = 0
      · rw [if_pos hzero, if_pos hzero, hhead.mpr hzero]
        rfl
      · rw [if_neg hzero, if_neg hzero]
    -- an empty word stands for the groups of an empty side
    have hside : ∀ (p : Prop) [Decidable p] (side : List ℕ), (side = [] ↔ p) →
        (if p then [[]] else side.map (numeral 16)) ≠ [] ∧
          joinWith 58 (if p then [[]] else side.map (numeral 16)) = groupText 0 side := by
      intro p _ side hside
      by_cases hp : p
      · rw [if_pos hp, hside.mpr hp]
        exact ⟨by simp, rfl⟩
      · rw [if_neg hp, joinWith_numerals]
        exact ⟨by simpa using mt hside.mp hp, rfl⟩
    obtain ⟨hheadNe, hheadText⟩ := hside _ _ hhead
    obtain ⟨htailNe, htailText⟩ := hside _ _ htail
    rw [hcompress, joinWith_append hheadNe (List.cons_ne_nil _ _), joinWith_cons _ htailNe, hheadText, htailText]
    rfl
  · refine .inl ?_
    rw [compressHextets, if_neg hlong, joinWith_numerals]

end Written

/-! ### What is read -/

namespace AddrReader

variable {rest : List UInt8}

/-- The text does not go on as an address would. -/
def Ends (rest : List UInt8) : Prop := ∀ b, rest.head? = some b → digit 16 b = none ∧ b ≠ 46 ∧ b ≠ 58

lemma digit_ten {b : UInt8} (h : digit 16 b = none) : digit 10 b = none := by
  have hall : ∀ b : BitVec 8, digit 16 ⟨b⟩ = none → digit 10 ⟨b⟩ = none := by decide +kernel
  exact hall b.toBitVec h

/-- Digits that a dot does not follow. -/
lemma ipv4_digits {digits more : List UInt8} (hdigits : ∀ b ∈ digits, b ≠ 46) (hmore : NoDigit 16 more)
    (hdot : more.head? ≠ some 46) : ipv4 (digits ++ more) = none := by
  apply ipv4_eq_none
  induction digits with
  | nil =>
    cases more with
    | nil => exact nofun
    | cons b more =>
      have hb := digit_ten (hmore b rfl)
      rwa [List.nil_append, List.dropWhile_cons_of_neg (by simp [hb])]
  | cons b digits ih =>
    rw [List.cons_append, List.dropWhile_cons]
    split
    · exact ih fun c hc => hdigits c (List.mem_cons_of_mem _ hc)
    · intro hb
      exact hdigits b (List.mem_cons_self ..) (Option.some.inj hb)

lemma ipv4_numeral {n : ℕ} {more : List UInt8} (hmore : NoDigit 16 more) (hdot : more.head? ≠ some 46) :
    ipv4 (numeral 16 n ++ more) = none := by
  refine ipv4_digits (fun b hb => ?_) hmore hdot
  obtain ⟨d, hd, rfl⟩ := mem_numeral (by decide) hb
  have hall : ∀ d : Fin 16, digitByte d ≠ 46 := by decide
  exact hall ⟨d, hd⟩

/-- No group starts here, at position `j`. -/
def Stops (j : ℕ) (rest : List UInt8) : Prop :=
  separated ':' j ipv4 rest = none ∧ separated ':' j (number 16 65536 (some 4) true) rest = none

/-- No number starts where there is no digit. -/
lemma number_eq_none {radix bound : ℕ} {maxDigits : Option ℕ} {zeroPrefix : Bool} (h : NoDigit radix rest) :
    number radix bound maxDigits zeroPrefix rest = none := by
  simp only [number, h.takeWhile, if_true]

lemma stops_of_noDigit {item : List UInt8} (hdigit : NoDigit 16 item) (hdot : item.head? ≠ some 46) :
    ipv4 item = none ∧ number 16 65536 (some 4) true item = none :=
  ⟨ipv4_digits (List.forall_mem_nil (· ≠ 46)) hdigit hdot, number_eq_none hdigit⟩

lemma Ends.stops (h : Ends rest) (j : ℕ) : Stops j rest := by
  have hdigit : NoDigit 16 rest := fun b hb => (h b hb).1
  have hdot : rest.head? ≠ some 46 := fun hb => (h 46 hb).2.1 rfl
  have hgiven : given ':' rest = none := given_eq_none fun b hb hcolon => (h b hb).2.2 (UInt8.toNat_inj.mp hcolon)
  cases j with
  | zero => exact stops_of_noDigit hdigit hdot
  | succ j => exact ⟨read_bind_none _ hgiven, read_bind_none _ hgiven⟩

/-- Before `::` no group starts. -/
lemma stops_colons (j : ℕ) (text : List UInt8) : Stops j (58 :: 58 :: text) := by
  have hcolon : ∀ text, NoDigit 16 (58 :: text) := fun text => noDigit_cons (by decide) text
  cases j with
  | zero => exact stops_of_noDigit (hcolon _) (by simp)
  | succ j =>
    obtain ⟨hv4, hnumber⟩ := stops_of_noDigit (hcolon text) (by simp)
    exact ⟨separated_cons rfl hv4, separated_cons rfl hnumber⟩

lemma separated_numeral {i n : ℕ} (lt : n < 65536) {more : List UInt8} (hmore : NoDigit 16 more) :
    separated ':' i (number 16 65536 (some 4) true) ((if i = 0 then [] else [58]) ++ numeral 16 n ++ more) =
      some (n, more) := by
  have hnumber : number 16 65536 (some 4) true (numeral 16 n ++ more) = some (n, more) :=
    number_numeral (by decide) (by decide) (k := 3) lt lt true hmore
  cases i with
  | zero => exact hnumber
  | succ i => exact separated_cons rfl hnumber

lemma separated_ipv4_numeral {i n : ℕ} {more : List UInt8} (hmore : NoDigit 16 more) (hdot : more.head? ≠ some 46) :
    separated ':' i ipv4 ((if i = 0 then [] else [58]) ++ numeral 16 n ++ more) = none := by
  cases i with
  | zero => exact ipv4_numeral hmore hdot
  | succ i => exact separated_cons rfl (ipv4_numeral hmore hdot)

/-- After a group comes another, or what is after all of them. -/
lemma noDigit_groupText (i : ℕ) (hs : List ℕ) (hrest : NoDigit 16 rest) (hdot : rest.head? ≠ some 46) :
    NoDigit 16 (groupText (i + 1) hs ++ rest) ∧ (groupText (i + 1) hs ++ rest).head? ≠ some 46 := by
  cases hs with
  | nil => exact ⟨hrest, hdot⟩
  | cons h hs => exact ⟨noDigit_cons (by decide) _, by simp [groupText]⟩

/-- Groups are read as far as there are any. -/
lemma groups_groupText (limit : ℕ) {left : ℕ} {i : ℕ} {hs : List ℕ} (small : ∀ h ∈ hs, h < 65536) (fits : hs.length ≤ left)
    (stops : hs.length < left → Stops (i + hs.length) rest) (hrest : NoDigit 16 rest)
    (hdot : rest.head? ≠ some 46) : groups limit left i (groupText i hs ++ rest) = (hs, false, rest) := by
  induction hs generalizing left i with
  | nil =>
    cases left with
    | zero => rfl
    | succ left =>
      obtain ⟨hv4, hnumber⟩ := stops (Nat.succ_pos left)
      rw [List.length_nil, Nat.add_zero] at hv4 hnumber
      simp only [groupText, List.nil_append, groups, hv4, hnumber, ite_self]
  | cons h hs ih =>
    cases left with
    | zero => exact absurd fits (by simp)
    | succ left =>
      obtain ⟨hmore, hmoreDot⟩ := noDigit_groupText i hs hrest hdot
      have hread : separated ':' i (number 16 65536 (some 4) true) _ = _ :=
        separated_numeral (i := i) (small h (List.mem_cons_self ..)) hmore
      have hv4 : separated ':' i ipv4 _ = _ := separated_ipv4_numeral (i := i) (n := h) hmore hmoreDot
      have hgroups := ih (i := i + 1) (fun g hg => small g (List.mem_cons_of_mem _ hg))
        (Nat.le_of_succ_le_succ fits) (fun hlt => by
          have hstops := stops (Nat.succ_lt_succ hlt)
          have hindex : i + (h :: hs).length = i + 1 + hs.length := by
            rw [List.length_cons]
            omega
          rwa [hindex] at hstops)
      rw [groupText, List.append_assoc, groups, hv4, hread, ite_self]
      simp only [hgroups]

/-- All eight groups. -/
lemma ipv6_groupText {hs : List ℕ} (small : ∀ h ∈ hs, h < 65536) (eight : hs.length = 8) (hrest : Ends rest) :
    ipv6 (groupText 0 hs ++ rest) = some (hs.foldl (fun v g => v * 65536 + g) 0, rest) := by
  have hgroups := groups_groupText 8 (i := 0) small eight.le (fun h => by omega)
    (fun b hb => (hrest b hb).1) (fun hb => (hrest 46 hb).2.1 rfl)
  simp only [ipv6, hgroups, if_pos eight]

/-- Groups on both sides of `::`. -/
lemma ipv6_colons {head tail : List ℕ} {embedded : Bool} {text : List UInt8} (small : ∀ h ∈ head, h < 65536)
    (short : head.length < 8)
    (htail : groups (8 - (head.length + 1)) (8 - (head.length + 1)) 0 text = (tail, embedded, rest)) :
    ipv6 (groupText 0 head ++ 58 :: 58 :: text) =
      some ((head ++ List.replicate (8 - tail.length - head.length) 0 ++ tail).foldl
        (fun v g => v * 65536 + g) 0, rest) := by
  have hgroups := groups_groupText 8 (i := 0) small short.le
    (fun _ => stops_colons _ text) (noDigit_cons (by decide) _) (by simp)
  have hgiven : ∀ text, given ':' (58 :: text) = some ((), text) := fun _ => rfl
  simp only [ipv6, hgroups, if_neg short.ne, Bool.false_eq_true, if_false, hgiven, Option.bind_eq_bind,
    Option.bind_some, htail]

end AddrReader

/-! ### Round trip -/

lemma length_hextets (addr : ℕ) : (hextets addr).length = 8 := by
  rw [hextets, List.length_map, List.length_range]

lemma hextets_lt {addr h : ℕ} (hh : h ∈ hextets addr) : h < 65536 := by
  obtain ⟨i, -, rfl⟩ := List.mem_map.mp hh
  exact Nat.mod_lt _ (by decide)

lemma foldl_hextets {addr : ℕ} (lt : addr < 2 ^ 128) : (hextets addr).foldl (fun v g => v * 65536 + g) 0 = addr := by
  have hread : ∀ n ≤ 8, ((List.range n).map fun i => addr / 65536 ^ (7 - i) % 65536).foldl
      (fun v g => v * 65536 + g) 0 = addr / 65536 ^ (8 - n) := by
    intro n hn
    induction n with
    | zero => exact (Nat.div_eq_of_lt (by simpa using lt)).symm
    | succ n ih =>
      have hsub : 8 - n = 7 - n + 1 := by omega
      have hnext : 8 - (n + 1) = 7 - n := by omega
      rw [List.range_succ, List.map_append, List.map_singleton, List.foldl_append, List.foldl_cons, List.foldl_nil,
        ih (Nat.le_of_succ_le hn), hsub, hnext, pow_succ, ← Nat.div_div_eq_div_mul]
      exact Nat.div_add_mod' _ _
  rw [hextets, hread 8 le_rfl, Nat.sub_self, pow_zero, Nat.div_one]

namespace AddrReader

variable {rest : List UInt8}

lemma Ends.noDigit (h : Ends rest) : NoDigit 16 rest := fun b hb => (h b hb).1

lemma Ends.head_ne (h : Ends rest) : rest.head? ≠ some 46 := fun hb => (h 46 hb).2.1 rfl

/-- Groups are not a dotted address. -/
lemma ipv4_groupText (hs : List ℕ) (hrest : NoDigit 16 rest) (hdot : rest.head? ≠ some 46) :
    ipv4 (groupText 0 hs ++ rest) = none := by
  cases hs with
  | nil => exact (stops_of_noDigit hrest hdot).1
  | cons h hs =>
    obtain ⟨hmore, hmoreDot⟩ := noDigit_groupText 0 hs hrest hdot
    rw [groupText, if_pos rfl, List.nil_append, List.append_assoc]
    exact ipv4_numeral hmore hmoreDot

lemma ipv6_hexText {addr : ℕ} (lt : addr < 2 ^ 128) (hrest : Ends rest) :
    ipv6 (hexText addr ++ rest) = some (addr, rest) ∧ ipv4 (hexText addr ++ rest) = none := by
  have hsmall : ∀ h ∈ hextets addr, h < 65536 := fun h => hextets_lt
  obtain htext | ⟨head, tail, n, hsplit, htext⟩ := hexText_cases (hextets addr)
  · rw [hexText, htext]
    refine ⟨?_, ipv4_groupText _ hrest.noDigit hrest.head_ne⟩
    rw [ipv6_groupText hsmall (length_hextets addr) hrest, foldl_hextets lt]
  · have hlength := length_hextets addr
    rw [hsplit, List.length_append, List.length_append, List.length_replicate] at hlength
    have hhead : ∀ h ∈ head, h < 65536 := by
      intro h hh
      refine hsmall h ?_
      rw [hsplit]
      simp [hh]
    have htail : ∀ h ∈ tail, h < 65536 := by
      intro h hh
      refine hsmall h ?_
      rw [hsplit]
      simp [hh]
    have hgroups := groups_groupText (8 - (head.length + 1)) (i := 0) htail
      (show tail.length ≤ 8 - (head.length + 1) by omega) (fun _ => hrest.stops _) hrest.noDigit hrest.head_ne
    have hzeros : 8 - tail.length - head.length = n + 2 := by omega
    rw [hexText, htext, List.append_assoc, List.cons_append, List.cons_append]
    refine ⟨?_, ipv4_groupText _ (noDigit_cons (by decide) _) (by simp)⟩
    rw [ipv6_colons hhead (by omega) hgroups, hzeros, ← hsplit, foldl_hextets lt]

/-- A dotted address after `::ffff:`. -/
lemma ipv6_mapped {addr : ℕ} (lt : addr < 2 ^ 32) (hrest : Ends rest) :
    ipv6 (hexText 0xffff ++ 58 :: (dotted addr ++ rest)) = some (0xffff * 2 ^ 32 + addr, rest) ∧
      ipv4 (hexText 0xffff ++ 58 :: (dotted addr ++ rest)) = none := by
  have htext : hexText 0xffff = groupText 0 [] ++ 58 :: 58 :: numeral 16 65535 := by decide +kernel
  have hcolon : NoDigit 16 (58 :: (dotted addr ++ rest)) := noDigit_cons (by decide) _
  have hnumber : number 16 65536 (some 4) true (numeral 16 65535 ++ 58 :: (dotted addr ++ rest)) =
      some (65535, 58 :: (dotted addr ++ rest)) :=
    number_numeral (by decide) (by decide) (k := 3) (by decide) (by decide) true hcolon
  have hfirst : separated ':' 0 (number 16 65536 (some 4) true)
      (numeral 16 65535 ++ 58 :: (dotted addr ++ rest)) = some (65535, 58 :: (dotted addr ++ rest)) := hnumber
  have hnot : separated ':' 0 ipv4 (numeral 16 65535 ++ 58 :: (dotted addr ++ rest)) = none :=
    ipv4_numeral hcolon (by simp)
  have hdotted : separated ':' 1 ipv4 (58 :: (dotted addr ++ rest)) = some (addr, rest) :=
    separated_cons rfl (ipv4_dotted lt fun b hb => digit_ten (hrest b hb).1)
  have hgroups : groups (8 - (([] : List ℕ).length + 1)) (8 - (([] : List ℕ).length + 1)) 0
      (numeral 16 65535 ++ 58 :: (dotted addr ++ rest)) = ([65535, addr / 65536, addr % 65536], true, rest) := by
    change groups 7 7 0 _ = _
    rw [groups, hnot, hfirst, ite_self]
    simp only [groups, hdotted, if_pos (show 0 + 1 + 1 < 7 by decide)]
  rw [htext, List.append_assoc, List.cons_append, List.cons_append]
  refine ⟨?_, ipv4_groupText _ (noDigit_cons (by decide) _) (by simp)⟩
  rw [ipv6_colons (by simp) (by simp) hgroups]
  have hsum : (65535 * 65536 + addr / 65536) * 65536 + addr % 65536 = 0xffff * 2 ^ 32 + addr := by omega
  simp only [List.length_cons, List.length_nil, List.replicate, List.nil_append, List.cons_append, List.foldl_cons,
    List.foldl_nil, Nat.zero_mul, Nat.zero_add, hsum]

/-- **What Python writes is read back.** -/
theorem ipAddr_str (ip : IpAddr) (hrest : Ends rest) : ipAddr (ip.str ++ rest) = some (ip, rest) := by
  cases ip with
  | v4 addr =>
    have hread : ipv4 (dotted addr.toNat ++ rest) = some (addr.toNat, rest) :=
      ipv4_dotted addr.isLt fun b hb => digit_ten (hrest b hb).1
    simp only [IpAddr.str, ipAddr, StateT.run, hread, Option.map_some, Option.some_or, BitVec.ofNat_toNat, BitVec.setWidth_eq]
  | v6 addr =>
    have hread : ipv6 (IpAddr.str (.v6 addr) ++ rest) = some (addr.toNat, rest) ∧
        ipv4 (IpAddr.str (.v6 addr) ++ rest) = none := by
      simp only [IpAddr.str]
      split
      · rename_i hmapped
        have hhigh : addr.toNat / 2 ^ 32 = 0xffff := by
          have hnat := congrArg BitVec.toNat hmapped
          rwa [BitVec.toNat_ushiftRight, Nat.shiftRight_eq_div_pow] at hnat
        have hlow : addr.toNat % 2 ^ 32 < 2 ^ 32 := Nat.mod_lt _ (by decide)
        have hall := ipv6_mapped hlow hrest
        have hsum : 0xffff * 2 ^ 32 + addr.toNat % 2 ^ 32 = addr.toNat := by omega
        rw [hsum] at hall
        rw [hhigh, List.append_assoc, List.cons_append]
        exact hall
      · exact ipv6_hexText addr.isLt hrest
    simp only [ipAddr, StateT.run, hread.1, hread.2, Option.map_none, Option.none_or, Option.map_some, BitVec.ofNat_toNat,
      BitVec.setWidth_eq]

/-- On its own. -/
lemma all_str (ip : IpAddr) : ipAddr.all ip.str = some ip := by
  have hread : ipAddr.run (ip.str ++ []) = some (ip, []) := ipAddr_str ip nofun
  rw [List.append_nil] at hread
  simp only [all, hread, Option.bind_some, if_true]

/-- With a zone behind it, it is not an address. -/
lemma all_str_zone (ip : IpAddr) (zone : List UInt8) : ipAddr.all (ip.str ++ 37 :: zone) = none := by
  have hends : Ends (37 :: zone) := by
    intro b hb
    obtain rfl := Option.some.inj hb
    decide
  have hread : ipAddr.run (ip.str ++ 37 :: zone) = some (ip, 37 :: zone) := ipAddr_str ip hends
  simp only [all, hread, Option.bind_some, List.cons_ne_nil, if_false]

end AddrReader

-- The longest run of zeros is left out, the first of two as long; a single zero is written.
example : (IpAddr.v6 0x20010db8000000010000000000000001).str = ascii "2001:db8:0:1::1" := by decide +kernel

example : (IpAddr.v6 0xffff01020304).str = ascii "::ffff:1.2.3.4" := by decide +kernel

end Oxbrook
