import Oxbrook.Routing.Coerce

/-!
# Building parameters in Python

The worker builds Python objects from coerced parameters: `uuid.UUID`, `date.fromisoformat` and
`datetime.fromisoformat` are called on the canonical texts, with no handling of what they may raise.
A canonical UUID never makes its constructor raise.  A date does when its year is before 1, and a date
and time also when its offset from UTC is a day or more: the `time` crate reads such values, and
Python has no objects for them.

Of the constructors the canonical forms are defined here, and the rules by which they refuse a text;
what they do with a text of another form they accept (a week date, say) is a parameter, since none is
ever printed.
-/

namespace Oxbrook

open Numerals

/-! ## Python's constructors -/

/-- `datetime.date`. -/
structure PyDate where
  year : ℤ
  month : ℕ
  day : ℕ
  deriving DecidableEq

/-- `datetime.datetime`, with the offset of its time zone in minutes. -/
structure PyDateTime where
  date : PyDate
  hour : ℕ
  minute : ℕ
  second : ℕ
  microsecond : ℕ
  offset : Option ℤ
  deriving DecidableEq

/-- What the constructors do with texts of other forms than those defined here. -/
structure OtherForms where
  int : List Char → Option ℕ
  date : List Char → Option PyDate
  dateTime : List Char → Option PyDateTime

/-- `datetime.date(year, month, day)`. -/
def pyDate (year : ℤ) (month day : ℕ) : Option PyDate :=
  if 1 ≤ year ∧ year ≤ 9999 ∧ 1 ≤ month ∧ month ≤ 12 ∧ 1 ≤ day ∧ day ≤ daysInMonth year month then
    some ⟨year, month, day⟩
  else none

/-- `str.replace(pattern, "")`. -/
def removed (pattern : List Char) : List Char → List Char
  | [] => []
  | c :: text =>
    if pattern.isPrefixOf (c :: text) then removed pattern (text.drop (pattern.length - 1))
    else c :: removed pattern text
  termination_by text => text.length

/-- `str.strip(chars)`. -/
def stripped (chars text : List Char) : List Char :=
  ((text.dropWhile fun c => decide (c ∈ chars)).reverse.dropWhile fun c =>
    decide (c ∈ chars)).reverse

/-- `uuid.UUID(hex)`. -/
def makeUuid (other : OtherForms) (text : List Char) : Option ℕ :=
  let hex := removed ['u', 'u', 'i', 'd', ':'] (removed ['u', 'r', 'n', ':'] text)
  let hex := (stripped ['{', '}'] hex).filter fun c => decide (c ≠ '-')
  if hex.length ≠ 32 then none
  else (((readDigits 16 hex).or (other.int hex)).filter fun n => decide (n < 2 ^ 128))

/-- `datetime.date.fromisoformat(text)`. -/
def makeDate (other : OtherForms) (text : List Char) : Option PyDate :=
  match text with
  | [y₁, y₂, y₃, y₄, '-', m₁, m₂, '-', d₁, d₂] => do
    let year ← readDigits 10 [y₁, y₂, y₃, y₄]
    let month ← readDigits 10 [m₁, m₂]
    let day ← readDigits 10 [d₁, d₂]
    pyDate year month day
  | _ => if text.length ∈ [7, 8, 10] then other.date text else none

/-- The time zone of an ISO 8601 text, in minutes: outside a day either way it raises. -/
def makeOffset (sign : Char) (hours minutes : ℕ) : Option ℤ :=
  if hours < 24 ∧ minutes < 60 then
    some (if sign = '-' then -(hours * 60 + minutes) else hours * 60 + minutes)
  else none

/-- The end of `datetime.datetime.fromisoformat(text)`: the time zone, if there is one. -/
def makeZoned (other : OtherForms) (text : List Char) (build : Option ℤ → PyDateTime)
    (zone : List Char) : Option PyDateTime :=
  match zone with
  | [] => some (build none)
  | [sign, h₁, h₂, ':', m₁, m₂] =>
    if sign = '+' ∨ sign = '-' then do
      let hours ← readDigits 10 [h₁, h₂]
      let minutes ← readDigits 10 [m₁, m₂]
      let offset ← makeOffset sign hours minutes
      some (build (some offset))
    else other.dateTime text
  | _ => other.dateTime text

/-- `datetime.datetime.fromisoformat(text)`.  A fraction of a second would stand between the seconds and the zone. -/
def makeDateTime (other : OtherForms) (text : List Char) : Option PyDateTime :=
  match text with
  | y₁ :: y₂ :: y₃ :: y₄ :: '-' :: m₁ :: m₂ :: '-' :: d₁ :: d₂ :: 'T' ::
      h₁ :: h₂ :: ':' :: n₁ :: n₂ :: ':' :: s₁ :: s₂ :: zone => do
    let date ← makeDate other [y₁, y₂, y₃, y₄, '-', m₁, m₂, '-', d₁, d₂]
    let hour ← readDigits 10 [h₁, h₂]
    let minute ← readDigits 10 [n₁, n₂]
    let second ← readDigits 10 [s₁, s₂]
    if hour < 24 ∧ minute < 60 ∧ second < 60 then
      makeZoned other text (fun offset => ⟨date, hour, minute, second, 0, offset⟩) zone
    else other.dateTime text
  -- no form of it begins with the sign of a year
  | '-' :: _ => none
  | _ => other.dateTime text

/-! ## The worker -/

/-- A Python object a parameter becomes. -/
inductive PyValue (F : Type*)
  | str (value : String)
  | int (value : ℤ)
  | float (value : F)
  | bool (value : Bool)
  | uuid (value : ℕ)
  | date (value : PyDate)
  | dateTime (value : PyDateTime)
  | list (items : List (PyValue F))
  | none

variable {F : Type*}

/-- `to_python`; `none` is a constructor that raised. -/
def toPython (other : OtherForms) : ParamValue F → Option (PyValue F)
  | .str value => some (.str value)
  | .int value => some (.int value)
  | .float value => some (.float value)
  | .bool value => some (.bool value)
  | .uuid text => (makeUuid other text.toList).map .uuid
  | .date text => (makeDate other text.toList).map .date
  | .dateTime text => (makeDateTime other text.toList).map .dateTime
  | .list items => (items.mapM fun item => toPython other item).map .list
  | .null => some .none
  | .omit => some .none

/-! ## Canonical texts -/

section Canonical

variable {n : ℕ} (other : OtherForms)

/-- A number of two digits. -/
lemma padded_two (h : n < 100) :
    ∃ a b, padded 10 2 n = [a, b] ∧ readDigits 10 [a, b] = some n := by
  have hlength : (padded 10 2 n).length = 2 := padded_length (by decide) h
  obtain ⟨a, b, hab⟩ := List.length_eq_two.mp hlength
  refine ⟨a, b, hab, ?_⟩
  rw [← hab]
  exact readDigits_padded (by decide) (by decide) h

/-- A number of four digits. -/
lemma padded_four (h : n < 10000) : ∃ a b c d, padded 10 4 n = [a, b, c, d] ∧
    readDigits 10 [a, b, c, d] = some n ∧ d ≠ '-' := by
  have hlength : (padded 10 4 n).length = 4 := padded_length (by decide) h
  match htext : padded 10 4 n, hlength with
  | [a, b, c, d], _ =>
    refine ⟨a, b, c, d, rfl, ?_, ?_⟩
    · rw [← htext]
      exact readDigits_padded (by decide) (by decide) h
    · rintro rfl
      have hnone : '-' ∉ padded 10 4 n := not_mem_padded (by decide) (by decide) h (by decide)
      rw [htext] at hnone
      simp at hnone

lemma Date.natAbs_lt (date : Date) : date.year.natAbs < 10000 := by
  have := date.year_ge
  have := date.year_le
  omega

lemma Date.day_lt (date : Date) : date.day < 100 := by
  have hle := date.day_le
  unfold daysInMonth at hle
  split_ifs at hle <;> omega

lemma Date.month_lt (date : Date) : date.month < 100 := by
  have := date.month_le
  omega

/-- Python has a date of every year that `time` has, from the year 1 on. -/
lemma pyDate_date (date : Date) :
    pyDate date.year date.month date.day =
      if 1 ≤ date.year then some ⟨date.year, date.month, date.day⟩ else none := by
  unfold pyDate
  by_cases hyear : 1 ≤ date.year
  · rw [if_pos hyear, if_pos ⟨hyear, date.year_le, date.month_pos, date.month_le, date.day_pos,
      date.day_le⟩]
  · rw [if_neg hyear, if_neg fun h => hyear h.1]

/-- `date.fromisoformat` on what `ISO_DATE` prints. -/
lemma makeDate_format (date : Date) : makeDate other date.format =
    if 1 ≤ date.year then some ⟨date.year, date.month, date.day⟩ else none := by
  obtain ⟨y₁, y₂, y₃, y₄, hyear, hreadYear, -⟩ := padded_four date.natAbs_lt
  obtain ⟨m₁, m₂, hmonth, hreadMonth⟩ := padded_two date.month_lt
  obtain ⟨d₁, d₂, hday, hreadDay⟩ := padded_two date.day_lt
  by_cases hneg : date.year < 0
  · have hlate : ¬ 1 ≤ date.year := by omega
    rw [if_neg hlate]
    simp [Date.format, formatYear, hneg, hyear, hmonth, hday, makeDate]
  · have hnat : (date.year.natAbs : ℤ) = date.year := by omega
    rw [← pyDate_date]
    simp [Date.format, formatYear, hneg, hyear, hmonth, hday, makeDate, hreadYear, hreadMonth,
      hreadDay, hnat]

lemma Time.bounds (time : Time) : time.hour < 100 ∧ time.minute < 100 ∧ time.second < 100 := by
  have := time.hour_lt
  have := time.minute_lt
  have := time.second_lt
  omega

/-- The date and time Python builds. -/
def PrimitiveDateTime.toPy (at_ : PrimitiveDateTime) (offset : Option ℤ) : PyDateTime :=
  ⟨⟨at_.date.year, at_.date.month, at_.date.day⟩, at_.time.hour, at_.time.minute, at_.time.second, 0,
    offset⟩

/-- A year before 0 is printed with a sign, and no text with a sign is accepted. -/
lemma makeDateTime_sign {y₁ y₂ y₃ y₄ : Char} (hy₄ : y₄ ≠ '-') (rest : List Char) :
    makeDateTime other ('-' :: y₁ :: y₂ :: y₃ :: y₄ :: rest) = none := by
  unfold makeDateTime
  split
  case h_1 h =>
    simp only [List.cons.injEq] at h
    exact absurd h.2.2.2.2.1 hy₄
  case h_2 => rfl
  case h_3 h => exact absurd rfl (h _)

/-- `datetime.fromisoformat` on a printed date and time, with what follows it. -/
lemma makeDateTime_format (at_ : PrimitiveDateTime) (zone : List Char) :
    makeDateTime other (at_.format ++ zone) =
      if 1 ≤ at_.date.year then makeZoned other (at_.format ++ zone) at_.toPy zone else none := by
  obtain ⟨y₁, y₂, y₃, y₄, hyear, -, hy₄⟩ := padded_four at_.date.natAbs_lt
  obtain ⟨m₁, m₂, hmonth, -⟩ := padded_two at_.date.month_lt
  obtain ⟨d₁, d₂, hday, -⟩ := padded_two at_.date.day_lt
  obtain ⟨hhourLt, hminuteLt, hsecondLt⟩ := at_.time.bounds
  obtain ⟨h₁, h₂, hhour, hreadHour⟩ := padded_two hhourLt
  obtain ⟨n₁, n₂, hminute, hreadMinute⟩ := padded_two hminuteLt
  obtain ⟨s₁, s₂, hsecond, hreadSecond⟩ := padded_two hsecondLt
  by_cases hneg : at_.date.year < 0
  · have hlate : ¬ 1 ≤ at_.date.year := by omega
    have hformat : at_.format ++ zone = '-' :: y₁ :: y₂ :: y₃ :: y₄ :: '-' :: m₁ :: m₂ :: '-' :: d₁ ::
        d₂ :: 'T' :: h₁ :: h₂ :: ':' :: n₁ :: n₂ :: ':' :: s₁ :: s₂ :: zone := by
      simp [PrimitiveDateTime.format, Date.format, Time.format, formatYear, hneg, hyear, hmonth, hday,
        hhour, hminute, hsecond]
    rw [if_neg hlate, hformat]
    exact makeDateTime_sign other hy₄ _
  · have hdate := makeDate_format other at_.date
    simp only [Date.format, formatYear, hneg, hyear, hmonth, hday, if_false] at hdate
    have hformat : at_.format ++ zone = y₁ :: y₂ :: y₃ :: y₄ :: '-' :: m₁ :: m₂ :: '-' :: d₁ :: d₂ ::
        'T' :: h₁ :: h₂ :: ':' :: n₁ :: n₂ :: ':' :: s₁ :: s₂ :: zone := by
      simp [PrimitiveDateTime.format, Date.format, Time.format, formatYear, hneg, hyear, hmonth, hday,
        hhour, hminute, hsecond]
    rw [hformat]
    change (do
      let date ← makeDate other [y₁, y₂, y₃, y₄, '-', m₁, m₂, '-', d₁, d₂]
      let hour ← readDigits 10 [h₁, h₂]
      let minute ← readDigits 10 [n₁, n₂]
      let second ← readDigits 10 [s₁, s₂]
      if hour < 24 ∧ minute < 60 ∧ second < 60 then
        makeZoned other _ (fun offset => ⟨date, hour, minute, second, 0, offset⟩) zone
      else other.dateTime _) = _
    rw [show makeDate other [y₁, y₂, y₃, y₄, '-', m₁, m₂, '-', d₁, d₂] = _ from hdate, hreadHour,
      hreadMinute, hreadSecond]
    have htime : at_.time.hour < 24 ∧ at_.time.minute < 60 ∧ at_.time.second < 60 :=
      ⟨at_.time.hour_lt, at_.time.minute_lt, at_.time.second_lt⟩
    by_cases hyear : 1 ≤ at_.date.year
    · simp [hyear, htime]
      rfl
    · simp [hyear]

/-- The offset from UTC in minutes. -/
def UtcOffset.inMinutes (offset : UtcOffset) : ℤ :=
  if offset.negative then -(offset.hours * 60 + offset.minutes) else offset.hours * 60 + offset.minutes

/-- The offset from UTC that `ISO_OFFSET` prints, as Python reads it. -/
lemma makeZoned_format (text : List Char) (build : Option ℤ → PyDateTime) (offset : UtcOffset) :
    makeZoned other text build offset.format =
      if offset.hours < 24 then some (build (some offset.inMinutes)) else none := by
  have hhoursLt : offset.hours < 100 := by
    have := offset.hours_le
    omega
  have hminutesLt : offset.minutes < 100 := by
    have := offset.minutes_lt
    omega
  obtain ⟨h₁, h₂, hhours, hreadHours⟩ := padded_two hhoursLt
  obtain ⟨m₁, m₂, hminutes, hreadMinutes⟩ := padded_two hminutesLt
  have hsign : (if offset.negative then '-' else '+') = '+' ∨
      (if offset.negative then '-' else '+') = '-' := by
    cases offset.negative <;> simp
  rw [UtcOffset.format, hhours, hminutes]
  simp only [List.cons_append, List.nil_append, makeZoned, hsign, if_true, hreadHours, hreadMinutes,
    Option.bind_eq_bind, Option.bind_some, makeOffset]
  by_cases hlt : offset.hours < 24
  · rw [if_pos ⟨hlt, offset.minutes_lt⟩, if_pos hlt, UtcOffset.inMinutes]
    cases offset.negative with
    | false => rfl
    | true => rfl
  · rw [if_neg fun h => hlt h.1, if_neg hlt]
    rfl

/-- Where its first character does not occur, a pattern is not removed. -/
lemma removed_of_not_mem {c : Char} {pattern text : List Char} (h : c ∉ text) :
    removed (c :: pattern) text = text := by
  induction text with
  | nil => simp [removed]
  | cons a text ih =>
    have hne : ¬ c = a := fun heq => h (heq ▸ List.mem_cons_self)
    have hrest : c ∉ text := fun hmem => h (List.mem_cons_of_mem _ hmem)
    rw [removed, ih hrest]
    simp [List.isPrefixOf, hne]

/-- A text without the characters to strip stays as it is. -/
lemma stripped_of_not_mem {chars text : List Char} (h : ∀ c ∈ text, c ∉ chars) :
    stripped chars text = text := by
  have hkeep {l : List Char} (hl : ∀ c ∈ l, c ∉ chars) :
      (l.dropWhile fun c => decide (c ∈ chars)) = l := by
    cases l with
    | nil => rfl
    | cons a l => simp [hl a List.mem_cons_self]
  unfold stripped
  rw [hkeep h, hkeep fun c hc => h c (List.mem_reverse.mp hc), List.reverse_reverse]

/-- The characters of a hyphenated UUID. -/
lemma Uuid.mem_hyphenated {uuid : Uuid} {c : Char} (h : c ∈ uuid.hyphenated) :
    c = '-' ∨ c ∈ padded 16 32 uuid.value := by
  simp only [Uuid.hyphenated, List.mem_append, List.mem_cons] at h
  rcases h with h | h | h | h | h | h | h | h | h
  · exact .inr (List.mem_of_mem_take h)
  · exact .inl h
  · exact .inr (List.mem_of_mem_drop (List.mem_of_mem_take h))
  · exact .inl h
  · exact .inr (List.mem_of_mem_drop (List.mem_of_mem_take h))
  · exact .inl h
  · exact .inr (List.mem_of_mem_drop (List.mem_of_mem_take h))
  · exact .inl h
  · exact .inr (List.mem_of_mem_drop h)

/-- Without its hyphens a UUID is its digits. -/
lemma Uuid.filter_hyphenated {uuid : Uuid} (h : '-' ∉ padded 16 32 uuid.value) :
    uuid.hyphenated.filter (fun c => decide (c ≠ '-')) = padded 16 32 uuid.value := by
  have hkeep {l : List Char} (hl : ∀ c ∈ l, c ∈ padded 16 32 uuid.value) :
      l.filter (fun c => decide (c ≠ '-')) = l := by
    refine List.filter_eq_self.mpr fun c hc => decide_eq_true ?_
    rintro rfl
    exact h (hl _ hc)
  have hpiece (m n : ℕ) : ∀ c ∈ ((padded 16 32 uuid.value).drop m).take n,
      c ∈ padded 16 32 uuid.value :=
    fun c hc => List.mem_of_mem_drop (List.mem_of_mem_take hc)
  have hsplit (m n : ℕ) : ((padded 16 32 uuid.value).drop m).take n ++
      (padded 16 32 uuid.value).drop (m + n) = (padded 16 32 uuid.value).drop m := by
    rw [← List.drop_drop, List.take_append_drop]
  have hdash (l : List Char) : ('-' :: l).filter (fun c => decide (c ≠ '-')) =
      l.filter fun c => decide (c ≠ '-') := by
    simp
  simp only [Uuid.hyphenated, List.filter_append, hdash]
  rw [hkeep fun c hc => List.mem_of_mem_take hc, hkeep (hpiece 8 4), hkeep (hpiece 12 4),
    hkeep (hpiece 16 4), hkeep fun c hc => List.mem_of_mem_drop hc, hsplit 16 4, hsplit 12 4,
    hsplit 8 4, List.take_append_drop]

/-- `uuid.UUID` on a hyphenated UUID. -/
lemma makeUuid_hyphenated (uuid : Uuid) : makeUuid other uuid.hyphenated = some uuid.value := by
  have hlt : uuid.value < 16 ^ 32 := by
    have := uuid.value_lt
    norm_num at this ⊢
    exact this
  have hdigits {c : Char} (hc : valueOfDigit c = none) : c ∉ padded 16 32 uuid.value :=
    not_mem_padded (by decide) le_rfl hlt hc
  have hmem {c : Char} (hc : valueOfDigit c = none) (hdash : c ≠ '-') : c ∉ uuid.hyphenated :=
    fun hin => (Uuid.mem_hyphenated hin).elim hdash (hdigits hc)
  have hbraces : ∀ c ∈ uuid.hyphenated, c ∉ ['{', '}'] := by
    intro c hc hbrace
    rcases List.mem_cons.mp hbrace with rfl | hbrace
    · exact hmem (by decide) (by decide) hc
    · rw [List.mem_singleton.mp hbrace] at hc
      exact hmem (by decide) (by decide) hc
  have hurn : removed ['u', 'r', 'n', ':'] uuid.hyphenated = uuid.hyphenated :=
    removed_of_not_mem (hmem (by decide) (by decide))
  have huuid : removed ['u', 'u', 'i', 'd', ':'] uuid.hyphenated = uuid.hyphenated :=
    removed_of_not_mem (hmem (by decide) (by decide))
  have hplain := Uuid.filter_hyphenated (hdigits (c := '-') (by decide))
  simp only [makeUuid, hurn, huuid, stripped_of_not_mem hbraces, hplain,
    readDigits_padded (by decide) le_rfl hlt, padded_length (by decide) hlt]
  simpa using uuid.value_lt

end Canonical

/-! ## Every accepted parameter -/

/-- Python has an object for what a text is coerced to. -/
def Representable (parsers : Parsers F) (raw : String) : ParamKind → Prop
  | .date => ∀ date, parsers.date raw = some date → 1 ≤ date.year
  | .dateTime =>
    match parsers.offsetDateTime raw with
    | some at_ => 1 ≤ at_.date.year ∧ at_.offset.hours < 24
    | none => ∀ at_, parsers.primitiveDateTime raw = some at_ → 1 ≤ at_.date.year
  | _ => True

section Accepted

variable (parsers : Parsers F) (other : OtherForms)

/-- `coerce` accepts a text just when it parsed to a value. -/
lemma coerce_date {param : ParamSpec} (hkind : param.kind = .date) {raw : String}
    {value : ParamValue F} (h : coerce parsers raw param = .ok value) :
    ∃ date, parsers.date raw = some date ∧ value = .date (.ofList date.format) := by
  simp only [coerce, hkind] at h
  cases hdate : parsers.date raw with
  | none => simp [hdate] at h
  | some date =>
    refine ⟨date, rfl, ?_⟩
    simpa [hdate] using h.symm

lemma coerce_dateTime {param : ParamSpec} (hkind : param.kind = .dateTime) {raw : String}
    {value : ParamValue F} (h : coerce parsers raw param = .ok value) :
    ∃ text, dateTimeText parsers raw = some text ∧ value = .dateTime (.ofList text) := by
  simp only [coerce, hkind] at h
  cases htext : dateTimeText parsers raw with
  | none => simp [htext] at h
  | some text =>
    refine ⟨text, rfl, ?_⟩
    simpa [htext] using h.symm

/-- `datetime.fromisoformat` on a date and time with its offset from UTC. -/
lemma makeDateTime_offset (at_ : OffsetDateTime) :
    (makeDateTime other at_.format).isSome = true ↔ 1 ≤ at_.date.year ∧ at_.offset.hours < 24 := by
  rw [OffsetDateTime.format, makeDateTime_format]
  by_cases hyear : 1 ≤ at_.date.year
  · rw [if_pos hyear, makeZoned_format]
    simp [hyear]
  · simp [hyear]

/-- `datetime.fromisoformat` on a date and time without one. -/
lemma makeDateTime_naive (at_ : PrimitiveDateTime) :
    (makeDateTime other at_.format).isSome = true ↔ 1 ≤ at_.date.year := by
  have hformat := makeDateTime_format other at_ []
  rw [List.append_nil] at hformat
  rw [hformat]
  by_cases hyear : 1 ≤ at_.date.year
  · simp [hyear, makeZoned]
  · simp [hyear]

/-- What the worker builds from a coerced text. -/
lemma toPython_coerce {param : ParamSpec} {raw : String} {value : ParamValue F}
    (h : coerce parsers raw param = .ok value) :
    (toPython other value).isSome = true ↔ Representable parsers raw param.kind := by
  match hkind : param.kind with
  | .date =>
    obtain ⟨date, hdate, rfl⟩ := coerce_date parsers hkind h
    simp only [toPython, Option.isSome_map, String.toList_ofList, makeDate_format, Representable,
      hdate, Option.some.injEq, forall_eq']
    split_ifs with hyear <;> simp [hyear]
  | .dateTime =>
    obtain ⟨text, htext, rfl⟩ := coerce_dateTime parsers hkind h
    simp only [toPython, Option.isSome_map, String.toList_ofList, Representable]
    cases hoffset : parsers.offsetDateTime raw with
    | some at_ =>
      obtain rfl : at_.format = text := by simpa [dateTimeText, hoffset] using htext
      exact makeDateTime_offset other at_
    | none =>
      cases hnaive : parsers.primitiveDateTime raw with
      | none => simp [dateTimeText, hoffset, hnaive] at htext
      | some at_ =>
        obtain rfl : at_.format = text := by simpa [dateTimeText, hoffset, hnaive] using htext
        simp only [Option.some.injEq, forall_eq']
        exact makeDateTime_naive other at_
  | .uuid =>
    simp only [coerce, hkind] at h
    cases huuid : parsers.uuid raw with
    | none => simp [huuid] at h
    | some uuid =>
      obtain rfl : ParamValue.uuid (.ofList uuid.hyphenated) = value := by simpa [huuid] using h
      simp [toPython, makeUuid_hyphenated, Representable]
  | .str =>
    obtain rfl : ParamValue.str raw = value := by simpa [coerce, hkind] using h
    simp [toPython, Representable]
  | .int =>
    simp only [coerce, hkind] at h
    cases hint : parseInt raw with
    | none => simp [hint] at h
    | some n =>
      obtain rfl : ParamValue.int n = value := by simpa [hint] using h
      simp [toPython, Representable]
  | .float =>
    simp only [coerce, hkind] at h
    cases hfloat : (parsers.float raw).filter parsers.isFinite with
    | none => simp [hfloat] at h
    | some x =>
      obtain rfl : ParamValue.float x = value := by simpa [hfloat] using h
      simp [toPython, Representable]
  | .bool =>
    simp only [coerce, hkind] at h
    split_ifs at h
    · obtain rfl : ParamValue.bool true = value := by simpa using h
      simp [toPython, Representable]
    · obtain rfl : ParamValue.bool false = value := by simpa using h
      simp [toPython, Representable]

/-- What the worker builds from the items of a repeated parameter. -/
lemma mapM_toPython {param : ParamSpec} {raws : List String} {items : List (ParamValue F)}
    (h : (raws.mapM fun raw => coerce parsers raw param) = .ok items) :
    (items.mapM fun item => toPython other item).isSome = true ↔
      ∀ raw ∈ raws, Representable parsers raw param.kind := by
  induction raws generalizing items with
  | nil =>
    obtain rfl : [] = items := by simpa [pure, Except.pure] using h
    simp
  | cons raw raws ih =>
    rw [List.mapM_cons] at h
    cases hfirst : coerce parsers raw param with
    | error error => simp [hfirst, bind, Except.bind] at h
    | ok value =>
      cases hrest : raws.mapM fun raw => coerce parsers raw param with
      | error error => simp [hfirst, hrest, bind, Except.bind] at h
      | ok values =>
        obtain rfl : value :: values = items := by
          simpa [hfirst, hrest, bind, Except.bind, pure, Except.pure] using h
        rw [List.forall_mem_cons, ← ih hrest, ← toPython_coerce parsers other hfirst, List.mapM_cons]
        cases toPython other value with
        | none => simp
        | some first => cases values.mapM fun item => toPython other item <;> simp

/-- A text that is refused denotes nothing Python lacks an object for. -/
lemma representable_of_refused {param : ParamSpec} {raw : String} {error : ParamError}
    (h : coerce parsers raw param = .error error) : Representable parsers raw param.kind := by
  match hkind : param.kind with
  | .date =>
    intro date hdate
    simp [coerce, hkind, hdate] at h
  | .dateTime =>
    have hnone : dateTimeText parsers raw = none := by
      cases htext : dateTimeText parsers raw with
      | none => rfl
      | some text => simp [coerce, hkind, htext] at h
    simp only [dateTimeText, Option.or_eq_none_iff, Option.map_eq_none_iff] at hnone
    simp [Representable, hnone]
  | .uuid | .str | .int | .float | .bool => trivial

/-- The worker can build what a parameter was coerced to just when Python has an object for it: always
for a UUID, from the year 1 on for a date, and for a date and time only within a day of UTC.  A list
can be built when each of its items can. -/
theorem accepted_constructs_iff (param : ParamSpec) :
    (∀ raw, (∀ value, coerce parsers raw param = .ok value →
      (toPython other value).isSome = true) ↔ Representable parsers raw param.kind) ∧
    ∀ (raws : List String) (items : List (ParamValue F)),
      (raws.mapM fun raw => coerce parsers raw param) = .ok items →
      ((toPython other (.list items)).isSome = true ↔
        ∀ raw ∈ raws, Representable parsers raw param.kind) := by
  constructor
  · intro raw
    constructor
    · intro hbuilt
      cases hcoerce : coerce parsers raw param with
      | error error => exact representable_of_refused parsers hcoerce
      | ok value => exact (toPython_coerce parsers other hcoerce).mp (hbuilt value hcoerce)
    · intro hrepresentable value hcoerce
      exact (toPython_coerce parsers other hcoerce).mpr hrepresentable
  · intro raws items h
    rw [toPython, Option.isSome_map]
    exact mapM_toPython parsers other h

end Accepted

/-- Parsers that read calendar dates of four digits, and nothing else. -/
def calendarDates : Parsers Unit where
  float _ := none
  isFinite _ := true
  uuid _ := none
  offsetDateTime _ := none
  primitiveDateTime _ := none
  date raw := match raw.toList with
    | [y₁, y₂, y₃, y₄, '-', m₁, m₂, '-', d₁, d₂] => do
      let year ← readDigits 10 [y₁, y₂, y₃, y₄]
      let month ← readDigits 10 [m₁, m₂]
      let day ← readDigits 10 [d₁, d₂]
      if h : year ≤ 9999 ∧ 1 ≤ month ∧ month ≤ 12 ∧ 1 ≤ day ∧ day ≤ daysInMonth year month then
        some ⟨year, month, day, by omega, by omega, h.2.1, h.2.2.1, h.2.2.2.1, h.2.2.2.2⟩
      else none
    | _ => none

/-- A date parameter named `day`. -/
def dayParam : ParamSpec := ⟨"day", .date, .query, .required, false⟩

/-- Constructors that accept the canonical forms only. -/
def canonicalForms : OtherForms := ⟨fun _ => none, fun _ => none, fun _ => none⟩

/-- Leap days, in a list. -/
theorem accepted_constructs_leapDays :
    (toPython canonicalForms (F := Unit)
      (.list [.date "2024-02-29", .date "2000-02-29"])).isSome = true := by
  refine ((accepted_constructs_iff calendarDates canonicalForms dayParam).2
    ["2024-02-29", "2000-02-29"] _ rfl).mpr ?_
  intro raw hraw date hdate
  simp only [List.mem_cons, List.not_mem_nil, or_false] at hraw
  rcases hraw with rfl | rfl
  · rw [← Option.some.inj hdate]
    decide
  · rw [← Option.some.inj hdate]
    decide

/-- The first day of the year 0 is accepted, and `date.fromisoformat` raises on it. -/
theorem year_zero_accepted_not_built :
    ∃ value, coerce calendarDates "0000-01-01" dayParam = .ok value ∧
      ∀ other, toPython other value = none := by
  refine ⟨.date "0000-01-01", by rfl, fun other => ?_⟩
  rw [toPython, Option.map_eq_none_iff]
  rfl

end Oxbrook
