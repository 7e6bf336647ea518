import Oxbrook.Routing.Construct

/-!
# What becomes of a date and time

A text is parsed to the nanosecond and printed to the second; `datetime.fromisoformat` then reads what was printed.
`denoted` is the `datetime` that the text denotes, to the microsecond.  The worker builds it just when it has no
microseconds (`dateTime_kept_iff`): printing drops the fraction of a second, and nothing else.  A calendar date is kept
from the year 1 on.
-/

namespace Oxbrook

variable {F : Type*}

/-! ## What is denoted -/

/-- The date and time of Python's, to the microsecond. -/
def PrimitiveDateTime.exact (at_ : PrimitiveDateTime) (offset : Option ℤ) : PyDateTime :=
  { at_.toPy offset with microsecond := at_.time.nanosecond / 1000 }

/-- The `datetime` that a text denotes: naive where it has no offset. -/
def denoted (parsers : Parsers F) (raw : String) : Option PyDateTime :=
  ((parsers.offsetDateTime raw).map fun at_ => at_.exact (some at_.offset.inMinutes)).or
    ((parsers.primitiveDateTime raw).map fun at_ => at_.exact none)

/-- The text gives no microseconds. -/
def WholeSecond (parsers : Parsers F) (raw : String) : Prop :=
  match parsers.offsetDateTime raw with
  | some at_ => at_.time.nanosecond < 1000
  | none => ∀ at_, parsers.primitiveDateTime raw = some at_ → at_.time.nanosecond < 1000

/-- Where the router accepts the text of a date and time, the worker builds what it denotes. -/
def KeepsDateTime (parsers : Parsers F) (other : OtherForms) (raw : String) (param : ParamSpec) : Prop :=
  ∀ value, coerce parsers raw param = .ok value →
    ∃ at_, denoted parsers raw = some at_ ∧ toPython other value = some (.dateTime at_)

/-- Where the router accepts the text of a date, the worker builds that date. -/
def KeepsDate (parsers : Parsers F) (other : OtherForms) (raw : String) (param : ParamSpec) : Prop :=
  ∀ value, coerce parsers raw param = .ok value →
    ∃ date, parsers.date raw = some date ∧ toPython other value = some (.date ⟨date.year, date.month, date.day⟩)

/-! ## What is built -/

section Built

variable (other : OtherForms)

/-- `datetime.fromisoformat` on a date and time with an offset from UTC. -/
lemma makeDateTime_offset_eq (at_ : OffsetDateTime) (year : 1 ≤ at_.date.year) (within : at_.offset.hours < 24) :
    makeDateTime other at_.format = some (at_.toPy (some at_.offset.inMinutes)) := by
  rw [OffsetDateTime.format, makeDateTime_format, if_pos year, makeZoned_format, if_pos within]

/-- `datetime.fromisoformat` on a date and time without one. -/
lemma makeDateTime_naive_eq (at_ : PrimitiveDateTime) (year : 1 ≤ at_.date.year) :
    makeDateTime other at_.format = some (at_.toPy none) := by
  have hformat := makeDateTime_format other at_ []
  rw [List.append_nil, if_pos year] at hformat
  exact hformat

/-- The fraction of a second is all that is lost. -/
lemma toPy_eq_exact_iff (at_ : PrimitiveDateTime) (offset : Option ℤ) :
    at_.toPy offset = at_.exact offset ↔ at_.time.nanosecond < 1000 := by
  constructor
  · intro h
    have hfraction : 0 = at_.time.nanosecond / 1000 := congrArg PyDateTime.microsecond h
    omega
  · intro h
    have hfraction : at_.time.nanosecond / 1000 = 0 := Nat.div_eq_of_lt h
    rw [PrimitiveDateTime.exact, hfraction]
    rfl

variable (parsers : Parsers F) {raw : String} {param : ParamSpec}

/-- A text of a date and time is refused, or built without its fraction of a second. -/
lemma built_of_representable (kind : param.kind = .dateTime) (h : Representable parsers raw .dateTime) :
    (∃ error, coerce parsers raw param = .error error ∧ WholeSecond parsers raw) ∨
      ∃ value at_ offset, coerce parsers raw param = .ok value ∧
        toPython other value = some (.dateTime (PrimitiveDateTime.toPy at_ offset)) ∧
        denoted parsers raw = some (at_.exact offset) ∧
        (WholeSecond parsers raw ↔ at_.time.nanosecond < 1000) := by
  cases hoffset : parsers.offsetDateTime raw with
  | some at_ =>
    right
    simp only [Representable, hoffset] at h
    refine ⟨.dateTime (.ofList at_.format), at_.toPrimitiveDateTime, some at_.offset.inMinutes, ?_, ?_, ?_, ?_⟩
    · simp [coerce, kind, dateTimeText, hoffset]
    · rw [toPython, String.toList_ofList, makeDateTime_offset_eq other at_ h.1 h.2]
      rfl
    · simp [denoted, hoffset]
    · simp [WholeSecond, hoffset]
  | none =>
    cases hnaive : parsers.primitiveDateTime raw with
    | none =>
      left
      refine ⟨badParam raw param, ?_, ?_⟩
      · simp [coerce, kind, dateTimeText, hoffset, hnaive]
      · simp [WholeSecond, hoffset, hnaive]
    | some at_ =>
      right
      simp only [Representable, hoffset] at h
      refine ⟨.dateTime (.ofList at_.format), at_, none, ?_, ?_, ?_, ?_⟩
      · simp [coerce, kind, dateTimeText, hoffset, hnaive]
      · rw [toPython, String.toList_ofList, makeDateTime_naive_eq other at_ (h at_ hnaive)]
        rfl
      · simp [denoted, hoffset, hnaive]
      · simp [WholeSecond, hoffset, hnaive]

lemma keepsDateTime_iff (kind : param.kind = .dateTime) (h : Representable parsers raw .dateTime) :
    KeepsDateTime parsers other raw param ↔ WholeSecond parsers raw := by
  obtain ⟨error, hcoerce, hwhole⟩ | ⟨value, at_, offset, hcoerce, hbuilt, hdenoted, hwhole⟩ :=
    built_of_representable other parsers kind h
  · refine iff_of_true ?_ hwhole
    intro value hvalue
    rw [hcoerce] at hvalue
    cases hvalue
  · rw [hwhole, ← toPy_eq_exact_iff at_ offset]
    constructor
    · intro hkeeps
      obtain ⟨kept, hkept, hsame⟩ := hkeeps value hcoerce
      rw [hdenoted] at hkept
      rw [hbuilt, ← Option.some.inj hkept] at hsame
      exact PyValue.dateTime.inj (Option.some.inj hsame)
    · intro hexact value' hvalue
      rw [hcoerce] at hvalue
      obtain rfl := Except.ok.inj hvalue
      refine ⟨_, hdenoted, ?_⟩
      rw [hbuilt, hexact]

lemma keepsDate_iff (kind : param.kind = .date) :
    KeepsDate parsers other raw param ↔ ∀ date, parsers.date raw = some date → 1 ≤ date.year := by
  constructor
  · intro hkeeps date hdate
    have hcoerce : coerce parsers raw param = .ok (.date (.ofList date.format)) := by
      simp [coerce, kind, hdate]
    obtain ⟨date', -, hbuilt⟩ := hkeeps _ hcoerce
    rw [toPython, String.toList_ofList, makeDate_format] at hbuilt
    by_contra hyear
    rw [if_neg hyear] at hbuilt
    cases hbuilt
  · intro hyears value hvalue
    obtain ⟨date, hdate, rfl⟩ := coerce_date parsers kind hvalue
    refine ⟨date, hdate, ?_⟩
    rw [toPython, String.toList_ofList, makeDate_format, if_pos (hyears date hdate)]
    rfl

/-- **A date and time is kept just when it has no microseconds.**  Of the texts that denote one Python has an object
for, the accepted ones without microseconds become what they denote, with the same offset from UTC or naive; the
others do not.  The text of a date becomes that date from the year 1 on, whatever form it has. -/
theorem dateTime_kept_iff (raw : String) (param : ParamSpec) :
    (param.kind = .dateTime → Representable parsers raw .dateTime →
      (KeepsDateTime parsers other raw param ↔ WholeSecond parsers raw)) ∧
    (param.kind = .date →
      (KeepsDate parsers other raw param ↔ ∀ date, parsers.date raw = some date → 1 ≤ date.year)) :=
  ⟨keepsDateTime_iff other parsers, keepsDate_iff other parsers⟩

end Built

/-! ## Half an hour west of Greenwich -/

/-- The morning of 23 September 2026, half an hour behind UTC. -/
def morning (nanosecond : ℕ) (lt : nanosecond < 10 ^ 9) : OffsetDateTime where
  date := ⟨2026, 9, 23, by decide, by decide, by decide, by decide, by decide, by decide⟩
  time := ⟨10, 0, 0, nanosecond, by decide, by decide, by decide, lt⟩
  offset := ⟨true, 0, 30, by decide, by decide⟩

/-- Parsers that read two texts. -/
def mornings : Parsers Unit where
  float _ := none
  isFinite _ := true
  uuid _ := none
  date _ := none
  offsetDateTime raw :=
    if raw = "2026-09-23T10:00:00-00:30" then some (morning 0 (by decide))
    else if raw = "2026-09-23T10:00:00.123-00:30" then some (morning 123000000 (by decide))
    else none
  primitiveDateTime _ := none

/-- A parameter named `at`. -/
def atParam : ParamSpec := ⟨"at", .dateTime, .query, .required, false⟩

theorem dateTime_kept_whole : KeepsDateTime mornings canonicalForms "2026-09-23T10:00:00-00:30" atParam := by
  refine ((dateTime_kept_iff canonicalForms mornings _ atParam).1 rfl ?_).mpr ?_
  · change (1 : ℤ) ≤ 2026 ∧ 0 < 24
    decide
  · change 0 < 1000
    decide

/-- A fraction of a second is lost. -/
theorem fraction_lost : Representable mornings "2026-09-23T10:00:00.123-00:30" .dateTime ∧
    ¬ KeepsDateTime mornings canonicalForms "2026-09-23T10:00:00.123-00:30" atParam ∧
    denoted mornings "2026-09-23T10:00:00.123-00:30" = some ⟨⟨2026, 9, 23⟩, 10, 0, 0, 123000, some (-30)⟩ ∧
    makeDateTime canonicalForms "2026-09-23T10:00:00-00:30".toList =
      some ⟨⟨2026, 9, 23⟩, 10, 0, 0, 0, some (-30)⟩ := by
  have hcoerce : coerce mornings "2026-09-23T10:00:00.123-00:30" atParam =
      .ok (.dateTime "2026-09-23T10:00:00-00:30") := by rfl
  have hdenoted : denoted mornings "2026-09-23T10:00:00.123-00:30" =
      some ⟨⟨2026, 9, 23⟩, 10, 0, 0, 123000, some (-30)⟩ := by rfl
  have hbuilt : makeDateTime canonicalForms "2026-09-23T10:00:00-00:30".toList =
      some ⟨⟨2026, 9, 23⟩, 10, 0, 0, 0, some (-30)⟩ := by decide +kernel
  refine ⟨?_, ?_, hdenoted, hbuilt⟩
  · change (1 : ℤ) ≤ 2026 ∧ 0 < 24
    decide
  · intro hkeeps
    obtain ⟨at_, hat, hsame⟩ := hkeeps _ hcoerce
    rw [hdenoted] at hat
    rw [toPython, hbuilt, ← Option.some.inj hat] at hsame
    have hfraction := congrArg PyDateTime.microsecond (PyValue.dateTime.inj (Option.some.inj hsame))
    exact absurd hfraction (by decide)

end Oxbrook
