import Mathlib.Algebra.Order.Group.Unbundled.Int
import Oxbrook.Foundation.Numerals

/-!
# Coercion of parameters

Path and query parameters are coerced from text before a Python worker is woken: a value that does
not parse is answered with 422 on the spot, and one that does is passed on, a UUID or a date in a
canonical text of its own.

What the `uuid` and `time` crates parse, and which texts are floats, is a parameter; what they
return is a type of its own with the ranges the crates document: a 128-bit UUID, a date with a year
from -9999 to 9999, an offset from UTC of up to 25 hours and 59 minutes.  How they print these is
defined here.
-/

namespace Oxbrook

open Numerals

/-! ## What the crates return -/

/-- `uuid::Uuid`: 128 bits. -/
structure Uuid where
  value : ℕ
  value_lt : value < 2 ^ 128

/-- Whether a year of the proleptic Gregorian calendar is a leap year. -/
def isLeapYear (year : ℤ) : Bool :=
  year % 4 == 0 && (year % 100 != 0 || year % 400 == 0)

/-- The days of a month. -/
def daysInMonth (year : ℤ) (month : ℕ) : ℕ :=
  if month = 2 then if isLeapYear year then 29 else 28
  else if month = 4 ∨ month = 6 ∨ month = 9 ∨ month = 11 then 30 else 31

/-- `time::Date`. -/
structure Date where
  year : ℤ
  month : ℕ
  day : ℕ
  year_ge : -9999 ≤ year
  year_le : year ≤ 9999
  month_pos : 1 ≤ month
  month_le : month ≤ 12
  day_pos : 1 ≤ day
  day_le : day ≤ daysInMonth year month

/-- `time::Time`. -/
structure Time where
  hour : ℕ
  minute : ℕ
  second : ℕ
  nanosecond : ℕ
  hour_lt : hour < 24
  minute_lt : minute < 60
  second_lt : second < 60
  nanosecond_lt : nanosecond < 10 ^ 9

/-- `time::UtcOffset`, to the minute: its sign, and the hours and minutes of its size. -/
structure UtcOffset where
  negative : Bool
  hours : ℕ
  minutes : ℕ
  hours_le : hours ≤ 25
  minutes_lt : minutes < 60

/-- `time::PrimitiveDateTime`. -/
structure PrimitiveDateTime where
  date : Date
  time : Time

/-- `time::OffsetDateTime`. -/
structure OffsetDateTime extends PrimitiveDateTime where
  offset : UtcOffset

/-- The parsers of the crates, and of `f64`, on a text. -/
structure Parsers (F : Type*) where
  float : String → Option F
  isFinite : F → Bool
  uuid : String → Option Uuid
  date : String → Option Date
  offsetDateTime : String → Option OffsetDateTime
  primitiveDateTime : String → Option PrimitiveDateTime

/-! ## How they are printed -/

/-- `hyphenated().to_string()`. -/
def Uuid.hyphenated (uuid : Uuid) : List Char :=
  let digits := padded 16 32 uuid.value
  digits.take 8 ++ '-' :: ((digits.drop 8).take 4 ++ '-' :: ((digits.drop 12).take 4 ++
    '-' :: ((digits.drop 16).take 4 ++ '-' :: digits.drop 20)))

/-- `[year]`: at least four digits, and a minus sign before a negative one. -/
def formatYear (year : ℤ) : List Char :=
  if year < 0 then '-' :: padded 10 4 year.natAbs else padded 10 4 year.natAbs

/-- `ISO_DATE`. -/
def Date.format (date : Date) : List Char :=
  formatYear date.year ++ '-' :: (padded 10 2 date.month ++ '-' :: padded 10 2 date.day)

/-- The time of day in `ISO_NAIVE` and `ISO_OFFSET`, which have no item for the fraction of a second. -/
def Time.format (time : Time) : List Char :=
  padded 10 2 time.hour ++ ':' :: (padded 10 2 time.minute ++ ':' :: padded 10 2 time.second)

/-- `[offset_hour sign:mandatory]:[offset_minute]`. -/
def UtcOffset.format (offset : UtcOffset) : List Char :=
  (if offset.negative then '-' else '+') ::
    (padded 10 2 offset.hours ++ ':' :: padded 10 2 offset.minutes)

/-- `ISO_NAIVE`. -/
def PrimitiveDateTime.format (at_ : PrimitiveDateTime) : List Char :=
  at_.date.format ++ 'T' :: at_.time.format

/-- `ISO_OFFSET`. -/
def OffsetDateTime.format (at_ : OffsetDateTime) : List Char :=
  at_.toPrimitiveDateTime.format ++ at_.offset.format

/-! ## Parameters -/

/-- The type of a parameter. -/
inductive ParamKind
  | str
  | int
  | float
  | bool
  | uuid
  | date
  | dateTime
  deriving DecidableEq

/-- What an error message calls it. -/
def ParamKind.label : ParamKind → String
  | str => "string"
  | int => "integer"
  | float => "number"
  | bool => "boolean"
  | uuid => "UUID"
  | date => "date in YYYY-MM-DD form"
  | dateTime => "ISO 8601 datetime"

/-- Where a parameter comes from. -/
inductive Source
  | path
  | query
  deriving DecidableEq

def Source.label : Source → String
  | path => "path"
  | query => "query"

/-- What to do when a query parameter is absent. -/
inductive Presence
  | required
  | omit
  | null
  deriving DecidableEq

/-- A coerced parameter. -/
inductive ParamValue (F : Type*)
  | str (value : String)
  | int (value : ℤ)
  | float (value : F)
  | bool (value : Bool)
  | uuid (text : String)
  | date (text : String)
  | dateTime (text : String)
  | list (items : List (ParamValue F))
  | null
  | omit

structure ParamSpec where
  name : String
  kind : ParamKind
  source : Source
  presence : Presence
  repeated : Bool

/-- A parameter that was missing or would not coerce. -/
structure ParamError where
  source : String
  name : String
  errorType : String
  msg : String
  input : Option String
  deriving DecidableEq

/-- `str::parse::<i64>`. -/
def parseInt (raw : String) : Option ℤ :=
  let sign : ℤ × List Char := match raw.toList with
    | '-' :: digits => (-1, digits)
    | '+' :: digits => (1, digits)
    | digits => (1, digits)
  if sign.2.isEmpty then none
  else (readDigits 10 sign.2).bind fun n =>
    if -2 ^ 63 ≤ sign.1 * n ∧ sign.1 * n < 2 ^ 63 then some (sign.1 * n) else none

variable {F : Type*}

/-- The error of a value that does not parse. -/
def badParam (raw : String) (param : ParamSpec) : ParamError where
  source := param.source.label
  name := param.name
  errorType := match param.source with
    | .path => "path_param_parsing"
    | .query => "query_param_parsing"
  msg := "Input should be a valid " ++ param.kind.label
  input := some raw

/-- The error of a required parameter that is absent. -/
def missingParam (param : ParamSpec) : ParamError where
  source := param.source.label
  name := param.name
  errorType := "missing"
  msg := "Field required"
  input := none

/-- The canonical text of a date and time: with its offset from UTC if it has one. -/
def dateTimeText (parsers : Parsers F) (raw : String) : Option (List Char) :=
  ((parsers.offsetDateTime raw).map OffsetDateTime.format).or
    ((parsers.primitiveDateTime raw).map PrimitiveDateTime.format)

/-- `coerce`. -/
def coerce (parsers : Parsers F) (raw : String) (param : ParamSpec) :
    Except ParamError (ParamValue F) :=
  let parsed : Option (ParamValue F) := match param.kind with
    | .str => some (.str raw)
    | .int => (parseInt raw).map .int
    | .float => ((parsers.float raw).filter parsers.isFinite).map .float
    | .bool =>
      if raw ∈ ["true", "True", "1", "yes", "on"] then some (.bool true)
      else if raw ∈ ["false", "False", "0", "no", "off"] then some (.bool false)
      else none
    | .uuid => (parsers.uuid raw).map fun uuid => .uuid (.ofList uuid.hyphenated)
    | .date => (parsers.date raw).map fun date => .date (.ofList date.format)
    | .dateTime => (dateTimeText parsers raw).map fun text => .dateTime (.ofList text)
  match parsed with
  | some value => .ok value
  | none => .error (badParam raw param)

/-- The value of one parameter of a route: `path` holds the decoded path parameters and `pairs` the
query. -/
def paramValue (parsers : Parsers F) (path : String → Option String)
    (pairs : List (String × String)) (param : ParamSpec) : Except ParamError (ParamValue F) :=
  let absent : Except ParamError (ParamValue F) := match param.presence with
    | .required => .error (missingParam param)
    | .omit => .ok .omit
    | .null => .ok .null
  if param.repeated then do
    let raws := (pairs.filter fun pair => pair.1 == param.name).map Prod.snd
    let items ← raws.mapM fun raw => coerce parsers raw param
    if items.isEmpty then absent else .ok (.list items)
  else
    let raw := match param.source with
      | .path => path param.name
      | .query => (pairs.find? fun pair => pair.1 == param.name).map Prod.snd
    match raw with
    | some raw => coerce parsers raw param
    | none => absent

end Oxbrook
