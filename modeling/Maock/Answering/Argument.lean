import Maock.Matching.RequestMessage

/-!
# The arguments of a response

`Argument::getValue`: the bytes that take the place of a placeholder in a header field or in the
payload of a response. They come from the request (a JSON value, a header field, the payload), from
the clock or from random numbers, and a regular expression and a substring may cut them.

The clock, the random numbers and the search for a regular expression belong to libraries
(`Surroundings`). An evaluation reads and changes the request message, which decodes its payload on
first use, and the state of the clock and the generators.
-/

set_option autoImplicit false
set_option relaxedAutoImplicit false

namespace Maock.Answering

open Foundation Foundation.OrderedContainer Foundation.Bytes Matching

variable {Document σ : Type}

/-- The library functions that the arguments of responses call, with the state `σ` of clock and
generators. -/
structure Surroundings (Document σ : Type) extends MatchLibraries Document where
  /-- `std::regex_search(subject, match_result, reg_exp)` with `match_result[0]`, as a function of
  the configured pattern and the subject. -/
  regexSearch : Bytes → Bytes → Option Bytes
  /-- The text of the time of the clock. -/
  timeStamp : σ → Bytes × σ
  /-- `std::uniform_int_distribution<>(least, greatest)`. -/
  uniform : ℕ → ℕ → σ → ℕ × σ

/-- A computation that evaluates arguments. -/
abbrev Evaluation (Document σ : Type) :=
  StateM (RequestMessage Document × σ)

/-! ### Construction -/

/-- `VALUE_TYPE`. -/
inductive ValueType where
  | invalid
  | randomHex
  | timestamp
  | uuid
  | rawPayload
  deriving DecidableEq

/-- `Schema_Argument`. -/
structure SchemaArgument where
  typeOfValue : Bytes
  valueIdentifier : Bytes
  substringStart : Int64
  substringLength : Int64
  regex : Bytes

/-- `Argument`. The expression is there if `regex_present` is set. -/
structure Argument where
  jsonPointer : Bytes
  headerName : Bytes
  valType : ValueType
  substringStart : Int64
  substringLength : Int64
  regex : Option Bytes
  deriving DecidableEq

namespace Argument

/-- The member `val_type` that the constructor leaves. -/
def valTypeOf (typeOfValue : Bytes) : ValueType :=
  if typeOfValue = ascii "Pseudo-UUID" then .uuid
  else if typeOfValue = ascii "RandomHex" then .randomHex
  else if typeOfValue = ascii "TimeStamp" then .timestamp
  else if typeOfValue = ascii "RawPayload" then .rawPayload
  else .invalid

/-- `Argument(payload_argument)`. -/
def ofSchema (schema : SchemaArgument) : Argument where
  jsonPointer := if schema.typeOfValue = ascii "JsonPointer" then schema.valueIdentifier else []
  headerName := if schema.typeOfValue = ascii "Header" then schema.valueIdentifier else []
  valType := valTypeOf schema.typeOfValue
  substringStart := schema.substringStart
  substringLength := schema.substringLength
  regex := if schema.regex = [] then none else some schema.regex

/-! ### Values -/

/-- A number drawn from a distribution. -/
def draw (s : Surroundings Document σ) (least greatest : ℕ) : Evaluation Document σ ℕ := do
  let (msg, source) ← get
  let (number, source) := s.uniform least greatest source
  set (msg, source)
  return number

/-- A number below 16 as `std::hex` writes it. -/
def hexDigit (number : ℕ) : UInt8 :=
  if number < 10 then char '0' + UInt8.ofNat number else char 'a' + UInt8.ofNat (number - 10)

/-- Drawn hexadecimal digits. -/
def hexDigits (s : Surroundings Document σ) (least greatest : ℕ) :
    ℕ → Evaluation Document σ Bytes
  | 0 => return []
  | count + 1 => do
    let number ← draw s least greatest
    let rest ← hexDigits s least greatest count
    return hexDigit number :: rest

/-- `generate_uuid_v4`. -/
def generateUuidV4 (s : Surroundings Document σ) : Evaluation Document σ Bytes := do
  let timeLow ← hexDigits s 0 15 8
  let timeMid ← hexDigits s 0 15 4
  let timeHigh ← hexDigits s 0 15 3
  let variant ← hexDigits s 8 11 1
  let clock ← hexDigits s 0 15 3
  let node ← hexDigits s 0 15 12
  return timeLow ++ ascii "-" ++ timeMid ++ ascii "-4" ++ timeHigh ++ ascii "-" ++ variant ++
    clock ++ ascii "-" ++ node

/-- The value for a `val_type`. -/
def generate (s : Surroundings Document σ) : ValueType → Evaluation Document σ Bytes
  | .timestamp => do
    let (msg, source) ← get
    let (text, source) := s.timeStamp source
    set (msg, source)
    return text
  | .randomHex => hexDigits s 0 15 1
  | .uuid => generateUuidV4 s
  | .rawPayload => do
    let (msg, _) ← get
    return msg.rawPayload
  | .invalid => return []

/-- The string that `getValue` takes its value from. -/
def subject (s : Surroundings Document σ) (arg : Argument) : Evaluation Document σ Bytes := do
  let (msg, source) ← get
  if arg.jsonPointer ≠ [] then
    let decoded := msg.decodeJsonIfNotYet s.toMatchLibraries
    set (decoded, source)
    return s.getValueFromJsonPtr decoded.jsonPayload arg.jsonPointer
  else
    match if arg.headerName ≠ [] then msg.headers.lookup arg.headerName else none with
    | some value => return value
    | none => generate s arg.valType

/-- The part of the string that the regular expression matches. -/
def searched (s : Surroundings Document σ) (arg : Argument) (str : Bytes) : Bytes :=
  match arg.regex with
  | none => str
  | some pattern => (s.regexSearch pattern str).getD []

/-- The substring. The comparison and `substr` take start and length as unsigned numbers. -/
def substring (arg : Argument) (str : Bytes) : Bytes :=
  if (0 < arg.substringStart ∨ arg.substringLength ≠ -1) ∧
      arg.substringStart.toUInt64.toNat < str.length then
    (str.drop arg.substringStart.toUInt64.toNat).take arg.substringLength.toUInt64.toNat
  else str

/-- `getValue(msg)`. -/
def getValue (s : Surroundings Document σ) (arg : Argument) : Evaluation Document σ Bytes := do
  let str ← subject s arg
  return arg.substring (arg.searched s str)

end Argument

end Maock.Answering
