import Maock.Foundation.Bytes

/-!
# Extended JSON pointers

`getValueFromJsonPtr`: a lookup in a JSON document by a pointer whose segments are JSON pointers or
positional segments, `/~#n#value` and `/~#n#name` for the value and the name of the `n`-th member.

The JSON library is a parameter (`JsonLibrary`). Its functions have preconditions: the members of a
value may be counted only if it is an object, and a pointer may be looked up only if it is valid.
The model faults where the source breaks one of them, and where it leaves the program.
-/

set_option autoImplicit false
set_option relaxedAutoImplicit false

namespace Maock.Json

open Foundation Foundation.Bytes

variable {Double : Type*}

/-! ### Values -/

/-- `rapidjson::Value`. The library keeps a number as an integer when it lies between `-2 ^ 63` and
`2 ^ 64 - 1`, and as a double otherwise. -/
inductive Value (Double : Type*) where
  | null
  | bool (b : Bool)
  | integer (n : ℤ)
  | double (x : Double)
  | string (s : Bytes)
  | array (elements : List (Value Double))
  | object (members : List (Bytes × Value Double))

/-- A value is an object. -/
def Value.IsObject : Value Double → Prop
  | .object _ => True
  | _ => False

instance : DecidablePred (@Value.IsObject Double)
  | .object _ => isTrue trivial
  | .null | .bool _ | .integer _ | .double _ | .string _ | .array _ => isFalse id

/-- The functions of the JSON library that the lookup calls. -/
structure JsonLibrary (Double : Type*) where
  /-- `Pointer(source).IsValid()`. -/
  isValid : Bytes → Bool
  /-- `Pointer(source).Get(value)`, for a valid pointer. -/
  get : Bytes → Value Double → Option (Value Double)
  /-- `std::to_string` of a double. -/
  doubleToString : Double → Bytes
  /-- The text that a `Writer` gives for a value. -/
  write : Value Double → Bytes

/-- Where the lookup leaves the program, or breaks a precondition of the library. -/
inductive LookupFault where
  /-- `exit(1)`. -/
  | exit
  /-- `MemberCount` of a value that is not an object. -/
  | memberCount
  /-- `Get` of a pointer that is not valid. -/
  | invalidPointer
  deriving DecidableEq

/-! ### Members by position -/

/-- The loops over members: from one member and its index on, by steps of the index. -/
def walkMembers (n step : ℤ) : ℤ → List (Bytes × Value Double) → Option (Bytes × Value Double)
  | _, [] => none
  | index, entry :: rest =>
    if index = n then some entry else walkMembers n step (index + step) rest

/-- The member that `getNthValue` and `getNthName` find among the members of an object. The walk
from the end stops before the first member, which is taken when `-n` is the number of members. -/
def nthMember (n : ℤ) (members : List (Bytes × Value Double)) : Option (Bytes × Value Double) :=
  if members ≠ [] ∧ 0 < n then walkMembers n 1 1 members
  else if members ≠ [] ∧ n < 0 then
    if -n = members.length then members.head?
    else walkMembers n (-1) (-1) members.tail.reverse
  else none

/-- `getNthValue` and `getNthName`, up to the part of the member that they return. -/
def getNth (part : Bytes × Value Double → Value Double) (n : ℤ) :
    Value Double → Except LookupFault (Option (Value Double))
  | .object members => .ok ((nthMember n members).map part)
  | _ => .error .memberCount

/-- `getNthValue(d, n)`. -/
def getNthValue (n : ℤ) (d : Value Double) : Except LookupFault (Option (Value Double)) :=
  getNth Prod.snd n d

/-- `getNthName(d, n)`. -/
def getNthName (n : ℤ) (d : Value Double) : Except LookupFault (Option (Value Double)) :=
  getNth (fun entry ↦ .string entry.1) n d

/-! ### Segments -/

/-- `extended_json_pointer_indicator`. -/
def indicator : Bytes := ascii "/~#"

/-- `extended_json_pointer_name_indicator`. -/
def nameIndicator : Bytes := ascii "#name"

/-- `extended_json_pointer_value_indicator`. -/
def valueIndicator : Bytes := ascii "#value"

theorem ne_nil_of_find?_indicator {pointer : Bytes} {endPos : ℕ}
    (h : find? indicator pointer = some endPos) : pointer ≠ [] := by
  rintro rfl
  rw [show find? indicator [] = none from rfl] at h
  exact absurd h (by simp)

/-- `splitComplexJsonPointer`, as its loop goes on behind the segments already split off. -/
def splitComplexJsonPointer (jsonPointer : Bytes) : List Bytes :=
  match _hfound : find? indicator jsonPointer with
  | none => [jsonPointer]
  | some endPos =>
    let simple := if endPos = 0 then [] else [jsonPointer.take endPos]
    let extended := jsonPointer.drop endPos
    match find? (ascii "/") extended.tail with
    | none => simple ++ [extended]
    | some next =>
      simple ++ extended.take (next + 1) :: splitComplexJsonPointer (extended.drop (next + 1))
termination_by jsonPointer.length
decreasing_by
  have hpos := List.length_pos_iff.mpr (ne_nil_of_find?_indicator _hfound)
  rw [List.length_drop, List.length_drop]
  omega

/-- A segment is positional. -/
def isPositional (segment : Bytes) : Bool :=
  (find? indicator segment).isSome

/-! ### The lookup -/

/-- The end of a turn of the loop: at a null pointer it breaks off. -/
def proceed (next : Value Double → Except LookupFault (Option (Value Double))) :
    Option (Value Double) → Except LookupFault (Option (Value Double))
  | none => .ok none
  | some value => next value

/-- The loop of `getValueFromJsonPtr` over the segments. -/
def navigate (lib : JsonLibrary Double) :
    List Bytes → Value Double → Except LookupFault (Option (Value Double))
  | [], value => .ok (some value)
  | segment :: rest, value =>
    if isPositional segment then
      match stoi (segment.drop indicator.length) with
      | .error _ => .error .exit
      | .ok index =>
        let str := indicator ++ decimalInt index
        -- `substr` throws behind the end of the segment
        if segment.length < str.length then .error .exit
        else if segment.drop str.length = nameIndicator then getNthName index value
        else if segment.drop str.length = valueIndicator then
          (getNthValue index value).bind (proceed (navigate lib rest))
        else navigate lib rest value
    else if lib.isValid (cString segment) then
      proceed (navigate lib rest) (lib.get (cString segment) value)
    else .error .invalidPointer

/-- `convertRapidVJsonValueToStr`. -/
def convertRapidVJsonValueToStr (lib : JsonLibrary Double) : Option (Value Double) → Bytes
  | some (.string s) => cString s
  | some (.bool b) => ascii (if b then "true" else "false")
  | some (.integer n) => if 0 ≤ n then decimal n.toNat else []
  | some (.double x) => lib.doubleToString x
  | some (.object members) => lib.write (.object members)
  | some .null | some (.array _) | none => []

/-- `getValueFromJsonPtr(d, json_pointer)`. -/
def getValueFromJsonPtr (lib : JsonLibrary Double) (d : Value Double) (jsonPointer : Bytes) :
    Except LookupFault Bytes :=
  (navigate lib (splitComplexJsonPointer jsonPointer) d).map (convertRapidVJsonValueToStr lib)

end Maock.Json
