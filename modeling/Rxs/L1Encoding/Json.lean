import Mathlib.Data.List.TakeWhile
import Rxs.Core.Bytes

/-!
# JSON values

`Json` is `rapidjson::Value` after a successful parse, with the typed getters of
`rxs::Json`: a getter gives its default for a value that is no object, for a member
that is missing and for one of another type. Text is bytes; names are compared as
they are, everything else as C strings.
-/
namespace Rxs

open Rxs.Core

/-- The characters of a literal. -/
def ascii (s : String) : Bytes := s.toList.map fun c => UInt8.ofNat c.toNat

/-- A C string ends at its first zero. -/
def cstr (s : Bytes) : Bytes := s.takeWhile (· ≠ 0)

theorem cstr_cstr (s : Bytes) : cstr (cstr s) = cstr s := List.takeWhile_idem

def lower (c : UInt8) : UInt8 := if 65 ≤ c ∧ c ≤ 90 then c + 32 else c

/-- `strncasecmp` of two C strings finds no difference. -/
def strncasecmp (s t : Bytes) (n : Nat) : Bool := (s.take n).map lower = (t.take n).map lower

/-- `int` are the integers, `real` the other numbers. -/
inductive Json where
  | null
  | bool (b : Bool)
  | int (n : Int)
  | real
  | string (s : Bytes)
  | array (elements : List Json)
  | object (members : List (Bytes × Json))
  deriving Repr

namespace Json

def isObject : Json → Bool
  | .object _ => true
  | _ => false

/-- `FindMember`: the first of the name. -/
def find (obj : Json) (key : Bytes) : Option Json :=
  match obj with
  | .object members => (members.find? (·.1 = key)).map (·.2)
  | _ => none

/-- mirrors src/base/io/json/Json.cpp:101-113 -/
def getValue (obj : Json) (key : Bytes) : Json := (obj.find key).getD .null

/-- mirrors src/base/io/json/Json.cpp:56-68 -/
def getString (obj : Json) (key : Bytes) : Option Bytes :=
  match obj.find key with
  | some (.string s) => some (cstr s)
  | _ => none

/-- mirrors src/base/io/json/Json.cpp:86-98 -/
def getObject (obj : Json) (key : Bytes) : Json :=
  match obj.find key with
  | some (.object members) => .object members
  | _ => .null

/-- No object, or one without members.
mirrors src/base/io/json/Json.cpp:50-53 -/
def isEmpty : Json → Bool
  | .object members => members.isEmpty
  | _ => true

/-- mirrors src/base/io/json/Json.cpp:35-47 -/
def getBool (obj : Json) (key : Bytes) (defaultValue : Bool) : Bool :=
  match obj.find key with
  | some (.bool b) => b
  | _ => defaultValue

/-- mirrors src/base/io/json/Json.cpp:71-83 -/
def getArray (obj : Json) (key : Bytes) : Json :=
  match obj.find key with
  | some (.array elements) => .array elements
  | _ => .null

/-- An integer between the bounds of a type. -/
def getIntegral (low high : Int) (obj : Json) (key : Bytes) (defaultValue : Int) : Int :=
  match obj.find key with
  | some (.int n) => if low ≤ n ∧ n < high then n else defaultValue
  | _ => defaultValue

/-- mirrors src/base/io/json/Json.cpp:131-143 -/
def getInt (obj : Json) (key : Bytes) (defaultValue : Int) : Int :=
  getIntegral (-2 ^ 31) (2 ^ 31) obj key defaultValue

/-- mirrors src/base/io/json/Json.cpp:195-207 -/
def getUint (obj : Json) (key : Bytes) (defaultValue : Nat) : Nat :=
  (getIntegral 0 (2 ^ 32) obj key defaultValue).toNat

/-- mirrors src/base/io/json/Json.cpp:180-192 -/
def getUint64 (obj : Json) (key : Bytes) (defaultValue : Nat) : Nat :=
  (getIntegral 0 (2 ^ 64) obj key defaultValue).toNat

/-- `IsInt64`, with the value. -/
def int64 : Json → Option Int
  | .int n => if -2 ^ 63 ≤ n ∧ n < 2 ^ 63 then some n else none
  | _ => none

end Json

end Rxs
