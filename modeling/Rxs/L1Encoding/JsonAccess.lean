import Rxs.L1Encoding.Json

/-!
# Accesses to JSON values

The accessors of `rapidjson::Value` as they are: `FindMember` and `HasMember` are
for objects, `operator[]` is for a member that is there, a typed getter is for
values of its type, and used on another value each is undefined
(`Fault.access`). What else goes wrong in a run is `Fault.other`.

`rxs::Json` looks before it accesses: the getters of `Checked` do what the
functions of `Json` say, whatever the value (`getString_eq` and its like).
-/
namespace Rxs

open Rxs.Core

/-- Why a run does not return. -/
inductive Fault where
  | access
  | other
  deriving DecidableEq, Repr

abbrev Run := Except Fault

namespace Run

variable {α β : Type}

/-- A run that is as good as the one that gives `a`. -/
def ofOption : Option α → Run α
  | some a => .ok a
  | none => .error .other

@[simp] theorem ok_bind (a : α) (f : α → Run β) : ((Except.ok a : Run α) >>= f) = f a := rfl

@[simp] theorem error_bind (e : Fault) (f : α → Run β) :
    ((Except.error e : Run α) >>= f) = .error e := rfl

@[simp] theorem pure_eq (a : α) : (pure a : Run α) = .ok a := rfl

@[simp] theorem throw_eq (e : Fault) : (throw e : Run α) = .error e := rfl

@[simp] theorem toOption_ofOption (o : Option α) : (ofOption o).toOption = o := by
  cases o <;> rfl

@[simp] theorem ofOption_ne_access (o : Option α) : ofOption o ≠ .error .access := by
  cases o <;> simp [ofOption]

/-- A fault of a run in two parts is one of its parts. -/
theorem bind_ne {x : Run α} {f : α → Run β} {e : Fault} (hx : x ≠ .error e)
    (hf : ∀ a, f a ≠ .error e) : (x >>= f) ≠ .error e := by
  cases x with
  | ok a => exact hf a
  | error e' => exact fun h => hx (by cases h; rfl)

theorem ofOption_map (o : Option α) (f : α → β) :
    (ofOption o >>= fun a => .ok (f a)) = ofOption (o.map f) := by
  cases o <;> rfl

end Run

namespace Json

def isString : Json → Bool
  | .string _ => true
  | _ => false

def isArray : Json → Bool
  | .array _ => true
  | _ => false

def isInt : Json → Bool
  | .int n => -2 ^ 31 ≤ n ∧ n < 2 ^ 31
  | _ => false

def isInt64 : Json → Bool
  | .int n => -2 ^ 63 ≤ n ∧ n < 2 ^ 63
  | _ => false

def isUint64 : Json → Bool
  | .int n => 0 ≤ n ∧ n < 2 ^ 64
  | _ => false

end Json

/-! ## The accessors -/

namespace Access

/-- `none` is `MemberEnd`. -/
def findMember (v : Json) (name : Bytes) : Run (Option Json) :=
  match v with
  | .object members => .ok ((members.find? (·.1 = name)).map (·.2))
  | _ => .error .access

def hasMember (v : Json) (name : Bytes) : Run Bool := do
  let i ← findMember v name
  pure i.isSome

/-- `v[name]`. -/
def member (v : Json) (name : Bytes) : Run Json := do
  match ← findMember v name with
  | some w => pure w
  | none => throw .access

def objectEmpty : Json → Run Bool
  | .object members => .ok members.isEmpty
  | _ => .error .access

/-- `GetString`, up to the zero. -/
def getString : Json → Run Bytes
  | .string s => .ok (cstr s)
  | _ => .error .access

/-- `GetArray`. -/
def getArray : Json → Run (List Json)
  | .array elements => .ok elements
  | _ => .error .access

/-- `v[i]` of an array. -/
def element (v : List Json) (i : Nat) : Run Json :=
  match v[i]? with
  | some w => .ok w
  | none => .error .access

def getInt (v : Json) : Run Int :=
  match v with
  | .int n => if v.isInt then .ok n else .error .access
  | _ => .error .access

def getInt64 (v : Json) : Run Int :=
  match v with
  | .int n => if v.isInt64 then .ok n else .error .access
  | _ => .error .access

def getUint64 (v : Json) : Run Nat :=
  match v with
  | .int n => if v.isUint64 then .ok n.toNat else .error .access
  | _ => .error .access

theorem findMember_eq {v : Json} (h : v.isObject) (name : Bytes) :
    findMember v name = .ok (v.find name) := by
  cases v <;> first | rfl | cases h

@[simp] theorem hasMember_eq {v : Json} (h : v.isObject) (name : Bytes) :
    hasMember v name = .ok (v.find name).isSome := by
  simp [hasMember, findMember_eq h]

theorem member_eq {v : Json} (h : v.isObject) (name : Bytes) :
    member v name = match v.find name with | some w => .ok w | none => .error .access := by
  rw [member, findMember_eq h]
  cases v.find name <;> rfl

end Access

/-! ## The getters that look first -/

namespace Checked

open Access

variable {α : Type}

/-- mirrors src/base/io/json/Json.cpp:50-53 -/
def isEmpty (obj : Json) : Run Bool :=
  if obj.isObject then objectEmpty obj else pure true

/-- The member if it passes a test; the getters differ in the test and in the typed
getter behind it.
mirrors src/base/io/json/Json.cpp:35-47 -/
def typed (is : Json → Bool) (get : Json → Run α) (obj : Json) (key : Bytes) (defaultValue : α) :
    Run α := do
  if ← isEmpty obj then pure defaultValue
  else
    match ← findMember obj key with
    | some v => if is v then get v else pure defaultValue
    | none => pure defaultValue

/-- mirrors src/base/io/json/Json.cpp:56-68 -/
def getString (obj : Json) (key : Bytes) : Run (Option Bytes) :=
  typed Json.isString (fun v => do pure (some (← Access.getString v))) obj key none

/-- mirrors src/base/io/json/Json.cpp:86-98 -/
def getObject (obj : Json) (key : Bytes) : Run Json := typed Json.isObject pure obj key .null

/-- mirrors src/base/io/json/Json.cpp:101-113 -/
def getValue (obj : Json) (key : Bytes) : Run Json := typed (fun _ => true) pure obj key .null

/-- mirrors src/base/io/json/Json.cpp:131-143 -/
def getInt (obj : Json) (key : Bytes) : Run Int := typed Json.isInt Access.getInt obj key 0

/-- mirrors src/base/io/json/Json.cpp:180-192 -/
def getUint64 (obj : Json) (key : Bytes) : Run Nat :=
  typed Json.isUint64 Access.getUint64 obj key 0

/-- A typed getter behind its own test gives the value or the default. -/
theorem typed_eq {is : Json → Bool} {get : Json → Run α} {f : Json → α}
    (h : ∀ v, is v = true → get v = .ok (f v)) (obj : Json) (key : Bytes) (d : α) :
    typed is get obj key d =
      .ok (match obj.find key with | some v => if is v then f v else d | none => d) := by
  cases obj with
  | object members =>
    cases members with
    | nil => rfl
    | cons m members =>
      have he : isEmpty (.object (m :: members)) = .ok false := rfl
      rw [typed, he, Run.ok_bind, if_neg (by simp), findMember_eq rfl, Run.ok_bind]
      cases (Json.object (m :: members)).find key with
      | none => rfl
      | some v =>
        cases hv : is v with
        | true => simp [hv, h v hv]
        | false => simp [hv]
  | _ => rfl

@[simp] theorem getString_eq (obj : Json) (key : Bytes) :
    getString obj key = .ok (obj.getString key) := by
  let f : Json → Option Bytes := fun v => match v with | .string s => some (cstr s) | _ => none
  have h : ∀ v : Json, v.isString = true →
      (do pure (some (← Access.getString v)) : Run (Option Bytes)) = .ok (f v) := by
    intro v hv
    cases v <;> first | rfl | cases hv
  rw [getString, typed_eq h, Json.getString]
  cases obj.find key with
  | none => rfl
  | some v => cases v <;> rfl

@[simp] theorem getObject_eq (obj : Json) (key : Bytes) :
    getObject obj key = .ok (obj.getObject key) := by
  have h : ∀ v : Json, v.isObject = true → (pure v : Run Json) = .ok (id v) := fun _ _ => rfl
  rw [getObject, typed_eq h, Json.getObject]
  cases obj.find key with
  | none => rfl
  | some v => cases v <;> rfl

@[simp] theorem getValue_eq (obj : Json) (key : Bytes) :
    getValue obj key = .ok (obj.getValue key) := by
  have h : ∀ v : Json, true = true → (pure v : Run Json) = .ok (id v) := fun _ _ => rfl
  rw [getValue, typed_eq h, Json.getValue]
  cases obj.find key <;> rfl

@[simp] theorem getInt_eq (obj : Json) (key : Bytes) :
    getInt obj key = .ok (obj.getInt key 0) := by
  let f : Json → Int := fun v => match v with | .int n => n | _ => 0
  have h : ∀ v : Json, v.isInt = true → Access.getInt v = .ok (f v) := by
    intro v hv
    cases v <;> first | cases hv | exact if_pos hv
  rw [getInt, typed_eq h, Json.getInt, Json.getIntegral]
  cases obj.find key with
  | none => rfl
  | some v => cases v <;> simp [Json.isInt, f]

@[simp] theorem getUint64_eq (obj : Json) (key : Bytes) :
    getUint64 obj key = .ok (obj.getUint64 key 0) := by
  let f : Json → Nat := fun v => match v with | .int n => n.toNat | _ => 0
  have h : ∀ v : Json, v.isUint64 = true → Access.getUint64 v = .ok (f v) := by
    intro v hv
    cases v <;> first | cases hv | exact if_pos hv
  rw [getUint64, typed_eq h, Json.getUint64, Json.getIntegral]
  cases obj.find key with
  | none => rfl
  | some v =>
    cases v with
    | int n => rw [apply_ite Int.toNat]; simp [Json.isUint64, f]
    | _ => rfl

end Checked

end Rxs
