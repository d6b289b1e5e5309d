import Mathlib.Algebra.Group.Int.Defs
import Mathlib.Algebra.Group.Nat.Defs
import Mathlib.Data.List.Basic

namespace SwarmDB

-- A JsonCpp value. What becomes of a floating-point number when it is read as an unsigned
-- integer (nothing, when it is out of range) or as text is up to the C++ library.
inductive Json
  | null
  | bool (value : Bool)
  | integer (value : Int)
  | real (truncated : Option Nat) (text : String)
  | string (value : String)
  | array (elements : List Json)
  | object (members : List (String × Json))

namespace Json

-- JsonCpp throws where a value has the wrong kind, which is none here.
def asString : Json → Option String
  | null => some ""
  | bool value => some (if value then "true" else "false")
  | integer value => some (toString value)
  | real _ text => some text
  | string value => some value
  | array _ | object _ => none

def asUInt : Json → Option Nat
  | null => some 0
  | bool value => some value.toNat
  | integer value => if 0 ≤ value ∧ value < 2 ^ 32 then some value.toNat else none
  | real truncated _ => truncated.filter (· < 2 ^ 32)
  | string _ | array _ | object _ => none

def isMember (name : String) : Json → Option Bool
  | null => some false
  | object members => some (members.any fun m => m.1 == name)
  | _ => none

-- A member that is missing reads as null.
def member (name : String) : Json → Option Json
  | null => some null
  | object members => some ((members.lookup name).getD null)
  | _ => none

-- What begin() and end() enclose. The members of an object stand in the order of their names.
def elements : Json → List Json
  | array elements => elements
  | object members => members.map Prod.snd
  | null | bool _ | integer _ | real _ _ | string _ => []

def append (json last : Json) : Option Json :=
  match json with
  | null => some (array [last])
  | array elements => some (array (elements ++ [last]))
  | bool _ | integer _ | real _ _ | string _ | object _ => none

-- A member as text, and whether there is one that is not empty.
def text (name : String) (json : Json) : Option String := (json.member name).bind asString

def hasText (name : String) (json : Json) : Option Bool := do
  if ← json.isMember name then return (← json.text name) ≠ ""
  else return false

-- A member that is not there has an empty text.
theorem hasText_eq (name : String) (json : Json) :
    json.hasText name = (json.text name).map fun text => decide (text ≠ "") := by
  cases json with
  | null | bool _ | integer _ | real _ _ | string _ | array _ => rfl
  | object members =>
      have hmember : members.any (fun m => m.1 == name) = (members.lookup name).isSome := by
        rw [Bool.eq_iff_iff, List.any_eq_true, List.lookup_isSome_iff]
        simp only [BEq.comm]
      simp only [hasText, text, member, isMember, hmember, Option.bind_eq_bind, Option.bind_some]
      cases members.lookup name with
      | none => rfl
      | some held =>
          simp only [Option.isSome_some, if_true, Option.getD_some]
          cases held.asString <;> rfl

end Json

end SwarmDB
