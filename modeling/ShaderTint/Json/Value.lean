import ShaderTint.Decimal.Basic

namespace ShaderTint

/-!
# JSON values

Members of an object are kept in the order in which they are written. A number
is an integer when it is written without fraction and exponent and fits 64 bits;
every other number is a decimal.
-/

/-- A JSON number. -/
inductive JsonNumber where
  | integer (value : Int)
  | real (value : Decimal)
  deriving DecidableEq

/-- A JSON value. -/
inductive Json where
  | null
  | bool (value : Bool)
  | number (value : JsonNumber)
  | string (value : String)
  | array (items : List Json)
  | object (members : List (String × Json))

namespace Json

/-- The number of a natural number. -/
def ofNat
    (value : Nat) :
    Json :=
  .number (.integer value)

/-- The value of the last member with a name. -/
def member?
    (name : String) :
    List (String × Json) → Option Json
  | [] => none
  | (key, value) :: rest =>
      match member? name rest with
      | some later => some later
      | none => if key = name then some value else none

/-- A member is smaller than the object that holds it. -/
theorem sizeOf_member?
    {name : String}
    {members : List (String × Json)}
    {value : Json}
    (found : member? name members = some value) :
    sizeOf value < sizeOf members := by
  induction members with
  | nil =>
      simp [member?] at found
  | cons first rest inductionHypothesis =>
      obtain ⟨key, head⟩ := first
      rw [member?] at found
      cases later : member? name rest with
      | some _ =>
          rw [later] at found
          have smaller := inductionHypothesis (later.trans found)
          simp only [List.cons.sizeOf_spec]
          omega
      | none =>
          rw [later] at found
          simp only [Option.ite_none_right_eq_some, Option.some.injEq] at found
          rw [← found.2]
          simp only [List.cons.sizeOf_spec, Prod.mk.sizeOf_spec]
          omega

mutual

/-- Number of arrays and objects on the longest way into a value. -/
def nesting : Json → Nat
  | .null => 0
  | .bool _ => 0
  | .number _ => 0
  | .string _ => 0
  | .array items => nestingOfItems items + 1
  | .object members => nestingOfMembers members + 1

/-- The largest nesting among array items. -/
def nestingOfItems : List Json → Nat
  | [] => 0
  | item :: rest => max item.nesting (nestingOfItems rest)

/-- The largest nesting among object members. -/
def nestingOfMembers : List (String × Json) → Nat
  | [] => 0
  | (_, value) :: rest => max value.nesting (nestingOfMembers rest)

end

end Json

end ShaderTint
