import Mathlib.Data.List.Nodup
import ShaderTint.Json.Value

namespace ShaderTint.Json

/-!
# Objects with distinct keys

An object whose keys are distinct is a table: each of its names has one value, in
whatever order the members are written.

Main statements: `member?_eq_some_iff` says that looking up a name finds its
member, and `member?_of_perm` and `member?_of_unlike` say which changes of an object
a name does not notice.
-/

mutual

/-- No object in the value, at any depth, has two members of one name. -/
def DistinctKeys : Json → Prop
  | .null => True
  | .bool _ => True
  | .number _ => True
  | .string _ => True
  | .array items => DistinctKeysOfItems items
  | .object members =>
      (members.map Prod.fst).Nodup ∧ DistinctKeysOfMembers members

/-- All array items have distinct keys. -/
def DistinctKeysOfItems : List Json → Prop
  | [] => True
  | item :: rest => item.DistinctKeys ∧ DistinctKeysOfItems rest

/-- The values of all object members have distinct keys. -/
def DistinctKeysOfMembers : List (String × Json) → Prop
  | [] => True
  | (_, value) :: rest => value.DistinctKeys ∧ DistinctKeysOfMembers rest

end

/-- An item has distinct keys when all items have. -/
theorem DistinctKeysOfItems.of_mem
    {item : Json}
    {items : List Json}
    (distinct : DistinctKeysOfItems items)
    (present : item ∈ items) :
    item.DistinctKeys := by
  induction items with
  | nil =>
      cases present
  | cons first rest inductionHypothesis =>
      rcases List.mem_cons.mp present with rfl | later
      · exact distinct.1
      · exact inductionHypothesis distinct.2 later

/-- The value of a member has distinct keys when all values have. -/
theorem DistinctKeysOfMembers.of_mem
    {name : String}
    {value : Json}
    {members : List (String × Json)}
    (distinct : DistinctKeysOfMembers members)
    (present : (name, value) ∈ members) :
    value.DistinctKeys := by
  induction members with
  | nil =>
      cases present
  | cons first rest inductionHypothesis =>
      rcases List.mem_cons.mp present with rfl | later
      · exact distinct.1
      · exact inductionHypothesis distinct.2 later

/-- The order of members makes no difference to the keys in their values. -/
theorem DistinctKeysOfMembers.of_perm
    {members others : List (String × Json)}
    (distinct : DistinctKeysOfMembers members)
    (reordered : members.Perm others) :
    DistinctKeysOfMembers others := by
  induction reordered with
  | nil =>
      exact distinct
  | cons member _ inductionHypothesis =>
      exact ⟨distinct.1, inductionHypothesis distinct.2⟩
  | swap first second rest =>
      exact ⟨distinct.2.1, distinct.1, distinct.2.2⟩
  | trans _ _ firstHypothesis secondHypothesis =>
      exact secondHypothesis (firstHypothesis distinct)

/-- The order of members makes no difference to how deep their values nest. -/
theorem nestingOfMembers_of_perm
    {members others : List (String × Json)}
    (reordered : members.Perm others) :
    nestingOfMembers others = nestingOfMembers members := by
  induction reordered with
  | nil =>
      rfl
  | cons member _ inductionHypothesis =>
      rw [nestingOfMembers, nestingOfMembers, inductionHypothesis]
  | swap first second rest =>
      simp only [nestingOfMembers]
      omega
  | trans _ _ firstHypothesis secondHypothesis =>
      exact secondHypothesis.trans firstHypothesis

/-! ## Looking up names -/

section

variable {name : String} {members others : List (String × Json)}

/-- A name is not found when no member has it. -/
theorem member?_eq_none_iff :
    member? name members = none ↔ ∀ value, (name, value) ∉ members := by
  induction members with
  | nil =>
      simp [member?]
  | cons first rest inductionHypothesis =>
      obtain ⟨key, held⟩ := first
      rw [member?]
      cases later : member? name rest with
      | some found =>
          have present : ¬∀ value, (name, value) ∉ rest := by
            rw [← inductionHypothesis, later]
            simp
          simp only [reduceCtorEq, List.mem_cons, false_iff]
          intro absent
          exact present fun value isThere => absent value (.inr isThere)
      | none =>
          have absent := inductionHypothesis.mp later
          by_cases same : key = name
          · subst same
            simp only [if_true, reduceCtorEq, false_iff]
            intro missing
            exact missing held List.mem_cons_self
          · have unlike : name ≠ key := Ne.symm same
            simp [same, unlike, absent]

/-- Where keys are distinct, looking up a name finds the member of that name. -/
theorem member?_eq_some_iff
    (distinct : (members.map Prod.fst).Nodup)
    {value : Json} :
    member? name members = some value ↔ (name, value) ∈ members := by
  induction members generalizing value with
  | nil =>
      simp [member?]
  | cons first rest inductionHypothesis =>
      obtain ⟨key, held⟩ := first
      rw [List.map_cons, List.nodup_cons] at distinct
      obtain ⟨isNew, restDistinct⟩ := distinct
      rw [member?, List.mem_cons]
      cases later : member? name rest with
      | some found =>
          -- The name is taken by a later member, so the first one is not it.
          have present : (name, found) ∈ rest :=
            (inductionHypothesis restDistinct).mp later
          have unlike : name ≠ key := by
            rintro rfl
            exact isNew (List.mem_map.mpr ⟨_, present, rfl⟩)
          simp [← inductionHypothesis restDistinct, later, unlike]
      | none =>
          have absent := member?_eq_none_iff.mp later
          simp [absent, eq_comm]

/-- The order of members with distinct keys makes no difference to a name. -/
theorem member?_of_perm
    (distinct : (members.map Prod.fst).Nodup)
    (reordered : members.Perm others)
    (name : String) :
    member? name others = member? name members := by
  have othersDistinct : (others.map Prod.fst).Nodup :=
    (reordered.map Prod.fst).nodup_iff.mp distinct
  apply Option.ext
  intro value
  rw [member?_eq_some_iff othersDistinct, member?_eq_some_iff distinct,
    reordered.mem_iff]

/-- The later of two lists of members is looked at first. -/
theorem member?_append
    (name : String)
    (first second : List (String × Json)) :
    member? name (first ++ second) =
      (member? name second).or (member? name first) := by
  induction first with
  | nil =>
      simp [member?]
  | cons head rest inductionHypothesis =>
      obtain ⟨key, held⟩ := head
      rw [List.cons_append, member?, inductionHypothesis, member?]
      cases member? name second <;> cases member? name rest <;> simp

/-- A member of another name makes no difference to a name. -/
theorem member?_of_unlike
    {key : String}
    (unlike : key ≠ name)
    (before after : List (String × Json))
    (value : Json) :
    member? name (before ++ (key, value) :: after) =
      member? name (before ++ after) := by
  rw [member?_append, member?_append, member?]
  cases member? name after <;> simp [unlike]

end

end ShaderTint.Json
