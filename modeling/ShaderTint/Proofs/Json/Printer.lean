import ShaderTint.Json.Printer

namespace ShaderTint.Json

/-!
# How long written values are

Readers that walk a text by fuel take the fuel from the length of the text, so
what bounds it from below is that every written value adds characters.
-/

theorem length_lt_stringOnto
    (value : String)
    (after : List Char) :
    after.length < (stringOnto value after).length := by
  simp only [stringOnto, List.length_cons, List.length_append]
  omega

theorem numberChars_ne_nil
    (value : JsonNumber) :
    numberChars value ≠ [] := by
  cases value with
  | integer value =>
      cases value <;> simp [numberChars, intChars]
  | real decimal =>
      simp [numberChars]

mutual

/-- Writing a value adds to the text after it. -/
theorem length_lt_compactOnto :
    (value : Json) →
      (after : List Char) →
        after.length < (value.compactOnto after).length
  | .null, after => by
      simp only [compactOnto, List.length_cons]
      omega
  | .bool true, after => by
      simp only [compactOnto, List.length_cons]
      omega
  | .bool false, after => by
      simp only [compactOnto, List.length_cons]
      omega
  | .number value, after => by
      have written := List.length_pos_iff.mpr (numberChars_ne_nil value)
      simp only [compactOnto, List.length_append]
      omega
  | .string value, after => by
      rw [compactOnto]
      exact length_lt_stringOnto value after
  | .array [], after => by
      simp only [compactOnto, List.length_cons]
      omega
  | .array (first :: others), after => by
      have ofOthers := length_le_compactItemsOnto others (']' :: after)
      have ofFirst :=
        length_lt_compactOnto first (compactItemsOnto others (']' :: after))
      simp only [compactOnto, List.length_cons] at ofOthers ⊢
      omega
  | .object [], after => by
      simp only [compactOnto, List.length_cons]
      omega
  | .object ((name, value) :: others), after => by
      have ofOthers := length_le_compactMembersOnto others ('\x7d' :: after)
      have ofValue :=
        length_lt_compactOnto value (compactMembersOnto others ('\x7d' :: after))
      have ofName :=
        length_lt_stringOnto name
          (':' :: compactOnto value (compactMembersOnto others ('\x7d' :: after)))
      simp only [compactOnto, List.length_cons] at ofOthers ofName ⊢
      omega

theorem length_le_compactItemsOnto :
    (items : List Json) →
      (after : List Char) →
        after.length ≤ (compactItemsOnto items after).length
  | [], after => by
      simp [compactItemsOnto]
  | item :: others, after => by
      have ofOthers := length_le_compactItemsOnto others after
      have ofItem := length_lt_compactOnto item (compactItemsOnto others after)
      simp only [compactItemsOnto, List.length_cons]
      omega

theorem length_le_compactMembersOnto :
    (members : List (String × Json)) →
      (after : List Char) →
        after.length ≤ (compactMembersOnto members after).length
  | [], after => by
      simp [compactMembersOnto]
  | (name, value) :: others, after => by
      have ofOthers := length_le_compactMembersOnto others after
      have ofValue := length_lt_compactOnto value (compactMembersOnto others after)
      have ofName :=
        length_lt_stringOnto name
          (':' :: compactOnto value (compactMembersOnto others after))
      simp only [compactMembersOnto, List.length_cons] at ofName ⊢
      omega

end

theorem length_lt_lineBreakOnto
    (level : Nat)
    (after : List Char) :
    after.length < (lineBreakOnto level after).length := by
  simp only [lineBreakOnto, List.length_cons, List.length_append]
  omega

mutual

/-- Writing a value over several lines adds to the text after it. -/
theorem length_lt_prettyOnto :
    (value : Json) →
      (level : Nat) →
        (after : List Char) →
          after.length < (value.prettyOnto level after).length
  | .null, level, after => by
      simp only [prettyOnto, List.length_cons]
      omega
  | .bool true, level, after => by
      simp only [prettyOnto, List.length_cons]
      omega
  | .bool false, level, after => by
      simp only [prettyOnto, List.length_cons]
      omega
  | .number value, level, after => by
      have written := List.length_pos_iff.mpr (numberChars_ne_nil value)
      simp only [prettyOnto, List.length_append]
      omega
  | .string value, level, after => by
      rw [prettyOnto]
      exact length_lt_stringOnto value after
  | .array [], level, after => by
      simp only [prettyOnto, List.length_cons]
      omega
  | .array (first :: others), level, after => by
      rw [prettyOnto]
      calc
        after.length < (lineBreakOnto level (']' :: after)).length :=
          Nat.lt_of_succ_lt (length_lt_lineBreakOnto level (']' :: after))
        _ ≤ _ := length_le_prettyItemsOnto others (level + 1) _
        _ < _ := length_lt_prettyOnto first (level + 1) _
        _ < _ := length_lt_lineBreakOnto (level + 1) _
        _ < _ := Nat.lt_succ_self _
  | .object [], level, after => by
      simp only [prettyOnto, List.length_cons]
      omega
  | .object ((name, value) :: others), level, after => by
      rw [prettyOnto]
      calc
        after.length < (lineBreakOnto level ('\x7d' :: after)).length :=
          Nat.lt_of_succ_lt (length_lt_lineBreakOnto level ('\x7d' :: after))
        _ ≤ _ := length_le_prettyMembersOnto others (level + 1) _
        _ < _ := length_lt_prettyOnto value (level + 1) _
        _ < _ := Nat.lt_add_of_pos_right (show 0 < 2 by decide)
        _ < _ := length_lt_stringOnto name (':' :: ' ' :: _)
        _ < _ := length_lt_lineBreakOnto (level + 1) _
        _ < _ := Nat.lt_succ_self _

theorem length_le_prettyItemsOnto :
    (items : List Json) →
      (level : Nat) →
        (after : List Char) →
          after.length ≤ (prettyItemsOnto level items after).length
  | [], level, after => by
      simp [prettyItemsOnto]
  | item :: others, level, after => by
      rw [prettyItemsOnto]
      apply Nat.le_of_lt
      calc
        after.length ≤ _ := length_le_prettyItemsOnto others level after
        _ < _ := length_lt_prettyOnto item level _
        _ < _ := length_lt_lineBreakOnto level _
        _ < _ := Nat.lt_succ_self _

theorem length_le_prettyMembersOnto :
    (members : List (String × Json)) →
      (level : Nat) →
        (after : List Char) →
          after.length ≤ (prettyMembersOnto level members after).length
  | [], level, after => by
      simp [prettyMembersOnto]
  | (name, value) :: others, level, after => by
      rw [prettyMembersOnto]
      apply Nat.le_of_lt
      calc
        after.length ≤ _ := length_le_prettyMembersOnto others level after
        _ < _ := length_lt_prettyOnto value level _
        _ < _ := Nat.lt_add_of_pos_right (show 0 < 2 by decide)
        _ < _ := length_lt_stringOnto name (':' :: ' ' :: _)
        _ < _ := length_lt_lineBreakOnto level _
        _ < _ := Nat.lt_succ_self _

end

end ShaderTint.Json
