import ShaderTint.Json.Reader
import ShaderTint.Proofs.Wire.Rendering

namespace ShaderTint

/-!
# Values over several lines read back

What is written over several lines differs from what is written without blanks by the
blanks between words only, and readers skip these. So a value is read back from it,
strings with whatever characters included. Only numbers may get lost: not every number
is written in a way that is read as the same number. `Legible` says that none is.

Main statement: `Json.read_pretty`.
-/

/-- The number is read back from its digits. -/
def JsonNumber.Legible
    (number : JsonNumber) :
    Prop :=
  ∀ after,
    Json.EndsNumber after →
    Json.readNumber (Json.numberChars number ++ after) = .ok (number, after)

namespace Json

mutual

/-- Every number in the value is read back from its digits. -/
def Legible : Json → Prop
  | .null => True
  | .bool _ => True
  | .number value => value.Legible
  | .string _ => True
  | .array items => LegibleItems items
  | .object members => LegibleMembers members

/-- All array items are legible. -/
def LegibleItems : List Json → Prop
  | [] => True
  | item :: rest => item.Legible ∧ LegibleItems rest

/-- The values of all object members are legible. -/
def LegibleMembers : List (String × Json) → Prop
  | [] => True
  | (_, value) :: rest => value.Legible ∧ LegibleMembers rest

end

/-- Natural numbers of 64 bits are legible. -/
theorem legible_ofNat
    {value : Nat}
    (fits : value < UInt64.size) :
    (Json.ofNat value).Legible :=
  fun _ ends => readNumber_toDigits fits ends

theorem legibleItems_iff
    {items : List Json} :
    LegibleItems items ↔ ∀ item ∈ items, item.Legible := by
  induction items with
  | nil =>
      simp [LegibleItems]
  | cons item rest inductionHypothesis =>
      simp [LegibleItems, inductionHypothesis]

/-! ## Blanks -/

/-- A new line and its indentation are blanks. -/
theorem skipBlanks_lineBreakOnto
    (level : Nat)
    (text : List Char) :
    skipBlanks (lineBreakOnto level text) = skipBlanks text := by
  have blanks :
      ∀ character ∈ List.replicate (2 * level) ' ', isBlank character = true := by
    intro character member
    rw [List.eq_of_mem_replicate member]
    rfl
  exact List.dropWhile_append_of_pos blanks

/-- A value over several lines begins as its shape says. -/
theorem exists_prettyOnto_eq_cons
    (value : Json)
    (level : Nat)
    (after : List Char) :
    ∃ character rest,
      value.prettyOnto level after = character :: rest ∧
        Wire.Opens value character := by
  match value with
  | .null => exact ⟨_, _, rfl, rfl⟩
  | .bool true => exact ⟨_, _, rfl, .inl rfl⟩
  | .bool false => exact ⟨_, _, rfl, .inr rfl⟩
  | .number (.integer value) =>
      rw [prettyOnto, numberChars, ← Wire.Spelling.onto_ofInt]
      exact Wire.Spelling.exists_onto_eq_cons _ _
  | .number (.real decimal) =>
      rw [prettyOnto, ← Wire.Spelling.onto_ofDecimal]
      exact Wire.Spelling.exists_onto_eq_cons _ _
  | .string _ => exact ⟨_, _, rfl, rfl⟩
  | .array [] => exact ⟨_, _, rfl, rfl⟩
  | .array (_ :: _) => exact ⟨_, _, rfl, rfl⟩
  | .object [] => exact ⟨_, _, rfl, rfl⟩
  | .object (_ :: _) => exact ⟨_, _, rfl, rfl⟩

/-- Blanks end where a value begins. -/
theorem skipBlanks_prettyOnto
    (value : Json)
    (level : Nat)
    (after : List Char) :
    skipBlanks (value.prettyOnto level after) = value.prettyOnto level after := by
  obtain ⟨character, rest, shape, opens⟩ :=
    exists_prettyOnto_eq_cons value level after
  rw [shape]
  exact skipBlanks_cons opens.isBlank_eq_false rest

/-- On a line of its own a value is found behind the indentation. -/
theorem skipBlanks_lineBreakOnto_prettyOnto
    (value : Json)
    (level : Nat)
    (after : List Char) :
    skipBlanks (lineBreakOnto level (value.prettyOnto level after)) =
      value.prettyOnto level after := by
  rw [skipBlanks_lineBreakOnto, skipBlanks_prettyOnto]

/-- On a line of its own a name is found behind the indentation. -/
theorem skipBlanks_lineBreakOnto_stringOnto
    (name : String)
    (level : Nat)
    (after : List Char) :
    skipBlanks (lineBreakOnto level (stringOnto name after)) =
      stringOnto name after :=
  skipBlanks_lineBreakOnto level _

theorem prettyOnto_ne_closing
    (value : Json)
    (level : Nat)
    (after rest : List Char) :
    value.prettyOnto level after ≠ ']' :: rest := by
  obtain ⟨character, others, shape, opens⟩ :=
    exists_prettyOnto_eq_cons value level after
  rw [shape]
  intro closes
  exact opens.ne_closing (List.cons.inj closes).1

/-- No number goes on into the items after it. -/
theorem endsNumber_prettyItemsOnto
    (level outer : Nat)
    (items : List Json)
    (after : List Char) :
    EndsNumber (prettyItemsOnto level items (lineBreakOnto outer after)) := by
  cases items with
  | nil => exact endsNumber_cons (by decide) _
  | cons => exact endsNumber_cons (by decide) _

/-- No number goes on into the members after it. -/
theorem endsNumber_prettyMembersOnto
    (level outer : Nat)
    (members : List (String × Json))
    (after : List Char) :
    EndsNumber (prettyMembersOnto level members (lineBreakOnto outer after)) := by
  cases members with
  | nil => exact endsNumber_cons (by decide) _
  | cons => exact endsNumber_cons (by decide) _

/-! ## One step of a reader -/

/-- Read the items of an array that come after one of them. -/
def itemsAfter
    (fuel : Nat)
    (text : List Char) :
    Except Flaw (List Json × List Char) :=
  match skipBlanks text with
  | ',' :: rest => readItems fuel rest
  | ']' :: rest => .ok ([], rest)
  | other => .error (flawAt other)

/-- Read the members of an object that come after one of them. -/
def membersAfter
    (fuel : Nat)
    (text : List Char) :
    Except Flaw (List (String × Json) × List Char) :=
  match skipBlanks text with
  | ',' :: rest => readMembers fuel rest
  | '\x7d' :: rest => .ok ([], rest)
  | other => .error (flawAt other)

section

variable
  {fuel : Nat}
  {text inner rest after : List Char}
  {character : Char}

/-- What begins like a number is read as a number. -/
theorem readValue_of_startsNumber
    (shown : skipBlanks text = character :: rest)
    (starts : startsNumber character = true) :
    readValue (fuel + 1) text =
      readNumber (character :: rest) >>= fun read =>
        .ok (.number read.1, read.2) := by
  have notOther (other : Char) (isOther : startsNumber other = false) :
      character ≠ other :=
    ne_of_test starts isOther
  rw [readValue, shown]
  simp only [notOther 'n' rfl, notOther 't' rfl, notOther 'f' rfl,
    notOther '"' rfl, notOther '[' rfl, notOther '\x7b' rfl, imp_self, starts, if_true]
  rfl

/-- An array that does not close at once is read item by item. -/
theorem readValue_of_items
    {items : List Json}
    (shown : skipBlanks text = '[' :: inner)
    (notClosed : ∀ more, skipBlanks inner ≠ ']' :: more)
    (read : readItems fuel (skipBlanks inner) = .ok (items, after)) :
    readValue (fuel + 1) text = .ok (.array items, after) := by
  rw [readValue, shown]
  simp only [read]
  rfl

/-- An object that begins with a name is read member by member. -/
theorem readValue_of_members
    {name : String}
    {members : List (String × Json)}
    (shown : skipBlanks text = '\x7b' :: inner)
    (inside : skipBlanks inner = stringOnto name rest)
    (read : readMembers fuel (stringOnto name rest) = .ok (members, after)) :
    readValue (fuel + 1) text = .ok (.object members, after) := by
  rw [readValue, shown]
  simp only [inside]
  change (readMembers fuel (stringOnto name rest) >>= _) = _
  rw [read]
  rfl

/-- After an item there are more of them, or the array closes. -/
theorem itemsAfter_cases
    {items : List Json}
    (read : itemsAfter fuel text = .ok (items, after)) :
    (∃ rest,
      skipBlanks text = ',' :: rest ∧ readItems fuel rest = .ok (items, after)) ∨
        (items = [] ∧ skipBlanks text = ']' :: after) := by
  unfold itemsAfter at read
  split at read
  · next more => exact .inl ⟨_, more, read⟩
  · next closes =>
      obtain ⟨rfl, rfl⟩ := Prod.mk.inj (Except.ok.inj read)
      exact .inr ⟨rfl, closes⟩
  · contradiction

/-- After a member there are more of them, or the object closes. -/
theorem membersAfter_cases
    {members : List (String × Json)}
    (read : membersAfter fuel text = .ok (members, after)) :
    (∃ rest,
      skipBlanks text = ',' :: rest ∧ readMembers fuel rest = .ok (members, after)) ∨
        (members = [] ∧ skipBlanks text = '\x7d' :: after) := by
  unfold membersAfter at read
  split at read
  · next more => exact .inl ⟨_, more, read⟩
  · next closes =>
      obtain ⟨rfl, rfl⟩ := Prod.mk.inj (Except.ok.inj read)
      exact .inr ⟨rfl, closes⟩
  · contradiction

/-- Items are read as one item and those after it. -/
theorem readItems_of_first
    {item : Json}
    {items : List Json}
    (first : readValue fuel text = .ok (item, rest))
    (others : itemsAfter fuel rest = .ok (items, after)) :
    readItems (fuel + 1) text = .ok (item :: items, after) := by
  rw [readItems, first, ok_bind]
  obtain ⟨more, goesOn, read⟩ | ⟨rfl, closes⟩ := itemsAfter_cases others
  · simp only [goesOn, read]
    rfl
  · simp only [closes]
    rfl

/-- Members are read as one member and those after it. -/
theorem readMembers_of_first
    {name : String}
    {value : Json}
    {members : List (String × Json)}
    (shown : skipBlanks text = stringOnto name (':' :: inner))
    (first : readValue fuel inner = .ok (value, rest))
    (others : membersAfter fuel rest = .ok (members, after)) :
    readMembers (fuel + 1) text = .ok ((name, value) :: members, after) := by
  have colon : readColon (':' :: inner) = .ok inner := rfl
  rw [readMembers, shown, stringOnto]
  simp only [stringBody_escaped, colon, first, ok_bind]
  obtain ⟨more, goesOn, read⟩ | ⟨rfl, closes⟩ := membersAfter_cases others
  · simp only [goesOn, read]
    rfl
  · simp only [closes]
    rfl

end

/-! ## Reading back -/

/-- Fuel for a line with an item suffices for the item and for what follows it. -/
theorem exists_fuel_of_item
    {mark : Char}
    {item : Json}
    {level fuel : Nat}
    {after : List Char}
    (enough :
      2 * (mark :: lineBreakOnto level (item.prettyOnto level after)).length <
        fuel + 1) :
    ∃ less,
      fuel = less + 1 ∧
        2 * (item.prettyOnto level after).length < less ∧ 2 * after.length < less := by
  have ofLine := length_lt_lineBreakOnto level (item.prettyOnto level after)
  have ofItem := length_lt_prettyOnto item level after
  rw [List.length_cons] at enough
  exact ⟨fuel - 1, by omega, by omega, by omega⟩

/-- Fuel for a line with a member suffices for its value and for what follows it. -/
theorem exists_fuel_of_member
    {mark : Char}
    {name : String}
    {value : Json}
    {level fuel : Nat}
    {after : List Char}
    (enough :
      2 * (mark :: lineBreakOnto level
        (stringOnto name (':' :: ' ' :: value.prettyOnto level after))).length <
          fuel + 1) :
    ∃ less,
      fuel = less + 1 ∧
        2 * (value.prettyOnto level after).length < less ∧ 2 * after.length < less := by
  have ofLine :=
    length_lt_lineBreakOnto level
      (stringOnto name (':' :: ' ' :: value.prettyOnto level after))
  have ofName :=
    length_lt_stringOnto name (':' :: ' ' :: value.prettyOnto level after)
  have ofValue := length_lt_prettyOnto value level after
  simp only [List.length_cons] at ofName enough
  exact ⟨fuel - 1, by omega, by omega, by omega⟩

-- The induction is on the value; the tails of an array and of an object go along.
mutual

/-- A value is read back from what is written over several lines. -/
theorem readValue_pretty :
    (value : Json) →
      value.Legible →
        ∀ {level fuel : Nat} {text after : List Char},
          EndsNumber after →
          skipBlanks text = value.prettyOnto level after →
          2 * (value.prettyOnto level after).length < fuel →
          readValue fuel text = .ok (value, after)
  | _, _, _, 0, _, _, _, _, enough => absurd enough (Nat.not_lt_zero _)
  | .null, _, level, fuel + 1, text, after, _, shown, _ => by
      rw [readValue, shown, prettyOnto]
      rfl
  | .bool true, _, level, fuel + 1, text, after, _, shown, _ => by
      rw [readValue, shown, prettyOnto]
      rfl
  | .bool false, _, level, fuel + 1, text, after, _, shown, _ => by
      rw [readValue, shown, prettyOnto]
      rfl
  | .number value, legible, level, fuel + 1, text, after, ends, shown, _ => by
      obtain ⟨character, rest, shape, starts⟩ :=
        exists_prettyOnto_eq_cons (.number value) level after
      rw [readValue_of_startsNumber (shown.trans shape) starts, ← shape, prettyOnto,
        legible after ends]
      rfl
  | .string value, _, level, fuel + 1, text, after, _, shown, _ => by
      rw [readValue, shown, prettyOnto, stringOnto]
      simp only [stringBody_escaped]
      rfl
  | .array [], _, level, fuel + 1, text, after, _, shown, _ => by
      rw [readValue, shown, prettyOnto]
      rfl
  | .array (first :: others), legible, level, fuel + 1, text, after, _, shown, enough => by
      rw [prettyOnto] at shown enough
      obtain ⟨less, rfl, ofFirst, ofOthers⟩ :=
        exists_fuel_of_item enough
      apply readValue_of_items shown
      · rw [skipBlanks_lineBreakOnto_prettyOnto]
        exact prettyOnto_ne_closing _ _ _
      · rw [skipBlanks_lineBreakOnto_prettyOnto]
        exact
          readItems_of_first
            (readValue_pretty first legible.1 (endsNumber_prettyItemsOnto _ _ _ _)
              (skipBlanks_prettyOnto _ _ _) ofFirst)
            (itemsAfter_pretty others legible.2 ofOthers)
  | .object [], _, level, fuel + 1, text, after, _, shown, _ => by
      rw [readValue, shown, prettyOnto]
      rfl
  | .object ((name, value) :: others), legible, level, fuel + 1, text, after, _, shown,
      enough => by
      rw [prettyOnto] at shown enough
      obtain ⟨less, rfl, ofValue, ofOthers⟩ :=
        exists_fuel_of_member enough
      apply readValue_of_members shown (skipBlanks_lineBreakOnto_stringOnto _ _ _)
      exact
        readMembers_of_first rfl
          (readValue_pretty value legible.1 (endsNumber_prettyMembersOnto _ _ _ _)
            (skipBlanks_prettyOnto value _ _) ofValue)
          (membersAfter_pretty others legible.2 ofOthers)

/-- The items after the first are read back up to the closing bracket. -/
theorem itemsAfter_pretty :
    (items : List Json) →
      LegibleItems items →
        ∀ {level outer fuel : Nat} {after : List Char},
          2 * (prettyItemsOnto level items
            (lineBreakOnto outer (']' :: after))).length < fuel →
          itemsAfter fuel
              (prettyItemsOnto level items (lineBreakOnto outer (']' :: after))) =
            .ok (items, after)
  | [], _, level, outer, fuel, after, _ => by
      rw [itemsAfter, prettyItemsOnto, skipBlanks_lineBreakOnto]
      rfl
  | item :: others, legible, level, outer, fuel, after, enough => by
      rw [prettyItemsOnto] at enough ⊢
      obtain ⟨less, rfl, ofItem, ofOthers⟩ :=
        exists_fuel_of_item (Nat.lt_succ_of_lt enough)
      exact
        readItems_of_first
          (readValue_pretty item legible.1 (endsNumber_prettyItemsOnto _ _ _ _)
            (skipBlanks_lineBreakOnto_prettyOnto _ _ _) ofItem)
          (itemsAfter_pretty others legible.2 ofOthers)

/-- The members after the first are read back up to the closing brace. -/
theorem membersAfter_pretty :
    (members : List (String × Json)) →
      LegibleMembers members →
        ∀ {level outer fuel : Nat} {after : List Char},
          2 * (prettyMembersOnto level members
            (lineBreakOnto outer ('\x7d' :: after))).length < fuel →
          membersAfter fuel
              (prettyMembersOnto level members
                (lineBreakOnto outer ('\x7d' :: after))) =
            .ok (members, after)
  | [], _, level, outer, fuel, after, _ => by
      rw [membersAfter, prettyMembersOnto, skipBlanks_lineBreakOnto]
      rfl
  | (name, value) :: others, legible, level, outer, fuel, after, enough => by
      rw [prettyMembersOnto] at enough ⊢
      obtain ⟨less, rfl, ofValue, ofOthers⟩ :=
        exists_fuel_of_member (Nat.lt_succ_of_lt enough)
      exact
        readMembers_of_first (skipBlanks_lineBreakOnto_stringOnto _ _ _)
          (readValue_pretty value legible.1 (endsNumber_prettyMembersOnto _ _ _ _)
            (skipBlanks_prettyOnto value _ _) ofValue)
          (membersAfter_pretty others legible.2 ofOthers)

end

/-- A value whose numbers are legible is read back from its text over several lines. -/
theorem read_pretty
    {value : Json}
    (legible : value.Legible) :
    Json.read value.pretty = .ok value := by
  have ofValue :
      readValue (fuelFor (value.prettyOnto 0 [])) (value.prettyOnto 0 []) =
        .ok (value, []) := by
    apply readValue_pretty value legible
    · simp [EndsNumber]
    · exact skipBlanks_prettyOnto value 0 []
    · rw [fuelFor]
      omega
  rw [Json.read, pretty, String.toList_ofList, readChars, ofValue]
  rfl

end Json

end ShaderTint
