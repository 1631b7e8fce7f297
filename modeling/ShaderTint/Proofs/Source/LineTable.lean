import ShaderTint.Source.LineIndex

namespace ShaderTint

/-!
# The table of lines

A line index looks lines up in a table of offsets. Here that table is held to what
it is about: line `n` starts where `n` newlines have gone by, at the start of the
source or right after a newline.

Main statements: `LineIndex.startsLine_of_getElem?` says that every entry of the
table is the start of its line, and `LineIndex.position_eq` where an offset within
the source stands.
-/

/-- The line with this number starts at this offset. -/
structure StartsLine
    (bytes : List UInt8)
    (line start : Nat) :
    Prop where
  /-- So many newlines come before it. -/
  count_before : (bytes.take start).count newline = line
  /-- It is the start of the source, or the byte before it ends a line. -/
  opens : start = 0 ∨ bytes[start - 1]? = some newline

/-- The line of an offset does not start after the offset. -/
theorem StartsLine.le_offset
    {bytes : List UInt8}
    {start offset : Nat}
    (starts :
      StartsLine bytes ((bytes.take offset).count newline) start) :
    start ≤ offset := by
  rcases starts.opens with atStart | afterNewline
  · omega
  · -- Otherwise the newline before the start would be counted twice.
    apply Nat.le_of_not_lt
    intro later
    have split :
        bytes.take start =
          bytes.take offset ++
            (bytes.drop offset).take (start - offset) := by
      rw [← List.take_add, Nat.add_sub_cancel' (Nat.le_of_lt later)]
    have between :
        newline ∈ (bytes.drop offset).take (start - offset) := by
      apply List.mem_of_getElem? (i := start - 1 - offset)
      rw [List.getElem?_take_of_lt (by omega), List.getElem?_drop,
        ← afterNewline]
      congr 1
      omega
    have counted := starts.count_before
    rw [split, List.count_append] at counted
    have positive := List.count_pos_iff.mpr between
    omega

/-- The first line starts at the start of the source. -/
theorem StartsLine.zero
    (bytes : List UInt8) :
    StartsLine bytes 0 0 where
  count_before := by simp
  opens := .inl rfl

/-- A newline in front moves all lines by one line and one byte. -/
theorem StartsLine.cons_newline
    {rest : List UInt8}
    {line start : Nat}
    (starts : StartsLine rest line start) :
    StartsLine (newline :: rest) (line + 1) (start + 1) where
  count_before := by
    rw [List.take_succ_cons, List.count_cons_self, starts.count_before]
  opens := by
    right
    rw [Nat.add_sub_cancel]
    cases start with
    | zero =>
        rfl
    | succ before =>
        exact starts.opens.resolve_left (Nat.succ_ne_zero before)

/-- Another byte in front moves all lines but the first by one byte. -/
theorem StartsLine.cons_other
    {byte : UInt8}
    {rest : List UInt8}
    {line start : Nat}
    (starts : StartsLine rest (line + 1) start)
    (other : byte ≠ newline) :
    StartsLine (byte :: rest) (line + 1) (start + 1) where
  count_before := by
    rw [List.take_succ_cons, List.count_cons_of_ne other,
      starts.count_before]
  opens := by
    right
    rw [Nat.add_sub_cancel]
    cases start with
    | zero =>
        have counted := starts.count_before
        simp at counted
    | succ before =>
        exact starts.opens.resolve_left (Nat.succ_ne_zero before)

namespace LineIndex

/-- Offsets after newlines, when the first byte has the given offset. -/
def startsFrom
    (first : Nat)
    (bytes : List UInt8) :
    List Nat :=
  (bytes.zipIdx first).filterMap fun (byte, offset) =>
    if byte = newline then some (offset + 1) else none

/-- A newline starts a line at the next byte. -/
theorem startsFrom_newline
    (first : Nat)
    (rest : List UInt8) :
    startsFrom first (newline :: rest) =
      (first + 1) :: startsFrom (first + 1) rest := by
  simp [startsFrom]

/-- Other bytes start no line. -/
theorem startsFrom_other
    (first : Nat)
    {byte : UInt8}
    (other : byte ≠ newline)
    (rest : List UInt8) :
    startsFrom first (byte :: rest) = startsFrom (first + 1) rest := by
  simp [startsFrom, other]

/-- Every newline starts a line. -/
theorem length_startsFrom
    (first : Nat)
    (bytes : List UInt8) :
    (startsFrom first bytes).length = bytes.count newline := by
  induction bytes generalizing first with
  | nil =>
      rfl
  | cons byte rest inductionHypothesis =>
      by_cases isNewline : byte = newline
      · subst byte
        rw [startsFrom_newline, List.length_cons, inductionHypothesis,
          List.count_cons_self]
      · rw [startsFrom_other first isNewline, inductionHypothesis,
          List.count_cons_of_ne isNewline]

/-- Lines start after the first byte. -/
theorem lt_of_mem_startsFrom
    {first start : Nat}
    {bytes : List UInt8}
    (member : start ∈ startsFrom first bytes) :
    first < start := by
  induction bytes generalizing first with
  | nil =>
      simp [startsFrom] at member
  | cons byte rest inductionHypothesis =>
      by_cases isNewline : byte = newline
      · subst byte
        rw [startsFrom_newline, List.mem_cons] at member
        rcases member with isFirst | later
        · omega
        · exact Nat.lt_of_succ_lt (inductionHypothesis later)
      · rw [startsFrom_other first isNewline] at member
        exact Nat.lt_of_succ_lt (inductionHypothesis member)

/-- As many lines start up to an offset as newlines come before it. -/
theorem countP_startsFrom
    (first offset : Nat)
    (bytes : List UInt8) :
    (startsFrom first bytes).countP (· ≤ first + offset) =
      (bytes.take offset).count newline := by
  induction bytes generalizing first offset with
  | nil =>
      simp [startsFrom]
  | cons byte rest inductionHypothesis =>
      cases offset with
      | zero =>
          rw [List.take_zero, List.count_nil, List.countP_eq_zero]
          intro start member
          simpa using lt_of_mem_startsFrom member
      | succ before =>
          have shifted := inductionHypothesis (first + 1) before
          rw [Nat.add_right_comm] at shifted
          by_cases isNewline : byte = newline
          · subst byte
            rw [startsFrom_newline, List.take_succ_cons,
              List.count_cons_self, List.countP_cons_of_pos (by simp),
              ← shifted]
            rfl
          · rw [startsFrom_other first isNewline, List.take_succ_cons,
              List.count_cons_of_ne isNewline, ← shifted]
            rfl

/-- Every entry of a table is the start of its line, counted from the first byte. -/
theorem startsLine_of_getElem?
    {first line start : Nat}
    {bytes : List UInt8}
    (entry : (first :: startsFrom first bytes)[line]? = some start) :
    ∃ offset, start = first + offset ∧ StartsLine bytes line offset := by
  induction bytes generalizing first line with
  | nil =>
      cases line with
      | zero =>
          cases entry
          exact ⟨0, rfl, StartsLine.zero []⟩
      | succ before =>
          simp [startsFrom] at entry
  | cons byte rest inductionHypothesis =>
      cases line with
      | zero =>
          cases entry
          exact ⟨0, rfl, StartsLine.zero _⟩
      | succ before =>
          rw [List.getElem?_cons_succ] at entry
          by_cases isNewline : byte = newline
          · subst byte
            rw [startsFrom_newline] at entry
            obtain ⟨offset, rfl, starts⟩ := inductionHypothesis entry
            exact ⟨offset + 1, by omega, starts.cons_newline⟩
          · rw [startsFrom_other first isNewline,
              ← List.getElem?_cons_succ (a := first + 1)] at entry
            obtain ⟨offset, rfl, starts⟩ := inductionHypothesis entry
            exact ⟨offset + 1, by omega, starts.cons_other isNewline⟩

/-- There is a line more than newlines. -/
theorem lineCount_ofBytes
    (bytes : List UInt8) :
    (ofBytes bytes).lineCount = bytes.count newline + 1 :=
  congrArg (· + 1) (length_startsFrom 0 bytes)

/-- There is an entry for the line of every offset. -/
theorem exists_getElem?_starts
    (bytes : List UInt8)
    (offset : Nat) :
    ∃ start,
      (ofBytes bytes).starts[(bytes.take offset).count newline]? =
        some start := by
  have fewer :
      (bytes.take offset).count newline < (ofBytes bytes).lineCount := by
    rw [lineCount_ofBytes]
    exact Nat.lt_succ_of_le ((List.take_sublist offset bytes).count_le newline)
  exact ⟨_, Array.getElem?_eq_getElem fewer⟩

/-- An offset is reached by the starts of its line and of all lines before. -/
theorem countP_starts
    (bytes : List UInt8)
    (offset : Nat) :
    (ofBytes bytes).starts.countP (· ≤ offset) =
      (bytes.take offset).count newline + 1 := by
  have counted := countP_startsFrom 0 offset bytes
  rw [Nat.zero_add] at counted
  rw [← counted, ofBytes, List.countP_toArray,
    List.countP_cons_of_pos (by simp)]
  rfl

/-- The line of an offset within the source has as many newlines before it as the offset. -/
theorem line_position
    {bytes : List UInt8}
    {offset : Nat}
    (inside : offset ≤ bytes.length) :
    ((ofBytes bytes).position offset).line =
      (bytes.take offset).count newline := by
  have within : min offset (ofBytes bytes).length = offset :=
    Nat.min_eq_left inside
  dsimp only [position]
  rw [within, countP_starts]
  exact Nat.add_sub_cancel _ 1

/--
Where an offset within the source stands.

Its line has as many newlines before it as the offset, the table knows where that
line starts, and the column is the rest.
-/
theorem position_eq
    (bytes : List UInt8)
    {offset : Nat}
    (inside : offset ≤ bytes.length) :
    let position := (ofBytes bytes).position offset
    position.line = (bytes.take offset).count newline ∧
      ∃ start,
        (ofBytes bytes).starts[position.line]? = some start ∧
          StartsLine bytes position.line start ∧
          start + position.column = offset := by
  intro position
  have line := line_position inside
  obtain ⟨start, entry⟩ := exists_getElem?_starts bytes offset
  have inTable : (0 :: startsFrom 0 bytes)[(bytes.take offset).count newline]? =
      some start := by
    rw [← entry]
    exact List.getElem?_toArray.symm
  obtain ⟨_, same, starts⟩ := startsLine_of_getElem? inTable
  rw [Nat.zero_add] at same
  subst same
  have before := starts.le_offset
  rw [← line] at entry starts
  refine ⟨line, start, entry, starts, ?_⟩
  have column :
      position.column =
        min offset bytes.length -
          (ofBytes bytes).starts.getD position.line 0 :=
    rfl
  rw [column, Array.getD_eq_getD_getElem?, entry, Nat.min_eq_left inside]
  exact Nat.add_sub_cancel' before

end LineIndex

end ShaderTint
