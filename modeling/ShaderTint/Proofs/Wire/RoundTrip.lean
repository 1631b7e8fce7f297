import ShaderTint.Proofs.Json.Lexeme
import ShaderTint.Proofs.Json.Printer
import ShaderTint.Wire.Encoding
import ShaderTint.Wire.OfText
import ShaderTint.Wire.OfValue

namespace ShaderTint.Wire

open Json Node

/-!
# Trees come back from the wire

A tree that is written as JSON is decoded to itself. Decoding the value has no
limit. Decoding the text opens two brackets for each level of the tree, the
object of a node and then its span or the list of its children, so a budget of
brackets suffices just for the trees of half that height.

Main statements: `readNode_compactOnto` for any budget, and `decode_toJson`.
-/

@[simp]
theorem word_ok
    (value : α) :
    word (.ok value) = .ok value :=
  rfl

@[simp]
theorem data_ok
    (value : α) :
    data (.ok value) = .ok value :=
  rfl

@[simp]
theorem toOption_ok
    (value : α) :
    (Except.ok value : Except ε α).toOption = some value :=
  rfl

@[simp]
theorem toOption_error
    (fault : ε) :
    (Except.error fault : Except ε α).toOption = none :=
  rfl

theorem toOption_eq_some_iff
    {result : Except ε α}
    {value : α} :
    result.toOption = some value ↔ result = .ok value := by
  cases result <;> simp

/-- Using a reader of JSON words succeeds just when the reader does. -/
@[simp]
theorem word_eq_ok_iff
    {result : Except Flaw α}
    {value : α} :
    word result = .ok value ↔ result = .ok value := by
  cases result with
  | error _ =>
      exact ⟨nofun, nofun⟩
  | ok _ =>
      simp

/-- Reporting data that does not fit leaves data that fits. -/
@[simp]
theorem data_eq_ok_iff
    {result : Except DataFault α}
    {value : α} :
    data result = .ok value ↔ result = .ok value := by
  cases result with
  | error _ =>
      exact ⟨nofun, nofun⟩
  | ok _ =>
      simp

/-! ## Spans -/

/-- A comma in front of every item but the first. -/
def separated
    (first : Bool)
    (text : List Char) :
    List Char :=
  if first then text else ',' :: text

/-- The next element of an array is found behind its comma. -/
theorem nextElement_separated
    {character : Char}
    (notBlank : isBlank character = false)
    (notClosing : character ≠ ']')
    (first : Bool)
    (text : List Char) :
    nextElement first (separated first (character :: text)) =
      .ok (some (character :: text)) := by
  have comma : skipBlanks (',' :: character :: text) = ',' :: character :: text :=
    rfl
  cases first with
  | true =>
      simp [separated, nextElement, skipBlanks_cons notBlank]
  | false =>
      simp [separated, nextElement, comma, skipBlanks_cons notBlank, notClosing]

theorem nextElement_toDigits
    (first : Bool)
    (value : Nat)
    (text : List Char) :
    nextElement first (separated first (Nat.toDigits 10 value ++ text)) =
      .ok (some (Nat.toDigits 10 value ++ text)) := by
  obtain ⟨leading, others, shape, digit⟩ := exists_toDigits_eq_cons value
  have notClosing : leading ≠ ']' := by
    rintro rfl
    exact absurd digit (by decide)
  rw [shape, List.cons_append]
  exact nextElement_separated (isBlank_of_isDigit digit) notClosing first _

theorem closeArray_closing
    (text : List Char) :
    closeArray (']' :: text) = .ok text :=
  rfl

/-- A written offset is read back. -/
theorem readOffset_toDigits
    {offset : Nat}
    {after : List Char}
    (small : offset < offsetLimit)
    (ends : EndsNumber after) :
    readOffset (Nat.toDigits 10 offset ++ after) = .ok (⟨offset, small⟩, after) := by
  have fits : offset < UInt64.size :=
    Nat.lt_trans small (by decide)
  have number := readNumber_toDigits fits ends
  obtain ⟨first, others, shape, digit⟩ := exists_toDigits_eq_cons offset
  rw [shape, List.cons_append] at number ⊢
  have starts : startsNumber first = true := by
    simp [startsNumber, digit]
  have decoded : offsetOf (offset : Int) = .ok ⟨offset, small⟩ := by
    simp [offsetOf, small]
  simp [readOffset, skipBlanks_cons (isBlank_of_isDigit digit), starts, number, decoded]

/-- A span is written as its ends between brackets. -/
theorem compactOnto_span
    (span : Span)
    (after : List Char) :
    span.toJson.compactOnto after =
      '[' :: (Nat.toDigits 10 span.start ++
        ',' :: (Nat.toDigits 10 span.stop ++ ']' :: after)) := by
  simp [Span.toJson, compactOnto, compactItemsOnto, numberChars, intChars, Json.ofNat]

/-- The written ends of a span are read back. -/
theorem readPair_span
    (span : Span)
    (after : List Char) :
    readPair
        (Nat.toDigits 10 span.start ++
          ',' :: (Nat.toDigits 10 span.stop ++ ']' :: after)) =
      .ok (span, after) := by
  have startEnds : EndsNumber (',' :: (Nat.toDigits 10 span.stop ++ ']' :: after)) :=
    endsNumber_cons (by decide) _
  have stopEnds : EndsNumber (']' :: after) :=
    endsNumber_cons (by decide) _
  have firstElement :=
    nextElement_toDigits true span.start
      (',' :: (Nat.toDigits 10 span.stop ++ ']' :: after))
  have secondElement := nextElement_toDigits false span.stop (']' :: after)
  have inOrder :
      spanOf ⟨span.start, span.start_lt⟩ ⟨span.stop, span.stop_lt⟩ = .ok span := by
    simp [spanOf, span.start_le_stop]
  simp only [separated, if_true, Bool.false_eq_true, if_false] at firstElement secondElement
  simp [readPair, firstElement, readOffset_toDigits span.start_lt startEnds,
    secondElement, readOffset_toDigits span.stop_lt stopEnds, closeArray_closing,
    inOrder]

/-- A written span is read back unless its bracket may not be opened. -/
theorem readSpan_compactOnto
    (budget : Nat)
    (span : Span)
    (after : List Char) :
    readSpan budget (span.toJson.compactOnto after) =
      if budget = 0 then .error malformed else .ok (span, after) := by
  have bracket (text : List Char) : skipBlanks ('[' :: text) = '[' :: text :=
    rfl
  rw [compactOnto_span, readSpan]
  simp only [bracket, readPair_span]

/-! ## Names -/

/-- A written kind is read back. -/
theorem readVariant_wire
    (budget : Nat)
    (kind : Kind)
    (after : List Char) :
    readVariant kinds budget (stringOnto kind.wire after) = .ok (kind, after) := by
  have quote (text : List Char) : skipBlanks ('"' :: text) = '"' :: text :=
    rfl
  have found : kinds.find kind.wire = .ok kind := by
    simp [Vocabulary.find, kinds]
  simp [readVariant, stringOnto, quote, readName, stringBody_escaped, found]

/-! ## Members of a node -/

theorem nextMember_first
    (name : String)
    (after : List Char) :
    nextMember true (stringOnto name after) =
      .ok (.named (name.toList.flatMap escapeChar ++ '"' :: after)) :=
  rfl

theorem nextMember_next
    (name : String)
    (after : List Char) :
    nextMember false (',' :: stringOnto name after) =
      .ok (.named (name.toList.flatMap escapeChar ++ '"' :: after)) :=
  rfl

theorem readColon_colon
    (after : List Char) :
    readColon (':' :: after) = .ok after :=
  rfl

section Members

variable
  (children : Reader (List Node))
  (budget fuel : Nat)
  (members : NodeMembers)
  (after : List Char)

/-- The kind stands first among the members of a node. -/
theorem readNodeMembers_kind
    (kind : Kind)
    (unread : members.kind = none) :
    readNodeMembers children budget (fuel + 1) true members
        (stringOnto "kind" (':' :: stringOnto kind.wire after)) =
      readNodeMembers children budget fuel false
        { members with kind := some kind } after := by
  rw [readNodeMembers, nextMember_first]
  simp only [ok_bind, stringBody_escaped, word_ok]
  simp [Field.name, unread, onlyOnce, readColon_colon, readVariant_wire]

/-- The span is read unless its bracket may not be opened. -/
theorem readNodeMembers_range
    (span : Span)
    (unread : members.span = none) :
    readNodeMembers children budget (fuel + 1) false members
        (',' :: stringOnto "range" (':' :: span.toJson.compactOnto after)) =
      if budget = 0 then
        .error malformed
      else
        readNodeMembers children budget fuel false
          { members with span := some span } after := by
  rw [readNodeMembers, nextMember_next]
  simp only [ok_bind, stringBody_escaped, word_ok]
  by_cases spent : budget = 0 <;>
    simp [Field.name, unread, onlyOnce, readColon_colon, readSpan_compactOnto, spent]

/-- The list of children is left to its own reader. -/
theorem readNodeMembers_children
    (unread : members.children = none) :
    readNodeMembers children budget (fuel + 1) false members
        (',' :: stringOnto "children" (':' :: after)) =
      children after >>= fun read =>
        readNodeMembers children budget fuel false
          { members with children := some read.1 } read.2 := by
  rw [readNodeMembers, nextMember_next]
  simp only [ok_bind, stringBody_escaped, word_ok]
  simp [Field.name, unread, onlyOnce, readColon_colon]

/-- The closing brace ends a node that has its kind and its span. -/
theorem readNodeMembers_closing
    (kind : Kind)
    (span : Span)
    (list : Option (List Node)) :
    readNodeMembers children budget (fuel + 1) false
        ⟨some kind, some span, list⟩ ('\x7d' :: after) =
      .ok (⟨kind, span, list.getD []⟩, after) :=
  rfl

end Members

/-! ## The text of a tree -/

/-- Trees as items of an array, in front of a text. -/
def forestOnto : Bool → List Node → List Char → List Char
  | _, [], after => after
  | first, node :: rest, after =>
      separated first (node.toJson.compactOnto (forestOnto false rest after))

/-- The list of children as a member, left out when there are none. -/
def childrenOnto : List Node → List Char → List Char
  | [], after => after
  | child :: rest, after =>
      ',' :: stringOnto "children"
        (':' :: '[' :: forestOnto true (child :: rest) (']' :: after))

theorem compactItemsOnto_forestToJson
    (forest : List Node)
    (after : List Char) :
    compactItemsOnto (forestToJson forest) after = forestOnto false forest after := by
  induction forest with
  | nil =>
      rfl
  | cons node rest inductionHypothesis =>
      rw [forestToJson, compactItemsOnto, inductionHypothesis]
      rfl

/-- A tree is written as its kind, its span and its children between braces. -/
theorem compactOnto_toJson
    (node : Node)
    (after : List Char) :
    node.toJson.compactOnto after =
      '\x7b' :: stringOnto "kind" (':' :: stringOnto node.kind.wire
        (',' :: stringOnto "range" (':' :: node.span.toJson.compactOnto
          (childrenOnto node.children ('\x7d' :: after))))) := by
  obtain ⟨kind, span, children⟩ := node
  cases children with
  | nil =>
      simp [toJson, compactOnto, compactMembersOnto, childrenOnto]
  | cons child rest =>
      simp [toJson, compactOnto, compactMembersOnto, childrenOnto, forestOnto,
        separated, compactItemsOnto_forestToJson]

/-- There are no more trees than characters. -/
theorem length_le_forestOnto
    (first : Bool)
    (forest : List Node)
    (after : List Char) :
    forest.length ≤ (forestOnto first forest after).length := by
  induction forest generalizing first with
  | nil =>
      simp
  | cons node rest inductionHypothesis =>
      have ofRest := inductionHypothesis false
      have ofNode :=
        length_lt_compactOnto node.toJson (forestOnto false rest after)
      cases first with
      | true =>
          simp only [forestOnto, separated, if_true, List.length_cons]
          omega
      | false =>
          simp only [forestOnto, separated, Bool.false_eq_true, if_false,
            List.length_cons]
          omega

/-! ## Reading a tree back -/

/-- A reader without a bracket to open reads nothing. -/
theorem readClosed_ne_ok
    (wanted : Wanted)
    (opens : Char → Bool)
    (text : List Char)
    (read : α × List Char) :
    readClosed wanted opens text ≠ .ok read := by
  unfold readClosed
  split
  · split <;> simp
  · simp

/-- What reading a tree within a budget of brackets comes to. -/
def withinBudget
    (budget height : Nat)
    (read : α × List Char) :
    Except TextFault (α × List Char) :=
  if 2 * height ≤ budget then .ok read else .error malformed

theorem elements_closing
    (item : Reader α)
    (fuel : Nat)
    (first : Bool)
    (after : List Char) :
    elements item (fuel + 1) first (']' :: after) = .ok ([], after) :=
  rfl

/-- An array of trees goes on with the next tree. -/
theorem elements_separated
    (item : Reader Node)
    (fuel : Nat)
    (first : Bool)
    (node : Node)
    (after : List Char) :
    elements item (fuel + 1) first
        (separated first (node.toJson.compactOnto after)) =
      (do
        let (head, rest) ← item (node.toJson.compactOnto after)
        let (tail, rest) ← elements item fuel false rest
        return (head :: tail, rest)) := by
  rw [compactOnto_toJson]
  cases first with
  | true =>
      rfl
  | false =>
      rfl

theorem withinBudget_of_le
    {budget height : Nat}
    (fits : 2 * height ≤ budget)
    (read : α × List Char) :
    withinBudget budget height read = .ok read := by
  rw [withinBudget, if_pos fits]

theorem withinBudget_of_lt
    {budget height : Nat}
    (tooHigh : budget < 2 * height)
    (read : α × List Char) :
    withinBudget budget height read = .error malformed := by
  rw [withinBudget, if_neg (by omega)]

/-- A level of a tree takes two brackets. -/
theorem withinBudget_succ
    (budget height : Nat)
    (read : α × List Char) :
    withinBudget (budget + 2) (height + 1) read = withinBudget budget height read := by
  by_cases fits : 2 * height ≤ budget
  · rw [withinBudget_of_le fits, withinBudget_of_le (by omega)]
  · rw [withinBudget_of_lt (by omega), withinBudget_of_lt (by omega)]

theorem exists_fuelFor_stringOnto
    (value : String)
    (after : List Char) :
    ∃ fuel, fuelFor (stringOnto value after) = fuel + 4 := by
  have longer := length_lt_stringOnto value after
  exact ⟨fuelFor (stringOnto value after) - 4, by rw [fuelFor]; omega⟩

/-- A node is read up to its span, unless the span's bracket may not be opened. -/
theorem readNodeWith_compactOnto
    (list : Reader (List Node))
    (budget : Nat)
    (node : Node)
    (after : List Char) :
    ∃ fuel,
      readNodeWith list budget (node.toJson.compactOnto after) =
        if budget = 0 then
          .error malformed
        else
          readNodeMembers list budget (fuel + 2) false
            ⟨some node.kind, some node.span, none⟩
            (childrenOnto node.children ('\x7d' :: after)) := by
  have brace (text : List Char) : skipBlanks ('\x7b' :: text) = '\x7b' :: text :=
    rfl
  obtain ⟨fuel, enough⟩ := exists_fuelFor_stringOnto "kind"
    (':' :: stringOnto node.kind.wire (',' :: stringOnto "range"
      (':' :: node.span.toJson.compactOnto
        (childrenOnto node.children ('\x7d' :: after)))))
  refine ⟨fuel, ?_⟩
  rw [compactOnto_toJson, readNodeWith, brace]
  simp only [enough]
  rw [readNodeMembers_kind _ _ _ _ _ _ rfl, readNodeMembers_range _ _ _ _ _ _ rfl]
  rfl

/-- A tree is read when its children are, within the budget that they take. -/
theorem readNodeWith_of_children
    {list : Reader (List Node)}
    {budget left : Nat}
    {kind : Kind}
    {span : Span}
    {children : List Node}
    {after : List Char}
    (listed :
      children ≠ [] →
        list ('[' :: forestOnto true children (']' :: '\x7d' :: after)) =
          withinBudget left (heightOfForest children)
            (children, '\x7d' :: after)) :
    readNodeWith list (budget + 1)
        ((⟨kind, span, children⟩ : Node).toJson.compactOnto after) =
      withinBudget left (heightOfForest children)
        (⟨kind, span, children⟩, after) := by
  obtain ⟨fuel, begun⟩ :=
    readNodeWith_compactOnto list (budget + 1) ⟨kind, span, children⟩ after
  rw [begun, if_neg (by omega)]
  cases children with
  | nil =>
      rw [withinBudget_of_le (by simp [heightOfForest])]
      exact readNodeMembers_closing list (budget + 1) (fuel + 1) after kind span none
  | cons child rest =>
      rw [childrenOnto, readNodeMembers_children _ _ _ _ _ rfl, listed (by simp)]
      by_cases fits : 2 * heightOfForest (child :: rest) ≤ left
      · rw [withinBudget_of_le fits, withinBudget_of_le fits, ok_bind]
        exact readNodeMembers_closing list (budget + 1) fuel after kind span _
      · rw [withinBudget_of_lt (by omega), withinBudget_of_lt (by omega), error_bind]

mutual

/--
A written tree is read back within a budget of two brackets for each of its
levels, and within no smaller budget.
-/
theorem readNode_compactOnto :
    (node : Node) →
      (budget : Nat) →
        (after : List Char) →
          readNode budget (node.toJson.compactOnto after) =
            withinBudget budget node.height (node, after)
  | ⟨kind, span, children⟩, 0, after => by
      rw [compactOnto_toJson, height, withinBudget_of_lt (by omega)]
      rfl
  | ⟨kind, span, children⟩, 1, after => by
      -- The object opens, but the bracket of its span does not.
      obtain ⟨fuel, begun⟩ :=
        readNodeWith_compactOnto (readChildren 0) 0 ⟨kind, span, children⟩ after
      rw [height, withinBudget_of_lt (by omega)]
      exact begun
  | ⟨kind, span, children⟩, budget + 2, after => by
      -- The span takes its bracket back, so the children have all but two left.
      have enough :
          children.length <
            fuelFor (forestOnto true children (']' :: '\x7d' :: after)) := by
        have bounded :=
          length_le_forestOnto true children (']' :: '\x7d' :: after)
        rw [fuelFor]
        omega
      have listed :=
        elements_forestOnto children budget _ true ('\x7d' :: after) enough
      rw [height, withinBudget_succ, readNode]
      apply readNodeWith_of_children
      intro _
      exact listed

theorem elements_forestOnto :
    (forest : List Node) →
      (budget fuel : Nat) →
        (first : Bool) →
          (after : List Char) →
            forest.length < fuel →
              elements (readNode budget) fuel first
                  (forestOnto first forest (']' :: after)) =
                withinBudget budget (heightOfForest forest) (forest, after)
  | [], budget, fuel + 1, first, after, _ => by
      rw [withinBudget_of_le (by simp [heightOfForest])]
      exact elements_closing _ _ _ _
  | node :: rest, budget, fuel + 1, first, after, enough => by
      have ofNode :=
        readNode_compactOnto node budget (forestOnto false rest (']' :: after))
      have ofRest :=
        elements_forestOnto rest budget fuel false after
          (by simpa using enough)
      rw [forestOnto, elements_separated, ofNode, heightOfForest]
      by_cases nodeFits : 2 * node.height ≤ budget
      · rw [withinBudget_of_le nodeFits]
        simp only [ok_bind, ofRest]
        by_cases restFits : 2 * heightOfForest rest ≤ budget
        · rw [withinBudget_of_le restFits, withinBudget_of_le (by omega)]
          rfl
        · rw [withinBudget_of_lt (by omega), withinBudget_of_lt (by omega)]
          rfl
      · rw [withinBudget_of_lt (by omega), withinBudget_of_lt (by omega)]
        rfl

end

/-! ## Decoding the value -/

theorem variantOfJson_wire
    (kind : Kind) :
    variantOfJson kinds (.string kind.wire) = .ok kind := by
  simp [variantOfJson, Vocabulary.find, kinds]

theorem spanOfJson_toJson
    (span : Span) :
    spanOfJson span.toJson = .ok span := by
  simp [spanOfJson, Span.toJson, Json.ofNat, offsetOfJson, offsetOf, span.start_lt,
    span.stop_lt, spanOf, span.start_le_stop]

mutual

/-- The value of a tree is decoded to the tree. -/
theorem nodeOfJson_toJson :
    (node : Node) →
      nodeOfJson node.toJson = .ok node
  | ⟨kind, span, []⟩ => by
      rw [toJson, nodeOfJson]
      simp [member?, optionalMember, variantOfJson_wire, spanOfJson_toJson, required,
        Except.map]
  | ⟨kind, span, child :: rest⟩ => by
      have listed :
          childrenOfJson (.array (child.toJson :: forestToJson rest)) =
            .ok (child :: rest) := by
        rw [childrenOfJson, nodesOfJson, nodeOfJson_toJson child,
          nodesOfJson_forestToJson rest]
        rfl
      rw [toJson, nodeOfJson]
      simp [member?, listed, optionalMember, variantOfJson_wire, spanOfJson_toJson,
        required, Except.map]

theorem nodesOfJson_forestToJson :
    (forest : List Node) →
      nodesOfJson (forestToJson forest) = .ok forest
  | [] => by
      rw [forestToJson, nodesOfJson]
  | node :: rest => by
      rw [forestToJson, nodesOfJson, nodeOfJson_toJson node,
        nodesOfJson_forestToJson rest]
      rfl

end

/--
The text of a tree is decoded to the tree up to a height of 63 and refused as
malformed from 64 on; the value of a tree is decoded to the tree at any height.
-/
theorem decode_toJson
    (tree : Node) :
    nodeOfText tree.toJson.compact =
        (if tree.height ≤ 63 then .ok tree else .error (.flawed .malformed)) ∧
      nodeOfJson tree.toJson = .ok tree := by
  refine ⟨?_, nodeOfJson_toJson tree⟩
  have read := readNode_compactOnto tree nestingLimit []
  have limit : nestingLimit = 127 := rfl
  rw [nodeOfText, compact, String.toList_ofList, wholeText, read]
  by_cases fits : tree.height ≤ 63
  · rw [withinBudget_of_le (by omega), if_pos fits]
    rfl
  · rw [withinBudget_of_lt (by omega), if_neg fits]
    rfl

end ShaderTint.Wire
