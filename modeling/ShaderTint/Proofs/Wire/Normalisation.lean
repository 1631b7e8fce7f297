import ShaderTint.Proofs.Wire.RoundTrip

namespace ShaderTint.Wire

open Json Node

/-!
# Accepted texts have a normal form

A tree can be written in many ways: as an object or an array, with its kind as a
string or a map, with unknown members, blanks and any order of members. Whichever
way it was written, reading it opens two brackets for each of its levels, because
every node has a span. So the tree can be written back as the encoder does it, and
read again within the same limit.

Main statements: `readNode_reads` for any budget, and `rewritten_idempotent`.
-/

/-- Whatever the reader reads has the property. -/
def Reads
    (reader : Reader α)
    (Good : α → Prop) :
    Prop :=
  ∀ text value rest,
    reader text = .ok (value, rest) → Good value

/-! ## Brackets -/

/-- What is read without a bracket to open has any property. -/
theorem readClosed_reads
    (wanted : Wanted)
    (opens : Char → Bool)
    (Good : α → Prop) :
    Reads (readClosed wanted opens) Good := by
  intro text value rest read
  exact absurd read (readClosed_ne_ok wanted opens text _)

/-- A span is read only where its bracket may be opened. -/
theorem readSpan_reads
    (budget : Nat) :
    Reads (readSpan budget) fun _ => budget ≠ 0 := by
  intro text span rest read
  rw [readSpan] at read
  split at read
  · split at read
    · contradiction
    · assumption
  · contradiction

/-- The elements of an array are what the reader of elements reads. -/
theorem elements_reads
    {item : Reader α}
    {Good : α → Prop}
    (reads : Reads item Good)
    (fuel : Nat)
    (first : Bool) :
    Reads (elements item fuel first) fun list =>
      ∀ element ∈ list, Good element := by
  intro text list rest read
  induction fuel generalizing first text list rest with
  | zero =>
      contradiction
  | succ fuel inductionHypothesis =>
      rw [elements] at read
      obtain ⟨next, _, read⟩ := bind_eq_ok_iff.mp read
      cases next with
      | none =>
          obtain ⟨_, _, returned⟩ := bind_eq_ok_iff.mp read
          cases returned
          simp
      | some text =>
          obtain ⟨⟨head, afterHead⟩, readHead, read⟩ :=
            bind_eq_ok_iff.mp read
          obtain ⟨⟨tail, afterTail⟩, readTail, returned⟩ :=
            bind_eq_ok_iff.mp read
          cases returned
          exact List.forall_mem_cons.mpr
            ⟨reads _ _ _ readHead,
              inductionHypothesis _ _ _ _ readTail⟩

/-! ## Nodes -/

/-- A budget that paid for the span of a node, and children of a bounded height. -/
def Paid
    (budget levels : Nat)
    (node : Node) :
    Prop :=
  budget ≠ 0 ∧ heightOfForest node.children ≤ levels

/-- What the members read so far say about the node that they will make. -/
structure NodeMembers.Paid
    (budget levels : Nat)
    (members : NodeMembers) :
    Prop where
  span : ∀ span ∈ members.span, budget ≠ 0
  children : ∀ list ∈ members.children, heightOfForest list ≤ levels

theorem NodeMembers.paid_none
    (budget levels : Nat) :
    NodeMembers.none.Paid budget levels where
  span := by
    simp [NodeMembers.none]
  children := by
    simp [NodeMembers.none]

/-- The node of members that are paid for is paid for. -/
theorem NodeMembers.Paid.node
    {budget levels : Nat}
    {members : NodeMembers}
    (paid : members.Paid budget levels)
    {node : Node}
    (made : members.node = .ok node) :
    Wire.Paid budget levels node := by
  obtain ⟨kind, span, children⟩ := members
  cases kind with
  | none =>
      contradiction
  | some kind =>
      cases span with
      | none =>
          contradiction
      | some span =>
          cases made
          refine ⟨paid.span span rfl, ?_⟩
          cases children with
          | none =>
              exact Nat.zero_le levels
          | some list =>
              exact paid.children list rfl

section

variable
  {children : Reader (List Node)}
  {levels : Nat}
  (bounded : Reads children fun list => heightOfForest list ≤ levels)
  (budget : Nat)

include bounded

/-- The members of a node pay for its span and hold bounded children. -/
theorem readNodeMembers_reads
    {members : NodeMembers}
    (paid : members.Paid budget levels)
    (fuel : Nat)
    (first : Bool) :
    Reads (readNodeMembers children budget fuel first members)
      (Paid budget levels) := by
  intro text node rest read
  induction fuel generalizing first members text with
  | zero =>
      contradiction
  | succ fuel inductionHypothesis =>
      rw [readNodeMembers] at read
      obtain ⟨next, _, read⟩ := bind_eq_ok_iff.mp read
      cases next with
      | closed rest =>
          obtain ⟨node, made, returned⟩ := bind_eq_ok_iff.mp read
          cases returned
          exact paid.node (data_eq_ok_iff.mp made)
      | named afterQuote =>
          obtain ⟨⟨name, afterName⟩, _, read⟩ := bind_eq_ok_iff.mp read
          dsimp only at read
          split at read
          · -- The kind costs nothing.
            obtain ⟨_, _, read⟩ := bind_eq_ok_iff.mp read
            obtain ⟨_, _, read⟩ := bind_eq_ok_iff.mp read
            obtain ⟨_, _, read⟩ := bind_eq_ok_iff.mp read
            refine inductionHypothesis ?_ _ _ read
            exact ⟨paid.span, paid.children⟩
          · split at read
            · -- The span has its bracket opened.
              obtain ⟨_, _, read⟩ := bind_eq_ok_iff.mp read
              obtain ⟨_, _, read⟩ := bind_eq_ok_iff.mp read
              obtain ⟨_, spanRead, read⟩ := bind_eq_ok_iff.mp read
              have opened := readSpan_reads budget _ _ _ spanRead
              refine inductionHypothesis ?_ _ _ read
              exact ⟨fun _ _ => opened, paid.children⟩
            · split at read
              · -- The children come from their own reader.
                obtain ⟨_, _, read⟩ := bind_eq_ok_iff.mp read
                obtain ⟨_, _, read⟩ := bind_eq_ok_iff.mp read
                obtain ⟨_, listRead, read⟩ := bind_eq_ok_iff.mp read
                have held := bounded _ _ _ listRead
                refine inductionHypothesis ?_ _ _ read
                refine ⟨paid.span, ?_⟩
                intro list isList
                cases isList
                exact held
              · obtain ⟨_, _, read⟩ := bind_eq_ok_iff.mp read
                obtain ⟨_, _, read⟩ := bind_eq_ok_iff.mp read
                exact inductionHypothesis paid _ _ read

/-- The elements of a node pay for its span and hold bounded children. -/
theorem readNodeElements_reads :
    Reads (readNodeElements children budget) (Paid budget levels) := by
  intro text node rest read
  rw [readNodeElements] at read
  obtain ⟨next, _, read⟩ := bind_eq_ok_iff.mp read
  cases next with
  | none =>
      contradiction
  | some atKind =>
      obtain ⟨_, _, read⟩ := bind_eq_ok_iff.mp read
      obtain ⟨next, _, read⟩ := bind_eq_ok_iff.mp read
      cases next with
      | none =>
          contradiction
      | some atSpan =>
          obtain ⟨_, spanRead, read⟩ := bind_eq_ok_iff.mp read
          have opened := readSpan_reads budget _ _ _ spanRead
          obtain ⟨next, _, read⟩ := bind_eq_ok_iff.mp read
          cases next with
          | none =>
              obtain ⟨_, listed, read⟩ := bind_eq_ok_iff.mp read
              cases listed
              obtain ⟨_, _, returned⟩ := bind_eq_ok_iff.mp read
              cases returned
              exact ⟨opened, Nat.zero_le levels⟩
          | some atChildren =>
              obtain ⟨⟨list, afterList⟩, listRead, read⟩ :=
                bind_eq_ok_iff.mp read
              obtain ⟨_, _, returned⟩ := bind_eq_ok_iff.mp read
              cases returned
              exact ⟨opened, bounded _ _ _ listRead⟩

/-- A node in either form pays for its span and holds bounded children. -/
theorem readNodeWith_reads :
    Reads (readNodeWith children budget) (Paid budget levels) := by
  intro text node rest read
  rw [readNodeWith] at read
  split at read
  · exact readNodeElements_reads bounded budget _ _ _ read
  · exact readNodeMembers_reads bounded budget
      (NodeMembers.paid_none budget levels) _ _ _ _ _ read
  · contradiction

end

theorem heightOfForest_le
    {levels : Nat}
    {forest : List Node}
    (bounded : ∀ node ∈ forest, node.height ≤ levels) :
    heightOfForest forest ≤ levels := by
  induction forest with
  | nil =>
      exact Nat.zero_le levels
  | cons node rest inductionHypothesis =>
      obtain ⟨here, later⟩ := List.forall_mem_cons.mp bounded
      exact Nat.max_le.mpr ⟨here, inductionHypothesis later⟩

/-- A list of trees that are read in a budget is read when one bracket more may open. -/
theorem readChildrenWith_reads
    {node : Reader Node}
    {levels : Nat}
    (bounded : Reads node fun tree => tree.height ≤ levels) :
    Reads (readChildrenWith node) fun list =>
      heightOfForest list ≤ levels := by
  intro text list rest read
  rw [readChildrenWith] at read
  split at read
  · exact heightOfForest_le
      (elements_reads bounded _ _ _ _ _ read)
  · contradiction

/-- A tree that is read within a budget of brackets is at most half as high. -/
theorem readNode_reads :
    (budget : Nat) →
      Reads (readNode budget) fun tree => tree.height ≤ budget / 2
  | 0 =>
      readClosed_reads _ _ _
  | 1 => by
      intro text tree rest read
      have closed : Reads (readChildren 0) fun list =>
          heightOfForest list ≤ 0 :=
        readClosed_reads _ _ _
      exact absurd rfl
        (readNodeWith_reads closed 0 _ _ _ read).1
  | budget + 2 => by
      intro text tree rest read
      obtain ⟨kind, span, children⟩ := tree
      have bounded :=
        readChildrenWith_reads (readNode_reads budget)
      have within :=
        (readNodeWith_reads bounded (budget + 1) _ _ _ read).2
      rw [Nat.add_div_right budget Nat.two_pos]
      exact Nat.succ_le_succ within

/-! ## Whole texts -/

/-- The text of the tree that a text holds, as the encoder writes it. -/
def rewritten
    (text : String) :
    Except TextFault String :=
  (nodeOfText text).map fun tree => tree.toJson.compact

/-- What a whole text holds has been read from its front. -/
theorem exists_of_wholeText
    {reader : Reader α}
    {text : List Char}
    {value : α}
    (held : wholeText reader text = .ok value) :
    ∃ rest, reader text = .ok (value, rest) := by
  obtain ⟨⟨read, rest⟩, isRead, ended⟩ := bind_eq_ok_iff.mp held
  dsimp only at ended
  split at ended
  · cases ended
    exact ⟨rest, isRead⟩
  · contradiction

/-- A tree that is decoded from a text has a height of 63 at most. -/
theorem height_le_of_nodeOfText
    {text : String}
    {tree : Node}
    (decoded : nodeOfText text = .ok tree) :
    tree.height ≤ 63 := by
  obtain ⟨rest, read⟩ := exists_of_wholeText decoded
  exact readNode_reads nestingLimit _ _ _ read

/-- The text that the encoder writes for a tree of such a height holds the tree. -/
theorem nodeOfText_compact
    {tree : Node}
    (fits : tree.height ≤ 63) :
    nodeOfText tree.toJson.compact = .ok tree := by
  have read := readNode_compactOnto tree nestingLimit []
  have limit : nestingLimit = 127 := rfl
  rw [withinBudget_of_le (by omega)] at read
  rw [nodeOfText, compact, String.toList_ofList, wholeText, read]
  rfl

/--
Every accepted text has a normal form.

The tree that any text holds has spans in order and a height of 63 at most, and the
text that the encoder writes for it holds it again. So decoding and encoding a text
twice comes to the same as doing it once.
-/
theorem rewritten_idempotent
    (text : String) :
    (∀ tree,
      nodeOfText text = .ok tree →
      (∀ node ∈ tree.preorder, node.span.start ≤ node.span.stop) ∧
      tree.height ≤ 63 ∧
      nodeOfText tree.toJson.compact = .ok tree) ∧
    rewritten text >>= rewritten = rewritten text := by
  constructor
  · intro tree decoded
    have fits := height_le_of_nodeOfText decoded
    refine ⟨?_, fits, nodeOfText_compact fits⟩
    intro node _
    exact node.span.start_le_stop
  · unfold rewritten
    cases decoded : nodeOfText text with
    | error fault =>
        rfl
    | ok tree =>
        have again :=
          nodeOfText_compact (height_le_of_nodeOfText decoded)
        simp [Except.map, again]

/-- A node as an array, and its child as an object with a map for its kind. -/
def looseText : String :=
  "[\"postfix_expression\", [0, 3], [\x7b\"note\": [],\n \"range\": [1, 3], " ++
    "\"kind\": \x7b\"call_operator\": null\x7d\x7d]]"

/-- The same nodes as the encoder writes them. -/
def normalText : String :=
  "\x7b\"kind\":\"postfix_expression\",\"range\":[0,3],\"children\":[" ++
    "\x7b\"kind\":\"call_operator\",\"range\":[1,3]\x7d]\x7d"

/-- The tree that both texts hold. -/
def looseTree : Node where
  kind := .postfixExpression
  span := .ofTested 0 3 (.refl true)
  children := [.leaf .callOperator (.ofTested 1 3 (.refl true))]

/-- The loose text is rewritten to the normal one, which holds the same tree. -/
theorem rewritten_idempotent_looseText :
    nodeOfText looseText = .ok looseTree ∧
      rewritten looseText = .ok normalText ∧
      nodeOfText normalText = .ok looseTree := by
  have found : (nodeOfText looseText).toOption = some looseTree := by
    decide +kernel
  have decoded : nodeOfText looseText = .ok looseTree :=
    toOption_eq_some_iff.mp found
  have written : looseTree.toJson.compact = normalText := by
    decide +kernel
  obtain ⟨_, _, again⟩ :=
    (rewritten_idempotent looseText).1 looseTree decoded
  rw [written] at again
  refine ⟨decoded, ?_, again⟩
  rw [rewritten, decoded, Except.map, written]

end ShaderTint.Wire
