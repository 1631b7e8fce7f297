import ShaderTint.Proofs.Wire.PartAgreement

namespace ShaderTint.Wire

open Json

/-!
# The two decoders agree

A tree is decoded from a JSON value by recursion on the value, and from a text by
reading it once from front to back. The two refuse malformed data for different
reasons. But they accept the same: every rendering of a value is read as a tree just
when the value is decoded to it, provided that the names in its objects are distinct
and the text is not nested too deeply for a reader.

The reader of an object takes its members as they come, the decoder looks for those
it knows. Between the two stands `absorb`, which decodes members as they come.

Main statement: `nodeOfText_iff_nodeOfJson`.
-/

/-! ## Nodes in arrays -/

/-- The reader agrees with the decoder on values that are not nested too deeply. -/
def AgreesWithin
    (budget : Nat)
    (reader : Reader α)
    (decode : Json → Except DataFault α) :
    Prop :=
  ∀ {value : Json} {after text : List Char},
    Renders value after text →
    value.nesting ≤ budget →
    value.DistinctKeys →
    Agrees (reader text) (decode value) after

/-- Decode what follows the span of a node in an array. -/
def nodeAfterSpan
    (kind : Kind)
    (span : Span) :
    List Json → Except DataFault Node
  | [] => .ok { kind := kind, span := span, children := [] }
  | list :: rest => do
      let children ← childrenOfJson list
      if rest.isEmpty then
        return { kind := kind, span := span, children := children }
      else
        .error (.invalidLength (rest.length + 3) .fewerElements)

/-- Decode what follows the kind of a node in an array. -/
def nodeAfterKind
    (kind : Kind) :
    List Json → Except DataFault Node
  | [] => .error (.invalidLength 1 .nodeElements)
  | span :: rest => do
      let span ← spanOfJson span
      nodeAfterSpan kind span rest

/-- The elements of a node are decoded one after the other. -/
theorem nodeOfJson_array_cons
    (kind : Json)
    (rest : List Json) :
    nodeOfJson (.array (kind :: rest)) = (do
      let kind ← variantOfJson kinds kind
      nodeAfterKind kind rest) := by
  match rest with
  | [] =>
      rw [nodeOfJson]
      rfl
  | [span] =>
      rw [nodeOfJson]
      rfl
  | span :: list :: rest =>
      rw [nodeOfJson]
      rfl

/-- The elements of a node are read just when they are decoded, if its children are. -/
theorem readNodeElements_renders
    {children : Reader (List Node)}
    {budget : Nat}
    (childrenAgree : AgreesWithin budget children childrenOfJson)
    {items : List Json}
    {after text : List Char}
    (renders : RendersItems true items after text)
    (shallow : nestingOfItems items ≤ budget)
    (distinct : DistinctKeysOfItems items) :
    Agrees (readNodeElements children budget text)
      (nodeOfJson (.array items)) after := by
  cases items with
  | nil =>
      rw [readNodeElements, renders.nextElement_nil, nodeOfJson]
      exact .of_none rfl rfl
  | cons kind rest =>
      rw [nestingOfItems, Nat.max_le] at shallow
      obtain ⟨kindText, others, kindFound, ofKind, ofRest⟩ :=
        renders.exists_nextElement
      rw [readNodeElements, kindFound, ok_bind, nodeOfJson_array_cons]
      apply (readVariant_renders kinds ofKind shallow.1).bind
      intro kind
      dsimp only
      cases rest with
      | nil =>
          rw [ofRest.nextElement_nil]
          exact .of_none rfl rfl
      | cons span rest =>
          rw [nestingOfItems, Nat.max_le] at shallow
          obtain ⟨spanText, left, spanFound, ofSpan, ofLeft⟩ :=
            ofRest.exists_nextElement
          rw [spanFound, ok_bind, nodeAfterKind]
          apply (readSpan_renders ofSpan shallow.2.1).bind
          intro span
          dsimp only
          cases rest with
          | nil =>
              rw [ofLeft.nextElement_nil, ok_bind]
              dsimp only
              rw [pure_bind, ofLeft.closeArray_nil]
              rfl
          | cons list rest =>
              rw [nestingOfItems, Nat.max_le] at shallow
              obtain ⟨listText, final, listFound, ofList, ofFinal⟩ :=
                ofLeft.exists_nextElement
              rw [listFound, ok_bind, nodeAfterSpan]
              apply (childrenAgree ofList shallow.2.2.1 distinct.2.2.1).bind
              intro nodes
              dsimp only
              cases rest with
              | nil =>
                  rw [ofFinal.closeArray_nil]
                  rfl
              | cons more rest =>
                  rw [ofFinal.closeArray_cons]
                  exact .of_none rfl rfl

/-! ## Nodes in objects -/

/-- The value of a field that has not been read before. -/
def once
    (before : Option α)
    (decoded : Except DataFault α) :
    Option α :=
  match before with
  | none => decoded.toOption
  | some _ => none

/-- Decode a member into a field, if it has the name of the field. -/
def settle
    (name : String)
    (decode : Json → Except DataFault α)
    (before : Option α) :
    String × Json → Option (Option α)
  | (key, value) =>
      if key = name then
        (once before (decode value)).map some
      else
        some before

/-- Decode a member of a node into the members that have been read. -/
def absorb
    (members : NodeMembers)
    (member : String × Json) :
    Option NodeMembers := do
  let kind ←
    settle Field.kind.name (variantOfJson kinds) members.kind member
  let span ← settle Field.range.name spanOfJson members.span member
  let children ←
    settle Field.children.name childrenOfJson members.children member
  return { kind := kind, span := span, children := children }

/-- The next member of an object is found behind its comma. -/
theorem nextMember_separated
    (first : Bool)
    (name : String)
    (after : List Char) :
    nextMember first (separated first (stringOnto name after)) =
      .ok (.named (name.toList.flatMap escapeChar ++ '"' :: after)) := by
  cases first with
  | true =>
      exact nextMember_first name after
  | false =>
      exact nextMember_next name after

/-- A field is read once just when it is decoded once. -/
theorem Agrees.once
    {read : Except TextFault (α × List Char)}
    {decoded : Except DataFault α}
    {after : List Char}
    (agrees : Agrees read decoded after)
    (field : Field)
    (before : Option α)
    (next : α × List Char → Except TextFault β) :
    (onlyOnce field before >>= fun _ => read >>= next).toOption =
      (Wire.once before decoded).bind fun value =>
        (next (value, after)).toOption := by
  cases before with
  | some earlier =>
      rfl
  | none =>
      rw [onlyOnce, ok_bind, toOption_bind, agrees, Option.bind_map]
      rfl

section

variable
  {children : Reader (List Node)}
  {budget : Nat}
  (childrenAgree : AgreesWithin budget children childrenOfJson)

include childrenAgree

/-- Reading one member of a node is decoding it. -/
theorem toOption_readNodeMembers_cons
    {name : String}
    {value : Json}
    {others written : List Char}
    (renders : Renders value others written)
    (ends : EndsNumber others)
    (shallow : value.nesting ≤ budget)
    (distinct : value.DistinctKeys)
    (fuel : Nat)
    (first : Bool)
    (members : NodeMembers) :
    (readNodeMembers children budget (fuel + 1) first members
        (separated first (stringOnto name (':' :: written)))).toOption =
      (absorb members (name, value)).bind fun members =>
        (readNodeMembers children budget fuel false members
          others).toOption := by
  rw [readNodeMembers, nextMember_separated]
  simp only [ok_bind, stringBody_escaped, word_ok, readColon_colon]
  split
  · next isKind =>
      subst isKind
      rw [(readVariant_renders kinds renders shallow).once]
      cases found : once members.kind (variantOfJson kinds value) <;>
        simp [absorb, settle, Field.name, found]
  · split
    · next isRange =>
        subst isRange
        rw [(readSpan_renders renders shallow).once]
        cases found : once members.span (spanOfJson value) <;>
          simp [absorb, settle, Field.name, found]
    · split
      · next isChildren =>
          subst isChildren
          rw [(childrenAgree renders shallow distinct).once]
          cases found : once members.children (childrenOfJson value) <;>
            simp [absorb, settle, Field.name, found]
      · next notKind notRange notChildren =>
          rw [skipValue_renders renders ends]
          simp [absorb, settle, notKind, notRange, notChildren]

/-- Reading the members of a node is decoding them one after the other. -/
theorem toOption_readNodeMembers
    {list : List (String × Json)}
    {after text : List Char}
    {first : Bool}
    {fuel : Nat}
    (renders : RendersMembers first list after text)
    (shallow : nestingOfMembers list ≤ budget)
    (distinct : DistinctKeysOfMembers list)
    (enough : list.length < fuel)
    (members : NodeMembers) :
    (readNodeMembers children budget fuel first members text).toOption =
      ((list.foldlM absorb members).bind fun final =>
        final.node.toOption).map (·, after) := by
  induction list generalizing first fuel members text with
  | nil =>
      obtain ⟨less, rfl⟩ :=
        Nat.exists_eq_add_one_of_ne_zero (Nat.ne_zero_of_lt enough)
      cases renders
      have closed :
          nextMember first ('\x7d' :: after) = .ok (.closed after) := by
        cases first <;> rfl
      rw [readNodeMembers, closed]
      exact Agrees.of_decoded members.node after
  | cons member rest inductionHypothesis =>
      obtain ⟨less, rfl⟩ :=
        Nat.exists_eq_add_one_of_ne_zero (Nat.ne_zero_of_lt enough)
      obtain ⟨name, value⟩ := member
      rw [nestingOfMembers, Nat.max_le] at shallow
      cases renders with
      | cons ofValue ofRest =>
          rw [toOption_readNodeMembers_cons childrenAgree ofValue
            ofRest.endsNumber shallow.1 distinct.1, List.foldlM_cons,
            Option.bind_eq_bind, Option.bind_assoc, Option.map_bind]
          congr 1
          funext members
          exact inductionHypothesis ofRest shallow.2 distinct.2
            (Nat.lt_of_succ_lt_succ enough) members

end

section

variable
  {name : String}
  {decode : Json → Except DataFault α}
  {list : List (String × Json)}

/-- Members of other names make no difference to a field. -/
theorem foldlM_settle_of_notMem
    (absent : name ∉ list.map Prod.fst)
    (before : Option α) :
    list.foldlM (settle name decode) before = some before := by
  induction list with
  | nil =>
      rfl
  | cons member rest inductionHypothesis =>
      rw [List.map_cons, List.mem_cons, not_or] at absent
      simp [settle, Ne.symm absent.1, inductionHypothesis absent.2]

/-- Where names are distinct, a field is decoded from the member of its name. -/
theorem foldlM_settle
    (distinct : (list.map Prod.fst).Nodup) :
    list.foldlM (settle name decode) none =
      (optionalMember decode (member? name list)).toOption := by
  induction list with
  | nil =>
      rfl
  | cons member rest inductionHypothesis =>
      obtain ⟨key, value⟩ := member
      rw [List.map_cons, List.nodup_cons] at distinct
      obtain ⟨isNew, restDistinct⟩ := distinct
      rw [List.foldlM_cons]
      by_cases same : key = name
      · subst same
        have absent : member? key rest = none := by
          rw [member?_eq_none_iff]
          intro value present
          exact isNew (List.mem_map.mpr ⟨_, present, rfl⟩)
        rw [member?, absent, settle, if_pos rfl, if_pos rfl]
        cases decoded : decode value with
        | error fault =>
            simp [once, optionalMember, decoded, Except.map]
        | ok found =>
            simp [once, optionalMember, decoded, Except.map,
              foldlM_settle_of_notMem isNew]
      · have skipped := member?_of_unlike same [] rest value
        rw [List.nil_append, List.nil_append] at skipped
        rw [settle, if_neg same, skipped]
        exact inductionHypothesis restDistinct

end

theorem absorb_eq_some_iff
    {members next : NodeMembers}
    {member : String × Json} :
    absorb members member = some next ↔
      settle "kind" (variantOfJson kinds) members.kind member =
          some next.kind ∧
        settle "range" spanOfJson members.span member =
          some next.span ∧
        settle "children" childrenOfJson members.children member =
          some next.children := by
  obtain ⟨kind, span, children⟩ := next
  simp [absorb, Option.bind_eq_some_iff, Field.name]

/-- Decoding the members of a node decodes every field by itself. -/
theorem foldlM_absorb_eq_some_iff
    {list : List (String × Json)}
    {members final : NodeMembers} :
    list.foldlM absorb members = some final ↔
      list.foldlM (settle "kind" (variantOfJson kinds)) members.kind =
          some final.kind ∧
        list.foldlM (settle "range" spanOfJson) members.span =
          some final.span ∧
        list.foldlM (settle "children" childrenOfJson) members.children =
          some final.children := by
  induction list generalizing members with
  | nil =>
      obtain ⟨kind, span, children⟩ := members
      obtain ⟨finalKind, finalSpan, finalChildren⟩ := final
      simp
  | cons member rest inductionHypothesis =>
      simp only [List.foldlM_cons, Option.bind_eq_bind,
        Option.bind_eq_some_iff, inductionHypothesis, absorb_eq_some_iff]
      constructor
      · rintro ⟨next, ⟨kind, span, children⟩, lastKind, lastSpan,
          lastChildren⟩
        exact ⟨⟨_, kind, lastKind⟩, ⟨_, span, lastSpan⟩,
          _, children, lastChildren⟩
      · rintro ⟨⟨_, kind, lastKind⟩, ⟨_, span, lastSpan⟩,
          _, children, lastChildren⟩
        exact ⟨⟨_, _, _⟩, ⟨kind, span, children⟩, lastKind, lastSpan,
          lastChildren⟩

theorem NodeMembers.node_eq_ok_iff
    {members : NodeMembers}
    {tree : Node} :
    members.node = .ok tree ↔
      members.kind = some tree.kind ∧
        members.span = some tree.span ∧
        members.children.getD [] = tree.children := by
  obtain ⟨kind, span, children⟩ := members
  obtain ⟨treeKind, treeSpan, treeChildren⟩ := tree
  cases kind <;> cases span <;> simp [NodeMembers.node]

/-- Children are decoded as an optional member, of which none are the default. -/
theorem childrenOfMember_eq_ok_iff
    {found : Option Json}
    {nodes : List Node} :
    childrenOfMember found = .ok nodes ↔
      ∃ list,
        optionalMember childrenOfJson found = .ok list ∧
          list.getD [] = nodes := by
  cases found with
  | none =>
      simp [childrenOfMember, optionalMember]
  | some value =>
      cases decoded : childrenOfJson value <;>
        simp [childrenOfMember, optionalMember, decoded, Except.map]

/-- The members of a node make the tree just when the known ones are decoded to it. -/
theorem toOption_foldlM_absorb
    {list : List (String × Json)}
    (distinct : (list.map Prod.fst).Nodup) :
    ((list.foldlM absorb NodeMembers.none).bind fun final =>
        final.node.toOption) =
      (nodeOfJson (.object list)).toOption := by
  apply Option.ext
  intro tree
  rw [Option.bind_eq_some_iff, toOption_eq_some_iff, nodeOfJson_object,
    nodeOfKnown_eq_ok_iff, childrenOfMember_eq_ok_iff]
  simp only [foldlM_absorb_eq_some_iff, NodeMembers.none,
    foldlM_settle distinct, toOption_eq_some_iff,
    NodeMembers.node_eq_ok_iff, ← variantOfJson_kinds_eq_ok_iff,
    ← spanOfJson_eq_ok_iff, ← optionalMember_eq_ok_some_iff]
  constructor
  · rintro ⟨final, ⟨kind, span, children⟩, isKind, isSpan, isChildren⟩
    rw [isKind] at kind
    rw [isSpan] at span
    exact ⟨⟨_, children, isChildren⟩, kind, span⟩
  · rintro ⟨⟨list, children, isChildren⟩, kind, span⟩
    exact ⟨⟨_, _, list⟩, ⟨kind, span, children⟩, rfl, rfl, isChildren⟩

/-! ## Trees -/

/-- A node is not read from what opens neither an array nor an object. -/
theorem toOption_readNodeWith_of_ne
    {character : Char}
    (notBlank : isBlank character = false)
    (notArray : character ≠ '[')
    (notObject : character ≠ '\x7b')
    (children : Reader (List Node))
    (budget : Nat)
    (text : List Char) :
    (readNodeWith children budget (character :: text)).toOption = none := by
  simp [readNodeWith, skipBlanks_cons notBlank, notArray, notObject]

/-- A list of children is not read from what does not open an array. -/
theorem toOption_readChildrenWith_of_ne
    {character : Char}
    (notBlank : isBlank character = false)
    (notArray : character ≠ '[')
    (node : Reader Node)
    (text : List Char) :
    (readChildrenWith node (character :: text)).toOption = none := by
  simp [readChildrenWith, skipBlanks_cons notBlank, notArray]

/-- A node is read just when it is decoded, if its children are. -/
theorem readNodeWith_agrees
    {children : Reader (List Node)}
    {budget : Nat}
    (childrenAgree : AgreesWithin budget children childrenOfJson) :
    AgreesWithin (budget + 1) (readNodeWith children budget) nodeOfJson := by
  intro value after text renders shallow distinct
  cases value with
  | array items =>
      cases renders with
      | array renders =>
          exact readNodeElements_renders childrenAgree renders
            (Nat.le_of_succ_le_succ shallow) distinct
  | object members =>
      cases renders with
      | @object _ others _ text reordered renders =>
          have enough : others.length < fuelFor text := by
            have longer := renders.length_add_lt
            rw [fuelFor]
            omega
          have shallowOthers : nestingOfMembers others ≤ budget := by
            rw [nestingOfMembers_of_perm reordered]
            exact Nat.le_of_succ_le_succ shallow
          have distinctOthers : (others.map Prod.fst).Nodup :=
            (reordered.map Prod.fst).nodup_iff.mp distinct.1
          have same :
              nodeOfJson (.object others) = nodeOfJson (.object members) := by
            simp only [nodeOfJson_object,
              member?_of_perm distinct.1 reordered]
          have read :=
            toOption_readNodeMembers childrenAgree renders shallowOthers
              (distinct.2.of_perm reordered) enough NodeMembers.none
          rw [toOption_foldlM_absorb distinctOthers, same] at read
          exact read
  | _ =>
      obtain ⟨character, rest, rfl, opens⟩ := renders.exists_eq_cons
      refine .of_none
        (toOption_readNodeWith_of_ne opens.isBlank_eq_false ?_ ?_
          children budget rest) (by simp [nodeOfJson]) <;>
        exact opens.ne (by simp [Opens, startsNumber, isDigit])

/-- Trees are read one after the other just when they are decoded. -/
theorem elements_renders
    {node : Reader Node}
    {budget : Nat}
    (nodesAgree : AgreesWithin budget node nodeOfJson)
    {first : Bool}
    {items : List Json}
    {after text : List Char}
    {fuel : Nat}
    (renders : RendersItems first items after text)
    (shallow : nestingOfItems items ≤ budget)
    (distinct : DistinctKeysOfItems items)
    (enough : items.length < fuel) :
    Agrees (elements node fuel first text) (nodesOfJson items) after := by
  induction items generalizing first text fuel with
  | nil =>
      obtain ⟨less, rfl⟩ :=
        Nat.exists_eq_add_one_of_ne_zero (Nat.ne_zero_of_lt enough)
      cases renders
      rw [elements_closing, nodesOfJson]
      rfl
  | cons item rest inductionHypothesis =>
      obtain ⟨less, rfl⟩ :=
        Nat.exists_eq_add_one_of_ne_zero (Nat.ne_zero_of_lt enough)
      rw [nestingOfItems, Nat.max_le] at shallow
      obtain ⟨written, others, found, ofItem, ofRest⟩ :=
        renders.exists_nextElement
      rw [elements, found, ok_bind, nodesOfJson]
      apply (nodesAgree ofItem shallow.1 distinct.1).bind
      intro head
      apply (inductionHypothesis ofRest shallow.2 distinct.2
        (Nat.lt_of_succ_lt_succ enough)).bind
      intro tail
      rfl

/-- A list of children is read just when it is decoded, if its trees are. -/
theorem readChildrenWith_agrees
    {node : Reader Node}
    {budget : Nat}
    (nodesAgree : AgreesWithin budget node nodeOfJson) :
    AgreesWithin (budget + 1) (readChildrenWith node) childrenOfJson := by
  intro value after text renders shallow distinct
  cases value with
  | array items =>
      cases renders with
      | @array _ _ text renders =>
          rw [childrenOfJson]
          have enough : items.length < fuelFor text := by
            have longer := renders.length_add_lt
            rw [fuelFor]
            omega
          exact elements_renders nodesAgree renders
            (Nat.le_of_succ_le_succ shallow) distinct enough
  | _ =>
      obtain ⟨character, rest, rfl, opens⟩ := renders.exists_eq_cons
      refine .of_none
        (toOption_readChildrenWith_of_ne opens.isBlank_eq_false ?_ node
          rest) (by simp [childrenOfJson])
      exact opens.ne (by simp [Opens, startsNumber, isDigit])

theorem toOption_readClosed
    (wanted : Wanted)
    (opens : Char → Bool)
    (text : List Char) :
    (readClosed wanted opens text : Except TextFault (α × List Char)).toOption =
      none := by
  apply Option.eq_none_iff_forall_ne_some.mpr
  intro read isRead
  exact readClosed_ne_ok wanted opens text read
    (toOption_eq_some_iff.mp isRead)

/-- Within a budget of brackets, trees and lists of trees are read as decoded. -/
theorem readNode_agrees
    (budget : Nat) :
    AgreesWithin budget (readNode budget) nodeOfJson ∧
      AgreesWithin budget (readChildren budget) childrenOfJson := by
  induction budget with
  | zero =>
      constructor
      · intro value after text renders shallow distinct
        refine .of_none (toOption_readClosed _ _ _) ?_
        cases value with
        | array items =>
            contradiction
        | object members =>
            contradiction
        | _ =>
            simp [nodeOfJson]
      · intro value after text renders shallow distinct
        refine .of_none (toOption_readClosed _ _ _) ?_
        cases value with
        | array items =>
            contradiction
        | _ =>
            simp [childrenOfJson]
  | succ budget inductionHypothesis =>
      obtain ⟨nodesAgree, childrenAgree⟩ := inductionHypothesis
      exact ⟨readNodeWith_agrees childrenAgree,
        readChildrenWith_agrees nodesAgree⟩

/--
The two decoders agree.

Take a value whose objects have distinct names and which nests no deeper than a
reader goes. What the printer writes is a rendering of the value. And whichever
rendering of the value a text is, with the members of its objects in any order, the
text is decoded to a tree just when the value is, and to the same tree.
-/
theorem nodeOfText_iff_nodeOfJson
    (value : Json)
    (distinct : value.DistinctKeys)
    (shallow : value.nesting ≤ 127) :
    Renders value [] value.compact.toList ∧
      ∀ text : String,
        Renders value [] text.toList →
        ∀ tree, nodeOfText text = .ok tree ↔ nodeOfJson value = .ok tree := by
  constructor
  · rw [compact, String.toList_ofList]
    exact renders_compactOnto value []
  · intro text renders tree
    have agrees :=
      (readNode_agrees nestingLimit).1 renders shallow distinct
    rw [← toOption_eq_some_iff, ← toOption_eq_some_iff, nodeOfText,
      wholeText, toOption_bind, agrees]
    cases nodeOfJson value <;> exact Iff.rfl

/-- The name `foo`, with a weight that no reader of trees looks at. -/
def weightedName : List (String × Json) := [
  ("kind", .string "identifier"),
  ("range", .array [.ofNat 0, .ofNat 3]),
  ("weight", .number (.real ⟨false, 5, -1⟩))]

/-- The same with its members in the opposite order. -/
def weightedText : String :=
  "\x7b\"weight\":0.5,\"range\":[0,3],\"kind\":\"identifier\"\x7d"

/-- A half with a fraction. -/
def half : Spelling where
  negative := false
  whole := 0
  fraction := ['5']
  exponent := none
  isDigit_of_mem :=
    List.forall_mem_singleton.mpr rfl

theorem renders_weightedText :
    Renders (.object weightedName) [] weightedText.toList := by
  have isReal : half.IsReal := .inl (List.cons_ne_nil _ _)
  exact .object (List.reverse_perm weightedName).symm
    (.cons (.real isReal)
      (.cons (.array (.cons .integer (.cons .integer .nil)))
        (.cons .string .nil)))

/-- The name is decoded from the text as it is from the value. -/
theorem nodeOfText_iff_nodeOfJson_weightedText :
    let value : Json := .object weightedName
    let tree : Node := .leaf .identifier (.ofTested 0 3 (.refl true))
    value.DistinctKeys ∧ value.nesting ≤ 127 ∧
      Renders value [] weightedText.toList ∧
      nodeOfJson value = .ok tree ∧
      nodeOfText weightedText = .ok tree := by
  intro value tree
  have distinct : value.DistinctKeys := by
    simp [value, weightedName, DistinctKeys, DistinctKeysOfItems,
      DistinctKeysOfMembers, Json.ofNat]
  have shallow : value.nesting ≤ 127 := by
    decide
  have decoded : nodeOfJson value = .ok tree := by
    rw [nodeOfJson_object]
    rfl
  obtain ⟨_, agree⟩ := nodeOfText_iff_nodeOfJson value distinct shallow
  exact ⟨distinct, shallow, renders_weightedText, decoded,
    (agree weightedText renders_weightedText tree).mpr decoded⟩

end ShaderTint.Wire
