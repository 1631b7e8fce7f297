import Mathlib.Logic.Relation
import ShaderTint.Proofs.Json.Keys
import ShaderTint.Proofs.Json.Lexeme
import ShaderTint.Wire.OfValue

namespace ShaderTint.Wire

open Json

/-!
# The grammar of trees on the wire

Which JSON values stand for a tree, said without a decoder. A node is an object or
an array; its kind is a name or an object of one key; its span is a pair of
integers; and its children, if any, are an array of values that stand for them.

Main statement: `nodeOfJson_eq_ok_iff_denotes` says that decoding a value succeeds
just when the value stands for a tree, with that tree, and that neither the order of
an object's members nor unknown members make a difference, at any depth.
-/

/-! ## The grammar -/

/-- A kind is written as its name, or as an object that maps its name to null. -/
inductive DenotesKind : Json → Kind → Prop where
  | name
      (kind : Kind) :
      DenotesKind (.string kind.wire) kind
  | key
      (kind : Kind) :
      DenotesKind (.object [(kind.wire, .null)]) kind

/-- A span is written as an array of two integers, byte offsets that are in order. -/
inductive DenotesSpan : Json → Span → Prop where
  | ends
      {start stop : Nat}
      (ordered : start ≤ stop)
      (small : stop < offsetLimit) :
      DenotesSpan
        (.array [.number (.integer start), .number (.integer stop)])
        ⟨start, stop, ordered, small⟩

mutual

/-- The value stands for the tree. -/
inductive Denotes : Json → Node → Prop where
  /-- An object with a kind and a span, without a member for children. -/
  | object
      {members : List (String × Json)}
      {kindValue spanValue : Json}
      {kind : Kind}
      {span : Span} :
      ("kind", kindValue) ∈ members →
      ("range", spanValue) ∈ members →
      (∀ value, ("children", value) ∉ members) →
      DenotesKind kindValue kind →
      DenotesSpan spanValue span →
      Denotes (.object members)
        { kind := kind, span := span, children := [] }
  /-- An object with a kind, a span and an array of children. -/
  | objectWithChildren
      {members : List (String × Json)}
      {kindValue spanValue : Json}
      {items : List Json}
      {kind : Kind}
      {span : Span}
      {children : List Node} :
      ("kind", kindValue) ∈ members →
      ("range", spanValue) ∈ members →
      ("children", .array items) ∈ members →
      DenotesKind kindValue kind →
      DenotesSpan spanValue span →
      DenoteAll items children →
      Denotes (.object members)
        { kind := kind, span := span, children := children }
  /-- An array of a kind and a span. -/
  | array
      {kindValue spanValue : Json}
      {kind : Kind}
      {span : Span} :
      DenotesKind kindValue kind →
      DenotesSpan spanValue span →
      Denotes (.array [kindValue, spanValue])
        { kind := kind, span := span, children := [] }
  /-- An array of a kind, a span and an array of children. -/
  | arrayWithChildren
      {kindValue spanValue : Json}
      {items : List Json}
      {kind : Kind}
      {span : Span}
      {children : List Node} :
      DenotesKind kindValue kind →
      DenotesSpan spanValue span →
      DenoteAll items children →
      Denotes (.array [kindValue, spanValue, .array items])
        { kind := kind, span := span, children := children }

/-- The values stand for the trees, one for one and in order. -/
inductive DenoteAll : List Json → List Node → Prop where
  | nil :
      DenoteAll [] []
  | cons
      {item : Json}
      {items : List Json}
      {node : Node}
      {nodes : List Node} :
      Denotes item node →
      DenoteAll items nodes →
      DenoteAll (item :: items) (node :: nodes)

end

/-! ## Kinds and spans -/

theorem find_kinds_eq_ok_iff
    {name : String}
    {kind : Kind} :
    kinds.find name = .ok kind ↔ name = kind.wire := by
  unfold Vocabulary.find
  cases found : kinds.find? name with
  | none =>
      have different : name ≠ kind.wire := by
        rintro rfl
        rw [show kinds.find? kind.wire = some kind from
          Kind.ofWire?_wire kind] at found
        contradiction
      simp [different]
  | some other =>
      have wire : other.wire = name :=
        Kind.wire_of_ofWire? found
      constructor
      · intro same
        cases same
        exact wire.symm
      · rintro rfl
        rw [show kinds.find? kind.wire = some kind from
          Kind.ofWire?_wire kind] at found
        cases found
        rfl

/-- A kind is decoded just from what stands for it. -/
theorem variantOfJson_kinds_eq_ok_iff
    {value : Json}
    {kind : Kind} :
    variantOfJson kinds value = .ok kind ↔ DenotesKind value kind := by
  constructor
  · intro decoded
    unfold variantOfJson at decoded
    split at decoded
    · rw [find_kinds_eq_ok_iff.mp decoded]
      exact .name kind
    · -- The name is looked up before the value beside it is seen to be null.
      obtain ⟨found, isFound, rest⟩ := bind_eq_ok_iff.mp decoded
      rw [find_kinds_eq_ok_iff.mp isFound]
      split at rest
      · cases rest
        exact .key kind
      · contradiction
    · contradiction
    · contradiction
  · intro denotes
    cases denotes with
    | name =>
        exact find_kinds_eq_ok_iff.mpr rfl
    | key =>
        rw [variantOfJson, find_kinds_eq_ok_iff.mpr rfl]
        rfl

/-- An offset is decoded just from an integer within bounds. -/
theorem offsetOfJson_eq_ok_iff
    {value : Json}
    {offset : { offset : Nat // offset < offsetLimit }} :
    offsetOfJson value = .ok offset ↔
      value = .number (.integer offset.val) := by
  constructor
  · intro decoded
    unfold offsetOfJson at decoded
    split at decoded
    · next whole =>
        unfold offsetOf at decoded
        split at decoded
        · split at decoded
          · cases decoded
            rfl
          · contradiction
        · contradiction
    · contradiction
  · rintro rfl
    simp [offsetOfJson, offsetOf, offset.property]

/-- A span is decoded just from what stands for it. -/
theorem spanOfJson_eq_ok_iff
    {value : Json}
    {span : Span} :
    spanOfJson value = .ok span ↔ DenotesSpan value span := by
  constructor
  · intro decoded
    unfold spanOfJson at decoded
    split at decoded
    · contradiction
    · obtain ⟨_, _, impossible⟩ := bind_eq_ok_iff.mp decoded
      contradiction
    · next startValue stopValue rest =>
        obtain ⟨start, isStart, afterStart⟩ := bind_eq_ok_iff.mp decoded
        obtain ⟨stop, isStop, afterStop⟩ := bind_eq_ok_iff.mp afterStart
        split at afterStop
        · next noMore =>
            rw [List.isEmpty_iff.mp noMore, offsetOfJson_eq_ok_iff.mp isStart,
              offsetOfJson_eq_ok_iff.mp isStop]
            unfold spanOf at afterStop
            split at afterStop
            · next ordered =>
                cases afterStop
                exact .ends ordered stop.property
            · contradiction
        · contradiction
    · contradiction
  · intro denotes
    cases denotes with
    | @ends start stop ordered small =>
        have isStart :
            offsetOfJson (.number (.integer start)) =
              .ok ⟨start, Nat.lt_of_le_of_lt ordered small⟩ :=
          offsetOfJson_eq_ok_iff.mpr rfl
        have isStop :
            offsetOfJson (.number (.integer stop)) = .ok ⟨stop, small⟩ :=
          offsetOfJson_eq_ok_iff.mpr rfl
        rw [spanOfJson, isStart, ok_bind, isStop, ok_bind]
        exact dif_pos ordered

/-! ## Nodes -/

/-- Decode the children of an object, which may have no member for them. -/
def childrenOfMember : Option Json → Except DataFault (List Node)
  | some list => childrenOfJson list
  | none => .ok []

/-- Decode a node from the members of an object that are known. -/
def nodeOfKnown
    (childrenMember kindMember spanMember : Option Json) :
    Except DataFault Node := do
  let children ← childrenOfMember childrenMember
  let kind ← optionalMember (variantOfJson kinds) kindMember
  let span ← optionalMember spanOfJson spanMember
  let kind ← required .kind kind
  let span ← required .range span
  return { kind := kind, span := span, children := children }

/-- Decoding an object looks at its known members only. -/
theorem nodeOfJson_object
    (members : List (String × Json)) :
    nodeOfJson (.object members) =
      nodeOfKnown (member? "children" members) (member? "kind" members)
        (member? "range" members) := by
  rw [nodeOfJson, nodeOfKnown]
  split
  · next list found =>
      rw [found]
      rfl
  · next found =>
      rw [found]
      rfl

theorem childrenOfJson_eq_ok_iff
    {list : Json}
    {nodes : List Node} :
    childrenOfJson list = .ok nodes ↔
      ∃ items, list = .array items ∧ nodesOfJson items = .ok nodes := by
  unfold childrenOfJson
  split
  · simp
  · next notArray =>
      simp only [reduceCtorEq, false_iff]
      rintro ⟨items, rfl, _⟩
      exact notArray items rfl

/-- A required member is decoded when it is there and its value is decoded. -/
theorem optionalMember_eq_ok_some_iff
    {decode : Json → Except DataFault α}
    {found : Option Json}
    {result : α} :
    optionalMember decode found = .ok (some result) ↔
      ∃ value, found = some value ∧ decode value = .ok result := by
  cases found with
  | none =>
      simp [optionalMember]
  | some value =>
      cases decoded : decode value <;>
        simp [optionalMember, decoded, Except.map]

theorem required_eq_ok_iff
    {field : Field}
    {found : Option α}
    {value : α} :
    required field found = .ok value ↔ found = some value := by
  cases found <;> simp [required]

/-- A node is decoded from the known members when each of them is decoded. -/
theorem nodeOfKnown_eq_ok_iff
    {childrenMember kindMember spanMember : Option Json}
    {tree : Node} :
    nodeOfKnown childrenMember kindMember spanMember = .ok tree ↔
      childrenOfMember childrenMember = .ok tree.children ∧
        (∃ value,
          kindMember = some value ∧ DenotesKind value tree.kind) ∧
        ∃ value,
          spanMember = some value ∧ DenotesSpan value tree.span := by
  constructor
  · intro decoded
    obtain ⟨children, isChildren, afterChildren⟩ :=
      bind_eq_ok_iff.mp decoded
    obtain ⟨kind?, isKind, afterKind⟩ := bind_eq_ok_iff.mp afterChildren
    obtain ⟨span?, isSpan, afterSpan⟩ := bind_eq_ok_iff.mp afterKind
    obtain ⟨kind, someKind, withKind⟩ := bind_eq_ok_iff.mp afterSpan
    obtain ⟨span, someSpan, returned⟩ := bind_eq_ok_iff.mp withKind
    cases returned
    rw [required_eq_ok_iff.mp someKind] at isKind
    rw [required_eq_ok_iff.mp someSpan] at isSpan
    obtain ⟨kindValue, hasKind, kindDecoded⟩ :=
      optionalMember_eq_ok_some_iff.mp isKind
    obtain ⟨spanValue, hasSpan, spanDecoded⟩ :=
      optionalMember_eq_ok_some_iff.mp isSpan
    exact ⟨isChildren,
      ⟨kindValue, hasKind, variantOfJson_kinds_eq_ok_iff.mp kindDecoded⟩,
      spanValue, hasSpan, spanOfJson_eq_ok_iff.mp spanDecoded⟩
  · obtain ⟨kind, span, children⟩ := tree
    rintro ⟨isChildren, ⟨kindValue, hasKind, denotesKind⟩,
      spanValue, hasSpan, denotesSpan⟩
    have isKind :=
      optionalMember_eq_ok_some_iff.mpr
        ⟨kindValue, hasKind, variantOfJson_kinds_eq_ok_iff.mpr denotesKind⟩
    have isSpan :=
      optionalMember_eq_ok_some_iff.mpr
        ⟨spanValue, hasSpan, spanOfJson_eq_ok_iff.mpr denotesSpan⟩
    rw [nodeOfKnown, isChildren, isKind, isSpan]
    rfl

/-- The decoder of lists agrees with the grammar on a list. -/
def AgreesOn
    (items : List Json) :
    Prop :=
  ∀ nodes, nodesOfJson items = .ok nodes ↔ DenoteAll items nodes

/-- An object is decoded just from what stands for a tree, if its children are. -/
theorem nodeOfJson_object_eq_ok_iff
    {members : List (String × Json)}
    (distinct : (members.map Prod.fst).Nodup)
    (agrees :
      ∀ items, ("children", .array items) ∈ members → AgreesOn items)
    {tree : Node} :
    nodeOfJson (.object members) = .ok tree ↔
      Denotes (.object members) tree := by
  rw [nodeOfJson_object, nodeOfKnown_eq_ok_iff]
  simp only [member?_eq_some_iff distinct]
  constructor
  · rintro ⟨isChildren, ⟨kindValue, hasKind, denotesKind⟩,
      spanValue, hasSpan, denotesSpan⟩
    obtain ⟨kind, span, children⟩ := tree
    cases found : member? "children" members with
    | none =>
        rw [found] at isChildren
        cases isChildren
        exact .object hasKind hasSpan (member?_eq_none_iff.mp found)
          denotesKind denotesSpan
    | some list =>
        rw [found] at isChildren
        obtain ⟨items, rfl, decoded⟩ :=
          childrenOfJson_eq_ok_iff.mp isChildren
        have present := (member?_eq_some_iff distinct).mp found
        exact .objectWithChildren hasKind hasSpan present denotesKind
          denotesSpan ((agrees items present children).mp decoded)
  · intro denotes
    cases denotes with
    | object hasKind hasSpan noChildren denotesKind denotesSpan =>
        rw [member?_eq_none_iff.mpr noChildren]
        exact ⟨rfl, ⟨_, hasKind, denotesKind⟩, _, hasSpan, denotesSpan⟩
    | objectWithChildren hasKind hasSpan present denotesKind denotesSpan
        denoteAll =>
        rw [(member?_eq_some_iff distinct).mpr present]
        refine ⟨childrenOfJson_eq_ok_iff.mpr ⟨_, rfl, ?_⟩,
          ⟨_, hasKind, denotesKind⟩, _, hasSpan, denotesSpan⟩
        exact (agrees _ present _).mpr denoteAll

/-- An array is decoded just from what stands for a tree, if its children are. -/
theorem nodeOfJson_array_eq_ok_iff
    {elements : List Json}
    (agrees : ∀ items, .array items ∈ elements → AgreesOn items)
    {tree : Node} :
    nodeOfJson (.array elements) = .ok tree ↔
      Denotes (.array elements) tree := by
  constructor
  · intro decoded
    unfold nodeOfJson at decoded
    match elements with
    | [] =>
        contradiction
    | [kindValue] =>
        obtain ⟨_, _, impossible⟩ := bind_eq_ok_iff.mp decoded
        contradiction
    | [kindValue, spanValue] =>
        obtain ⟨kind, isKind, afterKind⟩ := bind_eq_ok_iff.mp decoded
        obtain ⟨span, isSpan, returned⟩ := bind_eq_ok_iff.mp afterKind
        cases returned
        exact .array (variantOfJson_kinds_eq_ok_iff.mp isKind)
          (spanOfJson_eq_ok_iff.mp isSpan)
    | kindValue :: spanValue :: list :: rest =>
        obtain ⟨kind, isKind, afterKind⟩ := bind_eq_ok_iff.mp decoded
        obtain ⟨span, isSpan, afterSpan⟩ := bind_eq_ok_iff.mp afterKind
        obtain ⟨children, isChildren, returned⟩ :=
          bind_eq_ok_iff.mp afterSpan
        obtain ⟨items, rfl, listed⟩ :=
          childrenOfJson_eq_ok_iff.mp isChildren
        split at returned
        · next noMore =>
            cases returned
            rw [List.isEmpty_iff.mp noMore] at agrees ⊢
            exact .arrayWithChildren
              (variantOfJson_kinds_eq_ok_iff.mp isKind)
              (spanOfJson_eq_ok_iff.mp isSpan)
              ((agrees items (by simp) children).mp listed)
        · contradiction
  · intro denotes
    cases denotes with
    | array denotesKind denotesSpan =>
        rw [nodeOfJson, variantOfJson_kinds_eq_ok_iff.mpr denotesKind,
          spanOfJson_eq_ok_iff.mpr denotesSpan]
        rfl
    | arrayWithChildren denotesKind denotesSpan denoteAll =>
        have listed :=
          childrenOfJson_eq_ok_iff.mpr
            ⟨_, rfl, (agrees _ (by simp) _).mpr denoteAll⟩
        rw [nodeOfJson, variantOfJson_kinds_eq_ok_iff.mpr denotesKind,
          spanOfJson_eq_ok_iff.mpr denotesSpan, listed]
        rfl

/-- A value that is neither an object nor an array stands for no tree. -/
theorem nodeOfJson_plain_eq_ok_iff
    {value : Json}
    (notObject : ∀ members, value ≠ .object members)
    (notArray : ∀ items, value ≠ .array items)
    {tree : Node} :
    nodeOfJson value = .ok tree ↔ Denotes value tree := by
  constructor
  · intro decoded
    unfold nodeOfJson at decoded
    split at decoded
    · exact absurd rfl (notObject _)
    · contradiction
    · exact absurd rfl (notArray _)
    · exact absurd rfl (notArray _)
    · exact absurd rfl (notArray _)
    · contradiction
  · intro denotes
    cases denotes with
    | object =>
        exact absurd rfl (notObject _)
    | objectWithChildren =>
        exact absurd rfl (notObject _)
    | array =>
        exact absurd rfl (notArray _)
    | arrayWithChildren =>
        exact absurd rfl (notArray _)

/-- A list is decoded just from values that stand for trees, if its first value is. -/
theorem nodesOfJson_cons_eq_ok_iff
    {item : Json}
    {items : List Json}
    (first : ∀ node, nodeOfJson item = .ok node ↔ Denotes item node)
    (others : AgreesOn items) :
    AgreesOn (item :: items) := by
  intro nodes
  rw [nodesOfJson, bind_eq_ok_iff]
  constructor
  · rintro ⟨node, isNode, afterNode⟩
    obtain ⟨rest, isRest, returned⟩ := bind_eq_ok_iff.mp afterNode
    cases returned
    exact .cons ((first node).mp isNode) ((others rest).mp isRest)
  · intro denoteAll
    cases denoteAll with
    | cons denotes rest =>
        refine ⟨_, (first _).mpr denotes, ?_⟩
        rw [(others _).mpr rest]
        rfl

mutual

/-- Decoding accepts just the values that stand for a tree. -/
theorem nodeOfJson_eq_ok_iff :
    (value : Json) →
      value.DistinctKeys →
      (tree : Node) →
      (nodeOfJson value = .ok tree ↔ Denotes value tree)
  | .object members, distinct, tree => by
      apply nodeOfJson_object_eq_ok_iff distinct.1
      intro items present
      exact agreesOn items (distinct.2.of_mem present)
  | .array elements, distinct, tree => by
      apply nodeOfJson_array_eq_ok_iff
      intro items present
      exact agreesOn items (DistinctKeysOfItems.of_mem distinct present)
  | .null, _, _ => by
      apply nodeOfJson_plain_eq_ok_iff <;> simp
  | .bool _, _, _ => by
      apply nodeOfJson_plain_eq_ok_iff <;> simp
  | .number _, _, _ => by
      apply nodeOfJson_plain_eq_ok_iff <;> simp
  | .string _, _, _ => by
      apply nodeOfJson_plain_eq_ok_iff <;> simp
termination_by value => sizeOf value
decreasing_by
  -- A list of children is smaller than the object or the array that holds it.
  · have smaller := List.sizeOf_lt_of_mem present
    simp only [Prod.mk.sizeOf_spec, Json.array.sizeOf_spec] at smaller
    simp only [Json.object.sizeOf_spec]
    omega
  · have smaller := List.sizeOf_lt_of_mem present
    simp only [Json.array.sizeOf_spec] at smaller
    simp only [Json.array.sizeOf_spec]
    omega

/-- Decoding accepts just the lists of values that stand for trees. -/
theorem agreesOn :
    (items : List Json) →
      DistinctKeysOfItems items →
      AgreesOn items
  | [], _ => by
      intro nodes
      rw [nodesOfJson]
      constructor
      · intro decoded
        cases decoded
        exact .nil
      · intro denoteAll
        cases denoteAll
        rfl
  | item :: items, distinct =>
      nodesOfJson_cons_eq_ok_iff
        (nodeOfJson_eq_ok_iff item distinct.1)
        (agreesOn items distinct.2)
termination_by items => sizeOf items

end

/-! ## What makes no difference -/

/-- The names of members that are looked at. -/
def knownNames : List String :=
  ["kind", "range", "children"]

/--
One change that leaves the tree of a value as it is.

The members of a node's object are reordered, or one of an unknown name is put
among them, at the node itself or at one of those below it.
-/
inductive Varies : Json → Json → Prop where
  | reorder
      {members others : List (String × Json)} :
      (members.map Prod.fst).Nodup →
      members.Perm others →
      Varies (.object members) (.object others)
  | extend
      {before after : List (String × Json)}
      {name : String}
      {value : Json} :
      name ∉ knownNames →
      Varies (.object (before ++ after))
        (.object (before ++ (name, value) :: after))
  | belowObject
      {before after : List (String × Json)}
      {left right : List Json}
      {item other : Json} :
      Varies item other →
      Varies
        (.object
          (before ++
            ("children", .array (left ++ item :: right)) :: after))
        (.object
          (before ++
            ("children", .array (left ++ other :: right)) :: after))
  | belowArray
      {kindValue spanValue : Json}
      {left right : List Json}
      {item other : Json} :
      Varies item other →
      Varies
        (.array [kindValue, spanValue, .array (left ++ item :: right)])
        (.array [kindValue, spanValue, .array (left ++ other :: right)])

/-- Lists that differ in values which are decoded alike are decoded alike. -/
theorem nodesOfJson_congr
    {item other : Json}
    (same : nodeOfJson other = nodeOfJson item)
    (left right : List Json) :
    nodesOfJson (left ++ other :: right) =
      nodesOfJson (left ++ item :: right) := by
  induction left with
  | nil =>
      rw [List.nil_append, List.nil_append, nodesOfJson, nodesOfJson, same]
  | cons first rest inductionHypothesis =>
      rw [List.cons_append, List.cons_append, nodesOfJson, nodesOfJson,
        inductionHypothesis]

theorem childrenOfJson_congr
    {item other : Json}
    (same : nodeOfJson other = nodeOfJson item)
    (left right : List Json) :
    childrenOfJson (.array (left ++ other :: right)) =
      childrenOfJson (.array (left ++ item :: right)) := by
  rw [childrenOfJson, childrenOfJson]
  exact nodesOfJson_congr same left right

/-- The children of an object may be exchanged for values that are decoded alike. -/
theorem childrenOfMember_congr
    {list other : Json}
    (same : childrenOfJson other = childrenOfJson list)
    (before after : List (String × Json)) :
    childrenOfMember
        (member? "children" (before ++ ("children", other) :: after)) =
      childrenOfMember
        (member? "children" (before ++ ("children", list) :: after)) := by
  rw [member?_append, member?_append, member?, member?]
  cases member? "children" after with
  | none =>
      exact same
  | some later =>
      rfl

/-- One such change makes no difference to what is decoded. -/
theorem nodeOfJson_of_varies
    {value other : Json}
    (varies : Varies value other) :
    nodeOfJson other = nodeOfJson value := by
  induction varies with
  | reorder distinct reordered =>
      simp only [nodeOfJson_object, member?_of_perm distinct reordered]
  | @extend before after name held unknown =>
      have unlike
          {known : String}
          (isKnown : known ∈ knownNames) :
          name ≠ known := by
        rintro rfl
        exact unknown isKnown
      rw [nodeOfJson_object, nodeOfJson_object,
        member?_of_unlike (unlike (by decide)),
        member?_of_unlike (unlike (by decide)),
        member?_of_unlike (unlike (by decide))]
  | @belowObject before after left right item other _ inductionHypothesis =>
      have sameChildren :=
        childrenOfMember_congr
          (childrenOfJson_congr inductionHypothesis left right) before after
      have notKind : "children" ≠ "kind" := by
        decide
      have notRange : "children" ≠ "range" := by
        decide
      simp only [nodeOfJson_object, nodeOfKnown, sameChildren,
        member?_of_unlike notKind, member?_of_unlike notRange]
  | @belowArray kindValue spanValue left right item other _
      inductionHypothesis =>
      rw [nodeOfJson, nodeOfJson,
        childrenOfJson_congr inductionHypothesis left right]

/--
Decoding accepts exactly the wire grammar.

For a value whose objects have distinct keys: it is decoded to a tree just when it
stands for that tree. And neither reordering the members of the objects of nodes nor
putting members of unknown names among them, at any depth and any number of times,
makes a difference to what a value is decoded to.
-/
theorem nodeOfJson_eq_ok_iff_denotes
    (value : Json)
    (distinct : value.DistinctKeys) :
    (∀ tree, nodeOfJson value = .ok tree ↔ Denotes value tree) ∧
      ∀ other,
        Relation.ReflTransGen Varies value other →
        nodeOfJson other = nodeOfJson value := by
  refine ⟨nodeOfJson_eq_ok_iff value distinct, ?_⟩
  intro other changes
  induction changes with
  | refl =>
      rfl
  | tail _ varies inductionHypothesis =>
      exact (nodeOfJson_of_varies varies).trans inductionHypothesis

/-- The operator of the call `foo()`, with its kind as an object of one key. -/
def operatorMembers : List (String × Json) := [
  ("range", .array [.ofNat 3, .ofNat 5]),
  ("kind", .object [("call_operator", .null)])]

/-- The call `foo()`, with its name as an array and these members for its operator. -/
def callMembers
    (operator : List (String × Json)) :
    List (String × Json) := [
  ("note", .bool true),
  ("children", .array [
    .array [.string "identifier", .array [.ofNat 0, .ofNat 3]],
    .object operator]),
  ("range", .array [.ofNat 0, .ofNat 5]),
  ("kind", .string "postfix_expression")]

/-- The tree of the call `foo()`. -/
def callTree : Node where
  kind := .postfixExpression
  span := .ofTested 0 5 (.refl true)
  children := [
    .leaf .identifier (.ofTested 0 3 (.refl true)),
    .leaf .callOperator (.ofTested 3 5 (.refl true))]

/-- The value of the call stands for its tree. -/
theorem denotes_callTree :
    Denotes (.object (callMembers operatorMembers)) callTree := by
  have denotesName :
      Denotes (.array [.string "identifier", .array [.ofNat 0, .ofNat 3]])
        (.leaf .identifier (.ofTested 0 3 (.refl true))) :=
    .array (.name .identifier) (.ends (by decide) (by decide))
  have denotesOperator :
      Denotes (.object operatorMembers)
        (.leaf .callOperator (.ofTested 3 5 (.refl true))) := by
    refine .object (List.mem_cons_of_mem _ List.mem_cons_self)
      List.mem_cons_self ?_ (.key .callOperator)
      (.ends (by decide) (by decide))
    simp [operatorMembers]
  have hasKind :
      ("kind", .string "postfix_expression") ∈
        callMembers operatorMembers := by
    simp [callMembers]
  have hasSpan :
      ("range", .array [.ofNat 0, .ofNat 5]) ∈
        callMembers operatorMembers := by
    simp [callMembers]
  exact .objectWithChildren hasKind hasSpan
    (List.mem_cons_of_mem _ List.mem_cons_self)
    (.name .postfixExpression) (.ends (by decide) (by decide))
    (.cons denotesName (.cons denotesOperator .nil))

/-- The call is decoded to its tree, with and without a note at its operator. -/
theorem nodeOfJson_eq_ok_iff_denotes_callTree :
    let value : Json := .object (callMembers operatorMembers)
    let noted : Json :=
      .object
        (callMembers (operatorMembers ++ [("note", .array [.null])]))
    value.DistinctKeys ∧
      nodeOfJson value = .ok callTree ∧
      nodeOfJson noted = .ok callTree := by
  intro value noted
  have distinct : value.DistinctKeys := by
    simp [value, callMembers, operatorMembers, DistinctKeys,
      DistinctKeysOfItems, DistinctKeysOfMembers, Json.ofNat]
  have varies : Varies value noted :=
    @Varies.belowObject [("note", .bool true)] _
      [.array [.string "identifier", .array [.ofNat 0, .ofNat 3]]] [] _ _
      (@Varies.extend operatorMembers [] "note" (.array [.null])
        (by decide))
  obtain ⟨accepts, unchanged⟩ := nodeOfJson_eq_ok_iff_denotes value distinct
  have decoded := (accepts callTree).mpr denotes_callTree
  exact ⟨distinct, decoded, (unchanged noted (.single varies)).trans decoded⟩

end ShaderTint.Wire
