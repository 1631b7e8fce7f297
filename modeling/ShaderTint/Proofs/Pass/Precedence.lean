import Mathlib.Data.List.Find
import ShaderTint.Proofs.Highlight.FirstSeen
import ShaderTint.Proofs.Pass.Lineage

namespace ShaderTint

/-!
# Declarations come first

Several rules may highlight one node, each with a tag of its own. The rules of the
nodes above it are applied before its own rule and before those of later nodes, and
the resolved view keeps what comes first: so a declaration decides how its parts are
shown.

Main statements: `Occurrence.firstTag?_of_topmost` says that the topmost rule for a
node is applied first, and `Occurrence.resolved_prefers_declarations` says under
which tag the resolved view shows each part of a declaration.
-/

/-- Kinds of the nodes that rules highlight. -/
def Kind.isWord : Kind → Bool
  | .identifier | .typeName | .builtInType | .semantic => true
  | _ => false

/-- Types are words. -/
theorem Kind.isWord_of_isType
    {kind : Kind}
    (type : kind.isType) :
    kind.isWord := by
  cases kind with
  | builtInType =>
      rfl
  | typeName =>
      rfl
  | _ =>
      cases type

namespace Occurrence

/-! ## The first emission for a node -/

/-- The tag of the first emission for an occurrence. -/
def firstTag?
    (root : Node)
    (target : Occurrence) :
    Option Tag :=
  ((emissions root).find? fun emission => emission.2 = target).map Prod.fst

section

variable {root : Node} {source target : Occurrence} {tag : Tag}

/-- The first emission for an occurrence is made by a rule. -/
theorem exists_entry_of_firstTag?
    (first : firstTag? root target = some tag) :
    ∃ source,
      Within root source ∧
        Table.Entry source.parent? source tag target := by
  obtain ⟨emission, found, sameTag⟩ := Option.map_eq_some_iff.mp first
  have sameTarget : emission.2 = target := by
    simpa using List.find?_some found
  obtain ⟨source, listed, present⟩ :=
    List.mem_flatMap.mp (List.mem_of_find?_eq_some found)
  refine ⟨source, mem_occurrences_iff.mp listed, ?_⟩
  rw [← sameTag, ← sameTarget]
  exact Table.mem_entries_iff.mp present

/--
The topmost rule for a node is applied first.

If the first source of emissions for the node were another one, it would come in
document order before a source that is above it.
-/
theorem firstTag?_of_topmost
    (reached : Within root source)
    (entry : Table.Entry source.parent? source tag target)
    (topmost :
      ∀ other otherTag,
        Table.Entry other.parent? other otherTag target →
        otherTag = tag ∨ source.Above other) :
    firstTag? root target = some tag := by
  have present :
      (tag, target) ∈ Table.entries source.parent? source :=
    entry.mem_entries
  have listed : source ∈ occurrences root :=
    mem_occurrences_iff.mpr reached
  cases found :
      (emissions root).find? fun emission => emission.2 = target with
  | none =>
      have emitted : (tag, target) ∈ emissions root :=
        List.mem_flatMap.mpr ⟨source, listed, present⟩
      have different := List.find?_eq_none.mp found _ emitted
      simp at different
  | some emission =>
      obtain ⟨firstTag, isTarget⟩ := emission
      have sameTarget : isTarget = target := by
        simpa using List.find?_some found
      subst sameTarget
      rw [firstTag?, found]
      rw [emissions, List.find?_flatMap] at found
      obtain ⟨before, first, after, shape, foundHere, notBefore⟩ :=
        List.findSome?_eq_some_iff.mp found
      have firstEntry :=
        Table.mem_entries_iff.mp (List.mem_of_find?_eq_some foundHere)
      rcases topmost first firstTag firstEntry with sameTag | above
      · rw [sameTag]
        rfl
      · -- The topmost source would be listed before, at, or after one below it.
        exfalso
        rw [shape, List.mem_append, List.mem_cons] at listed
        rcases listed with earlier | same | later
        · have different :=
            List.find?_eq_none.mp (notBefore source earlier) _ present
          simp at different
        · exact above.ne same
        · have ordered := occurrences_ordered root
          rw [shape, List.pairwise_append, List.pairwise_cons] at ordered
          exact ordered.2.1.1 source later above.atOrAbove

end

/-! ## Which rules compete for a node -/

/-- The type that a declaration of one variable, a member or a function begins with. -/
def declaresType
    (occurrence : Occurrence) :
    Bool :=
  occurrence.isFirst Kind.isType &&
    (occurrence.under .singleVariableDeclaration ||
      occurrence.inFirst .variableDeclaration .fieldDeclaration ||
      occurrence.inFirst .functionHeader .functionDeclaration)

/-- A name that a declaration of variables declares. -/
def namesVariable
    (occurrence : Occurrence) :
    Bool :=
  occurrence.node.kind == .identifier &&
    occurrence.under .variableDeclaration

section

variable {root : Node} {source target : Occurrence} {tag : Tag}

/-- Identifiers are not types. -/
theorem not_isFirst_isType_of_identifier
    (reached : Within root target)
    (identifier : target.node.kind = .identifier) :
    ¬target.isFirst Kind.isType := by
  intro first
  have type := kind_of_isFirst reached.standing first
  rw [identifier] at type
  contradiction

/-- Rules tag nodes that are no identifiers as keywords or as types. -/
theorem tag_of_entry_of_not_identifier
    (reached : Within root target)
    (other : target.node.kind ≠ .identifier)
    (entry : Table.Entry source.parent? source tag target) :
    (tag = .keyword ∧ source = target) ∨
      (tag = .typeIdentifier ∧ target.declaresType) := by
  have notFirst :
      ¬target.isFirst (· == .identifier) := by
    intro first
    exact other (by simpa using kind_of_isFirst reached.standing first)
  cases tag with
  | keyword =>
      exact .inl ⟨rfl, (entry_keyword_iff.mp entry).1⟩
  | typeIdentifier =>
      right
      refine ⟨rfl, ?_⟩
      simp only [declaresType, Bool.and_eq_true, Bool.or_eq_true]
      rcases (entry_type_iff reached).mp entry with
        ⟨_, ⟨_, first⟩ | ⟨under, first⟩⟩ | ⟨_, first, inFirst | inFirst⟩
      · exact absurd first notFirst
      · exact ⟨first, .inl (.inl under)⟩
      · exact ⟨first, .inl (.inr inFirst)⟩
      · exact ⟨first, .inr inFirst⟩
  | fieldIdentifier =>
      rcases (entry_field_iff reached).mp entry with
        ⟨_, _, first⟩ | ⟨_, names⟩
      · exact absurd first notFirst
      · simp only [namesMember, Bool.and_eq_true, beq_iff_eq] at names
        exact absurd names.1.1 other
  | variableIdentifier =>
      exact absurd ((entry_variable_iff reached).mp entry).2.1 other
  | functionIdentifier =>
      rcases (entry_function_iff reached).mp entry with
        ⟨_, names⟩ | ⟨_, operand, _⟩ | ⟨_, _, operand⟩
      · simp only [namesFunction, Bool.and_eq_true, beq_iff_eq] at names
        exact absurd names.1.1 other
      · simp only [isOperand, Bool.and_eq_true, beq_iff_eq] at operand
        exact absurd operand.1.1 other
      · simp only [isOperand, Bool.and_eq_true, beq_iff_eq] at operand
        exact absurd operand.1.1 other

/-- Rules tag the names in a declaration of variables as variables or as fields. -/
theorem tag_of_entry_of_namesVariable
    (reached : Within root target)
    (declared : target.namesVariable)
    (entry : Table.Entry source.parent? source tag target) :
    (tag = .variableIdentifier ∧ target.parent? = some source) ∨
      (tag = .fieldIdentifier ∧ target.namesMember) := by
  simp only [namesVariable, Bool.and_eq_true, beq_iff_eq] at declared
  obtain ⟨identifier, underVariable⟩ := declared
  have notType := not_isFirst_isType_of_identifier reached identifier
  have elsewhere
      {kind : Kind}
      (under : target.under kind) :
      kind = .variableDeclaration :=
    under_unique under underVariable
  cases tag with
  | keyword =>
      obtain ⟨_, reserved⟩ := entry_keyword_iff.mp entry
      simp [identifier] at reserved
  | typeIdentifier =>
      rcases (entry_type_iff reached).mp entry with
        ⟨_, ⟨under, _⟩ | ⟨_, first⟩⟩ | ⟨_, first, _⟩
      · cases elsewhere under
      · exact absurd first notType
      · exact absurd first notType
  | fieldIdentifier =>
      rcases (entry_field_iff reached).mp entry with
        ⟨_, under, _⟩ | ⟨_, names⟩
      · cases elsewhere under
      · exact .inr ⟨rfl, names⟩
  | variableIdentifier =>
      exact .inl ⟨rfl, ((entry_variable_iff reached).mp entry).1⟩
  | functionIdentifier =>
      rcases (entry_function_iff reached).mp entry with
        ⟨_, names⟩ | ⟨_, operand, _⟩ | ⟨_, _, operand⟩
      · simp only [namesFunction, Bool.and_eq_true] at names
        cases elsewhere (under_of_inFirst reached names.1.2)
      · simp only [isOperand, Bool.and_eq_true] at operand
        cases elsewhere operand.1.2
      · simp only [isOperand, Bool.and_eq_true] at operand
        cases elsewhere operand.1.2

/-- Everything that a rule highlights is a word. -/
theorem isWord_of_entry
    (reached : Within root target)
    (entry : Table.Entry source.parent? source tag target) :
    target.node.kind.isWord := by
  by_cases identifier : target.node.kind = .identifier
  · rw [identifier]
    rfl
  · rcases tag_of_entry_of_not_identifier reached identifier entry with
      ⟨rfl, rfl⟩ | ⟨_, declared⟩
    · rcases (entry_keyword_iff.mp entry).2 with kind | kind <;>
        rw [kind] <;> rfl
    · simp only [declaresType, Bool.and_eq_true] at declared
      exact Kind.isWord_of_isType
        (kind_of_isFirst reached.standing declared.1)

/-! ## Which rule wins -/

/-- A declaration's own rule highlights the type that it begins with. -/
theorem exists_entry_of_declaresType
    (reached : Within root target)
    (declared : target.declaresType) :
    ∃ source,
      Within root source ∧
        source.Above target ∧
          Table.Entry source.parent? source .typeIdentifier target := by
  simp only [declaresType, Bool.and_eq_true, Bool.or_eq_true] at declared
  obtain ⟨first, (under | inFirst) | inFirst⟩ := declared
  · obtain ⟨parent, isParent⟩ :=
      Option.isSome_iff_exists.mp (isSome_parent?_of_under under)
    exact ⟨parent, reached.parent isParent, .of_parent isParent,
      (entry_type_iff reached).mpr
        (.inl ⟨isParent, .inr ⟨under, first⟩⟩)⟩
  · obtain ⟨source, isGrandparent⟩ :=
      Option.isSome_iff_exists.mp (isSome_grandparent?_of_inFirst inFirst)
    exact ⟨source, reached.grandparent isGrandparent,
      .of_grandparent isGrandparent,
      (entry_type_iff reached).mpr
        (.inr ⟨isGrandparent, first, .inl inFirst⟩)⟩
  · obtain ⟨source, isGrandparent⟩ :=
      Option.isSome_iff_exists.mp (isSome_grandparent?_of_inFirst inFirst)
    exact ⟨source, reached.grandparent isGrandparent,
      .of_grandparent isGrandparent,
      (entry_type_iff reached).mpr
        (.inr ⟨isGrandparent, first, .inr inFirst⟩)⟩

/-- A declared type is a type before it is a keyword. -/
theorem firstTag?_of_declaresType
    (reached : Within root target)
    (declared : target.declaresType) :
    firstTag? root target = some .typeIdentifier := by
  obtain ⟨source, sourceReached, above, entry⟩ :=
    exists_entry_of_declaresType reached declared
  have notIdentifier : target.node.kind ≠ .identifier := by
    intro identifier
    simp only [declaresType, Bool.and_eq_true] at declared
    exact not_isFirst_isType_of_identifier reached identifier declared.1
  refine firstTag?_of_topmost sourceReached entry ?_
  intro other otherTag otherEntry
  rcases tag_of_entry_of_not_identifier reached notIdentifier otherEntry with
    ⟨_, rfl⟩ | ⟨sameTag, _⟩
  · exact .inr above
  · exact .inl sameTag

/-- A reserved word that no declaration takes as its type is a keyword. -/
theorem firstTag?_of_reserved
    (reached : Within root target)
    (reserved :
      target.node.kind = .builtInType ∨ target.node.kind = .semantic)
    (undeclared : ¬target.declaresType) :
    firstTag? root target = some .keyword := by
  have notIdentifier : target.node.kind ≠ .identifier := by
    rcases reserved with kind | kind <;> simp [kind]
  refine firstTag?_of_topmost reached
    (entry_keyword_iff.mpr ⟨rfl, reserved⟩) ?_
  intro other otherTag otherEntry
  rcases tag_of_entry_of_not_identifier reached notIdentifier otherEntry with
    ⟨sameTag, _⟩ | ⟨_, declared⟩
  · exact .inl sameTag
  · exact absurd declared undeclared

/-- No semantic is the type of a declaration. -/
theorem not_declaresType_of_semantic
    (reached : Within root target)
    (semantic : target.node.kind = .semantic) :
    ¬target.declaresType := by
  intro declared
  simp only [declaresType, Bool.and_eq_true] at declared
  have type := kind_of_isFirst reached.standing declared.1
  rw [semantic] at type
  contradiction

/-- The names of a member stand in a declaration of variables. -/
theorem namesVariable_of_namesMember
    (reached : Within root target)
    (names : target.namesMember) :
    target.namesVariable := by
  simp only [namesMember, Bool.and_eq_true] at names
  simp only [namesVariable, Bool.and_eq_true]
  exact ⟨names.1.1, under_of_inFirst reached names.1.2⟩

/-- The name of a member is a field before it is a variable. -/
theorem firstTag?_of_namesMember
    (reached : Within root target)
    (names : target.namesMember) :
    firstTag? root target = some .fieldIdentifier := by
  have inMember := names
  simp only [namesMember, Bool.and_eq_true] at inMember
  obtain ⟨source, isGrandparent⟩ :=
    Option.isSome_iff_exists.mp
      (isSome_grandparent?_of_inFirst inMember.1.2)
  refine firstTag?_of_topmost (reached.grandparent isGrandparent)
    ((entry_field_iff reached).mpr (.inr ⟨isGrandparent, names⟩)) ?_
  intro other otherTag otherEntry
  rcases tag_of_entry_of_namesVariable reached
      (namesVariable_of_namesMember reached names) otherEntry with
    ⟨_, isParent⟩ | ⟨sameTag, _⟩
  · right
    apply Above.of_parent
    simpa [grandparent?, isParent] using isGrandparent
  · exact .inl sameTag

/-- A declared name that is no member's is a variable. -/
theorem firstTag?_of_namesVariable
    (reached : Within root target)
    (declared : target.namesVariable)
    (noMember : ¬target.namesMember) :
    firstTag? root target = some .variableIdentifier := by
  have parts := declared
  simp only [namesVariable, Bool.and_eq_true, beq_iff_eq] at parts
  obtain ⟨parent, isParent⟩ :=
    Option.isSome_iff_exists.mp (isSome_parent?_of_under parts.2)
  refine firstTag?_of_topmost (reached.parent isParent)
    ((entry_variable_iff reached).mpr ⟨isParent, parts⟩) ?_
  intro other otherTag otherEntry
  rcases tag_of_entry_of_namesVariable reached declared otherEntry with
    ⟨sameTag, _⟩ | ⟨_, member⟩
  · exact .inl sameTag
  · exact absurd member noMember

end

/-! ## The resolved view -/

/-- No two words of a tree have the same span. -/
def WordsApart
    (root : Node) :
    Prop :=
  ∀ left right,
    Within root left →
    Within root right →
    left.node.kind.isWord →
    right.node.kind.isWord →
    left.node.span = right.node.span →
    left = right

/-- A list shows an occurrence once, under this tag. -/
def ShownAs
    (occurrence : Occurrence)
    (highlights : List Highlight)
    (tag : Tag) :
    Prop :=
  (highlights.filter fun highlight =>
      highlight.span = occurrence.node.span) =
    [{ span := occurrence.node.span, tag := tag }]

/-- The occurrences that some rule highlights, each once. -/
def targets
    (root : Node) :
    List Occurrence :=
  ((emissions root).map Prod.snd).eraseDups

/-- The targets of a tree are what the rules at its nodes highlight. -/
theorem mem_targets_iff
    {root : Node}
    {target : Occurrence} :
    target ∈ targets root ↔
      ∃ source tag,
        Within root source ∧
          Table.Entry source.parent? source tag target := by
  simp only [targets, List.mem_eraseDups, List.mem_map, emissions,
    List.mem_flatMap, mem_occurrences_iff, Prod.exists,
    exists_eq_right, Table.mem_entries_iff]
  exact exists_comm

section

variable {root : Node} {target : Occurrence} {tag : Tag}

/-- Where words are apart, the first highlight of a word's span is made for the word. -/
theorem find?_highlights
    (apart : WordsApart root)
    (reached : Within root target)
    (word : target.node.kind.isWord) :
    ((emissions root).map highlight).find?
        (fun highlight => target.node.span == highlight.span) =
      (firstTag? root target).map fun tag =>
        { span := target.node.span, tag := tag } := by
  have sameTest :
      ∀ emission ∈ emissions root,
        (target.node.span == (highlight emission).span) =
          decide (emission.2 = target) := by
    rintro ⟨otherTag, other⟩ member
    obtain ⟨source, listed, entry⟩ := List.mem_flatMap.mp member
    have otherReached := within_of_mem_emissions member
    have otherWord :=
      isWord_of_entry otherReached (Table.mem_entries_iff.mp entry)
    rw [Bool.eq_iff_iff, beq_iff_eq, decide_eq_true_eq]
    constructor
    · intro sameSpan
      exact (apart target other reached otherReached word otherWord
        sameSpan).symm
    · rintro rfl
      rfl
  rw [List.find?_map, firstTag?]
  have sameFirst :
      (emissions root).find?
          ((fun highlight => target.node.span == highlight.span) ∘
            highlight) =
        (emissions root).find? fun emission => emission.2 = target :=
    List.find?_congr sameTest
  rw [sameFirst]
  cases found :
      (emissions root).find? fun emission => emission.2 = target with
  | none =>
      rfl
  | some emission =>
      have isTarget : emission.2 = target := by
        simpa using List.find?_some found
      simp [highlight, highlightOf, isTarget]

variable {collection : DistinctHighlights}

/-- The resolved view of a pass shows a word under the first tag emitted for it. -/
theorem shownAs_resolved
    (apart : WordsApart root)
    (holds :
      collection.toList = ((emissions root).map highlight).eraseDups)
    (first : firstTag? root target = some tag) :
    target.ShownAs collection.resolved tag := by
  obtain ⟨source, sourceReached, entry⟩ := exists_entry_of_firstTag? first
  have reached := sourceReached.of_entry entry
  have word := isWord_of_entry reached entry
  have member :
      { span := target.node.span, tag := tag } ∈ collection.resolved := by
    rw [DistinctHighlights.mem_resolved_iff holds]
    exact (find?_highlights apart reached word).trans (by rw [first]; rfl)
  have only := DistinctHighlights.filter_sameSpan_resolved member
  have sameTest :
      (fun highlight : Highlight =>
          decide (highlight.span = target.node.span)) =
        Highlight.sameSpan { span := target.node.span, tag := tag } := by
    funext highlight
    rw [Bool.eq_iff_iff, decide_eq_true_eq, Highlight.sameSpan_iff]
    exact eq_comm
  rw [ShownAs, sameTest]
  exact only

/-- Every target is shown under some tag. -/
theorem exists_shownAs_resolved
    (apart : WordsApart root)
    (holds :
      collection.toList = ((emissions root).map highlight).eraseDups)
    (isTarget : target ∈ targets root) :
    ∃ tag, target.ShownAs collection.resolved tag := by
  obtain ⟨source, tag, sourceReached, entry⟩ := mem_targets_iff.mp isTarget
  have emitted : (tag, target) ∈ emissions root :=
    List.mem_flatMap.mpr
      ⟨source, mem_occurrences_iff.mpr sourceReached, entry.mem_entries⟩
  have someFound :
      ((emissions root).find? fun emission =>
        emission.2 = target).isSome := by
    rw [List.find?_isSome]
    exact ⟨_, emitted, by simp⟩
  have someTag : (firstTag? root target).isSome := by
    rw [firstTag?, Option.isSome_map]
    exact someFound
  obtain ⟨first, isFirst⟩ := Option.isSome_iff_exists.mp someTag
  exact ⟨first, shownAs_resolved apart holds isFirst⟩

/-- The spans of the resolved view are those of the targets, one for one. -/
theorem resolved_spans_perm
    (apart : WordsApart root)
    (holds :
      collection.toList = ((emissions root).map highlight).eraseDups) :
    (collection.resolved.map (·.span)).Perm
      ((targets root).map (·.node.span)) := by
  have increasing := collection.resolved_increasing
  have spansOnce : (collection.resolved.map (·.span)).Nodup := by
    refine List.Pairwise.map _ ?_ increasing
    rintro left right (starts | ⟨_, stops⟩) same
    · exact Nat.ne_of_lt starts (congrArg Span.start same)
    · exact Nat.ne_of_lt stops (congrArg Span.stop same)
  have targetsOnce : ((targets root).map (·.node.span)).Nodup := by
    have once : (targets root).Nodup := by
      refine (eraseDupsBy_unlike _).imp ?_
      intro earlier later unlike
      exact (beq_eq_false_iff_ne.mp unlike).symm
    refine List.Nodup.map_on ?_ once
    intro left isLeft right isRight sameSpan
    obtain ⟨_, _, leftSource, leftEntry⟩ := mem_targets_iff.mp isLeft
    obtain ⟨_, _, rightSource, rightEntry⟩ := mem_targets_iff.mp isRight
    have leftReached := leftSource.of_entry leftEntry
    have rightReached := rightSource.of_entry rightEntry
    exact apart left right leftReached rightReached
      (isWord_of_entry leftReached leftEntry)
      (isWord_of_entry rightReached rightEntry) sameSpan
  rw [List.perm_ext_iff_of_nodup spansOnce targetsOnce]
  intro span
  rw [List.mem_map, List.mem_map]
  constructor
  · rintro ⟨shown, member, rfl⟩
    have found := (DistinctHighlights.mem_resolved_iff holds).mp member
    obtain ⟨emission, emitted, rfl⟩ :=
      List.mem_map.mp (List.mem_of_find?_eq_some found)
    exact ⟨emission.2,
      List.mem_eraseDups.mpr (List.mem_map_of_mem emitted), rfl⟩
  · rintro ⟨target, isTarget, rfl⟩
    obtain ⟨tag, shown⟩ := exists_shownAs_resolved apart holds isTarget
    have member :
        { span := target.node.span, tag := tag } ∈
          collection.resolved.filter fun highlight =>
            highlight.span = target.node.span := by
      rw [show collection.resolved.filter _ = _ from shown]
      exact List.mem_singleton_self _
    exact ⟨_, (List.mem_filter.mp member).1, rfl⟩

end

/-- An uninterrupted pass adds what it emits to a distinct collection. -/
theorem toList_distinct_run
    {context : Context}
    {host : Host DistinctHighlights}
    (flagDown : host.flags.isRaised context.family = false)
    (reporting : Reporting)
    (tree : Node) :
    (Pass.run (context.settings reporting) tree host).host.sink.toList =
      (host.sink.toList ++ (emissions tree).map highlight).eraseDups := by
  rw [map_highlight_emissions, ← Pass.highlightsOf_framesOf]
  exact Pass.toList_sink_run_distinct
    (Pass.flagDown_settings flagDown reporting) tree

/--
In the resolved view of a full pass declarations decide how their parts are shown.

For a tree whose words are apart, an empty collection and a flag that is down: the
type that a declaration begins with is shown as a type, and every other reserved
word as a keyword; the names of a member with a type are shown as fields, and all
other names in declarations of variables as variables. The view has one entry for
each node that some rule highlights, and no other.
-/
theorem resolved_prefers_declarations
    (tree : Node)
    (apart : WordsApart tree)
    (context : Context)
    (reporting : Reporting)
    (host : Host DistinctHighlights)
    (isEmpty : host.sink.toList = [])
    (flagDown : host.flags.isRaised context.family = false) :
    let settings := context.settings reporting
    let resolved := (Pass.run settings tree host).host.sink.resolved
    (∀ occurrence,
        Within tree occurrence →
        (occurrence.declaresType →
            occurrence.ShownAs resolved .typeIdentifier) ∧
          (occurrence.node.kind = .builtInType →
            ¬occurrence.declaresType →
            occurrence.ShownAs resolved .keyword) ∧
          (occurrence.node.kind = .semantic →
            occurrence.ShownAs resolved .keyword) ∧
          (occurrence.namesMember →
            occurrence.ShownAs resolved .fieldIdentifier) ∧
          (occurrence.namesVariable →
            ¬occurrence.namesMember →
            occurrence.ShownAs resolved .variableIdentifier)) ∧
      (∀ target ∈ targets tree, ∃ tag, target.ShownAs resolved tag) ∧
      (resolved.map (·.span)).Perm ((targets tree).map (·.node.span)) := by
  intro settings resolved
  have holds := toList_distinct_run flagDown reporting tree
  rw [isEmpty, List.nil_append] at holds
  have shown
      {occurrence : Occurrence}
      {tag : Tag}
      (first : firstTag? tree occurrence = some tag) :
      occurrence.ShownAs resolved tag :=
    shownAs_resolved apart holds first
  refine ⟨?_, ?_, resolved_spans_perm apart holds⟩
  · intro occurrence reached
    refine ⟨?_, ?_, ?_, ?_, ?_⟩
    · intro declared
      exact shown (firstTag?_of_declaresType reached declared)
    · intro kind undeclared
      exact shown (firstTag?_of_reserved reached (.inl kind) undeclared)
    · intro kind
      have undeclared := not_declaresType_of_semantic reached kind
      exact shown (firstTag?_of_reserved reached (.inr kind) undeclared)
    · intro names
      exact shown (firstTag?_of_namesMember reached names)
    · intro declared noMember
      exact shown (firstTag?_of_namesVariable reached declared noMember)
  · intro target isTarget
    exact exists_shownAs_resolved apart holds isTarget

/-- The variables of the member `float3 nor : NORMAL;`, over bytes 0 to 19. -/
def normalVariables : Node where
  kind := .variableDeclaration
  span := .ofTested 0 19 (.refl true)
  children := [
    .leaf .builtInType (.ofTested 0 6 (.refl true)),
    .leaf .identifier (.ofTested 7 10 (.refl true)),
    .leaf .semantic (.ofTested 13 19 (.refl true))]

/-- The member `float3 nor : NORMAL;`, over bytes 0 to 20. -/
def normalMember : Node where
  kind := .fieldDeclaration
  span := .ofTested 0 20 (.refl true)
  children := [normalVariables]

/-- The declaration `int a;`, over bytes 21 to 27. -/
def plainVariables : Node where
  kind := .variableDeclaration
  span := .ofTested 21 27 (.refl true)
  children := [
    .leaf .builtInType (.ofTested 21 24 (.refl true)),
    .leaf .identifier (.ofTested 25 26 (.refl true))]

/-- The member and the declaration one after the other. -/
def declarationsExample : Node where
  kind := .block
  span := .ofTested 0 27 (.refl true)
  children := [normalMember, plainVariables]

/--
The type and the name of the member are shown as a type and a field, its semantic
as a keyword; the type and the name of the declaration as a keyword and a variable.
-/
theorem resolved_prefers_declarations_example :
    let settings := Context.settings ⟨0, false⟩ .collect
    let resolved :=
      (Pass.run settings declarationsExample
        Pass.distinctHost).host.sink.resolved
    let root := ofRoot declarationsExample
    let inMember := (root.child 0 normalMember).child 0 normalVariables
    let plain := root.child 1 plainVariables
    let part := fun (declaration : Occurrence) index kind span =>
      declaration.child index (.leaf kind span)
    WordsApart declarationsExample ∧
      Pass.distinctHost.sink.toList = [] ∧
      Pass.distinctHost.flags.isRaised 0 = false ∧
      (part inMember 0 .builtInType (.ofTested 0 6 (.refl true))).ShownAs
        resolved .typeIdentifier ∧
      (part inMember 1 .identifier (.ofTested 7 10 (.refl true))).ShownAs
        resolved .fieldIdentifier ∧
      (part inMember 2 .semantic (.ofTested 13 19 (.refl true))).ShownAs
        resolved .keyword ∧
      (part plain 0 .builtInType (.ofTested 21 24 (.refl true))).ShownAs
        resolved .keyword ∧
      (part plain 1 .identifier (.ofTested 25 26 (.refl true))).ShownAs
        resolved .variableIdentifier ∧
      resolved.length = 5 := by
  intro settings resolved root inMember plain part
  have apart : WordsApart declarationsExample := by
    have listed :
        ∀ left ∈ occurrences declarationsExample,
          ∀ right ∈ occurrences declarationsExample,
            left.node.kind.isWord →
            right.node.kind.isWord →
            left.node.span = right.node.span →
            left = right := by
      decide
    intro left right leftReached rightReached
    exact listed left (mem_occurrences_iff.mpr leftReached)
      right (mem_occurrences_iff.mpr rightReached)
  have flagDown : Pass.distinctHost.flags.isRaised 0 = false :=
    rfl
  obtain ⟨shown, _, spans⟩ :=
    resolved_prefers_declarations declarationsExample apart ⟨0, false⟩
      .collect Pass.distinctHost rfl flagDown
  have reachedMember : Within declarationsExample inMember :=
    .child (.child .ofRoot rfl) rfl
  have reachedPlain : Within declarationsExample plain :=
    .child .ofRoot rfl
  refine ⟨apart, rfl, flagDown, ?_, ?_, ?_, ?_, ?_, ?_⟩
  · exact (shown _ (.child reachedMember rfl)).1 (by decide)
  · exact (shown _ (.child reachedMember rfl)).2.2.2.1 (by decide)
  · exact (shown _ (.child reachedMember rfl)).2.2.1 rfl
  · exact (shown _ (.child reachedPlain rfl)).2.1 rfl (by decide)
  · exact (shown _ (.child reachedPlain rfl)).2.2.2.2 (by decide) (by decide)
  · have entries := spans.length_eq
    rw [List.length_map, List.length_map] at entries
    exact entries.trans (by decide)

end Occurrence

end ShaderTint
