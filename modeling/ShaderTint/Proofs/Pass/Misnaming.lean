import ShaderTint.Proofs.Pass.Reach

namespace ShaderTint

/-!
# What is reported about functions

The one thing that a pass reports is a function whose header has something other than
an identifier in the place of the name, right after the first type. The place is found
through the first header of the function and the first type of that header, so nothing
else in a tree can bring a report about, however the headers, types and names in it are
arranged.

Main statement: `Occurrence.run_reports_misnamed_functions`.
-/

namespace Occurrence

/--
A function whose first header has something in the place of the name that is no
identifier.

The place of the name is right after the first type.
-/
structure Misnamed
    (function header type found : Occurrence) :
    Prop where
  isFunction : function.node.kind = .functionDeclaration
  isHeader :
    FirstIn function.children (fun child => child.node.kind = .functionHeader)
      header
  isType : type.node.kind.isType
  follows :
    ∃ front rest,
      header.children = front ++ type :: found :: rest ∧
        ∀ earlier ∈ front, ¬earlier.node.kind.isType
  notIdentifier : found.node.kind ≠ .identifier

/-- The error says what was found in the place of a function's name, and where. -/
def Reports
    (function : Occurrence)
    (error : ShapeMismatch) :
    Prop :=
  ∃ header type found,
    Misnamed function header type found ∧
      error = {
        node := .functionHeader
        expected := .identifier
        found := found.node.kind
        span := found.node.span
      }

/-- A header about which nothing is ever reported. -/
inductive Blameless
    (header : Occurrence) :
    Prop where
  | untyped :
      (∀ child ∈ header.children, ¬child.node.kind.isType) →
      Blameless header
  | typeLast
      {front : List Occurrence}
      {type : Occurrence} :
      header.children = front ++ [type] →
      (∀ earlier ∈ front, ¬earlier.node.kind.isType) →
      Blameless header
  | outside :
      (∀ parent,
        header.parent? = some parent →
        parent.node.kind ≠ .functionDeclaration) →
      Blameless header
  | second
      {function earlier : Occurrence}
      {before after : List Occurrence} :
      function.children = before ++ header :: after →
      earlier ∈ before →
      earlier.node.kind = .functionHeader →
      Blameless header

/-! ## Headers and the place of the name -/

theorem first?_eq_some_iff_firstIn
    {place child : Occurrence}
    {test : Kind → Bool} :
    Table.first? test place = some child ↔
      FirstIn place.children (fun other => test other.node.kind = true) child := by
  rw [Table.first?, List.find?_eq_some_iff_append]
  simp [FirstIn, Shaped.children, Shaped.kind]

/-- The children from the first type on, told by how they stand among the children. -/
theorem fromType_eq_cons_iff
    {header type : Occurrence}
    {rest : List Occurrence} :
    Table.fromType header = type :: rest ↔
      type.node.kind.isType ∧
        ∃ front,
          header.children = front ++ type :: rest ∧
            ∀ earlier ∈ front, ¬earlier.node.kind.isType := by
  constructor
  · intro shape
    have isFirst : FirstIn header.children _ type :=
      first?_eq_some_iff_firstIn.mp
        (by rw [← Table.head?_fromType, shape, List.head?_cons])
    refine ⟨isFirst.1,
      header.children.takeWhile fun child => !child.node.kind.isType, ?_, ?_⟩
    · rw [← shape]
      exact List.takeWhile_append_dropWhile.symm
    · intro earlier isEarlier
      simpa using List.mem_takeWhile_imp isEarlier
  · rintro ⟨isType, front, shape, untyped⟩
    have skipped :
        ∀ earlier ∈ front, (!earlier.node.kind.isType) = true := by
      intro earlier isEarlier
      simpa using untyped earlier isEarlier
    calc
      Table.fromType header =
          (front ++ type :: rest).dropWhile fun child =>
            !child.node.kind.isType := by
        rw [← shape]
        rfl
      _ = type :: rest := by
        rw [List.dropWhile_append_of_pos skipped]
        simp [isType]

namespace Misnamed

variable {function header type found : Occurrence}

/-- The rule of a misnamed function looks into the first header. -/
theorem first?_header
    (misnamed : Misnamed function header type found) :
    Table.first? (· == .functionHeader) function = some header := by
  rw [first?_eq_some_iff_firstIn]
  simpa using misnamed.isHeader

theorem parent?_header
    (misnamed : Misnamed function header type found) :
    header.parent? = some function :=
  parent?_of_mem_children (Table.mem_children_of_first? misnamed.first?_header)

theorem parent?_found
    (misnamed : Misnamed function header type found) :
    found.parent? = some header := by
  obtain ⟨front, rest, split, _⟩ := misnamed.follows
  exact parent?_of_mem_children (by simp [split])

theorem exists_fromType
    (misnamed : Misnamed function header type found) :
    ∃ rest, Table.fromType header = type :: found :: rest := by
  obtain ⟨front, rest, split, untyped⟩ := misnamed.follows
  exact ⟨rest, fromType_eq_cons_iff.mpr ⟨misnamed.isType, front, split, untyped⟩⟩

end Misnamed

/-- What the rule looks for is what stands in the place of a name. -/
theorem misnamed?_eq_some_iff
    {function found : Occurrence} :
    Table.misnamed? function = some found ↔
      ∃ header type, Misnamed function header type found := by
  constructor
  · intro isFound
    obtain ⟨isFunction, inHeader⟩ :=
      Option.ite_none_right_eq_some.mp isFound
    obtain ⟨header, isHeader, isNext⟩ :=
      Option.bind_eq_some_iff.mp inHeader
    obtain ⟨afterType, unlike⟩ := Option.filter_eq_some_iff.mp isNext
    rw [first?_eq_some_iff_firstIn] at isHeader
    match shape : Table.fromType header with
    | [] =>
        simp [shape] at afterType
    | [type] =>
        simp [shape] at afterType
    | type :: next :: rest =>
        obtain rfl : next = found := by
          simpa [shape] using afterType
        obtain ⟨isType, front, split, untyped⟩ := fromType_eq_cons_iff.mp shape
        exact ⟨header, type, isFunction, by simpa using isHeader, isType,
          ⟨front, rest, split, untyped⟩, by simpa [Shaped.kind] using unlike⟩
  · rintro ⟨header, type, misnamed⟩
    obtain ⟨rest, shape⟩ := misnamed.exists_fromType
    simp [Table.misnamed?, Shaped.kind, misnamed.isFunction,
      misnamed.first?_header, shape, misnamed.notIdentifier]

/-- The return type of a misnamed function is highlighted, and nothing else at it. -/
theorem Misnamed.highlightsOf_ruleEffects
    {function header type found : Occurrence}
    (misnamed : Misnamed function header type found) :
    highlightsOf function.ruleEffects =
      [{ span := type.node.span, tag := .typeIdentifier }] := by
  obtain ⟨rest, shape⟩ := misnamed.exists_fromType
  have listed :
      Table.entries function.parent? function = [(.typeIdentifier, type)] := by
    simp [Table.entries, Shaped.kind, misnamed.isFunction,
      misnamed.first?_header, Table.function, shape, misnamed.notIdentifier]
  rw [highlightsOf, emissionsOf_ruleEffects, listed]
  rfl

/-- Nothing is reported about a blameless header. -/
theorem Blameless.not_misnamed
    {function header type found : Occurrence}
    (blameless : Blameless header) :
    ¬Misnamed function header type found := by
  intro misnamed
  obtain ⟨isHeader, before, after, children, noneBefore⟩ := misnamed.isHeader
  obtain ⟨front, rest, split, untyped⟩ := misnamed.follows
  have isParent := misnamed.parent?_header
  cases blameless with
  | untyped noType =>
      exact noType type (by simp [split]) misnamed.isType
  | @typeLast others last lastSplit noType =>
      -- The first type has something behind it, so it is among the others.
      have shorter := congrArg List.dropLast (lastSplit.symm.trans split)
      rw [List.dropLast_concat, List.dropLast_append_cons,
        List.dropLast_cons_of_ne_nil (List.cons_ne_nil _ _)] at shorter
      exact noType type (by simp [shorter]) misnamed.isType
  | outside elsewhere =>
      exact elsewhere function isParent misnamed.isFunction
  | @second other earlier others behind otherSplit isEarlier alsoHeader =>
      have sameParent : header.parent? = some other :=
        parent?_of_mem_children (by simp [otherSplit])
      obtain rfl : function = other :=
        Option.some.inj (isParent.symm.trans sameParent)
      -- No child is listed twice, so the header stands in one place only.
      have once := nodup_children function
      rw [children, List.nodup_middle, List.nodup_cons, List.mem_append,
        not_or] at once
      obtain ⟨rfl, _, _⟩ :=
        (List.append_cons_inj_of_notMem once.1.1 once.1.2).mp
          (children.symm.trans otherSplit)
      exact noneBefore earlier isEarlier alsoHeader

/-! ## The errors of a pass -/

/-- What the rules of a tree report, one error for each misnamed function. -/
def reported
    (tree : Node) :
    List ShapeMismatch :=
  (occurrences tree).filterMap fun place =>
    (Table.misnamed? place).map fun found => misnaming found.node

/-- The functions of a tree about which something is reported. -/
def misnamedFunctions
    (tree : Node) :
    List Occurrence :=
  (occurrences tree).filter fun place => (Table.misnamed? place).isSome

theorem mem_misnamedFunctions_iff
    {tree : Node}
    {function : Occurrence} :
    function ∈ misnamedFunctions tree ↔
      Within tree function ∧
        ∃ header type found, Misnamed function header type found := by
  rw [misnamedFunctions, List.mem_filter, mem_occurrences_iff,
    Option.isSome_iff_exists]
  apply and_congr_right
  intro _
  simp only [misnamed?_eq_some_iff]
  constructor
  · rintro ⟨found, header, type, misnamed⟩
    exact ⟨header, type, found, misnamed⟩
  · rintro ⟨header, type, found, misnamed⟩
    exact ⟨found, header, type, misnamed⟩

/-- Errors are reported in the order of the functions that they are about. -/
theorem forall₂_reports
    (tree : Node) :
    List.Forall₂ Reports (misnamedFunctions tree) (reported tree) := by
  unfold misnamedFunctions reported
  induction occurrences tree with
  | nil =>
      exact .nil
  | cons place rest inductionHypothesis =>
      cases looked : Table.misnamed? place with
      | none =>
          simpa [looked] using inductionHypothesis
      | some found =>
          obtain ⟨header, type, misnamed⟩ := misnamed?_eq_some_iff.mp looked
          have here : Reports place (misnaming found.node) :=
            ⟨header, type, found, misnamed, rfl⟩
          simpa [looked] using And.intro here inductionHypothesis

/-- The rules of all places report these errors. -/
theorem mismatchesOf_occurrences
    (tree : Node) :
    mismatchesOf ((occurrences tree).flatMap ruleEffects) = reported tree := by
  rw [mismatchesOf_flatMap, reported, List.filterMap_eq_flatMap_toList]
  congr 1
  funext place
  rw [mismatchesOf_ruleEffects]
  cases Table.misnamed? place <;>
    rfl

/--
A full pass reports the misnamed functions of a tree and nothing else.

There is one error for each function whose first header has a first type and something
after it that is no identifier, in the order of these functions in the tree; it says
what was found and where. Nothing is reported about headers without a type, with
nothing after the type, outside a function, or behind another header. This is what any
pass that finishes hands to the diagnostics, and it counts as many mismatches. Such a
pass hands over the highlights that the rules of all nodes ask for, and the rule of a
misnamed function asks for its return type. A pass into a plain list finishes.
-/
theorem run_reports_misnamed_functions
    [Sink σ]
    (tree : Node)
    (context : Context)
    (reporting : Reporting)
    (host : Host σ) :
    let settings := context.settings reporting
    let result := Pass.run settings tree host
    let recorded := Pass.run settings tree host.recorded
    ∃ functions errors,
      functions.Sublist (occurrences tree) ∧
      (∀ function,
        function ∈ functions ↔
          Within tree function ∧
            ∃ header type found, Misnamed function header type found) ∧
      List.Forall₂ Reports functions errors ∧
      (∀ header,
        Blameless header →
        ∀ function type found, ¬Misnamed function header type found) ∧
      (∀ function header type found,
        Misnamed function header type found →
        highlightsOf function.ruleEffects =
          [{ span := type.node.span, tag := .typeIdentifier }]) ∧
      (∀ stats,
        result.outcome = .finished stats →
        stats.mismatches = errors.length ∧
          (reporting = .collect →
            result.host.collected.toList =
              host.collected.toList ++ errors) ∧
          (reporting = .log →
            result.log.toList.filterMap Event.mismatch? = errors) ∧
          recorded.mapSink Recorded.sink = result ∧
          recorded.host.sink.received.toList =
            (occurrences tree).flatMap fun place =>
              highlightsOf place.ruleEffects) ∧
      ∃ stats,
        (Pass.run settings tree Pass.rawHost).outcome = .finished stats := by
  intro settings result recorded
  refine ⟨misnamedFunctions tree, reported tree, List.filter_sublist,
    fun _ => mem_misnamedFunctions_iff, forall₂_reports tree,
    fun _ blameless _ _ _ => blameless.not_misnamed,
    fun _ _ _ _ misnamed => misnamed.highlightsOf_ruleEffects, ?_, ?_⟩
  · intro stats finished
    have counted := Pass.stats_of_finished finished
    rw [Pass.standing_eq_after settings tree host (Nat.le_refl _)] at counted
    have visitedAll : result.outcome.visited = tree.size := by
      rw [finished, counted]
      exact Nat.zero_add _
    have applied :
        Pass.effectsBefore settings.rules tree result.outcome.visited =
          (occurrences tree).flatMap ruleEffects := by
      rw [visitedAll, Pass.effectsBefore_size]
      exact effectsOf_framesOf tree
    have handed :
        mismatchesOf
            (Pass.effectsBefore settings.rules tree result.outcome.visited) =
          reported tree := by
      rw [applied, mismatchesOf_occurrences]
    obtain ⟨collected, logged⟩ := Pass.mismatches_run settings tree host
    rw [← handed]
    refine ⟨?_, collected, logged, Pass.run_recorded settings tree host, ?_⟩
    · rw [counted, visitedAll]
      exact Nat.zero_add _
    · rw [← highlightsOf_flatMap, ← applied]
      exact Pass.received_run_recorded settings tree host
  · exact ⟨_, congrArg Pass.Result.outcome
      (Pass.run_of_quiet tree Pass.rawHost
        (Pass.flagDown_settings (Flags.isRaised_clear _) reporting))⟩

end Occurrence

end ShaderTint
