import ShaderTint.Proofs.Pass.Misnaming

namespace ShaderTint

/-!
# Correcting the name of a function

An error in the place of a function's name costs the name and nothing else. To see it,
the tree is compared with the one in which the error has become an identifier. Several
rules look for identifiers, so one more of them could be noticed in many places; but
only the rule of the function itself looks into the header.

Main statement: `Occurrence.correction_adds_only_the_name`.
-/

namespace Occurrence

/-! ## Trees with other kinds -/

mutual

/-- A tree that stands below the given nodes, with a new kind for each of its places. -/
def recastAt
    (kindAt : Occurrence → Kind)
    (above : List (Node × Nat)) :
    Node → Node
  | ⟨kind, span, children⟩ =>
      {
        kind := kindAt { node := ⟨kind, span, children⟩, above := above }
        span := span
        children :=
          recastBelow kindAt ⟨kind, span, children⟩ above 0 children
      }

/-- The children of a node from a position on, with a new kind for each place. -/
def recastBelow
    (kindAt : Occurrence → Kind)
    (parent : Node)
    (above : List (Node × Nat)) :
    Nat → List Node → List Node
  | _, [] => []
  | index, child :: rest =>
      recastAt kindAt ((parent, index) :: above) child ::
        recastBelow kindAt parent above (index + 1) rest

end

/-- What stands in a place once every place has its new kind. -/
def recast
    (kindAt : Occurrence → Kind)
    (place : Occurrence) :
    Node :=
  recastAt kindAt place.above place.node

/-- The kinds of all places, with another one in a single place. -/
def kindsWith
    (changed : Occurrence)
    (kind : Kind)
    (place : Occurrence) :
    Kind :=
  if place = changed then kind else place.node.kind

theorem kindsWith_self
    (changed : Occurrence)
    (kind : Kind) :
    kindsWith changed kind changed = kind :=
  if_pos rfl

theorem kindsWith_of_ne
    {changed place : Occurrence}
    (kind : Kind)
    (elsewhere : place ≠ changed) :
    kindsWith changed kind place = place.node.kind :=
  if_neg elsewhere

/-- The tree with another kind in one of its places, and nothing else changed. -/
def withKindAt
    (tree : Node)
    (changed : Occurrence)
    (kind : Kind) :
    Node :=
  (ofRoot tree).recast (kindsWith changed kind)

section

variable (kindAt : Occurrence → Kind)

@[simp]
theorem kind_recast
    (place : Occurrence) :
    (place.recast kindAt).kind = kindAt place := by
  obtain ⟨⟨kind, span, children⟩, above⟩ := place
  rw [recast, recastAt]

@[simp]
theorem span_recast
    (place : Occurrence) :
    (place.recast kindAt).span = place.node.span := by
  obtain ⟨⟨kind, span, children⟩, above⟩ := place
  rw [recast, recastAt]

theorem recastBelow_eq_mapIdx
    (parent : Node)
    (above : List (Node × Nat))
    (start : Nat)
    (children : List Node) :
    recastBelow kindAt parent above start children =
      children.mapIdx fun index child =>
        recastAt kindAt ((parent, start + index) :: above) child := by
  induction children generalizing start with
  | nil =>
      rfl
  | cons child rest inductionHypothesis =>
      rw [recastBelow, inductionHypothesis, List.mapIdx_cons]
      simp only [Nat.add_zero, Nat.add_assoc, Nat.add_comm 1]

/-- The children have their new kinds as well. -/
theorem children_recast
    (place : Occurrence) :
    (place.recast kindAt).children =
      place.children.map (recast kindAt) := by
  obtain ⟨⟨kind, span, children⟩, above⟩ := place
  apply List.ext_getElem?
  intro index
  simp only [recast, recastAt, recastBelow_eq_mapIdx, Occurrence.children,
    List.getElem?_map, List.getElem?_mapIdx, Option.map_map, Nat.zero_add]
  rfl

/-- The frame of a place once every place has its new kind. -/
def recastFrame
    (place : Occurrence) :
    Pass.Frame where
  node := place.recast kindAt
  parent := place.parent?.map (recast kindAt)

mutual

/-- The frames of a tree with other kinds are those of its places. -/
theorem framesOf_recastAt
    (above : List (Node × Nat)) :
    ∀ node : Node,
      Pass.framesOf
          ((Occurrence.mk node above).parent?.map (recast kindAt))
          (recastAt kindAt above node) =
        (occurrencesAt above node).map (recastFrame kindAt)
  | ⟨kind, span, children⟩ => by
      rw [occurrencesAt, List.map_cons, Pass.framesOf_eq,
        ← framesOfForest_recastBelow ⟨kind, span, children⟩ above 0 children]
      simp only [recastAt]
      rfl

theorem framesOfForest_recastBelow
    (parent : Node)
    (above : List (Node × Nat)) :
    ∀ (start : Nat) (children : List Node),
      Pass.framesOfForest (recastAt kindAt above parent)
          (recastBelow kindAt parent above start children) =
        (occurrencesBelow parent above start children).map
          (recastFrame kindAt)
  | _, [] => by
      rfl
  | start, child :: rest => by
      rw [recastBelow, Pass.framesOfForest, occurrencesBelow,
        List.map_append,
        ← framesOf_recastAt ((parent, start) :: above) child,
        ← framesOfForest_recastBelow parent above (start + 1) rest]
      rfl

end

/-- A tree with other kinds is taken up place by place. -/
theorem framesOf_recast
    (tree : Node) :
    Pass.framesOf none ((ofRoot tree).recast kindAt) =
      (occurrences tree).map (recastFrame kindAt) :=
  framesOf_recastAt kindAt [] tree

/-- What the rule in a place asks for once every place has its new kind. -/
def recastEffects
    (place : Occurrence) :
    List Effect :=
  Rule.effects (place.parent?.map (recast kindAt)) (place.recast kindAt)

/-- A pass over a tree with other kinds applies the rules place by place. -/
theorem effectsOf_recast
    (tree : Node) :
    Pass.effectsOf Rule.effects
        (Pass.framesOf none ((ofRoot tree).recast kindAt)) =
      (occurrences tree).flatMap (recastEffects kindAt) := by
  rw [framesOf_recast, Pass.effectsOf, List.flatMap_map]
  rfl

/-- Other kinds leave the number of nodes as it is. -/
theorem size_recast
    (tree : Node) :
    ((ofRoot tree).recast kindAt).size = tree.size := by
  rw [← Pass.length_framesOf none, framesOf_recast, List.length_map,
    ← Pass.length_framesOf none, ← map_frame_occurrences, List.length_map]

end

/-! ## Rules that do not see the correction -/

section

variable {kindAt : Occurrence → Kind} {place : Occurrence}

/-- A place highlights the same spans when its entries are the same up to kinds. -/
theorem highlightsOf_recastEffects
    (corrects : Table.Corrects (recast kindAt))
    (keepsName : Table.KeepsName (recast kindAt) place) :
    highlightsOf (place.recastEffects kindAt) =
      highlightsOf place.ruleEffects := by
  rw [highlightsOf, recastEffects, emissionsOf_effects,
    Table.entries_map_of_keepsName corrects place.parent? keepsName,
    highlightsOf, emissionsOf_ruleEffects, List.map_map, List.map_map]
  apply List.map_congr_left
  intro entry _
  simp [highlightOf]

theorem mismatchesOf_recastEffects
    (corrects : Table.Corrects (recast kindAt))
    (keepsName : Table.KeepsName (recast kindAt) place) :
    mismatchesOf (place.recastEffects kindAt) =
      mismatchesOf place.ruleEffects := by
  rw [recastEffects, mismatchesOf_effects,
    Table.misnamed?_map_of_keepsName corrects keepsName,
    mismatchesOf_ruleEffects]
  cases looked : Table.misnamed? place with
  | none =>
      rfl
  | some found =>
      obtain ⟨header, type, misnamed⟩ := misnamed?_eq_some_iff.mp looked
      obtain ⟨rest, shape⟩ := misnamed.exists_fromType
      have sameKind : (found.recast kindAt).kind = found.node.kind :=
        keepsName header found misnamed.first?_header (by simp [shape])
      rw [kind_recast] at sameKind
      simp [misnaming, sameKind]

end

section

variable {function header type found : Occurrence}

/-- An identifier in the place of an error in a header is a correction. -/
theorem Misnamed.corrects
    (misnamed : Misnamed function header type found)
    (isError : found.node.kind = .error) :
    Table.Corrects (recast (kindsWith found .identifier)) where
  children_eq := children_recast _
  kind_eq_or place := by
    by_cases here : place = found
    · subst place
      exact .inr ⟨isError, by simp [Shaped.kind, kindsWith_self]⟩
    · exact .inl (by simp [Shaped.kind, kindsWith_of_ne _ here])
  kind_child place outside child isChild := by
    have elsewhere : child ≠ found := by
      rintro rfl
      have isParent : child.parent? = some place :=
        parent?_of_mem_children isChild
      rw [misnamed.parent?_found] at isParent
      cases isParent
      exact outside misnamed.isHeader.1
    simp [Shaped.kind, kindsWith_of_ne _ elsewhere]

/-- All other functions have their names elsewhere. -/
theorem Misnamed.keepsName
    (misnamed : Misnamed function header type found)
    (kind : Kind)
    {other : Occurrence}
    (different : other ≠ function) :
    Table.KeepsName (recast (kindsWith found kind)) other := by
  intro otherHeader name isHeader isNext
  have elsewhere : name ≠ found := by
    rintro rfl
    have isParent : name.parent? = some otherHeader :=
      parent?_of_mem_children
        (Table.mem_children_of_mem_fromType (List.mem_of_getElem? isNext))
    rw [misnamed.parent?_found] at isParent
    cases isParent
    have isGrandparent : header.parent? = some other :=
      parent?_of_mem_children (Table.mem_children_of_first? isHeader)
    rw [misnamed.parent?_header] at isGrandparent
    cases isGrandparent
    exact different rfl
  simp [Shaped.kind, kindsWith_of_ne _ elsewhere]

/-! ## The rule that sees it -/

/-- The parts of the function once the error is corrected. -/
theorem Misnamed.parts_corrected
    (misnamed : Misnamed function header type found)
    (isError : found.node.kind = .error) :
    let corrected := recast (kindsWith found .identifier)
    Shaped.kind (corrected function) = .functionDeclaration ∧
      Shaped.kind (corrected found) = .identifier ∧
      Table.first? (· == .functionHeader) (corrected function) =
        some (corrected header) ∧
      ∃ rest,
        Table.fromType (corrected header) =
          corrected type :: corrected found :: rest := by
  intro corrected
  have corrects : Table.Corrects corrected := misnamed.corrects isError
  obtain ⟨rest, shape⟩ := misnamed.exists_fromType
  refine ⟨?_, ?_, ?_, rest.map corrected, ?_⟩
  · exact (corrects.kind_eq_iff (by decide) (by decide) function).mpr
      misnamed.isFunction
  · exact (kind_recast _ found).trans (kindsWith_self found .identifier)
  · rw [Table.first?_map_of_blind corrects rfl, misnamed.first?_header]
    rfl
  · rw [Table.fromType_map corrects, shape]
    rfl

/-- With the error corrected, the function has its return type and its name. -/
theorem Misnamed.highlightsOf_corrected
    (misnamed : Misnamed function header type found)
    (isError : found.node.kind = .error) :
    highlightsOf
        (function.recastEffects (kindsWith found .identifier)) =
      [{ span := type.node.span, tag := .typeIdentifier },
        { span := found.node.span, tag := .functionIdentifier }] := by
  obtain ⟨isFunction, isNamed, isHeader, rest, shape⟩ :=
    misnamed.parts_corrected isError
  rw [highlightsOf, recastEffects, emissionsOf_effects, Table.entries,
    isFunction]
  simp [isHeader, Table.function, shape, isNamed, highlightOf]

/-- With the error corrected, nothing is reported about the function. -/
theorem Misnamed.mismatchesOf_corrected
    (misnamed : Misnamed function header type found)
    (isError : found.node.kind = .error) :
    mismatchesOf
        (function.recastEffects (kindsWith found .identifier)) =
      [] := by
  obtain ⟨isFunction, isNamed, isHeader, rest, shape⟩ :=
    misnamed.parts_corrected isError
  rw [recastEffects, mismatchesOf_effects, Table.misnamed?,
    if_pos isFunction, isHeader]
  simp [shape, isNamed]

/-! ## Passes -/

/-- Away from the function, the correction changes nothing. -/
theorem Misnamed.effects_elsewhere
    (misnamed : Misnamed function header type found)
    (isError : found.node.kind = .error)
    {places : List Occurrence}
    (elsewhere : function ∉ places) :
    highlightsOf
          (places.flatMap (recastEffects (kindsWith found .identifier))) =
        highlightsOf (places.flatMap ruleEffects) ∧
      mismatchesOf
          (places.flatMap (recastEffects (kindsWith found .identifier))) =
        mismatchesOf (places.flatMap ruleEffects) := by
  have corrects := misnamed.corrects isError
  have keepsName :
      ∀ place ∈ places,
        Table.KeepsName (recast (kindsWith found .identifier)) place := by
    intro place listed
    apply misnamed.keepsName
    rintro rfl
    exact elsewhere listed
  rw [highlightsOf_flatMap, highlightsOf_flatMap, mismatchesOf_flatMap,
    mismatchesOf_flatMap]
  constructor
  · apply List.flatMap_congr
    intro place listed
    exact highlightsOf_recastEffects corrects (keepsName place listed)
  · apply List.flatMap_congr
    intro place listed
    exact mismatchesOf_recastEffects corrects (keepsName place listed)

/-- What all rules ask for before and after the correction. -/
theorem Misnamed.effects_split
    {tree : Node}
    (misnamed : Misnamed function header type found)
    (isError : found.node.kind = .error)
    {before after : List Occurrence}
    (split : occurrences tree = before ++ function :: after) :
    let plain := (occurrences tree).flatMap ruleEffects
    let corrected :=
      (occurrences tree).flatMap
        (recastEffects (kindsWith found .identifier))
    let earlier := before.flatMap ruleEffects
    let later := after.flatMap ruleEffects
    highlightsOf plain =
        highlightsOf earlier ++
          { span := type.node.span, tag := .typeIdentifier } ::
            highlightsOf later ∧
      highlightsOf corrected =
        highlightsOf earlier ++
          { span := type.node.span, tag := .typeIdentifier } ::
            { span := found.node.span, tag := .functionIdentifier } ::
              highlightsOf later ∧
      mismatchesOf plain =
        mismatchesOf earlier ++
          misnaming found.node :: mismatchesOf later ∧
      mismatchesOf corrected =
        mismatchesOf earlier ++ mismatchesOf later := by
  intro plain corrected earlier later
  -- The function stands in one place only, so all others are away from it.
  have once := nodup_occurrences tree
  rw [split, List.nodup_middle, List.nodup_cons, List.mem_append,
    not_or] at once
  obtain ⟨⟨notBefore, notAfter⟩, _⟩ := once
  obtain ⟨highlightsBefore, mismatchesBefore⟩ :=
    misnamed.effects_elsewhere isError notBefore
  obtain ⟨highlightsAfter, mismatchesAfter⟩ :=
    misnamed.effects_elsewhere isError notAfter
  have reported :
      mismatchesOf function.ruleEffects = [misnaming found.node] := by
    rw [mismatchesOf_ruleEffects,
      misnamed?_eq_some_iff.mpr ⟨header, type, misnamed⟩]
    rfl
  have splitPlain : plain = earlier ++ function.ruleEffects ++ later := by
    simp [plain, earlier, later, split]
  have splitCorrected :
      corrected =
        before.flatMap (recastEffects (kindsWith found .identifier)) ++
          function.recastEffects (kindsWith found .identifier) ++
          after.flatMap (recastEffects (kindsWith found .identifier)) := by
    simp [corrected, split]
  rw [splitPlain, splitCorrected]
  simp [misnamed.highlightsOf_ruleEffects,
    misnamed.highlightsOf_corrected isError, reported,
    misnamed.mismatchesOf_corrected isError, highlightsBefore,
    highlightsAfter, mismatchesBefore, mismatchesAfter, earlier, later]

/--
An error in the place of a function's name costs the name and nothing else.

Once it has become an identifier, a pass hands over the name of the function right
after its return type, and no longer reports it. Everything before and after is handed
over and reported as it was, all nodes are visited, and the counters differ by one
highlight and one mismatch.
-/
theorem correction_adds_only_the_name
    {tree : Node}
    (reached : Within tree function)
    (misnamed : Misnamed function header type found)
    (isError : found.node.kind = .error)
    (context : Context)
    (reporting : Reporting) :
    let settings := context.settings reporting
    let plain := Pass.run settings tree Pass.rawHost
    let corrected :=
      Pass.run settings (withKindAt tree found .identifier) Pass.rawHost
    ∃ before after stats correctedStats,
      occurrences tree = before ++ function :: after ∧
        let earlier := before.flatMap ruleEffects
        let later := after.flatMap ruleEffects
        plain.host.sink.toList =
            highlightsOf earlier ++
              { span := type.node.span, tag := .typeIdentifier } ::
                highlightsOf later ∧
          corrected.host.sink.toList =
            highlightsOf earlier ++
              { span := type.node.span, tag := .typeIdentifier } ::
                { span := found.node.span, tag := .functionIdentifier } ::
                  highlightsOf later ∧
          (reporting = .collect →
            plain.host.collected.toList =
                mismatchesOf earlier ++
                  misnaming found.node :: mismatchesOf later ∧
              corrected.host.collected.toList =
                mismatchesOf earlier ++ mismatchesOf later) ∧
          (reporting = .log →
            plain.log.toList.filterMap Event.mismatch? =
                mismatchesOf earlier ++
                  misnaming found.node :: mismatchesOf later ∧
              corrected.log.toList.filterMap Event.mismatch? =
                mismatchesOf earlier ++ mismatchesOf later) ∧
          plain.outcome = .finished stats ∧
          corrected.outcome = .finished correctedStats ∧
          correctedStats.nodesVisited = stats.nodesVisited ∧
          correctedStats.highlightsEmitted = stats.highlightsEmitted + 1 ∧
          stats.mismatches = correctedStats.mismatches + 1 := by
  intro settings plain corrected
  obtain ⟨before, after, split⟩ :=
    List.append_of_mem (mem_occurrences_iff.mpr reached)
  obtain ⟨highlights, named, errors, noError⟩ :=
    misnamed.effects_split isError split
  rw [← effectsOf_framesOf] at highlights errors
  rw [← effectsOf_recast] at named noError
  obtain ⟨ends, received⟩ :=
    Pass.run_rawHost_reporting context reporting tree
  obtain ⟨correctedEnds, correctedReceived⟩ :=
    Pass.run_rawHost_reporting context reporting
      (withKindAt tree found .identifier)
  obtain ⟨collected, logged⟩ :=
    Pass.mismatches_run_rawHost context reporting tree
  obtain ⟨correctedCollected, correctedLogged⟩ :=
    Pass.mismatches_run_rawHost context reporting
      (withKindAt tree found .identifier)
  refine ⟨before, after, _, _, split, received.trans highlights,
    correctedReceived.trans named, ?_, ?_, ends, correctedEnds,
    size_recast _ tree, ?_, ?_⟩
  · intro collects
    exact ⟨(collected collects).trans errors,
      (correctedCollected collects).trans noError⟩
  · intro logs
    exact ⟨(logged logs).trans errors,
      (correctedLogged logs).trans noError⟩
  · rw [← length_highlightsOf, ← length_highlightsOf, highlights,
      withKindAt, named]
    simp only [List.length_append, List.length_cons]
    omega
  · rw [errors, withKindAt, noError]
    simp only [List.length_append, List.length_cons]
    omega

end

/-- The header `float4 9main()`, whose name is an error, over bytes 0 to 14. -/
def misnamedHeader : Node where
  kind := .functionHeader
  span := .ofTested 0 14 (.refl true)
  children := [
    .leaf .builtInType (.ofTested 0 6 (.refl true)),
    .leaf .error (.ofTested 7 12 (.refl true)),
    .leaf .parameterList (.ofTested 12 14 (.refl true))]

/-- A function with nothing but this header. -/
def misnamedFunction : Node where
  kind := .functionDeclaration
  span := .ofTested 0 14 (.refl true)
  children := [misnamedHeader]

/-- With the error corrected, the name is handed over and nothing is reported. -/
theorem correction_adds_only_the_name_misnamedFunction :
    let function := ofRoot misnamedFunction
    let header := function.child 0 misnamedHeader
    let type :=
      header.child 0 (.leaf .builtInType (.ofTested 0 6 (.refl true)))
    let found := header.child 1 (.leaf .error (.ofTested 7 12 (.refl true)))
    let corrected :=
      Pass.run (Context.settings ⟨0, false⟩ .collect)
        (withKindAt misnamedFunction found .identifier) Pass.rawHost
    Misnamed function header type found ∧
      found.node.kind = .error ∧
      corrected.host.sink.toList = [
        ⟨.ofTested 0 6 (.refl true), .typeIdentifier⟩,
        ⟨.ofTested 7 12 (.refl true), .functionIdentifier⟩,
        ⟨.ofTested 0 6 (.refl true), .keyword⟩] ∧
      corrected.host.collected.toList = [] := by
  intro function header type found corrected
  have misnamed : Misnamed function header type found := {
    isFunction := rfl
    isHeader := ⟨rfl, [], [], rfl, by simp⟩
    isType := rfl
    follows := ⟨[], _, rfl, by simp⟩
    notIdentifier := by decide
  }
  have reached : Within misnamedFunction function :=
    .ofRoot
  obtain ⟨before, after, _, _, split, _, highlights, errors, _⟩ :=
    correction_adds_only_the_name reached misnamed rfl ⟨0, false⟩ .collect
  -- The function is the root, so nothing is visited before it.
  have places :
      occurrences misnamedFunction =
        [] ++ function :: (occurrences misnamedFunction).tail :=
    rfl
  have once := nodup_occurrences misnamedFunction
  rw [places, List.nil_append, List.nodup_cons] at once
  obtain ⟨rfl, _, rfl⟩ :=
    (List.append_cons_inj_of_notMem List.not_mem_nil once.1).mp
      (places.symm.trans split)
  refine ⟨misnamed, rfl, ?_, ?_⟩
  · rw [show corrected.host.sink.toList = _ from highlights]
    rfl
  · rw [show corrected.host.collected.toList = _ from (errors rfl).2]
    rfl

end Occurrence

end ShaderTint
