import ShaderTint.Proofs.Highlight.FirstSeen
import ShaderTint.Proofs.Pass.Interruption

namespace ShaderTint

/-!
# Passes that share their collaborators

A host may keep one plain list, one distinct collection and one collection of
mismatches, and hand them to pass after pass. A pass only ever adds to them, and
what it adds depends on its tree alone.

Main statements: `Pass.Entry.run_of_free` says what one pass adds, and
`Pass.Shared.run_adds_up` what any sequence of passes leaves behind, whatever was
there before and whenever the mismatches are taken away in between.
-/

namespace Table

/-- What a pass of its own highlights in a tree. -/
def highlights
    (tree : Node) :
    List Highlight :=
  (inTree none tree).map highlightOf

/-- The mismatches of a tree, in document order. -/
def mismatches
    (tree : Node) :
    List ShapeMismatch :=
  tree.preorder.flatMap fun node => (misnamed? node).toList.map misnaming

/-- The counters of a full pass over a tree. -/
def stats
    (tree : Node) :
    PassStats where
  nodesVisited := tree.size
  highlightsEmitted := (highlights tree).length
  mismatches := (mismatches tree).length

end Table

/-- The mismatches of a tree that a pass adds to the collection. -/
def Reporting.collectedFrom
    (reporting : Reporting)
    (tree : Node) :
    List ShapeMismatch :=
  if reporting = .collect then Table.mismatches tree else []

namespace DistinctHighlights

/-- Seeing a highlight again changes nothing. -/
theorem insert_of_mem
    {collection : DistinctHighlights}
    {highlight : Highlight}
    (member : highlight ∈ collection.toList) :
    collection.insert highlight = collection :=
  dif_pos ((collection.contains_iff highlight).mpr member)

/-- Seeing highlights again changes nothing. -/
theorem foldl_insert_of_subset
    {collection : DistinctHighlights}
    {highlights : List Highlight}
    (seen : highlights ⊆ collection.toList) :
    highlights.foldl insert collection = collection := by
  induction highlights with
  | nil =>
      rfl
  | cons highlight rest inductionHypothesis =>
      obtain ⟨first, others⟩ := List.cons_subset.mp seen
      rw [List.foldl_cons, insert_of_mem first]
      exact inductionHypothesis others

end DistinctHighlights

namespace Pass

/-- The mismatches of the frames of a tree are those of the tree. -/
theorem mismatchesOf_framesOf
    (tree : Node) :
    mismatchesOf (effectsOf Rule.effects (framesOf none tree)) =
      Table.mismatches tree := by
  rw [mismatchesOf_effectsOf, Table.mismatches, ← map_node_framesOf none tree,
    List.flatMap_map]

/-! ## One pass -/

/-- How a pass is started: under a context, or as one that nobody can interrupt. -/
inductive Entry where
  | under (context : Context)
  | alone

namespace Entry

/-- No flag that the pass watches is up. -/
def Free
    (entry : Entry)
    (flags : Flags) :
    Prop :=
  match entry with
  | .under context => flags.isRaised context.family = false
  | .alone => True

/-- Run a pass; only under a context does it say how it ended. -/
def run
    [Sink σ]
    (entry : Entry)
    (reporting : Reporting)
    (tree : Node)
    (host : Host σ) :
    Option Outcome × Host σ :=
  match entry with
  | .under context =>
      let result := Pass.run (context.settings reporting) tree host
      (some result.outcome, result.host)
  | .alone => (none, (runAlone reporting tree host).host)

/-- What a pass says when nothing interrupts it. -/
def answer
    (entry : Entry)
    (tree : Node) :
    Option Outcome :=
  match entry with
  | .under _ => some (.finished (Table.stats tree))
  | .alone => none

end Entry

/-- What an uninterrupted pass over a tree leaves of its host. -/
def grown
    [Sink σ]
    (host : Host σ)
    (reporting : Reporting)
    (tree : Node) :
    Host σ where
  sink := (Sink.addAll (Table.highlights tree) host.sink host.flags).1
  flags := host.flags
  collected :=
    host.collected ++ (reporting.collectedFrom tree).toArray

/-- An uninterrupted pass into a quiet receiver adds what its tree asks for. -/
theorem run_grows
    [Sink σ]
    [Sink.Quiet σ]
    (settings : PassSettings)
    (cg : settings.rules = Rule.effects)
    (tree : Node)
    (host : Host σ)
    (flagDown : FlagDown settings host.flags) :
    (run settings tree host).outcome = .finished (Table.stats tree) ∧
      (run settings tree host).host =
        grown host settings.reporting tree := by
  have sameHighlights :
      highlightsOf (effectsOf settings.rules (framesOf none tree)) =
        Table.highlights tree := by
    rw [cg, highlightsOf_framesOf, Table.highlights]
  have sameMismatches :
      mismatchesOf (effectsOf settings.rules (framesOf none tree)) =
        Table.mismatches tree := by
    rw [cg, mismatchesOf_framesOf]
  have counted :
      (emissionsOf (effectsOf settings.rules (framesOf none tree))).length =
        (Table.highlights tree).length := by
    rw [← sameHighlights, highlightsOf, List.length_map]
  rw [run_of_quiet tree host flagDown]
  constructor
  · simp [completed, Progress.after, Progress.start, PassStats.zero,
      sameMismatches, counted, Table.stats]
  · simp only [completed, Progress.after, Progress.start, sameHighlights,
      sameMismatches, Sink.flags_addAll, grown, Reporting.collectedFrom]
    split <;> simp

/-- Through either entry, an uninterrupted pass adds what its tree asks for. -/
theorem Entry.run_of_free
    [Sink σ]
    [Sink.Quiet σ]
    {entry : Entry}
    (reporting : Reporting)
    (tree : Node)
    (host : Host σ)
    (free : entry.Free host.flags) :
    entry.run reporting tree host =
      (entry.answer tree, grown host reporting tree) := by
  cases entry with
  | under context =>
      obtain ⟨ended, left⟩ :=
        run_grows (context.settings reporting) rfl tree host
          (flagDown_settings free reporting)
      rw [run, ended, left]
      rfl
  | alone =>
      obtain ⟨ended, left⟩ :=
        run_grows (PassSettings.alone reporting) rfl tree host rfl
      rw [run, runAlone, ended, left]
      rfl

/-! ## Many passes -/

/-- Where the highlights of a pass go. -/
inductive Receiver where
  | list
  | distinct
  deriving DecidableEq

/-- What passes share. -/
structure Shared where
  list : Array Highlight
  distinct : DistinctHighlights
  flags : Flags
  collected : Array ShapeMismatch

/-- What is done with shared collaborators. -/
inductive Errand where
  | classify
      (entry : Entry)
      (receiver : Receiver)
      (reporting : Reporting)
      (tree : Node)
  /-- Take the collected mismatches away. -/
  | take

namespace Errand

/-- Nothing interrupts the pass. -/
def Free
    (errand : Errand)
    (flags : Flags) :
    Prop :=
  match errand with
  | .classify entry _ _ _ => entry.Free flags
  | .take => True

/-- The tree that is classified into a receiver. -/
def treeInto?
    (receiver : Receiver) :
    Errand → Option Node
  | .classify _ target _ tree =>
      if target = receiver then some tree else none
  | .take => none

/-- The mismatches that are collected. -/
def collects : Errand → List ShapeMismatch
  | .classify _ _ reporting tree => reporting.collectedFrom tree
  | .take => []

/-- What a pass says when nothing interrupts it. -/
def answer? : Errand → Option Outcome
  | .classify entry _ _ tree => entry.answer tree
  | .take => none

end Errand

/-- What the trees that errands classify into a receiver are highlighted with. -/
def highlightsInto
    (receiver : Receiver)
    (errands : List Errand) :
    List Highlight :=
  (errands.filterMap (Errand.treeInto? receiver)).flatMap Table.highlights

/-- What comes of an errand. -/
inductive Return where
  | ended (outcome : Option Outcome)
  | taken (mismatches : Array ShapeMismatch)

namespace Return

/-- How a pass says that it ended. -/
def outcome? : Return → Option Outcome
  | .ended outcome => outcome
  | .taken _ => none

/-- The mismatches that are taken away. -/
def mismatches : Return → List ShapeMismatch
  | .ended _ => []
  | .taken mismatches => mismatches.toList

end Return

namespace Shared

/-- The host of a pass into the list. -/
def listHost
    (shared : Shared) :
    Host (Array Highlight) where
  sink := shared.list
  flags := shared.flags
  collected := shared.collected

/-- The host of a pass into the collection. -/
def distinctHost
    (shared : Shared) :
    Host DistinctHighlights where
  sink := shared.distinct
  flags := shared.flags
  collected := shared.collected

/-- Do one errand. -/
def step
    (shared : Shared) :
    Errand → Return × Shared
  | .classify entry .list reporting tree =>
      let (outcome, host) := entry.run reporting tree shared.listHost
      (.ended outcome,
        { shared with
          list := host.sink
          flags := host.flags
          collected := host.collected })
  | .classify entry .distinct reporting tree =>
      let (outcome, host) := entry.run reporting tree shared.distinctHost
      (.ended outcome,
        { shared with
          distinct := host.sink
          flags := host.flags
          collected := host.collected })
  | .take =>
      (.taken shared.collected, { shared with collected := #[] })

/-- Do errands in order, with what comes of them. -/
def run
    (shared : Shared) :
    List Errand → List Return × Shared
  | [] => ([], shared)
  | errand :: rest =>
      let (answer, shared) := shared.step errand
      let (answers, shared) := shared.run rest
      (answer :: answers, shared)

/-- Collaborators that no pass has used. -/
def fresh : Shared where
  list := #[]
  distinct := .empty
  flags := .clear
  collected := #[]

/-- What errands leave behind is what was there and what their trees ask for. -/
structure AddsUp
    (before : Shared)
    (errands : List Errand)
    (answers : List Return)
    (after : Shared) :
    Prop where
  flags_eq : after.flags = before.flags
  list_eq :
    after.list.toList =
      before.list.toList ++ highlightsInto .list errands
  distinct_eq :
    after.distinct =
      (highlightsInto .distinct errands).foldl .insert before.distinct
  outcomes_eq :
    answers.map Return.outcome? = errands.map Errand.answer?
  mismatches_eq :
    answers.flatMap Return.mismatches ++ after.collected.toList =
      before.collected.toList ++ errands.flatMap Errand.collects

/-- One errand adds up. -/
theorem addsUp_step
    {shared : Shared}
    (errand : Errand)
    (free : errand.Free shared.flags) :
    AddsUp shared [errand]
      [(shared.step errand).1] (shared.step errand).2 := by
  cases errand with
  | classify entry receiver reporting tree =>
      cases receiver with
      | list =>
          rw [step, Entry.run_of_free reporting tree shared.listHost free]
          exact {
            flags_eq := rfl
            list_eq := by
              simp [grown, listHost, highlightsInto, Errand.treeInto?,
                Sink.toList_addAll_array]
            distinct_eq := rfl
            outcomes_eq := rfl
            mismatches_eq := by
              simp [grown, listHost, Return.mismatches, Errand.collects]
          }
      | distinct =>
          rw [step, Entry.run_of_free reporting tree shared.distinctHost free]
          exact {
            flags_eq := rfl
            list_eq := by
              simp [highlightsInto, Errand.treeInto?]
            distinct_eq := by
              simp [grown, distinctHost, highlightsInto, Errand.treeInto?,
                Sink.addAll_distinct]
            outcomes_eq := rfl
            mismatches_eq := by
              simp [grown, distinctHost, Return.mismatches, Errand.collects]
          }
  | take =>
      exact {
        flags_eq := rfl
        list_eq := (List.append_nil _).symm
        distinct_eq := rfl
        outcomes_eq := rfl
        mismatches_eq := by
          simp [step, Return.mismatches, Errand.collects]
      }

/-- What adds up one after the other adds up together. -/
theorem AddsUp.append
    {before middle after : Shared}
    {first second : List Errand}
    {firstAnswers secondAnswers : List Return}
    (early : AddsUp before first firstAnswers middle)
    (late : AddsUp middle second secondAnswers after) :
    AddsUp before (first ++ second) (firstAnswers ++ secondAnswers) after where
  flags_eq := late.flags_eq.trans early.flags_eq
  list_eq := by
    rw [late.list_eq, early.list_eq]
    simp [highlightsInto]
  distinct_eq := by
    rw [late.distinct_eq, early.distinct_eq]
    simp [highlightsInto]
  outcomes_eq := by
    rw [List.map_append, List.map_append, early.outcomes_eq, late.outcomes_eq]
  mismatches_eq := by
    rw [List.flatMap_append, List.append_assoc, late.mismatches_eq,
      ← List.append_assoc, early.mismatches_eq, List.append_assoc,
      List.flatMap_append]

/-- Any sequence of errands adds up. -/
theorem addsUp_run
    {shared : Shared}
    {errands : List Errand}
    (free : ∀ errand ∈ errands, errand.Free shared.flags) :
    AddsUp shared errands
      (shared.run errands).1 (shared.run errands).2 := by
  induction errands generalizing shared with
  | nil =>
      exact {
        flags_eq := rfl
        list_eq := (List.append_nil _).symm
        distinct_eq := rfl
        outcomes_eq := rfl
        mismatches_eq := (List.append_nil _).symm
      }
  | cons errand rest inductionHypothesis =>
      obtain ⟨freeFirst, freeRest⟩ := List.forall_mem_cons.mp free
      have first := addsUp_step errand freeFirst
      have others :
          AddsUp (shared.step errand).2 rest
            ((shared.step errand).2.run rest).1
            ((shared.step errand).2.run rest).2 := by
        apply inductionHypothesis
        rwa [first.flags_eq]
      exact first.append others

/-- Fresh collaborators have all their flags down. -/
theorem free_fresh
    (errand : Errand) :
    errand.Free fresh.flags := by
  cases errand with
  | classify entry receiver reporting tree =>
      cases entry with
      | under context =>
          exact Flags.isRaised_clear context.family
      | alone =>
          trivial
  | take =>
      trivial

/-- A collection that has taken a tree's highlights does not change with another pass. -/
theorem distinct_step_of_subset
    {shared : Shared}
    {entry : Entry}
    (free : entry.Free shared.flags)
    (reporting : Reporting)
    {tree : Node}
    (seen : Table.highlights tree ⊆ shared.distinct.toList) :
    (shared.step (.classify entry .distinct reporting tree)).2.distinct =
      shared.distinct := by
  have again :=
    (addsUp_step (.classify entry .distinct reporting tree) free).distinct_eq
  simp only [highlightsInto, Errand.treeInto?, ↓reduceIte,
    List.filterMap_cons, List.filterMap_nil, List.flatMap_cons,
    List.flatMap_nil, List.append_nil] at again
  rw [again, DistinctHighlights.foldl_insert_of_subset seen]

/--
Passes that share their collaborators add up.

Uninterrupted passes, through either entry, into a plain list or into a distinct
collection, interleaved with taking the collected mismatches away: each pass
answers as it does on fresh collaborators, with the counters of its tree. The list
ends as it was, followed by the highlights of the trees that were classified into
it. The collection holds what was seen first in what it held, followed by the
highlights of the trees that were classified into it. The mismatches taken away
and those still there are the ones that were there, followed by those of the
passes that collect them. Classifying a tree once more into the collection leaves
the collection as it is, and with it its order and its resolved view.
-/
theorem run_adds_up
    (shared : Shared)
    (errands : List Errand)
    (free : ∀ errand ∈ errands, errand.Free shared.flags) :
    let answers := (shared.run errands).1
    let final := (shared.run errands).2
    (answers.map Return.outcome? =
        errands.map fun errand => (fresh.step errand).1.outcome?) ∧
      answers.map Return.outcome? = errands.map Errand.answer? ∧
      final.list.toList =
        shared.list.toList ++
          (errands.filterMap (Errand.treeInto? .list)).flatMap
            Table.highlights ∧
      final.distinct.toList =
        (shared.distinct.toList ++
          (errands.filterMap (Errand.treeInto? .distinct)).flatMap
            Table.highlights).eraseDups ∧
      answers.flatMap Return.mismatches ++ final.collected.toList =
        shared.collected.toList ++ errands.flatMap Errand.collects ∧
      ∀ tree ∈ errands.filterMap (Errand.treeInto? .distinct),
        ∀ (entry : Entry) (reporting : Reporting),
          entry.Free shared.flags →
          let again := .classify entry .distinct reporting tree
          (final.step again).2.distinct = final.distinct := by
  intro answers final
  have total : AddsUp shared errands answers final :=
    addsUp_run free
  have afresh :
      ∀ errand : Errand,
        (fresh.step errand).1.outcome? = errand.answer? := by
    intro errand
    exact List.singleton_inj.mp (addsUp_step errand (free_fresh errand)).outcomes_eq
  have held :
      final.distinct.toList =
        (shared.distinct.toList ++
          highlightsInto .distinct errands).eraseDups := by
    rw [total.distinct_eq, DistinctHighlights.toList_foldl_insert]
  refine ⟨?_, total.outcomes_eq, total.list_eq, held, total.mismatches_eq, ?_⟩
  · simp only [afresh]
    exact total.outcomes_eq
  · intro tree classified entry reporting entryFree again
    have seen : Table.highlights tree ⊆ final.distinct.toList := by
      intro highlight member
      rw [held, List.mem_eraseDups]
      exact List.mem_append_right _
        (List.mem_flatMap.mpr ⟨tree, classified, member⟩)
    apply distinct_step_of_subset _ reporting seen
    rw [total.flags_eq]
    exact entryFree

/-- The function `int 1`, over bytes 0 to 5, with a literal in the place of its name. -/
def misnamedFunction : Node where
  kind := .functionDeclaration
  span := .ofTested 0 5 (.refl true)
  children := [
    {
      kind := .functionHeader
      span := .ofTested 0 5 (.refl true)
      children := [
        .leaf .builtInType (.ofTested 0 3 (.refl true)),
        .leaf .literal (.ofTested 4 5 (.refl true))]
    }]

/--
Two passes over `misnamedFunction`, one into each receiver, with the mismatches
taken away in between: all three collaborators keep what they had.
-/
theorem run_adds_up_misnamedFunction :
    let type : Highlight :=
      ⟨⟨0, 3, by decide, by decide⟩, .typeIdentifier⟩
    let keyword : Highlight :=
      ⟨⟨0, 3, by decide, by decide⟩, .keyword⟩
    let mismatch : ShapeMismatch := {
      node := .functionHeader
      expected := .identifier
      found := .literal
      span := ⟨4, 5, by decide, by decide⟩
    }
    let shared : Shared := {
      list := #[keyword]
      distinct := .ofList [keyword]
      flags := Flags.clear.raise 1
      collected := #[mismatch]
    }
    let errands : List Errand := [
      .classify (.under ⟨0, true⟩) .list .collect misnamedFunction,
      .take,
      .classify .alone .distinct .collect misnamedFunction]
    let answers := (shared.run errands).1
    let final := (shared.run errands).2
    (∀ errand ∈ errands, errand.Free shared.flags) ∧
      answers.map Return.outcome? =
        [some (.finished ⟨4, 2, 1⟩), none, none] ∧
      final.list.toList = [keyword, type, keyword] ∧
      final.distinct.toList = [keyword, type] ∧
      answers.flatMap Return.mismatches ++ final.collected.toList =
        [mismatch, mismatch, mismatch] := by
  intro type keyword mismatch shared errands answers final
  have free : ∀ errand ∈ errands, errand.Free shared.flags := by
    simp [errands, shared, Errand.Free, Entry.Free]
  have prior : shared.distinct.toList = [keyword] :=
    DistinctHighlights.toList_foldl_insert .empty [keyword]
  obtain ⟨_, outcomes, listed, held, collected, _⟩ :=
    run_adds_up shared errands free
  rw [prior] at held
  exact ⟨free, outcomes, listed, held, collected⟩

end Shared

end Pass

end ShaderTint
