import CommunityDetection.Proofs.Numbering
import CommunityDetection.Proofs.Search.OutputIds
import Mathlib.Logic.Relation

/-!
# Unrelated nodes stay apart

Nodes are related if they are connected by relationships and common labels (`Problem.Related`). Nodes
merged into neighbours or into one community are related, at the start and then in every state of a
search (`Enters.confined`), whatever the numbers and the draws are. So levels and returned communities
keep unrelated nodes apart (`unrelated_apart`).
-/

namespace CommunityDetection

namespace Search

variable {σ α : Type} {G : Graph α} {state moved recorded next start : State α} {count : Nat}
  {merged : Nat → Nat} {related : Nat → Nat → Prop}

/-- An equivalence of root nodes relates those merged into neighbours or into one community. -/
structure Confined (G : Graph α) (related : Nat → Nat → Prop) (state : State α) (merged : Nat → Nat) :
    Prop where
  adjacent : ∀ u < G.nodeCount, ∀ v < G.nodeCount,
    state.level.graph.Adjacent (merged u) (merged v) → related u v
  together : ∀ u < G.nodeCount, ∀ v < G.nodeCount,
    state.level.assignment.of (merged u) = state.level.assignment.of (merged v) → related u v

variable [Scalar α] {plan : Plan σ α}

theorem Confined.move (confined : Confined G related state merged) (equivalence : Equivalence related)
    (rooted : Rooted G state merged) (moves : Moves plan state count moved) :
    Confined G related moved merged := by
  obtain ⟨start, reached, starts, ⟨_, passed⟩, rfl⟩ := moves.passed
  have same := (Level.moveStart_ok starts).1
  -- Nodes of the level are related as root nodes that were merged into them are.
  choose! root inside atRoot using rooted.onto
  have pulled : Equivalence fun a b => related (root a) (root b) :=
    ⟨fun a => equivalence.refl _, equivalence.symm, equivalence.trans⟩
  refine ⟨confined.adjacent, fun u bound v bounded together => ?_⟩
  have back : ∀ w < G.nodeCount, related w (root (merged w)) := by
    intro w bound
    have range := rooted.maps w bound
    exact confined.together w bound _ (inside _ range) (by rw [atRoot _ range])
  have linked := passed.confined rooted.ready.closed (same ▸ rooted.ready.within.size) pulled
    (fun a b adjacent => ?_) (fun a boundA b boundB equal => ?_) (merged u) (rooted.maps u bound)
    (merged v) (rooted.maps v bounded) together
  · exact equivalence.trans (back u bound)
      (equivalence.trans linked (equivalence.symm (back v bounded)))
  · have left := adjacent.lt_left
    have right := adjacent.lt_right rooted.ready.closed
    apply confined.adjacent _ (inside a left) _ (inside b right)
    rw [atRoot a left, atRoot b right]
    exact adjacent
  · rw [same] at equal
    apply confined.together _ (inside a boundA) _ (inside b boundB)
    rw [atRoot a boundA, atRoot b boundB]
    exact equal

omit [Scalar α] in
theorem Confined.record (confined : Confined G related moved merged)
    (records : moved.record = .ok recorded) : Confined G related recorded merged := by
  rw [record_ok records]
  exact ⟨confined.adjacent, confined.together⟩

theorem Confined.descend (confined : Confined G related state merged)
    (equivalence : Equivalence related) (rooted : Rooted G state merged)
    (lawful : plan.sampler.Lawful) (descends : Descends plan state next) :
    Confined G related next (state.level.part (refined plan state) ∘ merged) := by
  have refines := refines_refined plan rooted.ready.closed lawful
  cases descends with
  | intro =>
    have together : ∀ u < G.nodeCount, ∀ v < G.nodeCount,
        (state.level.coarsen (refined plan state)).assignment.of
            (state.level.part (refined plan state) (merged u)) =
          (state.level.coarsen (refined plan state)).assignment.of
            (state.level.part (refined plan state) (merged v)) → related u v :=
      fun u bound v bounded same => confined.together u bound v bounded
        ((Level.same_iff_coarsen refines (rooted.maps u bound) (rooted.maps v bounded)).mp same)
    constructor
    · intro u bound v bounded adjacent
      rw [Function.comp_apply, Function.comp_apply] at adjacent
      -- Relationships of the coarse level come from relationships between members of the parts.
      obtain ⟨a, b, edge, atU, atV⟩ := (Coarsening.adjacent_graph refines.covers).mp adjacent
      obtain ⟨x, boundX, rfl⟩ := rooted.onto a edge.lt_left
      obtain ⟨y, boundY, rfl⟩ := rooted.onto b (edge.lt_right rooted.ready.closed)
      have left := together u bound x boundX (congrArg (Assignment.of _) atU.symm)
      have right := together y boundY v bounded (congrArg (Assignment.of _) atV)
      exact equivalence.trans left
        (equivalence.trans (confined.adjacent x boundX y boundY edge) right)
    · intro u bound v bounded same
      rw [Function.comp_apply, Function.comp_apply] at same
      exact together u bound v bounded same

theorem Reached.confined (reached : Reached plan start state merged) (lawful : plan.sampler.Lawful)
    (rooted : Rooted G start id) (equivalence : Equivalence related)
    (confined : Confined G related start id) : Confined G related state merged := by
  induction reached with
  | start => exact confined
  | @descended _ moved recorded next _ _ before descent ih =>
    have above := before.rooted lawful rooted
    have after := ih.move equivalence above descent.moves
    have below := (after.record descent.records).descend equivalence
      ((above.move descent.moves).record descent.records) lawful descent.descends
    exact ⟨below.adjacent, below.together⟩

end Search

namespace Problem

variable {σ α : Type} [Scalar α] {G : Graph α} {config : Config α} {problem : Problem α}
  {sampler : Sampler σ α} {plan : Search.Plan σ α} {state moved recorded : Search.State α}
  {merged : Nat → Nat} {count : Nat} {level : Array Nat} {u v : Nat}

section Related

omit [Scalar α]

/-- Two nodes are joined by a relationship or given one label. -/
inductive Tied (problem : Problem α) (u v : Nat) : Prop
  | joined (adjacent : problem.graph.Adjacent u v)
  | seeded {seeds : Array (Option Nat)} {label : Nat} (given : problem.seeds = some seeds)
      (left : seeds[u]? = some (some label)) (right : seeds[v]? = some (some label))

/-- The least equivalence of nodes that relates tied ones. -/
def Related (problem : Problem α) : Nat → Nat → Prop := Relation.EqvGen problem.Tied

theorem equivalence_related (problem : Problem α) : Equivalence problem.Related :=
  Relation.EqvGen.is_equivalence _

theorem joined_of_related (unseeded : problem.seeds = none) (related : problem.Related u v) :
    Relation.EqvGen problem.graph.Adjacent u v := by
  refine related.mono fun a b tied => ?_
  cases tied with
  | joined adjacent => exact adjacent
  | seeded given => cases unseeded.symm.trans given

/-- A level gives one output id to related nodes only. Without seeds these are the nodes of one
connected component, and a node without relationships to others is alone. -/
structure Apart (problem : Problem α) (level : Array Nat) : Prop where
  size : level.size = problem.graph.nodeCount
  related : ∀ u < problem.graph.nodeCount, ∀ v < problem.graph.nodeCount,
    Assignment.of level u = Assignment.of level v → problem.Related u v
  connected : problem.seeds = none → ∀ u < problem.graph.nodeCount, ∀ v < problem.graph.nodeCount,
    Assignment.of level u = Assignment.of level v → Relation.EqvGen problem.graph.Adjacent u v
  alone : problem.seeds = none → ∀ u < problem.graph.nodeCount,
    (∀ w, problem.graph.Adjacent u w ∨ problem.graph.Adjacent w u → w = u) →
      ∀ v < problem.graph.nodeCount, Assignment.of level u = Assignment.of level v → u = v

theorem apart_of_related (size : level.size = problem.graph.nodeCount)
    (related : ∀ u < problem.graph.nodeCount, ∀ v < problem.graph.nodeCount,
      Assignment.of level u = Assignment.of level v → problem.Related u v) : problem.Apart level := by
  have connected : problem.seeds = none → ∀ u < problem.graph.nodeCount,
      ∀ v < problem.graph.nodeCount, Assignment.of level u = Assignment.of level v →
        Relation.EqvGen problem.graph.Adjacent u v :=
    fun unseeded u bound v bounded same => joined_of_related unseeded (related u bound v bounded same)
  refine ⟨size, related, connected, fun unseeded u bound isolated v bounded same => ?_⟩
  -- Being `u` does not change along relationships.
  have constant : ∀ a b, problem.graph.Adjacent a b → (a = u) = (b = u) := by
    intro a b adjacent
    apply propext
    constructor
    · rintro rfl
      exact isolated b (.inl adjacent)
    · rintro rfl
      exact isolated a (.inr adjacent)
  have classes := Quot.eqvGen_sound (connected unseeded u bound v bounded same)
  exact ((congrArg (Quot.lift (· = u) constant) classes).mp rfl).symm

end Related

section Posed

variable (fits : Fits G config problem) (closed : G.Closed) (lawful : sampler.Lawful)

include fits closed lawful

theorem Enters.confined (enters : problem.Enters sampler plan state merged) :
    Search.Confined G problem.Related state merged := by
  obtain ⟨assignment, seeding, resolved, rfl, reached⟩ := enters
  refine reached.confined lawful (fits.rooted_begin closed resolved _) (equivalence_related problem) ?_
  have sized := fits.sized
  obtain rfl := fits.graph
  refine ⟨fun u _ v _ adjacent => .rel _ _ (.joined adjacent), fun u bound v bounded same => ?_⟩
  rcases Seeding.label_of_resolve_eq resolved sized bound bounded same with
    rfl | ⟨seeds, label, given, left, right⟩
  · exact .refl u
  · exact .rel _ _ (.seeded given left right)

theorem Enters.apart (enters : problem.Enters sampler plan state merged)
    (moves : Search.Moves plan state count moved) {part : Nat → Nat}
    (outputs : Search.Outputs G moved part level) (merges : ∀ u < G.nodeCount, part u = merged u) :
    problem.Apart level := by
  have confined := (enters.confined fits closed lawful).move (equivalence_related problem)
    (enters.rooted fits closed lawful) moves
  obtain rfl := fits.graph
  apply apart_of_related outputs.size
  intro u bound v bounded same
  apply confined.together u bound v bounded
  rw [← merges u bound, ← merges v bounded]
  exact (outputs.same_iff u bound v bounded).mp same

theorem Shows.apart (kept : G.KeepsIds) {i : Nat} (shows : problem.Shows G sampler i level) :
    problem.Apart level := by
  obtain ⟨enters, -, moves, roots, outputs⟩ := shows
  refine enters.apart fits closed lawful moves outputs fun u bound => ?_
  obtain ⟨v, -, found, part⟩ := roots u bound
  rw [kept u bound, Option.some_inj] at found
  rw [part, found]

theorem ShowsFirst.apart (shows : problem.ShowsFirst G sampler level) : problem.Apart level := by
  obtain ⟨enters, first, moves, outputs⟩ := shows
  refine enters.apart fits closed lawful moves outputs fun u bound => ?_
  obtain ⟨assignment, seeding, -, -, reached⟩ := enters
  cases reached with
  | start => rfl
  | descended =>
    rw [Search.iteration_complete] at first
    cases first

end Posed

/-- On a graph that keeps its ids all recorded levels and the returned communities keep unrelated nodes
apart. -/
theorem unrelated_apart (closed : G.Closed) (located : G.Located) (kept : G.KeepsIds)
    (posed : Posed G config problem) (lawful : sampler.Lawful) :
    (∀ plan state merged count moved recorded level, problem.Enters sampler plan state merged →
      Search.Moves plan state count moved → moved.record = .ok recorded →
        recorded.hierarchy.current? = some level → problem.Apart level) ∧
    ∀ watch result, (problem.run sampler watch).1 = .ok result →
      (∀ dendrogram, result.dendrogram = some dendrogram → ∀ (i : Nat) level,
        dendrogram.levels[i]? = some level → problem.Apart level) ∧
      problem.Apart result.communities := by
  have fits := posed.fits
  constructor
  · rintro plan state merged count moved recorded level ⟨assignment, seeding, resolved, rfl, reached⟩
      moves records last
    have shows := shows_of_recording fits closed located lawful resolved
      ⟨reached, rfl, rfl, moves, records, last⟩
    exact shows.apart fits closed lawful kept
  · intro watch result ok
    obtain ⟨ending, reaches, rfl⟩ := run_ok ok
    constructor
    · intro dendrogram found i level listed
      obtain ⟨assignment, seeding, resolved, chronicle⟩ := reaches.chronicle
      obtain ⟨-, all, levels⟩ := dendrogram_result found
      rw [levels] at listed
      obtain ⟨previous, recording, -⟩ := chronicle.each all i level listed
      exact (shows_of_recording fits closed located lawful resolved recording).apart fits closed
        lawful kept
    · rcases reaches.shows_communities fits closed located lawful with ⟨i, -, shows⟩ | shows
      · exact shows.apart fits closed lawful kept
      · exact shows.apart fits closed lawful

def pairs : Problem ℚ where
  graph := ⟨.undirected, true, Graph.rowsOf 5 .undirected [⟨0, 1, 1⟩], none, []⟩
  config := { (Config.standard : Config ℚ) with keepLevels := true }
  seeds := some #[none, none, some 9, none, some 9]

theorem unrelated_apart_pairs : pairs.Apart #[10, 10, 9, 13, 9] := by
  have given : pairs.graph.FromEdges := Graph.fromEdges_of_sound (by decide +kernel)
  have posed : Posed pairs.graph pairs.config pairs :=
    (posed_of_valid (by decide +kernel) rfl rfl rfl : Posed _ _ { pairs with seeds := none }).seeded
      (by decide +kernel)
  have run : (pairs.run (Sampler.steady ℚ) fun _ => false).1 = .ok
      { communities := #[10, 10, 9, 13, 9], ranIterations := 1, didConverge := true
        terminalState := .converged, dendrogram := some ⟨#[#[10, 10, 9, 13, 9]]⟩
        modularities := [0], modularity := 0 } := by
    decide +kernel
  obtain ⟨-, apart⟩ := unrelated_apart given.closed
    (Graph.faithful_of_untranslated rfl).located (Graph.keepsIds_of_untranslated rfl) posed
    (Sampler.lawful_steady ℚ)
  exact (apart _ _ run).2

end Problem

end CommunityDetection
