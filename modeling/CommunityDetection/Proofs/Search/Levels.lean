import CommunityDetection.Proofs.Search.Chronicle
import CommunityDetection.Proofs.Search.Rooted

/-!
# How levels coarsen

A level shows the communities that the moves of an iteration led to, but the next iteration moves the
parts into which they were refined. So root nodes of one part stay together, while of two levels in a
row the second is coarser exactly if no move took a community apart (`levels_coarsen_iff`).
-/

namespace CommunityDetection

/-- Of `n` root nodes those that are together on the first level are together on the second. -/
def Coarsens (n : Nat) (fine coarse : Array Nat) : Prop :=
  ∀ u < n, ∀ v < n, Assignment.of fine u = Assignment.of fine v →
    Assignment.of coarse u = Assignment.of coarse v

namespace Search

variable {σ α : Type} [Scalar α] {G : Graph α} {plan : Plan σ α}
  {start state moved recorded : State α} {count : Nat} {merged : Nat → Nat} {fine coarse : Array Nat}

def KeepsTogether (state moved : State α) : Prop :=
  ∀ a < state.level.graph.nodeCount, ∀ b < state.level.graph.nodeCount,
    state.level.assignment.of a = state.level.assignment.of b →
      moved.level.assignment.of a = moved.level.assignment.of b

section Roots

omit [Scalar α]

theorem Rooted.part_onto (rooted : Rooted G state merged) (faithful : G.Faithful)
    (leads : state.hierarchy.Leads state.level.graph state.part) {a : Nat}
    (bound : a < state.level.graph.nodeCount) : ∃ id < G.nodeCount, state.part id = a := by
  obtain ⟨v, bounded, rfl⟩ := rooted.onto a bound
  have mapped : ∀ id < G.nodeCount, ∃ node, G.toMapped? id = some node := by
    intro id inside
    obtain ⟨node, -, found, -⟩ := rooted.exists_root faithful.located leads inside
    exact ⟨node, found⟩
  obtain ⟨id, inside, found⟩ := faithful.exists_id mapped bounded
  obtain ⟨w, -, same, part⟩ := rooted.exists_root faithful.located leads inside
  rw [found, Option.some_inj] at same
  subst same
  exact ⟨id, inside, part⟩

end Roots

theorem Reached.current (reached : Reached plan start state merged) (lawful : plan.sampler.Lawful)
    (faithful : G.Faithful) (rooted : Rooted G start id) (later : state.iteration ≠ start.iteration) :
    Current G state := by
  cases reached with
  | start => exact absurd rfl later
  | descended before descent =>
    -- What the iteration before recorded is the last level, and its way down kept the communities.
    have moved := (before.rooted lawful rooted).move descent.moves
    exact descent.current lawful (moved.held faithful.located (leads_of_record descent.records)) _

theorem Rooted.coarsens_iff (rooted : Rooted G state merged) (faithful : G.Faithful)
    (current : Current G state) (found : state.hierarchy.current? = some fine)
    (moves : Moves plan state count moved) (records : moved.record = .ok recorded)
    (last : recorded.hierarchy.current? = some coarse) :
    (∀ u < G.nodeCount, ∀ v < G.nodeCount, state.part u = state.part v →
      Assignment.of fine u = Assignment.of fine v ∧
        Assignment.of coarse u = Assignment.of coarse v) ∧
      (Coarsens G.nodeCount fine coarse ↔ KeepsTogether state moved) := by
  have leads := leads_of_record records
  have after := rooted.move moves
  obtain ⟨-, fineSame⟩ := current fine found
  obtain ⟨-, coarseSame⟩ := (after.held faithful.located leads).current_recorded records coarse last
  rw [record_ok records] at coarseSame
  obtain ⟨_, reached, -, -, rfl⟩ := moves.passed
  refine ⟨fun u boundU v boundV same => ⟨?_, ?_⟩, fun coarsens a boundA b boundB same => ?_,
    fun keeps u boundU v boundV same => ?_⟩
  · exact (fineSame u boundU v boundV).mpr (congrArg state.level.assignment.of same)
  · exact (coarseSame u boundU v boundV).mpr (congrArg reached.assignment.of same)
  · -- Every node of the level has a root node in it, so the two levels show what the moves did to it.
    obtain ⟨u, boundU, rfl⟩ := after.part_onto faithful leads boundA
    obtain ⟨v, boundV, rfl⟩ := after.part_onto faithful leads boundB
    have together := coarsens u boundU v boundV ((fineSame u boundU v boundV).mpr same)
    exact (coarseSame u boundU v boundV).mp together
  · apply (coarseSame u boundU v boundV).mpr
    have held := after.held faithful.located leads
    exact keeps _ (held.part_lt u boundU) _ (held.part_lt v boundV)
      ((fineSame u boundU v boundV).mp same)

end Search

namespace Problem

variable {σ α : Type} [Scalar α] {G : Graph α} {config : Config α} {problem : Problem α}
  {sampler : Sampler σ α} {watch : Watch α} {result : Result α} {dendrogram : Dendrogram} {i : Nat}
  {fine coarse : Array Nat}

/-- Two levels in a row come from the start and the moves of one iteration. They keep its nodes
together, and the second is coarser exactly if the moves keep its communities together. -/
theorem levels_coarsen_iff (closed : G.Closed) (faithful : G.Faithful)
    (posed : Posed G config problem) (lawful : sampler.Lawful)
    (ok : (problem.run sampler watch).1 = .ok result) (kept : result.dendrogram = some dendrogram)
    (first : dendrogram.levels[i]? = some fine) (second : dendrogram.levels[i + 1]? = some coarse) :
    ∃ plan state merged count moved, problem.Enters sampler plan state merged ∧
      state.iteration = i + 1 ∧ Search.Moves plan state count moved ∧
      (∀ u < G.nodeCount, ∀ v < G.nodeCount, state.part u = state.part v →
        Assignment.of fine u = Assignment.of fine v ∧
          Assignment.of coarse u = Assignment.of coarse v) ∧
      (Coarsens G.nodeCount fine coarse ↔ Search.KeepsTogether state moved) := by
  obtain ⟨assignment, seeding, resolved, ⟨reached, iteration, found, moves, records, last⟩⟩ :=
    exists_succeeds ok kept first second
  have enters : problem.Enters sampler _ _ _ := ⟨assignment, seeding, resolved, rfl, reached⟩
  have rooted := enters.rooted posed.fits closed lawful
  have current := reached.current lawful faithful (posed.fits.rooted_begin closed resolved _)
    (by rw [iteration]; nofun)
  exact ⟨_, _, _, _, _, enters, iteration, moves,
    rooted.coarsens_iff faithful current found moves records last⟩

/-- On the star the moves of the second iteration take a community apart, so its levels do not
coarsen. -/
theorem levels_coarsen_iff_star :
    ¬Coarsens (star ℚ).graph.nodeCount #[0, 0, 0, 3] #[3, 0, 0, 3] ∧
      ∃ plan state merged count moved, (star ℚ).Enters (Sampler.steady ℚ) plan state merged ∧
        state.iteration = 1 ∧ Search.Moves plan state count moved ∧
        ¬Search.KeepsTogether state moved := by
  have apart : ¬Coarsens (star ℚ).graph.nodeCount #[0, 0, 0, 3] #[3, 0, 0, 3] := by
    intro coarsens
    have together := coarsens 0 (by decide +kernel) 1 (by decide +kernel) rfl
    exact absurd together (by decide)
  have given := fromEdges_star (α := ℚ) (by decide +kernel)
  have first : #[#[0, 0, 0, 3], #[3, 0, 0, 3]][0]? = some #[0, 0, 0, 3] := rfl
  have second : #[#[0, 0, 0, 3], #[3, 0, 0, 3]][0 + 1]? = some #[3, 0, 0, 3] := rfl
  obtain ⟨plan, state, merged, count, moved, enters, iteration, moves, -, coarsens⟩ :=
    levels_coarsen_iff given.closed (Graph.faithful_of_untranslated rfl)
      (posed_star (by decide +kernel)) (Sampler.lawful_steady ℚ) run_star rfl first second
  exact ⟨apart, plan, state, merged, count, moved, enters, iteration, moves,
    fun keeps => apart (coarsens.mpr keeps)⟩

end Problem

end CommunityDetection
