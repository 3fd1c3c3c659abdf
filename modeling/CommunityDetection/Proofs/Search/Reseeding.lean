import CommunityDetection.Proofs.Progress.Calm
import CommunityDetection.Proofs.Search.Contest
import CommunityDetection.Proofs.Search.FirstRecord
import CommunityDetection.Proofs.Search.OutputIds
import CommunityDetection.Proofs.Search.Relabelling
import CommunityDetection.Proofs.Search.Workers

/-!
# Labels are only names

Searches from seeds with injectively renamed labels have the same journal and the same outcome, but for
the output ids, which correspond. Seeds without any label lead to the communities of a search without
seeds, which does not measure the modularity if its first iteration settles (`labels_immaterial`). This
compares searches of a single worker, or of several under the same schedule.
-/

namespace CommunityDetection.Problem

open Session

variable {σ α : Type} [Scalar α] {G : Graph α} {config : Config α} {problem other : Problem α}
  {sampler : Sampler σ α} {watch : Watch α} {f : Nat → Nat} {seeds : Array (Option Nat)} {left : Nat}

/-- Two problems that differ in the labels of their seeds, or in whether they have seeds. -/
structure Reseeded (G : Graph α) (config : Config α) (f : Nat → Nat) (seeds : Array (Option Nat))
    (problem other : Problem α) : Prop where
  posed : Posed G config problem
  posedOther : Posed G config other
  given : problem.seeds = some seeds
  reseeds : Seeding.Reseeds f seeds other.seeds

theorem Reseeded.other_eq (reseeded : Reseeded G config f seeds problem other) :
    other = { problem with seeds := other.seeds } := by
  have fits := reseeded.posed.fits
  have fitsOther := reseeded.posedOther.fits
  rw [fits.graph, fits.config, ← fitsOther.graph, ← fitsOther.config]

theorem Reseeded.size (reseeded : Reseeded G config f seeds problem other) :
    seeds.size = problem.graph.nodeCount := by
  rw [reseeded.posed.fits.graph]
  exact reseeded.posed.fits.sized seeds reseeded.given

structure Begun (f : Nat → Nat) (seeds : Array (Option Nat)) (other : Problem α)
    (left right : Search.State α) : Prop where
  relabels : Search.Relabels f seeds.toList left right
  levels : left.hierarchy.levels = #[]
  iteration : left.iteration = 0
  seeded : left.seeding.isSeeded = true
  seededOther : right.seeding.isSeeded = other.seeds.isSome

theorem Reseeded.setUp_matches (reseeded : Reseeded G config f seeds problem other) (closed : G.Closed)
    (located : G.Located) (additions : List Nat) :
    (problem.setUp additions).Matches (fun first second => second.2 = first.2 ∧
      Begun f seeds other first.1 second.1) (other.setUp additions) := by
  have fits := reseeded.posed.fits
  obtain ⟨assignment, first, resolved⟩ := reseeded.posed.exists_resolve
  obtain ⟨start, second, resolvedOther⟩ := reseeded.posedOther.exists_resolve
  have rooted := fits.rooted_begin closed resolved additions
  have size := reseeded.size
  have length : seeds.toList.length = problem.graph.nodeCount := Array.length_toList.trans size
  have reseeds := reseeded.reseeds
  have same := reseeded.other_eq
  obtain rfl := fits.graph
  generalize other.seeds = given at same reseeds
  subst same
  rw [setUp_eq resolved, setUp_eq resolvedOther]
  rw [reseeded.given] at resolved
  obtain ⟨rfl, counts, seeded, seededOther, renamed⟩ :=
    Seeding.renamed_resolve reseeds size resolved resolvedOther
  refine Matches.stage (matches_bind_same fun _ _ =>
    matches_pure ⟨rfl, ?_, rfl, rfl, seeded, seededOther⟩) _
  refine ⟨?_, rfl, rfl, rfl, .nil, renamed, rooted.ready, located, length.ge, fun _ => length.symm⟩
  unfold begin
  dsimp only
  rw [counts]
  rfl

/-! ## The first moves -/

def moving (problem : Problem α) (sampler : Sampler σ α) :
    Session α (Search.Plan σ α × Search.State α × Nat) := do
  let (state, scale) ← problem.setUp sampler.schedule.additions
  Session.report (.begins .iteration)
  let (moved, count) ← Search.moveNodes ⟨problem.config, scale, sampler⟩ state
  return (⟨problem.config, scale, sampler⟩, moved, count)

variable {first second : Search.Plan σ α × Search.State α × Nat}

def shown (problem : Problem α) (moved : Search.State α) : Array Nat :=
  ((List.range problem.graph.nodeCount).map fun node =>
    moved.seeding.outputId (moved.level.assignment.of node)).toArray

def settle (problem : Problem α) (moved : Search.State α) (count : Nat) (measured : Option α) :
    Session α (Result α) := do
  Session.report (Search.summary (moved, count, measured))
  Session.report (.ends .iteration)
  problem.finish ⟨moved, true, .converged, measured⟩

end CommunityDetection.Problem
