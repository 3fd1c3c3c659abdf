import CommunityDetection.Proofs.LocalMove.Passes
import CommunityDetection.Proofs.Search.Failure
import CommunityDetection.Proofs.Search.Problem

/-!
# No root node is lost

From an anchored state no iteration fails because a root node leads to no node of its level, so no
search over a graph whose nodes keep their ids does (`Problem.run_keepsRoots`).
-/

namespace CommunityDetection

def Error.KeepsRoots {α : Type} : Error α → Prop
  | inconsistent (.rootLost ..) => False
  | _ => True

section Moves

variable {α : Type}

theorem LocalMove.keepsRoots_start {n tracked : Nat} {assignment : Assignment} {volumes : Cells α}
    {fault : Inconsistency α} (failed : LocalMove.start n assignment volumes tracked = .error fault) :
    (Error.inconsistent fault).KeepsRoots := by
  unfold LocalMove.start at failed
  split at failed
  · cases failed
    trivial
  · split at failed
    · cases failed
      trivial
    · dsimp only at failed
      split at failed
      · cases failed
      · cases failed
        trivial

variable [Scalar α]

theorem Volumes.keepsRoots_drift {volumes : Volumes α} {assignment : Assignment}
    {fault : Inconsistency α} (drifted : volumes.drift? assignment = some fault) :
    (Error.inconsistent fault).KeepsRoots := by
  rcases Option.or_eq_some_iff.mp drifted with stray | ⟨-, drifted⟩
  · obtain ⟨node, -, found⟩ := List.exists_of_findSome?_eq_some stray
    split at found
    · cases found
      trivial
    · cases found
  · obtain ⟨community, -, found⟩ := List.exists_of_findSome?_eq_some drifted
    dsimp only at found
    split at found
    · cases found
      trivial
    · cases found

theorem LocalMove.keepsRoots_run {setting : Setting α} {start : State α} {failure : Error α}
    (failed : (run setting start).failure? = some failure) : failure.KeepsRoots := by
  rcases run_fails failed with rfl | ⟨fault, rfl, active, state, -, drifted⟩
  · trivial
  · exact Volumes.keepsRoots_drift drifted

end Moves

namespace Search

variable {σ α : Type} {G : Graph α} {state moved recorded : State α} {failure : Error α}

theorem Anchored.record_ne_error (anchored : Anchored G moved) : moved.record ≠ .error failure := by
  rw [State.record, Hierarchy.record_of_leads anchored.leads]
  nofun

variable [Scalar α] {plan : Plan σ α}

theorem Anchored.keepsRoots (anchored : Anchored G state) (failed : Fails plan state failure) :
    failure.KeepsRoots := by
  cases failed with
  | cancelled => trivial
  | start failed => exact LocalMove.keepsRoots_start failed
  | moves _ failed => exact LocalMove.keepsRoots_run failed
  | record moves failed => exact absurd failed (anchored.move moves).record_ne_error
  | descend moves records failed =>
    have recorded := (anchored.move moves).record records
    rw [Hierarchy.descend_of_leads recorded.leads] at failed
    cases failed

end Search

namespace Problem

variable {σ α : Type} [Scalar α] {G : Graph α} {config : Config α} {problem : Problem α}
  {sampler : Sampler σ α} {watch : Watch α} {failure : Error α}

theorem run_keepsRoots (fits : Fits G config problem) (closed : G.Closed)
    (comm : ∀ {u v}, G.Adjacent u v → G.Adjacent v u) (untranslated : G.translation = none)
    (lawful : sampler.Lawful) (failed : (problem.run sampler watch).1 = .error failure) :
    failure.KeepsRoots := by
  cases run_error failed with
  | cancelled => trivial
  | seeds failed =>
    obtain ⟨fault, rfl⟩ := Seeding.resolve_error failed
    trivial
  | iteration enters failed =>
    obtain ⟨assignment, seeding, resolved, rfl, reached⟩ := enters
    have start := (fits.anchored closed comm untranslated resolved sampler.schedule.additions).1
    exact (reached.anchored closed lawful start).keepsRoots failed

end Problem

end CommunityDetection
