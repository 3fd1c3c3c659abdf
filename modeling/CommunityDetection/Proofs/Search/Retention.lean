import CommunityDetection.Proofs.Progress.Events
import CommunityDetection.Proofs.Search.Bookkeeping
import CommunityDetection.Proofs.Search.Contest
import CommunityDetection.Proofs.Search.View
import CommunityDetection.Proofs.Search.Workers

/-!
# Searches that keep their levels

Whether a search keeps all levels or only the last is never read while it runs. A search that keeps none but
the last is the other one seen through `State.lastOnly`, so under the same schedule it reports the same events
and ends with the same result but for the dendrogram (`levels_observational`).
-/

namespace CommunityDetection

variable {σ α : Type}

def Hierarchy.lastOnly (hierarchy : Hierarchy) : Hierarchy :=
  { hierarchy with keepAll := false, levels := hierarchy.current?.toArray }

def Result.withoutLevels (result : Result α) : Result α := { result with dendrogram := none }

def Config.keeping (config : Config α) (keepLevels : Bool) : Config α := { config with keepLevels }

def Problem.keeping (problem : Problem α) (keepLevels : Bool) : Problem α :=
  { problem with config := problem.config.keeping keepLevels }

namespace Hierarchy

variable {G : Graph α}

@[simp] theorem current?_lastOnly (hierarchy : Hierarchy) :
    hierarchy.lastOnly.current? = hierarchy.current? := by
  unfold lastOnly
  cases last : hierarchy.current? <;> rfl

theorem lastOnly_push (hierarchy : Hierarchy) (level : Array Nat) :
    (hierarchy.push level).lastOnly = hierarchy.lastOnly.push level := by
  rw [lastOnly, current?_push]
  rfl

theorem record_lastOnly (hierarchy : Hierarchy) (G : Graph α) (assignment : Assignment)
    (seeding : Seeding) :
    hierarchy.lastOnly.record G assignment seeding =
      (hierarchy.record G assignment seeding).map lastOnly := by
  have chain : hierarchy.lastOnly.translate G = hierarchy.translate G := rfl
  unfold record
  rw [chain]
  cases hierarchy.translate G fun node => seeding.outputId (assignment.of node) with
  | error failure => rfl
  | ok level => exact congrArg Except.ok (lastOnly_push hierarchy level).symm

theorem descend_lastOnly (hierarchy : Hierarchy) (G : Graph α) (classes : Assignment) :
    hierarchy.lastOnly.descend G classes = (hierarchy.descend G classes).map lastOnly := by
  have chain : hierarchy.lastOnly.translate G = hierarchy.translate G := rfl
  unfold descend
  rw [chain]
  cases hierarchy.translate G classes.of <;> rfl

end Hierarchy

theorem Session.matches_ofExcept_map {β γ : Type} (given : Except (Error α) β) (f : β → γ) :
    (Session.ofExcept given).Matches (fun first second => second = f first)
      (Session.ofExcept (given.map f)) := by
  cases given with
  | error failure => exact matches_throw failure
  | ok value => exact matches_ofExcept rfl

namespace Search

open Session

def State.lastOnly (state : State α) : State α := { state with hierarchy := state.hierarchy.lastOnly }

theorem record_lastOnly (state : State α) : state.lastOnly.record = state.record.map State.lastOnly := by
  have same : state.lastOnly.hierarchy.record state.lastOnly.level.graph
      state.lastOnly.level.assignment state.lastOnly.seeding =
        (state.hierarchy.record state.level.graph state.level.assignment state.seeding).map
          Hierarchy.lastOnly := Hierarchy.record_lastOnly _ _ _ _
  unfold State.record
  rw [same]
  cases state.hierarchy.record state.level.graph state.level.assignment state.seeding <;> rfl

variable [Scalar α]

theorem descend_lastOnly (plan : Plan σ α) (state : State α) :
    (descend plan state).Matches (fun first second => second = first.lastOnly)
      (descend plan state.lastOnly) := by
  have below : state.lastOnly.hierarchy.descend state.lastOnly.level.graph
      (refined plan state.lastOnly).parts =
        (state.hierarchy.descend state.level.graph (refined plan state).parts).map Hierarchy.lastOnly :=
    Hierarchy.descend_lastOnly _ _ _
  have refines : (refine plan state).Matches (fun first second => second = (first.1.lastOnly, first.2))
      (refine plan state.lastOnly) := by
    rw [refine_eq, refine_eq, below]
    refine Matches.stage (matches_bind_same fun _ _ => ?_) _
    refine (matches_ofExcept_map _ _).bind ?_
    rintro hierarchy _ rfl - -
    exact matches_pure rfl
  refine refines.bind ?_
  rintro ⟨hierarchy, parts⟩ _ rfl - -
  refine Matches.stage (matches_bind_same fun _ _ => matches_bind_same fun _ _ => matches_pure ?_) _
  rfl

theorem commutes_lastOnly (plan : Plan σ α) : Commutes plan State.lastOnly where
  alike _ := ⟨rfl, rfl, rfl⟩
  moved _ _ := rfl
  complete _ _ := rfl
  record state := record_lastOnly state ▸ matches_ofExcept_map _ _
  descend := descend_lastOnly plan

omit [Scalar α] in
theorem result_lastOnly (ending : Ending α) (n : Nat) :
    (ending.through State.lastOnly).result n = (ending.result n).withoutLevels := by
  have current := Hierarchy.current?_lastOnly ending.state.hierarchy
  unfold Ending.result
  cases seeds : ending.ofSeeds with
  | some modularity => simp [Ending.through, State.lastOnly, seeds, Result.withoutLevels]
  | none =>
    simp only [Ending.through, State.lastOnly, seeds, Result.withoutLevels, current]
    rfl

def Plan.keeping (plan : Plan σ α) (keepLevels : Bool) : Plan σ α :=
  { plan with config := plan.config.keeping keepLevels }

theorem Plan.agrees_keeping (plan : Plan σ α) (keepLevels : Bool) (n : Nat) :
    plan.Agrees (plan.keeping keepLevels) n where
  runs state start _ := congrArg (LocalMove.run · start) (by rfl)
  modularity _ _ := rfl
  refined _ := rfl
  tolerance := rfl

end Search

namespace Problem

open Session

variable [Scalar α]

def search (problem : Problem α) (sampler : Sampler σ α) : Session α (Search.Ending α) := do
  let (state, scale) ← problem.setUp sampler.schedule.additions
  Search.iterate { config := problem.config, scale, sampler } problem.config.maxLevels state

theorem search_keeping (problem : Problem α) (sampler : Sampler σ α) :
    ((problem.keeping true).search sampler).Matches
      (fun first second => second = first.through Search.State.lastOnly)
      ((problem.keeping false).search sampler) := by
  have setsUp : ((problem.keeping true).setUp sampler.schedule.additions).Matches
      (fun first second => second = (first.1.lastOnly, first.2))
      ((problem.keeping false).setUp sampler.schedule.additions) := by
    refine Matches.stage (matches_bind_same fun _ _ => matches_bind_same fun _ _ => matches_pure ?_) _
    rfl
  refine setsUp.bind ?_
  rintro ⟨state, scale⟩ _ rfl - -
  have runs := (Search.commutes_lastOnly ⟨problem.config, scale, sampler⟩).iterate_matches
    problem.config.maxLevels state
  have plans (keepLevels : Bool) (state : Search.State α) := (Search.Plan.agrees_keeping
    ⟨problem.config, scale, sampler⟩ keepLevels _).iterate_eq (le_refl state.level.graph.nodeCount)
      problem.config.maxLevels
  rw [← plans true, ← plans false] at runs
  exact runs

theorem solve_eq_search (problem : Problem α) (sampler : Sampler σ α) :
    problem.solve sampler = problem.search sampler >>= fun ending =>
      Session.note (.stopped ending.state.iteration ending.terminalState
        ending.state.hierarchy.levelCount) >>= fun _ => pure (ending.result problem.graph.nodeCount) := by
  unfold search
  rw [bind_assoc]
  rfl

theorem run_keeping (problem : Problem α) (sampler : Sampler σ α) (watch : Watch α) :
    ((problem.keeping false).run sampler watch).1 =
        ((problem.keeping true).run sampler watch).1.map Result.withoutLevels ∧
      ((problem.keeping false).run sampler watch).2.filterMap Entry.event? =
        ((problem.keeping true).run sampler watch).2.filterMap Entry.event? := by
  have agree := search_keeping problem sampler watch
    ((Journal.start watch).report watch (.begins .leiden))
  unfold run
  rw [events_run, events_run, solve_eq_search, solve_eq_search]
  unfold Session.run
  dsimp only
  rw [bind_apply, bind_apply]
  generalize (problem.keeping true).search sampler watch _ = kept,
    (problem.keeping false).search sampler watch _ = last at agree
  cases agree with
  | error => exact ⟨rfl, rfl⟩
  | ok same =>
    subst same
    exact ⟨congrArg Except.ok (Search.result_lastOnly _ _), rfl⟩

theorem carries_keeping (G : Graph α) (config : Config α) (keepLevels : Bool) :
    Carries (keeping · keepLevels) G G config (config.keeping keepLevels) :=
  ⟨fun _ => rfl, rfl, rfl, rfl, rfl, rfl⟩

end Problem

end CommunityDetection
