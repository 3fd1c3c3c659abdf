import CommunityDetection.Proofs.Graph.Build
import CommunityDetection.Proofs.Sampler
import CommunityDetection.Proofs.Search.State

/-!
# Problems over graphs built from edges

A posed problem keeps its graph and its configuration and has one seed for each node, if it has
seeds. On a graph whose nodes keep their ids its search starts anchored (`Fits.anchored`).
-/

namespace CommunityDetection.Problem

variable {α : Type} [Scalar α]

/-- The problems posed for a graph: with the seeds of a property, with given seeds, or without. -/
inductive Posed (G : Graph α) (config : Config α) : Problem α → Prop
  | pose {problem : Problem α} (accepted : Problem.pose G config = .ok problem) :
      Posed G config problem
  | withSeeds {problem reseeded : Problem α} {seeds : Array (Option Nat)}
      (posed : Posed G config problem) (accepted : problem.withSeeds seeds = .ok reseeded) :
      Posed G config reseeded

variable {G : Graph α} {config : Config α} {problem : Problem α} {assignment : Assignment}
  {seeding : Seeding} {additions : List Nat}

theorem posed_of_valid (valid : problem.config.fault?.isNone = true)
    (undirected : problem.graph.orientation = .undirected)
    (unnamed : problem.config.seedProperty = none) (unseeded : problem.seeds = none) :
    Posed problem.graph problem.config problem := by
  refine .pose ?_
  obtain ⟨graph, config, seeds⟩ := problem
  dsimp only at valid undirected unnamed unseeded
  subst unseeded
  simp only [Problem.pose, Config.validate, Option.isNone_iff_eq_none.mp valid, undirected, unnamed]
  rfl

omit [Scalar α] in
theorem size_of_checkSeeds {seeds : Array (Option Nat)} (accepted : checkSeeds G seeds = .ok ()) :
    seeds.size = G.nodeCount := by
  unfold checkSeeds at accepted
  by_cases size : seeds.size = G.nodeCount
  · exact size
  · simp only [ne_eq, size, not_false_eq_true, if_true] at accepted
    cases accepted

structure Fits (G : Graph α) (config : Config α) (problem : Problem α) : Prop where
  valid : config.fault? = none
  graph : problem.graph = G
  config : problem.config = config
  undirected : G.orientation = .undirected
  sized : ∀ seeds, problem.seeds = some seeds → seeds.size = G.nodeCount

theorem pose_ok (accepted : Problem.pose G config = .ok problem) :
    config.fault? = none ∧ G.orientation = .undirected ∧ problem.graph = G ∧
      problem.config = config ∧ ∀ seeds, problem.seeds = some seeds → checkSeeds G seeds = .ok () := by
  unfold Problem.pose Config.validate at accepted
  cases valid : config.fault? with
  | some fault =>
    rw [valid] at accepted
    cases accepted
  | none =>
    rw [valid] at accepted
    by_cases undirected : G.orientation = .undirected
    · simp only [ne_eq, undirected, not_true_eq_false, if_false] at accepted
      cases named : config.seedProperty with
      | none =>
        rw [named] at accepted
        cases accepted
        exact ⟨rfl, undirected, rfl, rfl, fun _ given => nomatch given⟩
      | some name =>
        rw [named] at accepted
        dsimp only at accepted
        cases found : G.property? name with
        | none =>
          rw [found] at accepted
          cases accepted
        | some seeds =>
          rw [found] at accepted
          cases checked : checkSeeds G seeds with
          | error fault =>
            simp only [checked] at accepted
            cases accepted
          | ok =>
            simp only [checked] at accepted
            cases accepted
            refine ⟨rfl, undirected, rfl, rfl, fun given equal => ?_⟩
            cases equal
            exact checked
    · simp only [ne_eq, undirected, not_false_eq_true, if_true] at accepted
      cases accepted

omit [Scalar α] in
theorem withSeeds_ok {reseeded : Problem α} {seeds : Array (Option Nat)}
    (accepted : problem.withSeeds seeds = .ok reseeded) :
    checkSeeds problem.graph seeds = .ok () ∧ reseeded = { problem with seeds := some seeds } := by
  unfold Problem.withSeeds at accepted
  cases checked : checkSeeds problem.graph seeds with
  | error fault =>
    rw [checked] at accepted
    cases accepted
  | ok =>
    rw [checked] at accepted
    cases accepted
    exact ⟨rfl, rfl⟩

omit [Scalar α] in
theorem withSeeds_map (f : Problem α → Problem α)
    (nodeCount : (f problem).graph.nodeCount = problem.graph.nodeCount)
    (seeded : ∀ seeds, f { problem with seeds } = { f problem with seeds }) (seeds : Array (Option Nat)) :
    (f problem).withSeeds seeds = (problem.withSeeds seeds).map f := by
  have checks : checkSeeds (f problem).graph seeds = checkSeeds problem.graph seeds := by
    simp only [checkSeeds, nodeCount]
  unfold withSeeds
  rw [checks]
  cases checkSeeds problem.graph seeds with
  | error fault => rfl
  | ok => exact congrArg Except.ok (seeded (some seeds)).symm

theorem Posed.fits (posed : Posed G config problem) : Fits G config problem := by
  induction posed with
  | pose accepted =>
    obtain ⟨valid, undirected, graph, config, checked⟩ := pose_ok accepted
    exact ⟨valid, graph, config, undirected,
      fun seeds given => size_of_checkSeeds (checked seeds given)⟩
  | withSeeds _ accepted ih =>
    obtain ⟨checked, rfl⟩ := withSeeds_ok accepted
    refine ⟨ih.valid, ih.graph, ih.config, ih.undirected, fun given equal => ?_⟩
    cases equal
    rw [← ih.graph]
    exact size_of_checkSeeds checked

omit [Scalar α] in
theorem exists_resolve_of_checkSeeds {seeds : Array (Option Nat)}
    (checked : checkSeeds G seeds = .ok ()) : ∃ assignment seeding,
      Seeding.resolve (α := α) G.nodeCount (some seeds) = .ok (assignment, seeding) := by
  have size := size_of_checkSeeds checked
  unfold checkSeeds at checked
  simp only [size, ne_eq, not_true_eq_false, if_false] at checked
  cases accepted : Seeding.unlabelledOffset (α := α) seeds.toList with
  | error fault =>
    rw [accepted] at checked
    cases checked
  | ok offset =>
    simp only [Seeding.resolve, accepted]
    exact ⟨_, _, rfl⟩

theorem Posed.exists_resolve (posed : Posed G config problem) :
    ∃ assignment seeding,
      Seeding.resolve (α := α) problem.graph.nodeCount problem.seeds = .ok (assignment, seeding) := by
  have checked : ∀ seeds, problem.seeds = some seeds → checkSeeds problem.graph seeds = .ok () := by
    cases posed with
    | pose accepted =>
      obtain ⟨-, -, rfl, -, checked⟩ := pose_ok accepted
      exact checked
    | withSeeds _ accepted =>
      obtain ⟨checked, rfl⟩ := withSeeds_ok accepted
      rintro seeds ⟨⟩
      exact checked
  cases given : problem.seeds with
  | none => exact ⟨_, _, rfl⟩
  | some seeds => exact exists_resolve_of_checkSeeds (checked seeds given)

theorem Fits.limit (fits : Fits G config problem) : ∃ left, problem.config.maxLevels = left + 1 := by
  have valid := fits.valid
  rw [← fits.config] at valid
  cases levels : problem.config.maxLevels with
  | zero =>
    rw [Config.fault?, if_pos (by omega)] at valid
    cases valid
  | succ left => exact ⟨left, rfl⟩

theorem Fits.gamma_pos (fits : Fits G config problem) : 0 < config.gamma := by
  have valid := fits.valid
  unfold Config.fault? at valid
  split at valid
  · cases valid
  · split at valid
    · cases valid
    · rename_i accepted
      exact (not_not.mp accepted).1

theorem Fits.within (fits : Fits G config problem)
    (resolved : Seeding.resolve (α := α) problem.graph.nodeCount problem.seeds =
      .ok (assignment, seeding)) :
    assignment.Within G.nodeCount ∧ seeding.Separates assignment G.nodeCount := by
  rw [fits.graph] at resolved
  exact Seeding.separates_resolve resolved fits.sized

theorem Fits.anchored_of_keepsIds (fits : Fits G config problem) (closed : G.Closed)
    (comm : ∀ {u v}, G.Adjacent u v → G.Adjacent v u) (kept : G.KeepsIds)
    (resolved : Seeding.resolve (α := α) problem.graph.nodeCount problem.seeds =
      .ok (assignment, seeding)) (additions : List Nat) :
    Search.Anchored G (problem.begin assignment seeding additions) ∧
      ∀ v < G.nodeCount, (problem.begin assignment seeding additions).part v = v := by
  obtain ⟨within, separates⟩ := fits.within resolved
  have graph := fits.graph
  subst graph
  exact Search.anchored_begin closed comm kept within separates

theorem Fits.anchored (fits : Fits G config problem) (closed : G.Closed)
    (comm : ∀ {u v}, G.Adjacent u v → G.Adjacent v u) (untranslated : G.translation = none)
    (resolved : Seeding.resolve (α := α) problem.graph.nodeCount problem.seeds =
      .ok (assignment, seeding)) (additions : List Nat) :
    Search.Anchored G (problem.begin assignment seeding additions) ∧
      ∀ v < G.nodeCount, (problem.begin assignment seeding additions).part v = v :=
  fits.anchored_of_keepsIds closed comm (Graph.keepsIds_of_untranslated untranslated) resolved additions

/-! ## Finding communities -/

theorem findCommunities_ok {G : Graph Float} {config : Config Float} {problem : Problem Float}
    (posed : pose G config = .ok problem) (entropy : BitVec 64) (schedule : Schedule) :
    findCommunities G config entropy schedule =
      (problem.run (problem.sampler entropy schedule) fun _ => false).1 := by
  rw [findCommunities, posed]
  exact pure_bind problem _

theorem findCommunities_error {G : Graph Float} {config : Config Float} {fault : Error Float}
    (refused : pose G config = .error fault) (entropy : BitVec 64) (schedule : Schedule) :
    findCommunities G config entropy schedule = .error fault := by
  rw [findCommunities, refused]
  rfl

/-! ## Problems that are posed alike -/

structure Carries (f : Problem α → Problem α) (G H : Graph α) (config other : Config α) : Prop where
  shape (seeds : Option (Array (Option Nat))) : f ⟨G, config, seeds⟩ = ⟨H, other, seeds⟩
  fault : other.fault? = config.fault?
  seedProperty : other.seedProperty = config.seedProperty
  orientation : H.orientation = G.orientation
  nodeCount : H.nodeCount = G.nodeCount
  properties : H.properties = G.properties

section Carries

variable {f : Problem α → Problem α} {H : Graph α} {other : Config α}

theorem Carries.checkSeeds (carries : Carries f G H config other) (seeds : Array (Option Nat)) :
    checkSeeds H seeds = checkSeeds G seeds := by
  simp only [Problem.checkSeeds, carries.nodeCount]

theorem Carries.pose (carries : Carries f G H config other) :
    Problem.pose H other = (Problem.pose G config).map f := by
  have named (name : String) : H.property? name = G.property? name := by
    simp only [Graph.property?, carries.properties]
  have posed (seeds : Option (Array (Option Nat))) :
      (Except.ok ⟨H, other, seeds⟩ : Except (Error α) (Problem α)) = .ok (f ⟨G, config, seeds⟩) :=
    congrArg Except.ok (carries.shape seeds).symm
  unfold Problem.pose Config.validate
  rw [carries.fault, carries.orientation, carries.seedProperty]
  cases config.fault? with
  | some fault => rfl
  | none =>
    by_cases undirected : G.orientation = .undirected
    · simp only [undirected, ne_eq, not_true_eq_false, if_false]
      cases config.seedProperty with
      | none => exact posed none
      | some name =>
        dsimp only
        rw [named]
        cases G.property? name with
        | none => rfl
        | some seeds =>
          dsimp only
          rw [carries.checkSeeds]
          cases Problem.checkSeeds G seeds with
          | error fault => rfl
          | ok => exact posed (some seeds)
    · simp only [undirected, ne_eq, not_false_eq_true, if_true]
      rfl

theorem Carries.posed (carries : Carries f G H config other) (posed : Posed G config problem) :
    Posed H other (f problem) := by
  induction posed with
  | pose accepted =>
    refine .pose ?_
    rw [carries.pose, accepted]
    rfl
  | @withSeeds problem reseeded seeds posed accepted ih =>
    obtain ⟨checked, rfl⟩ := withSeeds_ok accepted
    obtain ⟨graph, configured, given⟩ := problem
    obtain ⟨-, rfl, rfl, -, -⟩ := posed.fits
    rw [carries.shape] at ih ⊢
    exact .withSeeds ih (by rw [Problem.withSeeds, carries.checkSeeds, checked]; rfl)

end Carries

/-! ## Examples of problems -/

theorem Posed.seeded (posed : Posed G config problem) {seeds : Array (Option Nat)}
    (checked : checkSeeds problem.graph seeds = .ok ()) :
    Posed G config { problem with seeds := some seeds } := by
  have accepted : problem.withSeeds seeds = .ok { problem with seeds := some seeds } := by
    rw [Problem.withSeeds, checked]
    rfl
  exact .withSeeds posed accepted

def rays (α : Type) [Scalar α] : List (Edge α) := [⟨0, 1, 1⟩, ⟨0, 2, 1⟩, ⟨0, 3, ((3 : Nat) : α)⟩]

/-- A search whose moves first gather two light leaves at the centre and then take the centre away.
All merges in refinement have nearly the same chance. -/
def star (α : Type) [Scalar α] : Problem α where
  graph := ⟨.undirected, true, Graph.rowsOf 4 .undirected (rays α), none, []⟩
  config := { (Config.standard : Config α) with
    gamma := Scalar.ratio 3 2
    theta := Scalar.ratio (10 ^ 18) 1
    tolerance := 0
    keepLevels := true }
  seeds := none

theorem fromEdges_star (sound : ((rays α).findSome? (Edge.fault? 4)).isNone = true) :
    (star α).graph.FromEdges := Graph.fromEdges_of_sound sound

theorem posed_star (valid : (star α).config.fault?.isNone = true) :
    Posed (star α).graph (star α).config (star α) := posed_of_valid valid rfl rfl rfl

def starResult : Result ℚ where
  communities := #[3, 0, 0, 3]
  ranIterations := 2
  didConverge := true
  terminalState := .converged
  dendrogram := some ⟨#[#[0, 0, 0, 3], #[3, 0, 0, 3]]⟩
  modularities := [-47 / 100, -21 / 50]
  modularity := -21 / 50

theorem run_star : ((star ℚ).run (Sampler.steady ℚ) fun _ => false).1 = .ok starResult := by
  decide +kernel

end CommunityDetection.Problem
