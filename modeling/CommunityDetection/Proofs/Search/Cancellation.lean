import CommunityDetection.Proofs.Progress.Signals
import CommunityDetection.Proofs.Search.Rooted

/-!
# Stopping a search

All stages below an iteration look at the signal before their first item of work, and on a graph with nodes
every level has work. So a search stops at the first of them that begins with the signal raised, and where it
is not stopped its stages are nested (`signals_heeded`).
-/

namespace CommunityDetection

namespace Search

open Session

variable {σ α : Type} [Scalar α] {G : Graph α} {plan : Plan σ α} {watch : Watch α} {opened : List Stage}
  {further : Bool} {left : Nat} {start state : State α} {merged : Nat → Nat} {count : Nat}

omit [Scalar α] in
theorem Rooted.nodeCount_ne_zero (rooted : Rooted G state merged) (nodes : G.nodeCount ≠ 0) :
    state.level.graph.nodeCount ≠ 0 :=
  Nat.ne_zero_of_lt (rooted.maps 0 (Nat.pos_of_ne_zero nodes))

theorem moveNodes_heeds (ready : state.level.Ready) (nonempty : state.level.graph.nodeCount ≠ 0) :
    (moveNodes plan state).Heeds watch opened opened := by
  obtain ⟨start, starts, -⟩ := ready.exists_moveStart
  unfold moveNodes
  dsimp only
  rw [starts]
  refine heeds_stage nonempty ((heeds_forM fun _ => heeds_note _).bind fun _ _ => ?_)
  split
  · exact heeds_throw _
  · exact heeds_pure _

theorem measureNeeded_heeds (nonempty : state.level.graph.nodeCount ≠ 0) :
    (measureNeeded plan state count).Heeds watch opened opened := by
  unfold measureNeeded
  split
  · exact (heeds_stage nonempty (heeds_pure _)).map _
  · exact heeds_pure _

theorem survey_heeds (rooted : Rooted G state merged) (nodes : G.nodeCount ≠ 0) :
    (survey plan state).Heeds watch opened (.iteration :: opened) := by
  refine (heeds_report (Event.opens_begins _ _) ?_).bind fun _ _ => ?_
  · rintro stage ⟨⟩ guarded
    exact guarded.2 rfl
  · refine (moveNodes_heeds rooted.ready (rooted.nodeCount_ne_zero nodes)).bind fun found moves => ?_
    have moved := rooted.move (moveNodes_gives moves)
    exact (measureNeeded_heeds (moved.nodeCount_ne_zero nodes)).bind fun _ _ => heeds_pure _

theorem descend_heeds (nonempty : state.level.graph.nodeCount ≠ 0) :
    (descend plan state).Heeds watch opened opened :=
  (heeds_stage nonempty ((heeds_ofExcept _).bind fun _ _ => heeds_pure _)).bind fun _ _ =>
    heeds_stage nonempty ((heeds_note _).bind fun _ _ => heeds_pure _)

theorem weigh_heeds (nonempty : state.level.graph.nodeCount ≠ 0) (measured : Option α) :
    (weigh plan further (state, count, measured)).Heeds watch (.iteration :: opened) opened := by
  unfold weigh
  dsimp only
  split
  · exact (heeds_ends _).bind fun _ _ => heeds_pure _
  · split
    · exact (heeds_note _).bind fun _ _ => (heeds_ends _).bind fun _ _ => heeds_pure _
    · exact (heeds_ofExcept _).bind fun _ _ => (heeds_ends _).bind fun _ _ => heeds_pure _
    · refine (heeds_ofExcept _).bind fun recorded records => ?_
      refine Heeds.bind ?_ fun _ _ => (heeds_ends _).bind fun _ _ => heeds_pure _
      have same := record_ok records.ofExcept
      cases further with
      | false => exact heeds_pure _
      | true => exact descend_heeds (same ▸ nonempty)

theorem step_heeds (rooted : Rooted G state merged) (nodes : G.nodeCount ≠ 0) :
    (step plan further state).Heeds watch opened opened := by
  rw [step_eq]
  refine (survey_heeds rooted nodes).bind fun found surveys => ?_
  have moved := rooted.move (survey_gives surveys).1
  exact (heeds_report (Event.opens_summary _ _ _ _ _) nofun).bind fun _ _ =>
    weigh_heeds (moved.nodeCount_ne_zero nodes) found.2.2

theorem Reached.iterate_heeds (reached : Reached plan start state merged) (lawful : plan.sampler.Lawful)
    (rooted : Rooted G start id) (nodes : G.nodeCount ≠ 0) :
    (iterate plan left state).Heeds watch opened opened := by
  induction left generalizing state merged with
  | zero => exact heeds_pure _
  | succ left ih =>
    refine (step_heeds (reached.rooted lawful rooted) nodes).bind fun outcome steps => ?_
    cases outcome with
    | ended ending => exact heeds_pure _
    | completed next =>
      cases left with
      | zero => exact heeds_pure _
      | succ left =>
        obtain ⟨merged, reached⟩ := reached.step (step_gives steps)
        exact ih reached

end Search

namespace Problem

open Session

variable {σ α : Type} [Scalar α] {G : Graph α} {config : Config α} {problem : Problem α}
  {sampler : Sampler σ α} {watch : Watch α}

theorem solve_heeds (closed : G.Closed) (posed : Posed G config problem) (lawful : sampler.Lawful)
    (nodes : G.nodeCount ≠ 0) : (problem.solve sampler).Heeds watch [.leiden] [.leiden] := by
  have fits := posed.fits
  obtain ⟨assignment, seeding, resolved⟩ := posed.exists_resolve
  have sets : (problem.setUp sampler.schedule.additions).Heeds watch [.leiden] [.leiden] := by
    rw [setUp_eq resolved]
    exact heeds_stage (fits.graph ▸ nodes) (heeds_pure _)
  refine sets.bind fun ⟨start, scale⟩ gives => ?_
  obtain ⟨assignment, seeding, resolved, rfl, rfl⟩ := setUp_gives gives
  have rooted := fits.rooted_begin closed resolved sampler.schedule.additions
  exact (Search.Reached.start.iterate_heeds lawful rooted nodes).bind fun _ _ =>
    (heeds_note _).bind fun _ _ => heeds_pure _

/-- A stage that looks at the signal and begins with the signal raised ends the search: the search is
cancelled, and nothing but its own end is reported after that beginning. Wherever the search returns a result
every beginning has its end, and the stages are nested. -/
theorem signals_heeded (closed : G.Closed) (posed : Posed G config problem) (lawful : sampler.Lawful)
    (nodes : G.nodeCount ≠ 0) (watch : Watch α) :
    let search := problem.run sampler watch
    let events := search.2.filterMap Entry.event?
    (∀ before stage, before ++ [.begins stage] <+: events → stage.Guarded →
      watch.Raises (before ++ [.begins stage]) →
        search.1 = .error .cancelled ∧ events = before ++ [.begins stage, .ends .leiden]) ∧
    ∀ result, search.1 = .ok result → Event.Nested events := by
  have heeds : (problem.solve sampler).Heeds watch [.leiden] [.leiden] :=
    solve_heeds closed posed lawful nodes
  exact ⟨fun before stage => heeds.stops, fun result => heeds.nested⟩

def afterModularity : Watch ℚ := fun events => events.head? = some (.ends .modularity)

def untilModularity : List (Event ℚ) :=
  [.begins .leiden, .begins .initialization, .ends .initialization, .begins .iteration,
    .begins .localMove, .ends .localMove, .begins .modularity, .ends .modularity]

theorem signals_heeded_star :
    ((star ℚ).run (Sampler.steady ℚ) afterModularity).1 = .error .cancelled ∧
      Event.Nested (((star ℚ).run (Sampler.steady ℚ) fun _ => false).2.filterMap Entry.event?) := by
  have given := fromEdges_star (α := ℚ) (by decide +kernel)
  have heeded := signals_heeded given.closed (posed_star (by decide +kernel))
    (Sampler.lawful_steady ℚ) (by decide +kernel)
  have raises : afterModularity.Raises (untilModularity ++ [.summary 0 2 2 (-47 / 100), .begins .refinement]) :=
    ⟨untilModularity, List.prefix_append _ _, by decide +kernel⟩
  refine ⟨?_, (heeded fun _ => false).2 _ run_star⟩
  exact ((heeded afterModularity).1 (untilModularity ++ [.summary 0 2 2 (-47 / 100)]) .refinement
    (by decide +kernel) ⟨by decide, by decide⟩ raises).1

end Problem

end CommunityDetection
