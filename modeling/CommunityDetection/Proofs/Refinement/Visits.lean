import CommunityDetection.Proofs.Graph.Build
import CommunityDetection.Proofs.Refinement.Cuts
import CommunityDetection.Proofs.Sampler

/-!
# Refinement visit by visit

The states between two visits are those of `visited`. One leads to the next by a merge or stays as it is
(`visited_course`), so what merges keep holds between all visits (`visited_keeps`): parts are named by
members inside one community, a node that is not alone stays in its part, and in exact arithmetic the
volumes and cuts kept for the parts in use are the right ones.
-/

namespace CommunityDetection.Refinement
open Finset

section Discrete

variable {α σ : Type} [Scalar α] {setting : Setting α}

def visited (setting : Setting α) (sampler : Sampler σ α) (draws : σ) (count : Nat) : State α :=
  let order := sampler.order setting.graph.nodeCount draws
  (((order.1.take count).foldlM (visit setting sampler setting.innerWeights)
    (setting.start setting.innerWeights)) order.2).1

theorem run_eq_visited {sampler : Sampler σ α} (lawful : sampler.Lawful) (draws : σ) :
    (run setting sampler draws).1 = ⟨(visited setting sampler draws setting.graph.nodeCount).parts,
      (visited setting sampler draws setting.graph.nodeCount).volumes⟩ := by
  have length := (lawful.order_perm setting.graph.nodeCount draws).length_eq
  rw [List.length_range] at length
  have all : (sampler.order setting.graph.nodeCount draws).1.take setting.graph.nodeCount =
      (sampler.order setting.graph.nodeCount draws).1 := List.take_of_length_le length.le
  rw [visited, all]
  rfl

theorem visited_course {sampler : Sampler σ α} (lawful : sampler.Lawful) (draws : σ) {count later : Nat}
    (ordered : count ≤ later) :
    Course setting setting.innerWeights (visited setting sampler draws count)
      (visited setting sampler draws later) := by
  let order := sampler.order setting.graph.nodeCount draws
  have split : order.1.take later = order.1.take count ++ (order.1.take later).drop count := by
    conv_lhs => rw [← List.take_append_drop count (order.1.take later)]
    rw [List.take_take, Nat.min_eq_left ordered]
  have size : (visited setting sampler draws count).alone.size = setting.graph.nodeCount :=
    (foldlM_visit_course lawful (by simp [Setting.start]) _ .refl _).size_alone (by simp [Setting.start])
  change Course _ _ _ (((order.1.take later).foldlM (visit setting sampler setting.innerWeights)
    (setting.start setting.innerWeights)) order.2).1
  rw [split, List.foldlM_append]
  exact foldlM_visit_course lawful size _ .refl _

theorem Course.of_visited {sampler : Sampler σ α} (lawful : sampler.Lawful) (draws : σ) (count : Nat) :
    Course setting setting.innerWeights (setting.start setting.innerWeights)
      (visited setting sampler draws count) :=
  visited_course lawful draws (Nat.zero_le count)

theorem Course.of_eq {inner : Cells α} {start state : State α} (course : Course setting inner start state)
    {v : Nat} (joined : start.alone.getD v false = false) :
    state.parts.of v = start.parts.of v := by
  suffices both : state.alone.getD v false = false ∧ state.parts.of v = start.parts.of v from both.2
  induction course with
  | refl => exact ⟨joined, rfl⟩
  | @merge state node part before joins ih =>
    obtain ⟨stays, same⟩ := ih
    have ne : node ≠ v := by
      rintro rfl
      exact Bool.noConfusion (stays.symm.trans joins.alone)
    refine ⟨?_, (Assignment.of_assign_of_ne _ ne _).trans same⟩
    rw [Bool.eq_false_iff, ne_eq, getD_alone_merge]
    simp [stays]

end Discrete

/-- Between any two visits, whatever the numbers are: parts are named by members and lie inside
communities, a node is alone exactly if it is the only member of the part that it names, and one that is
not alone stays in its part. In exact arithmetic, with the same weights in both directions, each part in
use has the volume of its members and the weight from them to the rest of their community; a name that is
not in use has no volume. -/
theorem visited_keeps :
    (∀ {α σ : Type} [Scalar α] (setting : Setting α) (sampler : Sampler σ α) (draws : σ),
      sampler.Lawful → setting.graph.Closed →
      let n := setting.graph.nodeCount
      let state := visited setting sampler draws
      (run setting sampler draws).1 = ⟨(state n).parts, (state n).volumes⟩ ∧
      ∀ count, ∀ v < n,
        (state count).parts.of ((state count).parts.of v) = (state count).parts.of v ∧
        setting.assignment.of ((state count).parts.of v) = setting.assignment.of v ∧
        ((state count).alone.getD v false = true ↔
          ∀ u < n, (state count).parts.of u = v ↔ u = v) ∧
        ∀ later, count ≤ later → (state count).alone.getD v false = false →
          (state later).parts.of v = (state count).parts.of v) ∧
    ∀ {K σ : Type} [Field K] [LinearOrder K] (setting : Setting K) (sampler : Sampler σ K) (draws : σ),
      sampler.Lawful → setting.graph.Closed → setting.graph.Symmetric →
      setting.nodeVolumes.size = setting.graph.nodeCount →
      ∀ count name,
      let n := setting.graph.nodeCount
      let state := visited setting sampler draws count
      let members := state.parts.members n name
      (name ∈ state.parts.used n →
        state.volumes.read name = ∑ v ∈ members, setting.nodeVolumes.read v ∧
        state.cuts.read name =
          between setting.graph.weight members (setting.community name \ members)) ∧
      (name ∉ state.parts.used n → state.volumes.read name = 0) := by
  refine ⟨fun setting sampler draws lawful closed => ⟨run_eq_visited lawful draws, fun count v bound => ?_⟩,
    fun setting sampler draws lawful closed symmetric size count name => ?_⟩
  · have split := (Course.of_visited lawful draws count).split closed
    exact ⟨split.named v bound, split.inside v bound, split.alone v bound,
      fun later ordered joined => (visited_course lawful draws ordered).of_eq joined⟩
  · have course : Course setting setting.innerWeights (setting.start setting.innerWeights)
        (visited setting sampler draws count) := .of_visited lawful draws count
    have split := course.split closed
    have volumes := course.partVolumes closed size
    refine ⟨fun used => ⟨?_, (course.partCuts closed symmetric).sums name used⟩, fun unused => ?_⟩
    · obtain ⟨v, bound, rfl⟩ := Assignment.mem_used.mp used
      exact volumes.sums _ (split.within.bounded v bound)
    · by_cases bound : name < setting.graph.nodeCount
      · rw [volumes.sums name bound]
        refine sum_eq_zero fun v inV => absurd ?_ unused
        obtain ⟨bounded, same⟩ := Assignment.mem_members.mp inV
        exact Assignment.mem_used.mpr ⟨v, bounded, same⟩
      · simp [Cells.read, volumes.size, bound]

def loopedSetting : Setting ℚ :=
  let assignment : Assignment := #[0, 0, 0, 0]
  let volumes := Volumes.initial Graph.loopedPath assignment true 1
  ⟨Graph.loopedPath, assignment, volumes.nodes, volumes.communities, 1 / 8, 1⟩

theorem visited_keeps_loopedPath :
    let state := visited loopedSetting (Sampler.eager ℚ) ()
    (state 1).cuts.read 1 = between Graph.loopedPath.weight {0, 1} {2, 3} ∧
      (state 4).parts.of 0 = 1 := by
  intro state
  have closed : loopedSetting.graph.Closed := Graph.fromEdges_loopedPath.closed
  have nodes : loopedSetting.graph.nodeCount = 4 := by decide +kernel
  obtain ⟨discrete, exact⟩ := visited_keeps
  have kept := (discrete loopedSetting (Sampler.eager ℚ) () (Sampler.lawful_eager ℚ) closed).2 1 0
    (by decide +kernel)
  have sums := (exact loopedSetting (Sampler.eager ℚ) () (Sampler.lawful_eager ℚ) closed
    Graph.fromEdges_loopedPath.symmetric (by decide +kernel) 1 1).1 (by decide +kernel)
  have members : (state 1).parts.members loopedSetting.graph.nodeCount 1 = {0, 1} := by decide +kernel
  have others : loopedSetting.community 1 \ {0, 1} = {2, 3} := by decide +kernel
  refine ⟨?_, ?_⟩
  · rw [← others, ← members]
    exact sums.2
  · rw [kept.2.2.2 4 (by decide) (by decide +kernel)]
    decide +kernel

end CommunityDetection.Refinement
