import CommunityDetection.Proofs.LocalMove.Ascent
import CommunityDetection.Proofs.LocalMove.Passes
import CommunityDetection.Proofs.LocalMove.Sizes

/-!
# Sizes and volumes while workers take turns

Each access of a worker keeps the sizes of the communities in step with the nodes booked in them
(`keeps_booked`), and in exact arithmetic the volumes in step with the nodes charged to them
(`keeps_charged`). So after any passes, whatever their turns, the counts are right (`Passed.counted`) and
the volumes are the sums over the members (`Passed.sound`). Nodes only enter communities of neighbours
(`Passed.opened`).
-/

namespace CommunityDetection.LocalMove
open Finset

/-! ## Sums by label -/

section Labels

variable {M : Type} [AddCommMonoid M] {n node : Nat}

def labelled (n : Nat) (weight : Nat → M) (label : Nat → Option Nat) (community : Nat) : M :=
  ∑ v ∈ range n with label v = some community, weight v

theorem labelled_eq (bound : node < n) (weight : Nat → M) (label : Nat → Option Nat) (community : Nat) :
    labelled n weight label community = (if label node = some community then weight node else 0) +
      labelled n weight (Function.update label node none) community := by
  unfold labelled
  have blank : (if Function.update label node none node = some community then weight node else 0) = 0 := by
    rw [Function.update_self, if_neg (Option.some_ne_none _).symm]
  rw [sum_filter, sum_filter, ← add_sum_erase _ _ (mem_range.mpr bound),
    ← add_sum_erase (range n) (fun v => if Function.update label node none v = some community then _ else _)
      (mem_range.mpr bound), blank, zero_add]
  refine congrArg _ (sum_congr rfl fun v member => ?_)
  rw [Function.update_of_ne (ne_of_mem_erase member)]

theorem labelled_put (bound : node < n) (weight : Nat → M) {label : Nat → Option Nat}
    (free : label node = none) (community other : Nat) :
    labelled n weight (Function.update label node (some community)) other =
      (if community = other then weight node else 0) + labelled n weight label other := by
  rw [labelled_eq bound, Function.update_self, Function.update_idem, ← free, Function.update_eq_self]
  simp only [Option.some.injEq]

theorem labelled_of_eq {label : Nat → Option Nat} {communityOf : Nat → Nat}
    (same : ∀ v < n, label v = some (communityOf v)) (weight : Nat → M) (community : Nat) :
    labelled n weight label community = ∑ v ∈ range n with communityOf v = community, weight v := by
  refine sum_congr (filter_congr fun v member => ?_) fun _ _ => rfl
  rw [same v (mem_range.mp member), Option.some.injEq]

end Labels

/-! ## Sizes -/

theorem card_inUse_eq {n community : Nat} (inside : community < n) (sizes : Nat → Nat) :
    #{other ∈ range n | 0 < sizes other} =
      (if 0 < sizes community then 1 else 0) + #{other ∈ (range n).erase community | 0 < sizes other} := by
  rw [card_filter, card_filter, add_sum_erase _ (fun other => if 0 < sizes other then 1 else 0)
    (mem_range.mpr inside)]

variable {α : Type} {n : Nat} {standings : Nat → Standing} {state : State α} {node community : Nat}

/-- The sizes of the communities count the nodes booked in them. -/
structure Booked (n : Nat) (standings : Nat → Standing) (state : State α) : Prop where
  size : state.sizes.size = n
  inside : ∀ v < n, ∀ community, (standings v).booked = some community → community < n
  sizes : ∀ community < n,
    state.sizeOf community = labelled n (fun _ => 1) (Standing.booked ∘ standings) community
  occupied : state.occupied = #{community ∈ range n | 0 < state.sizeOf community}

theorem sizeOf_leave (state : State α) (community other : Nat) :
    (state.leave community).sizeOf other =
      if community = other ∧ community < state.sizes.size then state.sizeOf community - 1
      else state.sizeOf other :=
  getD_setIfInBounds _ _ _ _ _

theorem sizeOf_enter (state : State α) (community other : Nat) :
    (state.enter community).sizeOf other =
      if community = other ∧ community < state.sizes.size then state.sizeOf community + 1
      else state.sizeOf other :=
  getD_setIfInBounds _ _ _ _ _

/-- What leaves all sizes but one as they were. -/
theorem Booked.put (booked : Booked n standings state) {turned : Standing} {other : State α}
    (inside : community < n) (size : other.sizes.size = n)
    (within : ∀ held, turned.booked = some held → held < n)
    (sizes : ∀ held < n, other.sizeOf held =
      labelled n (fun _ => 1) (Function.update (Standing.booked ∘ standings) node turned.booked) held)
    (apart : ∀ held < n, held ≠ community → other.sizeOf held = state.sizeOf held)
    (occupied : other.occupied + (if 0 < state.sizeOf community then 1 else 0) =
      state.occupied + if 0 < other.sizeOf community then 1 else 0) :
    Booked n (Function.update standings node turned) other := by
  refine ⟨size, fun v below held at_ => ?_, fun held below => ?_, ?_⟩
  · by_cases same : v = node
    · subst same
      exact within held (by rwa [Function.update_self] at at_)
    · exact booked.inside v below held (by rwa [Function.update_of_ne same] at at_)
  · rw [Function.comp_update, sizes held below]
  · have rest : #{held ∈ (range n).erase community | 0 < other.sizeOf held} =
        #{held ∈ (range n).erase community | 0 < state.sizeOf held} := by
      refine congrArg card (filter_congr fun held member => ?_)
      obtain ⟨ne, listed⟩ := mem_erase.mp member
      rw [apart held (mem_range.mp listed) ne]
    have before := booked.occupied
    rw [card_inUse_eq inside] at before
    rw [card_inUse_eq inside, rest]
    omega

theorem Booked.leave (booked : Booked n standings state) (bound : node < n) {turned : Standing}
    (at_ : (standings node).booked = some community) (out : turned.booked = none) :
    Booked n (Function.update standings node turned) (state.leave community) := by
  have inside := booked.inside node bound community at_
  have counts (other : Nat) (below : other < n) :
      state.sizeOf other = (if community = other then 1 else 0) +
        labelled n (fun _ => 1) (Function.update (Standing.booked ∘ standings) node none) other := by
    rw [booked.sizes other below, labelled_eq bound]
    simp only [Function.comp_apply, at_, Option.some.injEq]
  have here := sizeOf_leave state community community
  rw [booked.size, if_pos ⟨rfl, inside⟩] at here
  have apart (other : Nat) (ne : other ≠ community) : (state.leave community).sizeOf other = state.sizeOf other := by
    rw [sizeOf_leave, if_neg fun both => ne both.1.symm]
  have some := counts community inside
  rw [if_pos rfl] at some
  refine booked.put inside (Array.size_setIfInBounds.trans booked.size) (by simp [out]) (fun other below => ?_)
    (fun other _ ne => apart other ne) ?_
  · rw [out]
    by_cases same : other = community
    · subst same
      omega
    · rw [apart other same, counts other below, if_neg (Ne.symm same), zero_add]
  · rw [here]
    have used : 0 < state.occupied := by
      rw [booked.occupied, card_inUse_eq inside, if_pos (by omega)]
      omega
    change state.occupied - (if state.sizeOf community = 1 then 1 else 0) + _ = _
    split_ifs <;> omega

theorem Booked.enter (booked : Booked n standings state) (bound : node < n) {turned : Standing}
    (out : (standings node).booked = none) (inside : community < n) (at_ : turned.booked = some community) :
    Booked n (Function.update standings node turned) (state.enter community) := by
  have here := sizeOf_enter state community community
  rw [booked.size, if_pos ⟨rfl, inside⟩] at here
  have apart (other : Nat) (ne : other ≠ community) : (state.enter community).sizeOf other = state.sizeOf other := by
    rw [sizeOf_enter, if_neg fun both => ne both.1.symm]
  refine booked.put inside (Array.size_setIfInBounds.trans booked.size) ?_ (fun other below => ?_)
    (fun other _ ne => apart other ne) ?_
  · rw [at_]
    rintro _ ⟨⟩
    exact inside
  · rw [at_, labelled_put bound (fun _ => 1) (by simpa using out), ← booked.sizes other below]
    by_cases same : other = community
    · subst same
      rw [here, if_pos rfl, Nat.add_comm]
    · rw [apart other same, if_neg (Ne.symm same), zero_add]
  · rw [here]
    change state.occupied + (if state.sizeOf community = 0 then 1 else 0) + _ = _
    split_ifs <;> omega

theorem Booked.kept (booked : Booked n standings state) {turned : Standing} {other : State α}
    (same : turned.booked = (standings node).booked) (sizes : other.sizes = state.sizes)
    (occupied : other.occupied = state.occupied) :
    Booked n (Function.update standings node turned) other := by
  have labels : Standing.booked ∘ Function.update standings node turned = Standing.booked ∘ standings := by
    rw [Function.comp_update, same]
    exact Function.update_eq_self _ _
  have sized (held : Nat) : other.sizeOf held = state.sizeOf held := by rw [State.sizeOf, sizes, State.sizeOf]
  refine ⟨sizes ▸ booked.size, fun v below held at_ => ?_, fun held below => ?_, ?_⟩
  · exact booked.inside v below held ((congrFun labels v).symm.trans at_)
  · rw [labels, sized, booked.sizes held below]
  · simp only [occupied, booked.occupied, sized]

variable [Scalar α] {setting : Setting α} {opens : Nat → Nat → Prop}

theorem keeps_booked (inside : ∀ v community, opens v community → community < setting.graph.nodeCount) :
    Keeps setting opens (Booked setting.graph.nodeCount) := by
  intro _ access standings pass node bound held permitted booked
  cases access with
  | leave community => exact booked.leave bound permitted rfl
  | enter community =>
    obtain ⟨out, rfl⟩ := permitted
    exact booked.enter bound out (inside node _ (held.opened node bound)) rfl
  | _ => exact booked.kept rfl rfl rfl

/-! ## Volumes -/

section Exact

variable {K : Type} [Field K] [LinearOrder K] {state : State K} {volume : Nat → K}

/-- The volumes of the communities are the sums over the nodes charged to them. -/
structure Charged (n : Nat) (volume : Nat → K) (standings : Nat → Standing) (state : State K) : Prop where
  size : state.communityVolumes.size = n
  sums : ∀ community < n, state.communityVolumes.read community =
    labelled n volume (Standing.charged ∘ standings) community

theorem Charged.add (charged : Charged n volume standings state) {turned : Standing} {amount : K}
    (sums : ∀ other, labelled n volume (Function.update (Standing.charged ∘ standings) node turned.charged) other =
      labelled n volume (Standing.charged ∘ standings) other + if community = other then amount else 0) :
    Charged n volume (Function.update standings node turned) (state.add community amount) := by
  refine ⟨(Cells.size_add _ _ _).trans charged.size, fun other below => ?_⟩
  rw [Function.comp_update, sums, ← charged.sums other below]
  exact Cells.read_add_inside (below.trans_eq charged.size.symm) community amount

theorem Charged.kept (charged : Charged n volume standings state) {turned : Standing} {other : State K}
    (same : turned.charged = (standings node).charged) (volumes : other.communityVolumes = state.communityVolumes) :
    Charged n volume (Function.update standings node turned) other := by
  have labels : Standing.charged ∘ Function.update standings node turned = Standing.charged ∘ standings := by
    rw [Function.comp_update, same]
    exact Function.update_eq_self _ _
  exact ⟨volumes ▸ charged.size, fun held below => by rw [labels, volumes, charged.sums held below]⟩

theorem keeps_charged (setting : Setting K) (opens : Nat → Nat → Prop) :
    Keeps setting opens (Charged setting.graph.nodeCount setting.nodeVolumes.read) := by
  intro _ access standings pass node bound held permitted charged
  cases access with
  | add community amount =>
    rcases permitted with ⟨at_, rfl⟩ | ⟨out, rfl, rfl⟩
    · refine charged.add fun other => ?_
      have before := labelled_eq bound setting.nodeVolumes.read (Standing.charged ∘ standings) other
      simp only [Function.comp_apply, at_, Option.some.injEq] at before
      simp only [Access.turns, at_, reduceCtorEq, if_false, before, rulesFor]
      split <;> ring
    · refine charged.add fun other => ?_
      simp only [Access.turns, out, if_true]
      rw [labelled_put bound _ (by simpa using out), add_comm]
      rfl
  | _ => exact charged.kept rfl rfl

end Exact

/-! ## Passes -/

section Passes

variable {start : State α} {active : Array Bool}

theorem Passed.opened (passed : Passed setting start active state) (opens : Nat → Nat → Prop)
    (closed : setting.graph.Closed)
    (size : start.assignment.size = setting.graph.nodeCount)
    (passes : ∀ u v, setting.graph.Adjacent u v → ∀ community, opens v community → opens u community)
    (opened : ∀ v < setting.graph.nodeCount, opens v (start.assignment.of v)) :
    state.assignment.size = setting.graph.nodeCount ∧
      ∀ v < setting.graph.nodeCount, opens v (state.assignment.of v) := by
  induction passed with
  | start => exact ⟨size, opened⟩
  | pass turns before ih =>
    have ruled : Ruled setting _ opens fun _ _ => True :=
      ⟨closed, before.size, passes, fun _ _ _ _ _ _ _ _ => trivial⟩
    obtain ⟨standings, held, -, -⟩ := sweep_keeps ruled turns ih.1 ih.2 trivial
    exact ⟨held.size, fun v bound => by rw [held.held v bound]; exact held.opened v bound⟩

theorem Passed.drawn (passed : Passed setting start active state) (closed : setting.graph.Closed)
    (size : start.assignment.size = setting.graph.nodeCount) :
    ∀ v < setting.graph.nodeCount, ∃ u < setting.graph.nodeCount,
      state.assignment.of v = start.assignment.of u :=
  (passed.opened (fun _ community => ∃ u < setting.graph.nodeCount, community = start.assignment.of u)
    closed size (fun _ _ _ _ open_ => open_) fun v bound => ⟨v, bound, rfl⟩).2

/-- Nodes move to neighbours. So where an equivalence relates all neighbours, communities stay inside its
classes. -/
theorem Passed.confined (passed : Passed setting start active state) (closed : setting.graph.Closed)
    (size : start.assignment.size = setting.graph.nodeCount) {related : Nat → Nat → Prop}
    (equivalence : Equivalence related) (neighbors : ∀ u v, setting.graph.Adjacent u v → related u v)
    (confined : ∀ u < setting.graph.nodeCount, ∀ v < setting.graph.nodeCount,
      start.assignment.of u = start.assignment.of v → related u v) :
    ∀ u < setting.graph.nodeCount, ∀ v < setting.graph.nodeCount,
      state.assignment.of u = state.assignment.of v → related u v := by
  have opened := (passed.opened (fun v community => ∀ w < setting.graph.nodeCount,
      start.assignment.of w = community → related v w) closed size
    (fun u v adjacent _ open_ w bound member => equivalence.trans (neighbors u v adjacent) (open_ w bound member))
    fun v bound w bounded same => confined v bound w bounded same.symm).2
  intro u boundU v boundV same
  -- The community that both are in was that of a node to which both are related.
  obtain ⟨w, bound, drawn⟩ := passed.drawn closed size u boundU
  exact equivalence.trans (opened u boundU w bound drawn.symm)
    (equivalence.symm (opened v boundV w bound (drawn.symm.trans same)))

theorem Passed.within (passed : Passed setting start active state) (closed : setting.graph.Closed)
    (within : start.assignment.Within setting.graph.nodeCount) :
    state.assignment.Within setting.graph.nodeCount where
  size := (passed.opened (fun _ _ => True) closed within.size (fun _ _ _ _ _ => trivial)
    fun _ _ => trivial).1
  bounded v bound := by
    obtain ⟨u, bounded, equal⟩ := passed.drawn closed within.size v bound
    exact equal ▸ within.bounded u bounded

theorem Passed.size_volumes (passed : Passed setting start active state) :
    state.communityVolumes.size = start.communityVolumes.size := by
  induction passed with
  | start => rfl
  | pass turns before ih =>
    refine race_preserves (p := fun pass => pass.state.communityVolumes.size = start.communityVolumes.size)
      (fun access pass size => ?_) turns _ ih
    cases access with
    | add community amount => exact (Cells.size_add _ _ _).trans size
    | _ => exact size

/-- What the permitted accesses keep between the standings and the state, a pass keeps for the communities
that the nodes are in. -/
theorem sweep_books {books : (Nat → Standing) → State α → Prop}
    (keeps : Keeps setting (fun _ community => community < setting.graph.nodeCount) books)
    (closed : setting.graph.Closed) (size : active.size = setting.graph.nodeCount) (turns : List Turn)
    (within : state.assignment.Within setting.graph.nodeCount)
    (holds : books (fun v => .at (state.assignment.of v)) state) :
    let after := (sweep setting turns active state).state
    after.assignment.Within setting.graph.nodeCount ∧ ∃ standings, books standings after ∧
      ∀ v < setting.graph.nodeCount, (standings v).charged = some (after.assignment.of v) ∧
        (standings v).booked = some (after.assignment.of v) := by
  obtain ⟨standings, held, kept, settled⟩ :=
    sweep_keeps ⟨closed, size, fun _ _ _ _ bound => bound, keeps⟩ turns within.size within.bounded holds
  refine ⟨⟨held.size, fun v bound => ?_⟩, standings, kept, fun v bound => ?_⟩
  · rw [held.held v bound]
    exact held.opened v bound
  · rw [held.held v bound]
    exact settled v

theorem Counted.sweep (counted : Counted setting.graph.nodeCount state) (closed : setting.graph.Closed)
    (size : active.size = setting.graph.nodeCount) (turns : List Turn) :
    Counted setting.graph.nodeCount (sweep setting turns active state).state := by
  have inUse {state : State α} (within : state.assignment.Within setting.graph.nodeCount)
      (sizes : ∀ community < setting.graph.nodeCount,
        state.sizeOf community = (state.assignment.members setting.graph.nodeCount community).card) :
      #{community ∈ range setting.graph.nodeCount | 0 < state.sizeOf community} =
        (state.assignment.used setting.graph.nodeCount).card := by
    rw [Assignment.used_eq_filter within]
    exact congrArg card (filter_congr fun community member => by rw [sizes community (mem_range.mp member)])
  have booked : Booked setting.graph.nodeCount (fun v => .at (state.assignment.of v)) state := by
    refine ⟨counted.size, ?_, fun community bound => ?_, ?_⟩
    · rintro v bound _ ⟨⟩
      exact counted.within.bounded v bound
    · rw [counted.sizes community bound, Assignment.members, card_eq_sum_ones]
      exact (labelled_of_eq (fun _ _ => rfl) _ _).symm
    · rw [counted.occupied, inUse counted.within counted.sizes]
  obtain ⟨within, standings, kept, settled⟩ :=
    sweep_books (keeps_booked fun _ _ => id) closed size turns counted.within booked
  have sizes : ∀ community < setting.graph.nodeCount,
      (LocalMove.sweep setting turns active state).state.sizeOf community =
        ((LocalMove.sweep setting turns active state).state.assignment.members
          setting.graph.nodeCount community).card := by
    intro community bound
    rw [kept.sizes community bound, Assignment.members, card_eq_sum_ones]
    exact labelled_of_eq (fun v below => (settled v below).2) _ _
  exact ⟨within, kept.size, sizes, kept.occupied.trans (inUse within sizes)⟩

theorem Passed.counted (passed : Passed setting start active state) (closed : setting.graph.Closed)
    (counted : Counted setting.graph.nodeCount start) : Counted setting.graph.nodeCount state := by
  induction passed with
  | start => exact counted
  | pass turns before ih => exact ih.sweep closed before.size turns

end Passes

section Sound

variable {K : Type} [Field K] [LinearOrder K] {setting : Setting K} {start state : State K}
  {active : Array Bool}

theorem Sound.sweep (sound : Sound setting state) (closed : setting.graph.Closed)
    (size : active.size = setting.graph.nodeCount) (turns : List Turn) :
    Sound setting (sweep setting turns active state).state := by
  have charged : Charged setting.graph.nodeCount setting.nodeVolumes.read
      (fun v => .at (state.assignment.of v)) state :=
    ⟨sound.volumes.size_communities, fun community bound =>
      (sound.volumes.sums community bound).trans (labelled_of_eq (fun _ _ => rfl) _ _).symm⟩
  obtain ⟨within, standings, kept, settled⟩ :=
    sweep_books (keeps_charged setting _) closed size turns sound.within charged
  exact ⟨within, sound.volumes.size_nodes, kept.size, fun community bound =>
    (kept.sums community bound).trans (labelled_of_eq (fun v below => (settled v below).1) _ _)⟩

theorem Passed.sound (passed : Passed setting start active state) (closed : setting.graph.Closed)
    (sound : Sound setting start) : Sound setting state := by
  induction passed with
  | start => exact sound
  | pass turns before ih => exact ih.sweep closed before.size turns

end Sound

end CommunityDetection.LocalMove
