import CommunityDetection.Proofs.LocalMove.Standing
import CommunityDetection.Proofs.LocalMove.Turns

/-!
# Passes with several workers

Between any two accesses of a pass, the nodes that no worker is at are each in one place, the program of
a worker follows the rules for its node, and no node is in the hands of two workers (`Racing`). So what
the permitted accesses keep between the standings of the nodes and the state, every pass keeps, whatever
the turns of its workers (`sweep_keeps`).
-/

namespace CommunityDetection.LocalMove

variable {α : Type} [Scalar α] {setting : Setting α} {active : Array Bool} {opens : Nat → Nat → Prop}
  {books : (Nat → Standing) → State α → Prop} {standings : Nat → Standing} {pass : Pass α}
  {before after workers : List (Worker α)} {worker : Worker α} {node : Nat} {rest : List Nat}

def Worker.nodes (worker : Worker α) : List Nat := (worker.current.map Prod.fst).toList ++ worker.rest

def rulesFor (setting : Setting α) (opens : Nat → Nat → Prop) (node : Nat) : Rules α :=
  ⟨setting.graph.nodeCount, node, setting.nodeVolumes.read node, opens⟩

/-- The communities of the nodes are those of their standings, and open to them. -/
structure Held (n : Nat) (opens : Nat → Nat → Prop) (standings : Nat → Standing) (state : State α) :
    Prop where
  size : state.assignment.size = n
  held : ∀ v < n, state.assignment.of v = (standings v).held
  opened : ∀ v < n, opens v (standings v).held

/-- What holds between the standings of the nodes and the state is kept by every permitted access. -/
def Keeps (setting : Setting α) (opens : Nat → Nat → Prop)
    (books : (Nat → Standing) → State α → Prop) : Prop :=
  ∀ {ρ : Type} (access : Access α ρ) (standings : Nat → Standing) (pass : Pass α) (node : Nat),
    node < setting.graph.nodeCount → Held setting.graph.nodeCount opens standings pass.state →
    access.Permitted (rulesFor setting opens node) (standings node) → books standings pass.state →
    books (Function.update standings node (access.turns (standings node))) (access.run pass).2.state

structure Racing (setting : Setting α) (opens : Nat → Nat → Prop)
    (books : (Nat → Standing) → State α → Prop) (standings : Nat → Standing)
    (workers : List (Worker α)) (pass : Pass α) : Prop where
  held : Held setting.graph.nodeCount opens standings pass.state
  books : books standings pass.state
  follows : ∀ worker ∈ workers, ∀ node program, worker.current = some (node, program) →
    node < setting.graph.nodeCount ∧
      program.Follows (rulesFor setting opens node) (fun after _ => after.Settled) (standings node)
  settled : ∀ v, (∀ worker ∈ workers, ∀ program, worker.current ≠ some (v, program)) →
    (standings v).Settled
  apart : (workers.flatMap Worker.nodes).Nodup

/-! ## One access -/

theorem Standing.Settled.eq_at {standing : Standing} (settled : standing.Settled) :
    standing = .at standing.held := by
  obtain ⟨held, charged, booked⟩ := standing
  obtain ⟨charges, books⟩ := settled
  dsimp only at charges books
  rw [charges, books, Standing.at]

theorem Held.answers {ρ : Type} {access : Access α ρ} {n : Nat} {volume : α}
    (held : Held n opens standings pass.state)
    (permitted : access.Permitted ⟨n, node, volume, opens⟩ (standings node)) :
    access.Answers ⟨n, node, volume, opens⟩ (standings node) (access.run pass).1 := by
  cases access with
  | communityOf other =>
    change if other = node then pass.state.assignment.of other = _ else opens other (pass.state.assignment.of other)
    rw [held.held other permitted]
    -- Nobody else moves the node that is visited, so for that one the answer is known for sure.
    split
    · rename_i same
      rw [same]
    · exact held.opened other permitted
  | _ => trivial

omit [Scalar α] in
theorem Held.turn {n : Nat} {state other : State α} (held : Held n opens standings state)
    (same : other.assignment = state.assignment) {turned : Standing}
    (keeps : turned.held = (standings node).held) :
    Held n opens (Function.update standings node turned) other := by
  have kept (v : Nat) : (Function.update standings node turned v).held = (standings v).held := by
    by_cases at_ : v = node
    · rw [at_, Function.update_self, keeps]
    · rw [Function.update_of_ne at_]
  refine ⟨same ▸ held.size, fun v bound => ?_, fun v bound => ?_⟩
  · rw [same, kept, held.held v bound]
  · rw [kept]
    exact held.opened v bound

theorem Held.access {ρ : Type} {access : Access α ρ} {n : Nat} {volume : α} (bound : node < n)
    (held : Held n opens standings pass.state)
    (permitted : access.Permitted ⟨n, node, volume, opens⟩ (standings node)) :
    Held n opens (Function.update standings node (access.turns (standings node)))
      (access.run pass).2.state := by
  cases access with
  | assign other community =>
    obtain ⟨rfl, open_⟩ := permitted
    refine ⟨(Assignment.size_assign _ _ _).trans held.size, fun v below => ?_, fun v below => ?_⟩
    · change (pass.state.assignment.assign other community).of v = _
      rw [Assignment.of_assign (bound.trans_eq held.size.symm)]
      by_cases at_ : v = other
      · rw [at_, Function.update_self, Function.update_self]
        rfl
      · rw [Function.update_of_ne at_, Function.update_of_ne at_, held.held v below]
    · by_cases at_ : v = other
      · rw [at_, Function.update_self]
        exact open_
      · rw [Function.update_of_ne at_]
        exact held.opened v below
  | _ =>
    refine held.turn ?_ ?_
    · rfl
    · rfl

omit [Scalar α] in
theorem current_ne (apart : ((before ++ worker :: after).flatMap Worker.nodes).Nodup)
    (member : node ∈ worker.nodes) :
    ∀ other ∈ before ++ after, ∀ program, other.current ≠ some (node, program) := by
  intro other listed program at_
  have both : node ∈ other.nodes := by simp [Worker.nodes, at_]
  rw [List.flatMap_append, List.flatMap_cons, List.nodup_append, List.nodup_append] at apart
  obtain ⟨-, ⟨-, -, right⟩, left⟩ := apart
  rcases List.mem_append.mp listed with listed | listed
  · exact left node (List.mem_flatMap.mpr ⟨other, listed, both⟩) node
      (List.mem_append_left _ member) rfl
  · exact right node member node (List.mem_flatMap.mpr ⟨other, listed, both⟩) rfl

omit [Scalar α] in
theorem forall_mem_middle {p : Worker α → Prop} :
    (∀ other ∈ before ++ worker :: after, p other) ↔ p worker ∧ ∀ other ∈ before ++ after, p other := by
  simp only [List.forall_mem_append, List.forall_mem_cons]
  exact and_left_comm

omit [Scalar α] in
theorem mem_middle {other : Worker α} :
    other ∈ before ++ worker :: after ↔ other = worker ∨ other ∈ before ++ after := by
  simp only [List.mem_append, List.mem_cons]
  exact or_left_comm

/-- The turn of one worker, from what it does to its own node. -/
theorem Racing.turn {other : Worker α} {turned : Standing} {later : Pass α}
    (racing : Racing setting opens books standings (before ++ worker :: after) pass)
    (listed : node ∈ worker.nodes)
    (held : Held setting.graph.nodeCount opens (Function.update standings node turned) later.state)
    (kept : books (Function.update standings node turned) later.state)
    (fewer : other.nodes.Sublist worker.nodes)
    (follows : ∀ v program, other.current = some (v, program) → v = node ∧ v < setting.graph.nodeCount ∧
      program.Follows (rulesFor setting opens node) (fun after _ => after.Settled) turned)
    (settled : (∀ program, other.current ≠ some (node, program)) → turned.Settled)
    (only : ∀ v program, worker.current = some (v, program) → v = node) :
    Racing setting opens books (Function.update standings node turned) (before ++ other :: after) later := by
  have others := current_ne racing.apart listed
  refine ⟨held, kept,
    forall_mem_middle.mpr ⟨fun v program current => ?_, fun worker member v program current => ?_⟩,
    fun v free => ?_, ?_⟩
  · obtain ⟨rfl, bound, goesOn⟩ := follows v program current
    rw [Function.update_self]
    exact ⟨bound, goesOn⟩
  · have apart : v ≠ node := fun same => others worker member program (same ▸ current)
    rw [Function.update_of_ne apart]
    exact (forall_mem_middle.mp racing.follows).2 worker member v program current
  · obtain ⟨own, free⟩ := forall_mem_middle.mp free
    by_cases at_ : v = node
    · subst at_
      rw [Function.update_self]
      exact settled own
    · rw [Function.update_of_ne at_]
      exact racing.settled v (forall_mem_middle.mpr ⟨fun program current => at_ (only v program current), free⟩)
  · refine racing.apart.sublist ?_
    simp only [List.flatMap_append, List.flatMap_cons]
    exact (List.Sublist.refl _).append (fewer.append (List.Sublist.refl _))

theorem Racing.access {ρ : Type} {access : Access α ρ} {answered : ρ → Program α Unit}
    (keeps : Keeps setting opens books)
    (racing : Racing setting opens books standings
      (before ++ ⟨some (node, .next access answered), rest⟩ :: after) pass) :
    Racing setting opens books (Function.update standings node (access.turns (standings node)))
      (before ++ ⟨some (node, answered (access.run pass).1), rest⟩ :: after) (access.run pass).2 := by
  obtain ⟨bound, permitted, goesOn⟩ := (forall_mem_middle.mp racing.follows).1 node _ rfl
  refine racing.turn (by simp [Worker.nodes]) (racing.held.access bound permitted)
    (keeps access standings pass node bound racing.held permitted racing.books) (.refl _) ?_ ?_ ?_
  · rintro v program ⟨⟩
    exact ⟨rfl, bound, goesOn _ (racing.held.answers permitted)⟩
  · exact fun free => absurd rfl (free _)
  · rintro v program ⟨⟩
    rfl

/-! ## Visits -/

theorem Racing.run {program : Program α Unit} (keeps : Keeps setting opens books)
    (racing : Racing setting opens books standings (before ++ ⟨some (node, program), rest⟩ :: after) pass) :
    ∃ standings, Racing setting opens books standings
      (before ++ ⟨some (node, .done ()), rest⟩ :: after) (program.run pass).2 := by
  induction program generalizing standings pass with
  | done => exact ⟨standings, racing⟩
  | next access answered ih => exact ih _ (racing.access keeps)

theorem Racing.leave {result : Unit}
    (racing : Racing setting opens books standings (before ++ ⟨some (node, .done result), rest⟩ :: after) pass) :
    Racing setting opens books standings (before ++ ⟨none, rest⟩ :: after) pass := by
  have stays := ((forall_mem_middle.mp racing.follows).1 node _ rfl).2
  rw [← Function.update_eq_self node standings]
  refine racing.turn (by simp [Worker.nodes]) ?_ ?_ (by simp [Worker.nodes]) ?_ (fun _ => stays) ?_
  · rw [Function.update_eq_self]
    exact racing.held
  · rw [Function.update_eq_self]
    exact racing.books
  · rintro v program ⟨⟩
  · rintro v program ⟨⟩
    rfl

theorem Racing.settled_of_waits
    (racing : Racing setting opens books standings (before ++ ⟨none, node :: rest⟩ :: after) pass) :
    (standings node).Settled :=
  racing.settled node (forall_mem_middle.mpr
    ⟨fun _ current => (Option.some_ne_none _ current.symm).elim,
      current_ne racing.apart (by simp [Worker.nodes])⟩)

theorem Racing.begin (program : Option (Program α Unit))
    (racing : Racing setting opens books standings (before ++ ⟨none, node :: rest⟩ :: after) pass)
    (follows : ∀ found ∈ program, node < setting.graph.nodeCount ∧
      found.Follows (rulesFor setting opens node) (fun after _ => after.Settled) (standings node)) :
    Racing setting opens books standings
      (before ++ ⟨program.map (node, ·), rest⟩ :: after) pass := by
  rw [← Function.update_eq_self node standings]
  refine racing.turn (by simp [Worker.nodes]) ?_ ?_ ?_ ?_ (fun _ => racing.settled_of_waits) ?_
  · rw [Function.update_eq_self]
    exact racing.held
  · rw [Function.update_eq_self]
    exact racing.books
  · cases program <;> simp [Worker.nodes]
  · intro v found current
    obtain ⟨_, member, rfl, rfl⟩ : ∃ begun ∈ program, node = v ∧ begun = found := by simpa using current
    exact ⟨rfl, follows _ member⟩
  · rintro v program ⟨⟩

/-- What a graph and a relation of nodes to communities need for the rules to be kept. -/
structure Ruled (setting : Setting α) (active : Array Bool) (opens : Nat → Nat → Prop)
    (books : (Nat → Standing) → State α → Prop) : Prop where
  closed : setting.graph.Closed
  size : active.size = setting.graph.nodeCount
  passes : ∀ u v, setting.graph.Adjacent u v → ∀ community, opens v community → opens u community
  keeps : Keeps setting opens books

theorem Ruled.follows (ruled : Ruled setting active opens books) (isActive : active.getD node false = true)
    (settled : (standings node).Settled) :
    node < setting.graph.nodeCount ∧ (visiting setting node).Follows (rulesFor setting opens node)
      (fun after _ => after.Settled) (standings node) := by
  have bound := lt_of_active ruled.size isActive
  rw [settled.eq_at]
  exact ⟨bound, follows_visiting ruled.closed bound ruled.passes⟩

theorem Racing.start (ruled : Ruled setting active opens books)
    (racing : Racing setting opens books standings (before ++ ⟨none, node :: rest⟩ :: after) pass) :
    Racing setting opens books standings
      (before ++ ⟨if active.getD node false then some (node, visiting setting node) else none, rest⟩ :: after)
      pass := by
  split
  · rename_i isActive
    refine racing.begin (some (visiting setting node)) fun found member => ?_
    cases member
    exact ruled.follows isActive racing.settled_of_waits
  · exact racing.begin none (by simp)

theorem Racing.visit (ruled : Ruled setting active opens books)
    (racing : Racing setting opens books standings (before ++ ⟨none, node :: rest⟩ :: after) pass) :
    ∃ standings, Racing setting opens books standings (before ++ ⟨none, rest⟩ :: after)
      (pass.visit setting active node) := by
  have begun := racing.start ruled
  by_cases isActive : active.getD node false = true
  · rw [if_pos isActive] at begun
    obtain ⟨later, ran⟩ := begun.run ruled.keeps
    rw [run_visiting isActive] at ran
    exact ⟨later, ran.leave⟩
  · rw [if_neg isActive] at begun
    rw [Pass.visit, if_neg isActive]
    exact ⟨standings, begun⟩

theorem Racing.take (ruled : Ruled setting active opens books) (turn : Turn)
    (racing : Racing setting opens books standings (before ++ worker :: after) pass) :
    ∃ standings, Racing setting opens books standings
      (before ++ (worker.take setting active turn pass).1 :: after) (worker.take setting active turn pass).2 := by
  obtain ⟨current, rest⟩ := worker
  cases turn with
  | visit =>
    cases current with
    | some at_ =>
      obtain ⟨later, ran⟩ := racing.run ruled.keeps
      exact ⟨later, ran.leave⟩
    | none =>
      cases rest with
      | nil => exact ⟨standings, racing⟩
      | cons node rest => exact racing.visit ruled
  | access =>
    match current, rest with
    | some (node, .next access answered), rest => exact ⟨_, racing.access ruled.keeps⟩
    | some (_, .done _), [] => exact ⟨standings, racing.leave⟩
    | some (_, .done _), node :: rest => exact ⟨standings, racing.leave.start ruled⟩
    | none, [] => exact ⟨standings, racing⟩
    | none, node :: rest => exact ⟨standings, racing.start ruled⟩

theorem Racing.visits (ruled : Ruled setting active opens books)
    (racing : Racing setting opens books standings (⟨none, rest⟩ :: workers) pass) :
    ∃ standings, Racing setting opens books standings workers
      (rest.foldl (Pass.visit setting active) pass) := by
  induction rest generalizing standings pass with
  | nil =>
    refine ⟨standings, racing.held, racing.books, (List.forall_mem_cons.mp racing.follows).2,
      fun v free => racing.settled v (List.forall_mem_cons.mpr ⟨fun _ => nofun, free⟩), ?_⟩
    simpa [Worker.nodes] using racing.apart
  | cons node rest ih =>
    have first : Racing setting opens books standings ([] ++ ⟨none, node :: rest⟩ :: workers) pass := racing
    obtain ⟨later, visited⟩ := first.visit ruled
    exact ih visited

theorem Racing.finish (ruled : Ruled setting active opens books)
    (racing : Racing setting opens books standings (worker :: workers) pass) :
    ∃ standings, Racing setting opens books standings workers (worker.finish setting active pass) := by
  obtain ⟨current, rest⟩ := worker
  cases current with
  | none => exact racing.visits ruled
  | some at_ =>
    have first : Racing setting opens books standings ([] ++ ⟨some at_, rest⟩ :: workers) pass := racing
    obtain ⟨later, ran⟩ := first.run ruled.keeps
    exact Racing.visits ruled ran.leave

theorem Racing.race (ruled : Ruled setting active opens books) (turns : List Turn)
    (racing : Racing setting opens books standings workers pass) :
    ∃ standings, Racing setting opens books standings [] (race setting active turns workers pass) := by
  induction turns generalizing standings workers pass with
  | nil =>
    unfold LocalMove.race
    induction workers generalizing standings pass with
    | nil => exact ⟨standings, racing⟩
    | cons worker workers ih =>
      obtain ⟨later, finished⟩ := racing.finish ruled
      exact ih finished
  | cons turn turns ih =>
    unfold LocalMove.race
    cases found : workers[turn.worker]? with
    | none => exact ih racing
    | some worker =>
      obtain ⟨bound, rfl⟩ := List.getElem?_eq_some_iff.mp found
      dsimp only
      -- The turn concerns one worker, so the list is cut around it.
      rw [← List.take_append_drop turn.worker workers, List.drop_eq_getElem_cons bound] at racing
      obtain ⟨later, taken⟩ := racing.take ruled turn
      rw [List.set_eq_take_append_cons_drop, if_pos bound]
      exact ih taken

theorem sweep_keeps (ruled : Ruled setting active opens books) (turns : List Turn) {state : State α}
    (size : state.assignment.size = setting.graph.nodeCount)
    (opened : ∀ v < setting.graph.nodeCount, opens v (state.assignment.of v))
    (holds : books (fun v => .at (state.assignment.of v)) state) :
    ∃ standings,
      Held setting.graph.nodeCount opens standings (sweep setting turns active state).state ∧
      books standings (sweep setting turns active state).state ∧ ∀ v, (standings v).Settled := by
  have starts : Racing setting opens books (fun v => .at (state.assignment.of v))
      ((setting.graph.spans setting.concurrency).map .on) (unvisited setting state) := by
    refine ⟨⟨size, fun _ _ => rfl, opened⟩, holds, fun worker member => ?_, fun _ _ => ⟨rfl, rfl⟩, ?_⟩
    · obtain ⟨span, -, rfl⟩ := List.mem_map.mp member
      rintro _ _ ⟨⟩
    · rw [List.flatMap_map]
      have nodes := Graph.nodes_spans setting.graph setting.concurrency
      simp only [Worker.nodes, Worker.on, Option.map_none, Option.toList_none, List.nil_append]
      exact nodes ▸ List.nodup_range
  obtain ⟨later, racing⟩ := starts.race ruled turns
  exact ⟨later, racing.held, racing.books, fun v => racing.settled v (by simp)⟩

end CommunityDetection.LocalMove
