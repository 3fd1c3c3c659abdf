import CommunityDetection.LocalMove.Visit

/-!
# Workers

The workers of a pass share the communities of the nodes, the volumes and sizes of the communities, and
the marks of the nodes that are awake. A worker makes its visits in single accesses to these, each of
which is atomic. Between two of them other workers may make theirs, so a worker may decide on what has
changed meanwhile. `race` makes all visits of a pass in the order that some turns give.
-/

namespace CommunityDetection.LocalMove

variable {α β : Type} [Scalar α]

/-- An access to what the workers share, or to the worker's own count of its moves, which only matters
after the pass. So does the number of occupied communities, which changes along with the sizes. -/
inductive Access (α : Type) : Type → Type
  | communityOf (node : Nat) : Access α Nat
  | volumeOf (community : Nat) : Access α α
  | sizeOf (community : Nat) : Access α Nat
  | count : Access α Unit
  | assign (node community : Nat) : Access α Unit
  | add (community : Nat) (amount : α) : Access α Unit
  | leave (community : Nat) : Access α Unit
  | enter (community : Nat) : Access α Unit
  | wake (node : Nat) : Access α Unit

def State.leave (state : State α) (community : Nat) : State α :=
  let size := state.sizeOf community
  { state with
    sizes := state.sizes.setIfInBounds community (size - 1)
    occupied := state.occupied - if size = 1 then 1 else 0 }

def State.enter (state : State α) (community : Nat) : State α :=
  let size := state.sizeOf community
  { state with
    sizes := state.sizes.setIfInBounds community (size + 1)
    occupied := state.occupied + if size = 0 then 1 else 0 }

def State.assign (state : State α) (node community : Nat) : State α :=
  { state with assignment := state.assignment.assign node community }

def State.add (state : State α) (community : Nat) (amount : α) : State α :=
  { state with communityVolumes := state.communityVolumes.add community amount }

def Access.run {ρ : Type} : Access α ρ → Pass α → ρ × Pass α
  | .communityOf node, pass => (pass.state.assignment.of node, pass)
  | .volumeOf community, pass => (pass.state.communityVolumes.read community, pass)
  | .sizeOf community, pass => (pass.state.sizeOf community, pass)
  | .count, pass => ((), { pass with moves := pass.moves + 1 })
  | .assign node community, pass => ((), { pass with state := pass.state.assign node community })
  | .add community amount, pass => ((), { pass with state := pass.state.add community amount })
  | .leave community, pass => ((), { pass with state := pass.state.leave community })
  | .enter community, pass => ((), { pass with state := pass.state.enter community })
  | .wake node, pass => ((), { pass with awake := pass.awake.setIfInBounds node true })

/-- What a worker still does: one access after the other, each of which may depend on the answers to
those before it. -/
inductive Program (α β : Type) : Type 1
  | done (result : β)
  | next {ρ : Type} (access : Access α ρ) (answered : ρ → Program α β)

namespace Program

def bind {γ : Type} : Program α β → (β → Program α γ) → Program α γ
  | .done result, after => after result
  | .next access answered, after => .next access fun answer => (answered answer).bind after

instance : Monad (Program α) where
  pure := .done
  bind := .bind

def ask {ρ : Type} (access : Access α ρ) : Program α ρ := .next access .done

/-- Makes all accesses while nothing else happens. -/
def run : Program α β → Pass α → β × Pass α
  | .done result, pass => (result, pass)
  | .next access answered, pass =>
    let (answer, pass) := access.run pass
    (answered answer).run pass

end Program

open Program (ask)

/-! ## The accesses of a visit -/

def weigh (others : Row α) : Program α (Tally α) :=
  others.foldlM (fun weights entry => return weights.add (← ask (.communityOf entry.1)) entry.2) []

/-- Whether a candidate is barred for a node whose own community is `home`; with `alone` the node is
the only member of that. -/
def bars (home : Nat) (alone : Bool) (candidate : Nat) : Program α Bool :=
  if alone && decide (home < candidate) then do return (← ask (.sizeOf candidate)) == 1
  else return false

def compare (gamma volume : α) (home : Nat) (alone : Bool) (best candidate : Nat × α) :
    Program α (Nat × α) := do
  if candidate.1 = home then return best
  if ← bars home alone candidate.1 then return best
  let value := gain gamma volume candidate.2 (← ask (.volumeOf candidate.1))
  return if best.2 < value then (candidate.1, value) else best

def transfer (node : Nat) (volume : α) (home community : Nat) : Program α Unit := do
  ask .count
  ask (.assign node community)
  ask (.add home (-volume))
  ask (.add community volume)
  ask (.leave home)
  ask (.enter community)

def rouse (community node : Nat) : Program α Unit := do
  if (← ask (.communityOf node)) ≠ community then ask (.wake node)

def others (G : Graph α) (node : Nat) : Row α := (G.row node).filter fun entry => entry.1 != node

def visiting (setting : Setting α) (node : Nat) : Program α Unit := do
  let volume := setting.nodeVolumes.read node
  let home ← ask (.communityOf node)
  let weights ← weigh (others setting.graph node)
  let rest := (← ask (.volumeOf home)) - volume
  let alone := (← ask (.sizeOf home)) == 1
  let stay := gain setting.gamma volume (weights.get home) rest
  let best ← weights.foldlM (compare setting.gamma volume home alone) (home, stay)
  if best.1 ≠ home then
    transfer node volume home best.1
    forM (others setting.graph node) fun entry => rouse best.1 entry.1

/-! ## Turns -/

/-- A worker with the visit it has begun and the nodes that it visits after it. -/
structure Worker (α : Type) : Type 1 where
  current : Option (Nat × Program α Unit)
  rest : List Nat

def Worker.on (span : Span) : Worker α := { current := none, rest := span.nodes }

variable (setting : Setting α) (active : Array Bool)

def Worker.visit (worker : Worker α) (pass : Pass α) : Worker α × Pass α :=
  match worker.current, worker.rest with
  | some (_, program), rest => ({ current := none, rest }, (program.run pass).2)
  | none, node :: rest => ({ current := none, rest }, pass.visit setting active node)
  | none, [] => (worker, pass)

def Worker.access (worker : Worker α) (pass : Pass α) : Worker α × Pass α :=
  match worker.current, worker.rest with
  | some (node, .next access answered), rest =>
    let (answer, pass) := access.run pass
    ({ current := some (node, answered answer), rest }, pass)
  | _, node :: rest =>
    ({ current := if active.getD node false then some (node, visiting setting node) else none, rest },
      pass)
  | _, [] => ({ current := none, rest := [] }, pass)

def Worker.take (turn : Turn) (worker : Worker α) (pass : Pass α) : Worker α × Pass α :=
  match turn with
  | .visit _ => worker.visit setting active pass
  | .access _ => worker.access setting active pass

def Worker.finish (worker : Worker α) (pass : Pass α) : Pass α :=
  let pass := match worker.current with
    | some (_, program) => (program.run pass).2
    | none => pass
  worker.rest.foldl (Pass.visit setting active) pass

def race : List Turn → List (Worker α) → Pass α → Pass α
  | [], workers, pass => workers.foldl (fun pass worker => worker.finish setting active pass) pass
  | turn :: turns, workers, pass =>
    match workers[turn.worker]? with
    | none => race turns workers pass
    | some worker =>
      let (worker, pass) := worker.take setting active turn pass
      race turns (workers.set turn.worker worker) pass

end CommunityDetection.LocalMove
