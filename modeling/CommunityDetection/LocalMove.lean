import CommunityDetection.LocalMove.Worker

/-!
# Local moves

A pass visits all active nodes: in the first pass these are all nodes, and after it those that were
woken. The nodes are cut into spans, and each span is visited in order by a worker of its own, so that
with several spans the outcome depends on the turns of the workers. `LocalMove.run` makes passes until
one moves nothing.
-/

namespace CommunityDetection.LocalMove

variable {α : Type} [Scalar α]

def unvisited (setting : Setting α) (state : State α) : Pass α :=
  { state, moves := 0, awake := Array.replicate setting.graph.nodeCount false }

def sweep (setting : Setting α) (turns : List Turn) (active : Array Bool) (state : State α) : Pass α :=
  race setting active turns ((setting.graph.spans setting.concurrency).map .on) (unvisited setting state)

structure Report (α : Type) where
  state : State α
  passes : List Nat
  failure? : Option (Error α)

def Report.moves (report : Report α) : Nat := report.passes.foldl (· + ·) 0

/-- Makes at most `limit` further passes, until one moves nothing or every node is alone. The volumes
are checked after each pass. -/
def settle (setting : Setting α) :
    (limit : Nat) → (active : Array Bool) → (state : State α) → (passes : List Nat) → Report α
  | 0, _, state, passes => { state, passes := passes.reverse, failure? := some .unsettled }
  | limit + 1, active, state, passes =>
    let pass := sweep setting (setting.turns passes.length) active state
    let volumes : Volumes α := ⟨setting.nodeVolumes, pass.state.communityVolumes⟩
    match volumes.drift? pass.state.assignment with
    | some fault =>
      { state := pass.state, passes := passes.reverse, failure? := some (.inconsistent fault) }
    | none =>
      let passes := pass.moves :: passes
      if pass.moves = 0 ∨ pass.state.occupied = setting.graph.nodeCount then
        { state := pass.state, passes := passes.reverse, failure? := none }
      else settle setting limit pass.awake pass.state passes

/-- More than the number of states between passes, with `n` nodes and binary64 volumes: each node is
awake or not and has one of `n` communities, and each community has one of `2 ^ 64` volumes. So a single
worker that makes more passes would come back to an earlier state and never end; several workers, which
could still leave it with other turns, are given up as well. In exact arithmetic each pass of visits one
after another that moves a node raises the objective, and the number of assignments alone is a limit. -/
def passLimit (n : Nat) : Nat := Nat.pow (n * (1 <<< 65)) n + 1

def run (setting : Setting α) (state : State α) : Report α :=
  let n := setting.graph.nodeCount
  settle setting (passLimit n) (Array.replicate n true) state []

end CommunityDetection.LocalMove
