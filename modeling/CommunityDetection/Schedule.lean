/-!
# Schedules

The spans of a graph are worked on at the same time, by one worker each, and what the workers share may
come out differently with the order in which they get on. A schedule gives this order: it names the
worker that is next, again and again. Where its turns have run out, the workers finish one after another in
the order of the spans, so the empty schedule works through the nodes in their order.
-/

namespace CommunityDetection

/-- In its turn a worker either makes a whole visit, or what is left of the one it has begun, or makes
a single access to what the workers share. -/
inductive Turn where
  | visit (worker : Nat)
  | access (worker : Nat)
deriving DecidableEq, Repr

def Turn.worker : Turn → Nat
  | .visit worker => worker
  | .access worker => worker

structure Schedule where
  /-- The workers that add the volume of their next node to that of its community. -/
  additions : List Nat := []
  /-- The turns in the passes over the level of an iteration. -/
  turns : (iteration pass : Nat) → List Turn := fun _ _ => []

/-- The items of some queues in the order in which turns take them. -/
def Schedule.interleave {β : Type} : (turns : List Nat) → (queues : List (List β)) → List β
  | [], queues => queues.flatten
  | turn :: turns, queues =>
    match queues[turn]? with
    | some (item :: queue) => item :: interleave turns (queues.set turn queue)
    | _ => interleave turns queues

end CommunityDetection
