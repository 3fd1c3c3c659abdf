import CommunityDetection.Proofs.LocalMove.Programs

/-!
# What a visit may do to its node

While a node moves, its community, the community whose volume includes it and the community whose size
includes it may differ: its `Standing`. `Program.Follows` says that a program only takes the node out
where it is and puts it where it goes, and only into communities open to it, whatever the other workers
do in between. The accesses of a visit follow these rules and leave the node in one place
(`follows_visiting`).
-/

namespace CommunityDetection.LocalMove

variable {α : Type}

structure Standing where
  held : Nat
  charged : Option Nat
  booked : Option Nat

def Standing.at (community : Nat) : Standing := ⟨community, some community, some community⟩

def Standing.Settled (standing : Standing) : Prop :=
  standing.charged = some standing.held ∧ standing.booked = some standing.held

/-- The node that is visited in a graph with `n` nodes, its volume, and the communities in which each
node may be. -/
structure Rules (α : Type) where
  n : Nat
  node : Nat
  volume : α
  opens : Nat → Nat → Prop

variable {ρ : Type} [Scalar α]

def Access.Permitted (rules : Rules α) : {ρ : Type} → Access α ρ → Standing → Prop
  | _, .communityOf other, _ => other < rules.n
  | _, .assign other community, _ => other = rules.node ∧ rules.opens other community
  | _, .add community amount, standing =>
    standing.charged = some community ∧ amount = -rules.volume ∨
      standing.charged = none ∧ community = standing.held ∧ amount = rules.volume
  | _, .leave community, standing => standing.booked = some community
  | _, .enter community, standing => standing.booked = none ∧ community = standing.held
  | _, _, _ => True

/-- What a worker may read. The community of its own node is changed by no other worker. -/
def Access.Answers (rules : Rules α) : {ρ : Type} → Access α ρ → Standing → ρ → Prop
  | _, .communityOf other, standing, answer =>
    if other = rules.node then answer = standing.held else rules.opens other answer
  | _, _, _, _ => True

def Access.turns : {ρ : Type} → Access α ρ → Standing → Standing
  | _, .assign _ community, standing => { standing with held := community }
  | _, .add community _, standing =>
    { standing with charged := if standing.charged = none then some community else none }
  | _, .leave _, standing => { standing with booked := none }
  | _, .enter community, standing => { standing with booked := some community }
  | _, _, standing => standing

namespace Program

variable {β γ : Type}

def Follows (rules : Rules α) (result : Standing → β → Prop) : Program α β → Standing → Prop
  | .done value, standing => result standing value
  | .next access answered, standing =>
    access.Permitted rules standing ∧
      ∀ answer, access.Answers rules standing answer →
        (answered answer).Follows rules result (access.turns standing)

variable {rules : Rules α} {standing : Standing}

theorem Follows.bind {program : Program α β} {after : β → Program α γ} {middle : Standing → β → Prop}
    {result : Standing → γ → Prop} (first : program.Follows rules middle standing)
    (second : ∀ standing value, middle standing value → (after value).Follows rules result standing) :
    (program >>= after).Follows rules result standing := by
  induction program generalizing standing with
  | done value => exact second standing value first
  | next access answered ih => exact ⟨first.1, fun answer answers => ih answer (first.2 answer answers)⟩

theorem follows_foldlM (kept : β → Prop) {step : β → γ → Program α β} {items : List γ} {first : β}
    (steps : ∀ before, ∀ item ∈ items, kept before →
      (step before item).Follows rules (fun after value => after = standing ∧ kept value) standing)
    (holds : kept first) :
    (items.foldlM step first).Follows rules (fun after value => after = standing ∧ kept value) standing := by
  induction items generalizing first with
  | nil => exact ⟨rfl, holds⟩
  | cons item items ih =>
    refine (steps first item List.mem_cons_self holds).bind fun _ value result => ?_
    obtain ⟨rfl, kept⟩ := result
    exact ih (fun before item member => steps before item (List.mem_cons_of_mem _ member)) kept

end Program

open Program (Follows follows_foldlM)

variable {rules : Rules α} {standing : Standing}

theorem follows_weigh {others : Row α} (inside : ∀ entry ∈ others, entry.1 < rules.n)
    (apart : ∀ entry ∈ others, entry.1 ≠ rules.node)
    (opens : ∀ entry ∈ others, ∀ community, rules.opens entry.1 community → rules.opens rules.node community) :
    (weigh others).Follows rules (fun after weights => after = standing ∧
      ∀ key ∈ weights.map Prod.fst, rules.opens rules.node key) standing := by
  refine follows_foldlM (fun weights : Tally α => ∀ key ∈ weights.map Prod.fst, rules.opens rules.node key)
    (fun weights entry member kept => ?_) (by simp)
  refine ⟨inside entry member, fun community read => ⟨rfl, fun key listed => ?_⟩⟩
  have possible : rules.opens entry.1 community := by
    simpa [Access.Answers, apart entry member] using read
  rcases (Tally.mem_keys_add _ _ _ _).mp listed with rfl | listed
  · exact opens entry member _ possible
  · exact kept key listed

theorem follows_bars (home : Nat) (alone : Bool) (candidate : Nat) :
    (bars home alone candidate).Follows rules (fun after _ => after = standing) standing := by
  unfold bars
  split
  · exact ⟨trivial, fun _ _ => rfl⟩
  · rfl

theorem follows_compare (kept : Nat → Prop) {gamma volume : α} {home : Nat} {alone : Bool}
    {best candidate : Nat × α} (before : kept best.1) (open_ : kept candidate.1) :
    (compare gamma volume home alone best candidate).Follows rules
      (fun after value => after = standing ∧ kept value.1) standing := by
  unfold compare
  split
  · exact ⟨rfl, before⟩
  · refine (follows_bars home alone candidate.1).bind fun _ barring same => ?_
    · subst same
      split
      · exact ⟨rfl, before⟩
      · refine ⟨trivial, fun value _ => ⟨rfl, ?_⟩⟩
        split
        · exact open_
        · exact before

theorem follows_transfer {home community : Nat} (open_ : rules.opens rules.node community) :
    (transfer rules.node rules.volume home community).Follows rules
      (fun after _ => after.Settled) (.at home) :=
  ⟨trivial, fun _ _ => ⟨⟨rfl, open_⟩, fun _ _ => ⟨.inl ⟨rfl, rfl⟩, fun _ _ => ⟨.inr ⟨rfl, rfl, rfl⟩,
    fun _ _ => ⟨rfl, fun _ _ => ⟨⟨rfl, rfl⟩, fun _ _ => ⟨rfl, rfl⟩⟩⟩⟩⟩⟩⟩

theorem follows_rouse {other : Nat} (inside : other < rules.n) (community : Nat) :
    (rouse community other).Follows rules (fun after _ => after = standing) standing := by
  refine ⟨inside, fun answer _ => ?_⟩
  change Follows rules _ (if answer ≠ community then Program.ask (.wake other) else pure ()) standing
  split
  · exact ⟨trivial, fun _ _ => rfl⟩
  · rfl

theorem follows_forM_rouse {others : Row α} (inside : ∀ entry ∈ others, entry.1 < rules.n) (community : Nat)
    (settled : standing.Settled) :
    (forM others fun entry => rouse community entry.1 : Program α Unit).Follows rules
      (fun after _ => after.Settled) standing := by
  induction others with
  | nil => exact settled
  | cons entry others ih =>
    rw [List.forM_cons]
    refine (follows_rouse (inside entry List.mem_cons_self) community).bind fun _ _ same => ?_
    exact same ▸ ih fun other member => inside other (List.mem_cons_of_mem _ member)

theorem follows_visiting {setting : Setting α} {node home : Nat} {opens : Nat → Nat → Prop}
    (closed : setting.graph.Closed) (bound : node < setting.graph.nodeCount)
    (passes : ∀ u v, setting.graph.Adjacent u v → ∀ community, opens v community → opens u community) :
    (visiting setting node).Follows
      ⟨setting.graph.nodeCount, node, setting.nodeVolumes.read node, opens⟩
      (fun after _ => after.Settled) (.at home) := by
  have entries : ∀ entry ∈ others setting.graph node,
      entry ∈ setting.graph.row node ∧ entry.1 ≠ node := by simp [others]
  have inside : ∀ entry ∈ others setting.graph node, entry.1 < setting.graph.nodeCount :=
    fun entry member => closed node entry (entries entry member).1
  refine ⟨bound, fun read same => ?_⟩
  rw [Access.Answers, if_pos rfl] at same
  obtain rfl : read = home := same
  refine (follows_weigh inside (fun entry member => (entries entry member).2) fun entry member =>
    passes node entry.1 ⟨entry, (entries entry member).1, rfl⟩).bind fun _ weights weighed => ?_
  obtain ⟨rfl, opened⟩ := weighed
  refine ⟨trivial, fun rest _ => ⟨trivial, fun size _ => ?_⟩⟩
  refine (follows_foldlM (fun best : Nat × α => best.1 = read ∨ opens node best.1)
    (fun before candidate member kept => ?_) (.inl rfl)).bind fun _ best found => ?_
  · exact follows_compare (fun community => community = read ∨ opens node community) kept
      (.inr (opened _ (List.mem_map_of_mem member)))
  · obtain ⟨rfl, found⟩ := found
    split
    · rename_i moves
      exact (follows_transfer (found.resolve_left moves)).bind fun _ _ settled =>
        follows_forM_rouse inside _ settled
    · exact ⟨rfl, rfl⟩

end CommunityDetection.LocalMove
