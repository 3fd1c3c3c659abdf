import CommunityDetection.Proofs.Modularity
import CommunityDetection.Proofs.Refinement.Visits

/-!
# Parts grow along well connected unions

In exact arithmetic, on a graph whose weights are the same in both directions, the members of a part can be
listed in the order in which they came: each later one is well connected to its community and to those
before it, which are well connected to the community too (`Attaches`). So each merge raises the quality of
the partition or keeps it (`Split.quality_le_merge`), and the parts are at least as good as the nodes alone
(`run_attaches`).
-/

namespace CommunityDetection.Refinement
open Finset

variable {K σ : Type} [Field K] [LinearOrder K] {setting : Setting K} {inner : Cells K} {state : State K}
  {node : Nat} {part : Nat × K}

def Setting.volume (setting : Setting K) (A : Finset Nat) : K := ∑ v ∈ A, setting.nodeVolumes.read v

/-- A node attaches to other members of its community: it gains by joining them, and each of the two is well
connected to the rest of the community. -/
structure Attaches (setting : Setting K) (others : Finset Nat) (node : Nat) : Prop where
  gains : setting.gamma * setting.nodeVolumes.read node * setting.volume others ≤
    between setting.graph.weight {node} others
  connected : setting.gamma * setting.nodeVolumes.read node *
      (setting.volume (setting.community node) - setting.nodeVolumes.read node) ≤
    between setting.graph.weight {node} ((setting.community node).erase node)
  well : setting.gamma * setting.volume others *
      (setting.volume (setting.community node) - setting.volume others) ≤
    between setting.graph.weight others (setting.community node \ others)

/-- A list of the members of a part from its name on, in which each later member attaches to those before
it. -/
structure Listing (setting : Setting K) (parts : Assignment) (name : Nat) (members : List Nat) : Prop where
  head : members.head? = some name
  nodup : members.Nodup
  covers : members.toFinset = parts.members setting.graph.nodeCount name
  attaches : ∀ before node after, members = before ++ node :: after → before ≠ [] →
    Attaches setting before.toFinset node

theorem listing_singleton {parts : Assignment} {name : Nat}
    (only : parts.members setting.graph.nodeCount name = {name}) : Listing setting parts name [name] where
  head := rfl
  nodup := List.nodup_singleton name
  covers := by simp [only]
  attaches before node after split nonempty := by
    cases before with
    | nil => exact absurd rfl nonempty
    | cons first before => simp at split

theorem Listing.append {parts later : Assignment} {name : Nat} {members : List Nat}
    (listing : Listing setting parts name members) (outside : node ∉ members)
    (grown : later.members setting.graph.nodeCount name =
      insert node (parts.members setting.graph.nodeCount name))
    (attaches : Attaches setting (parts.members setting.graph.nodeCount name) node) :
    Listing setting later name (members ++ [node]) where
  head := by simp [listing.head]
  nodup := List.nodup_append.mpr ⟨listing.nodup, List.nodup_singleton node, by
    rintro v member u last rfl
    exact outside (List.mem_singleton.mp last ▸ member)⟩
  covers := by
    rw [grown, ← listing.covers]
    ext v
    simp
  attaches before v after split nonempty := by
    -- The last member of the new list is the node, and the others are those of the old list.
    rcases List.eq_nil_or_concat after with rfl | ⟨rest, last, rfl⟩
    · obtain ⟨rfl, same⟩ := List.append_inj' split rfl
      obtain rfl : node = v := by simpa using same
      rw [listing.covers]
      exact attaches
    · rw [List.concat_eq_append, ← List.cons_append, ← List.append_assoc] at split
      obtain ⟨earlier, -⟩ := List.append_inj' split rfl
      exact listing.attaches before v rest earlier nonempty

theorem weight_of_listed (closed : setting.graph.Closed) (split : Split setting state)
    (joins : Joins setting inner state node part) :
    part.2 = between setting.graph.weight {node} (state.parts.members setting.graph.nodeCount part.1) := by
  rw [← split.get_weights closed joins]
  exact (Tally.get_of_mem (Tally.nodup_keys_ofPairs _) joins.listed).symm

variable [IsStrictOrderedRing K]

theorem Course.attaches (closed : setting.graph.Closed) (symmetric : setting.graph.Symmetric)
    (size : setting.nodeVolumes.size = setting.graph.nodeCount)
    (sums : ∀ v < setting.graph.nodeCount, setting.whole v = setting.volume (setting.community v))
    (before : Course setting setting.innerWeights (setting.start setting.innerWeights) state)
    (joins : Joins setting setting.innerWeights state node part) :
    Attaches setting (state.parts.members setting.graph.nodeCount part.1) node := by
  have split := before.split closed
  obtain ⟨used, together, -⟩ := split.joined closed joins
  have volume : state.volumes.read part.1 =
      setting.volume (state.parts.members setting.graph.nodeCount part.1) := by
    obtain ⟨v, bound, equal⟩ := Assignment.mem_used.mp used
    exact (before.partVolumes closed size).sums _ (equal ▸ split.within.bounded v bound)
  have gains := joins.gains
  have connected := joins.connected
  have well := joins.well
  rw [weight_of_listed closed split joins, volume] at gains
  rw [not_lt, read_innerWeights closed joins.bound, needed, sums node joins.bound] at connected
  rw [needed, sums node joins.bound, volume, (before.partCuts closed symmetric).sums _ used,
    together] at well
  exact ⟨by linarith, by linarith, by linarith⟩

theorem Course.listings (closed : setting.graph.Closed) (symmetric : setting.graph.Symmetric)
    (size : setting.nodeVolumes.size = setting.graph.nodeCount)
    (sums : ∀ v < setting.graph.nodeCount, setting.whole v = setting.volume (setting.community v))
    (course : Course setting setting.innerWeights (setting.start setting.innerWeights) state) :
    ∀ name ∈ state.parts.used setting.graph.nodeCount,
      ∃ members, Listing setting state.parts name members := by
  induction course with
  | refl =>
    intro name used
    have bound : name < setting.graph.nodeCount := by
      rwa [Setting.start, Assignment.used_singletons, mem_range] at used
    exact ⟨[name], listing_singleton (Assignment.members_singletons bound)⟩
  | @merge state node part before joins ih =>
    intro name used
    have split := before.split closed
    by_cases same : name = part.1
    · subst same
      obtain ⟨usedBefore, -, others⟩ := split.joined closed joins
      obtain ⟨members, listing⟩ := ih part.1 usedBefore
      have outside : node ∉ members := fun member =>
        (mem_erase.mp (others (listing.covers ▸ List.mem_toFinset.mpr member))).1 rfl
      exact ⟨_, listing.append outside (split.members_merge_self joins)
        (before.attaches closed symmetric size sums joins)⟩
    · obtain ⟨usedBefore, stays⟩ := split.members_merge_of_ne joins same used
      obtain ⟨members, listing⟩ := ih name usedBefore
      exact ⟨members, listing.head, listing.nodup, listing.covers.trans stays.symm, listing.attaches⟩

/-! ## The quality of the parts -/

def Setting.qualityOf (setting : Setting K) (parts : Assignment) : K :=
  quality setting.graph.nodeCount setting.graph.weight setting.nodeVolumes.read setting.gamma parts.of

omit [IsStrictOrderedRing K] in
theorem Split.attraction_eq (split : Split setting state) (bound : node < setting.graph.nodeCount)
    (alone : state.alone.getD node false = true) (name : Nat) :
    attraction setting.graph.nodeCount setting.graph.weight setting.nodeVolumes.read setting.gamma
        state.parts.of node name =
      if name = node then 0
      else between setting.graph.weight {node} (state.parts.members setting.graph.nodeCount name) -
        setting.gamma * setting.nodeVolumes.read node *
          setting.volume (state.parts.members setting.graph.nodeCount name) := by
  have own := split.own_of_alone bound alone
  rw [CommunityDetection.attraction_eq, filter_erase, between_singleton]
  by_cases same : name = node
  · subst same
    have none : ((range setting.graph.nodeCount).filter fun v => state.parts.of v = name).erase name = ∅ := by
      ext v
      simp only [mem_erase, mem_filter, mem_range, notMem_empty, iff_false]
      rintro ⟨ne, bounded, together⟩
      exact ne (((split.alone name bound).mp alone v bounded).mp together)
    rw [none, if_pos rfl]
    simp
  · rw [if_neg same, erase_eq_of_notMem (by simp [own, Ne.symm same])]
    rfl

theorem Split.quality_le_merge (symmetric : setting.graph.Symmetric) (split : Split setting state)
    (joins : Joins setting inner state node part)
    (attaches : Attaches setting (state.parts.members setting.graph.nodeCount part.1) node) :
    setting.qualityOf state.parts ≤ setting.qualityOf (state.parts.assign node part.1) := by
  have gains := attaches.gains
  rw [Setting.qualityOf, Setting.qualityOf,
    Assignment.of_assign (joins.bound.trans_eq split.within.size.symm),
    quality_update symmetric _ joins.bound, split.own_of_alone joins.bound joins.alone,
    split.attraction_eq joins.bound joins.alone, split.attraction_eq joins.bound joins.alone,
    if_neg joins.other, if_pos rfl]
  linarith

theorem Course.quality_le (closed : setting.graph.Closed) (symmetric : setting.graph.Symmetric)
    (size : setting.nodeVolumes.size = setting.graph.nodeCount)
    (sums : ∀ v < setting.graph.nodeCount, setting.whole v = setting.volume (setting.community v))
    (course : Course setting setting.innerWeights (setting.start setting.innerWeights) state) :
    setting.qualityOf (.singletons setting.graph.nodeCount) ≤ setting.qualityOf state.parts := by
  induction course with
  | refl => exact le_rfl
  | @merge state node part before joins ih =>
    exact ih.trans ((before.split closed).quality_le_merge symmetric joins
      (before.attaches closed symmetric size sums joins))

omit [IsStrictOrderedRing K] in
theorem PartVolumes.modularity_eq (closed : setting.graph.Closed)
    (size : setting.nodeVolumes.size = setting.graph.nodeCount) (split : Split setting state)
    (volumes : PartVolumes setting state) (concurrency : Nat) :
    setting.graph.modularity state.parts state.volumes setting.gamma 1 concurrency =
      setting.qualityOf state.parts := by
  have sound : Volumes.Sound ⟨setting.nodeVolumes, state.volumes⟩ state.parts setting.graph.nodeCount :=
    ⟨size, volumes.size, volumes.sums⟩
  rw [Graph.modularity_eq_quality closed sound split.within.bounded, one_mul]
  rfl

/-- Whatever a lawful sampler draws, at every resolution: the members of a part can be listed from its name
on so that each later one attaches to those before it. The parts have at least the modularity that the
nodes have alone. -/
theorem run_attaches (closed : setting.graph.Closed) (symmetric : setting.graph.Symmetric)
    (size : setting.nodeVolumes.size = setting.graph.nodeCount)
    (sums : ∀ v < setting.graph.nodeCount, setting.whole v = setting.volume (setting.community v))
    {sampler : Sampler σ K} (lawful : sampler.Lawful) (draws : σ) :
    let n := setting.graph.nodeCount
    let result := (run setting sampler draws).1
    (∀ v < n, ∃ members, Listing setting result.parts (result.parts.of v) members) ∧
    ∀ concurrency,
      setting.graph.modularity (.singletons n) setting.nodeVolumes setting.gamma 1 concurrency ≤
        setting.graph.modularity result.parts result.volumes setting.gamma 1 concurrency := by
  obtain ⟨state, course, reached⟩ := run_course setting lawful draws
  have alone := split_start setting setting.innerWeights
  have unmerged := partVolumes_start size setting.innerWeights
  dsimp only
  rw [reached]
  refine ⟨fun v bound => ?_, fun concurrency => ?_⟩
  · exact course.listings closed symmetric size sums _ (Assignment.mem_used.mpr ⟨v, bound, rfl⟩)
  · rw [(course.partVolumes closed size).modularity_eq closed size (course.split closed)]
    exact (unmerged.modularity_eq closed size alone concurrency).le.trans
      (course.quality_le closed symmetric size sums)

theorem run_attaches_loopedPath :
    let result := (run loopedSetting (Sampler.eager ℚ) ()).1
    (∃ members, Listing loopedSetting result.parts 1 members ∧ 0 ∈ members) ∧
      Graph.loopedPath.modularity (.singletons 4) loopedSetting.nodeVolumes (1 / 8) 1 1 ≤
        Graph.loopedPath.modularity result.parts result.volumes (1 / 8) 1 1 := by
  intro result
  have nodes : loopedSetting.graph.nodeCount = 4 := by decide +kernel
  have closed : loopedSetting.graph.Closed := Graph.fromEdges_loopedPath.closed
  have symmetric : loopedSetting.graph.Symmetric := Graph.fromEdges_loopedPath.symmetric
  have sums : ∀ v < loopedSetting.graph.nodeCount,
      loopedSetting.whole v = loopedSetting.volume (loopedSetting.community v) := by decide +kernel
  obtain ⟨listed, raised⟩ :=
    run_attaches closed symmetric (by decide +kernel) sums (Sampler.lawful_eager ℚ) ()
  obtain ⟨members, listing⟩ := listed 0 (by decide +kernel)
  have named : result.parts.of 0 = 1 := by decide +kernel
  rw [named] at listing
  refine ⟨⟨members, listing, ?_⟩, ?_⟩
  · rw [← List.mem_toFinset, listing.covers, Assignment.mem_members]
    exact ⟨by decide +kernel, named⟩
  · have higher := raised 1
    rw [nodes] at higher
    exact higher

end CommunityDetection.Refinement
