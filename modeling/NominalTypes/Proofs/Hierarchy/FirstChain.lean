import Mathlib.Data.List.Induction
import Mathlib.Data.List.Nodup
import Mathlib.Data.List.Perm.Subperm
import Mathlib.Data.List.Shortlex
import NominalTypes.Proofs.Hierarchy.Graph

namespace NominalTypes

/-! Shorter ways up come before longer ones.  Of two ways of the same length,
the one comes first that takes the earlier edge where they begin to differ. -/

def Edge.rank : Edge → Nat
  | .superclass => 0
  | .interface index => index + 1

namespace Step

def ranks (steps : List Step) : List Nat := steps.map (·.edge.rank)

@[simp] theorem length_ranks (steps : List Step) :
    (ranks steps).length = steps.length := by
  simp [ranks]

def Earlier (first second : List Step) : Prop :=
  List.Shortlex (· < ·) (ranks first) (ranks second)

theorem earlier_iff {first second : List Step} :
    Earlier first second ↔ first.length < second.length ∨
      first.length = second.length ∧
        List.Lex (· < ·) (ranks first) (ranks second) := by
  rw [Earlier, List.shortlex_def, length_ranks, length_ranks]

theorem Earlier.asymm {first second : List Step}
    (earlier : Earlier first second) : ¬ Earlier second first :=
  (inferInstance : Std.Asymm (List.Shortlex ((· < ·) : Nat → Nat → Prop))).asymm
    _ _ earlier

theorem Earlier.length_le {first second : List Step}
    (earlier : Earlier first second) : first.length ≤ second.length := by
  rcases earlier_iff.mp earlier with shorter | ⟨same, _⟩
  · exact Nat.le_of_lt shorter
  · exact Nat.le_of_eq same

private theorem lex_append {first second : List Nat}
    (smaller : List.Lex (· < ·) first second)
    (lengths : first.length = second.length) (more others : List Nat) :
    List.Lex (· < ·) (first ++ more) (second ++ others) := by
  induction smaller with
  | nil => cases lengths
  | rel below => exact .rel below
  | cons _ ih => exact .cons (ih (Nat.succ.inj lengths))

theorem Earlier.append {first second : List Step}
    (earlier : Earlier first second) {more others : List Step}
    (lengths : more.length = others.length) :
    Earlier (first ++ more) (second ++ others) := by
  rcases earlier_iff.mp earlier with shorter | ⟨same, smaller⟩
  · exact earlier_iff.mpr (.inl (by simp [lengths, shorter]))
  · refine earlier_iff.mpr (.inr ⟨by simp [same, lengths], ?_⟩)
    simp only [ranks, List.map_append]
    exact lex_append smaller (by simp [same]) _ _

theorem Earlier.of_rank_lt {first second : Step}
    (below : first.edge.rank < second.edge.rank) (steps : List Step) :
    Earlier (steps ++ [first]) (steps ++ [second]) := by
  rw [Earlier, ranks, ranks, List.map_append, List.map_append]
  exact ((List.shortlex_singleton_iff _ _).mpr below).append_left _

end Step

namespace Catalog

open Step (Earlier ranks)

variable {catalog : Catalog}

theorem steps_pairwise_rank (catalog : Catalog) (id : TypeId) :
    (catalog.steps id).Pairwise fun first second =>
      first.edge.rank < second.edge.rank := by
  rw [steps, List.pairwise_append]
  refine ⟨?_, ?_, ?_⟩
  · cases catalog.superclass id <;> simp
  · rw [List.pairwise_iff_getElem]
    intro index other _ _ smaller
    simpa [Edge.rank] using smaller
  · intro first own second interface
    obtain ⟨parent, _, rfl⟩ :=
      Option.map_eq_some_iff.mp (Option.mem_toList.mp own)
    obtain ⟨index, _, rfl⟩ := List.mem_mapIdx.mp interface
    exact Nat.succ_pos index

theorem step_eq_of_rank {id : TypeId} {first second : Step}
    (declared : first ∈ catalog.steps id)
    (declaredToo : second ∈ catalog.steps id)
    (same : first.edge.rank = second.edge.rank) : first = second := by
  have distinct : (ranks (catalog.steps id)).Nodup :=
    List.pairwise_map.mpr ((steps_pairwise_rank catalog id).imp fun below =>
      Nat.ne_of_lt below)
  exact List.inj_on_of_nodup_map distinct declared declaredToo same

namespace Chain

variable {origin middle target : TypeId}

theorem append {first second : List Step}
    (below : catalog.Chain origin first middle)
    (above : catalog.Chain middle second target) :
    catalog.Chain origin (first ++ second) target := by
  induction below with
  | nil id => exact above
  | cons declared _ ih => exact .cons declared (ih above)

theorem exists_middle {first second : List Step}
    (chain : catalog.Chain origin (first ++ second) target) :
    ∃ middle, catalog.Chain origin first middle ∧
      catalog.Chain middle second target := by
  induction first generalizing origin with
  | nil => exact ⟨origin, .nil origin, chain⟩
  | cons step rest ih =>
      cases chain with
      | cons declared above =>
          obtain ⟨middle, below, above⟩ := ih above
          exact ⟨middle, .cons declared below, above⟩

theorem eq_of_ranks {arrival : TypeId} {steps others : List Step}
    (chain : catalog.Chain origin steps target)
    (other : catalog.Chain origin others arrival)
    (same : ranks steps = ranks others) : steps = others := by
  induction chain generalizing others with
  | nil id =>
      cases other with
      | nil => rfl
      | cons => cases same
  | cons declared _ ih =>
      cases other with
      | nil => cases same
      | cons declaredToo above =>
          obtain ⟨head, tail⟩ := List.cons.inj same
          obtain rfl := step_eq_of_rank declared declaredToo head
          rw [ih above tail]

theorem earlier_or_eq {arrival : TypeId} {steps others : List Step}
    (chain : catalog.Chain origin steps target)
    (other : catalog.Chain origin others arrival) :
    Earlier steps others ∨ steps = others ∨ Earlier others steps := by
  have ordered : List.Shortlex (· < ·) (ranks steps) (ranks others) ∨
      ranks steps = ranks others ∨
      List.Shortlex (· < ·) (ranks others) (ranks steps) :=
    Std.Trichotomous.rel_or_eq_or_rel_swap
  rcases ordered with earlier | same | later
  · exact .inl earlier
  · exact .inr (.inl (chain.eq_of_ranks other same))
  · exact .inr (.inr later)

/-- A chain comes to an identity that it visits after the first of its steps. -/
theorem exists_split_of_mem {steps : List Step}
    (chain : catalog.Chain origin steps target)
    (visited : middle ∈ origin :: steps.map (·.parent.id)) :
    ∃ below above, steps = below ++ above ∧
      catalog.Chain origin below middle := by
  induction chain with
  | nil id =>
      obtain rfl := List.mem_singleton.mp visited
      exact ⟨[], [], rfl, .nil middle⟩
  | @cons origin target step rest declared _ ih =>
      rcases List.mem_cons.mp visited with rfl | later
      · exact ⟨[], step :: rest, rfl, .nil middle⟩
      · obtain ⟨below, above, rfl, chain⟩ := ih later
        exact ⟨step :: below, above, rfl, .cons declared chain⟩

/-- A chain comes through each identity that it visits after no more
steps than it has. -/
theorem exists_chain_of_mem {steps : List Step}
    (chain : catalog.Chain origin steps target) {id : TypeId}
    (visited : id ∈ origin :: steps.map (·.parent.id)) :
    ∃ first, catalog.Chain origin first id ∧ first.length ≤ steps.length := by
  obtain ⟨below, above, rfl, first⟩ := chain.exists_split_of_mem visited
  exact ⟨below, first, by simp⟩

theorem target_unique {arrival : TypeId} {steps : List Step}
    (chain : catalog.Chain origin steps target)
    (chainToo : catalog.Chain origin steps arrival) : arrival = target := by
  induction chain with
  | nil id =>
      cases chainToo
      rfl
  | cons _ _ ih =>
      cases chainToo with
      | cons _ above => exact ih above

/-- Only the last of the identities that a chain visits may be undeclared. -/
theorem visited_declared {steps : List Step}
    (chain : catalog.Chain origin steps target) :
    ∀ id ∈ (origin :: steps.map (·.parent.id)).dropLast,
      catalog.contains id = true := by
  induction chain with
  | nil id => simp
  | @cons origin target step rest declared _ ih =>
      intro id visited
      rw [List.map_cons, List.dropLast_cons_cons] at visited
      rcases List.mem_cons.mp visited with rfl | later
      · exact contains_of_hasParent (hasParent_of_mem_steps declared)
      · exact ih id later

end Chain

/-- The steps lead to the target, and every other way there comes after them. -/
structure FirstChain (catalog : Catalog) (origin : TypeId) (steps : List Step)
    (target : TypeId) : Prop where
  chain : catalog.Chain origin steps target
  first : ∀ other, catalog.Chain origin other target →
    other = steps ∨ Earlier steps other

theorem exists_firstChain {origin target : TypeId} {steps : List Step}
    (chain : catalog.Chain origin steps target) :
    ∃ first, catalog.FirstChain origin first target := by
  have wellFounded : WellFounded Earlier :=
    InvImage.wf ranks (List.Shortlex.wf Nat.lt_wfRel.wf)
  obtain ⟨first, leads, least⟩ :=
    wellFounded.has_min {steps | catalog.Chain origin steps target}
      ⟨steps, chain⟩
  refine ⟨first, leads, fun other leadsToo => ?_⟩
  rcases Chain.earlier_or_eq leads leadsToo with earlier | same | later
  · exact .inr earlier
  · exact .inl same.symm
  · exact absurd later (least other leadsToo)

namespace FirstChain

variable {origin target : TypeId} {steps : List Step}

theorem unique (first : catalog.FirstChain origin steps target)
    {others : List Step} (second : catalog.FirstChain origin others target) :
    steps = others := by
  rcases first.first others second.chain with same | earlier
  · exact same.symm
  · rcases second.first steps first.chain with same | later
    · exact same
    · exact absurd later earlier.asymm

theorem length_le (first : catalog.FirstChain origin steps target)
    {other : List Step} (chain : catalog.Chain origin other target) :
    steps.length ≤ other.length := by
  rcases first.first other chain with rfl | earlier
  · exact Nat.le_refl _
  · exact earlier.length_le

/-- An earlier way to an identity on a first way would make the whole way
an earlier one. -/
theorem exists_middle {more : List Step}
    (first : catalog.FirstChain origin (steps ++ more) target) :
    ∃ middle, catalog.FirstChain origin steps middle ∧
      catalog.Chain middle more target := by
  obtain ⟨middle, below, above⟩ := first.chain.exists_middle
  refine ⟨middle, ⟨below, fun other chain => ?_⟩, above⟩
  rcases below.earlier_or_eq chain with earlier | same | later
  · exact .inr earlier
  · exact .inl same.symm
  · rcases first.first _ (chain.append above) with same | earlier
    · exact .inl (List.append_cancel_right same)
    · exact absurd (later.append rfl) earlier.asymm

theorem of_self (first : catalog.FirstChain origin steps origin) : steps = [] :=
  List.eq_nil_of_length_eq_zero (Nat.le_zero.mp (first.length_le (.nil origin)))

theorem nil (origin : TypeId) : catalog.FirstChain origin [] origin := by
  refine ⟨.nil origin, fun other _ => ?_⟩
  cases other with
  | nil => exact .inl rfl
  | cons step rest => exact .inr (Step.earlier_iff.mpr (.inl (Nat.succ_pos _)))

theorem nodup (first : catalog.FirstChain origin steps target) :
    (origin :: steps.map (·.parent.id)).Nodup := by
  induction steps using List.reverseRecOn generalizing target with
  | nil => simp
  | append_singleton steps step ih =>
      obtain ⟨middle, below, above⟩ := first.exists_middle
      cases above with
      | cons declared above =>
          cases above
          rw [List.map_append, ← List.cons_append, List.nodup_append]
          refine ⟨ih below, by simp, ?_⟩
          intro id visited other last same
          obtain rfl : other = step.parent.id := by simpa using last
          -- Were the last identity visited before, the way could
          -- have ended there.
          obtain ⟨shortcut, chain, length⟩ :=
            below.chain.exists_chain_of_mem (same ▸ visited)
          have longer := first.length_le chain
          rw [List.length_append, List.length_singleton] at longer
          omega

theorem length_le_size (first : catalog.FirstChain origin steps target) :
    steps.length ≤ catalog.size := by
  have inside : (origin :: steps.map (·.parent.id)).dropLast ⊆ catalog.ids :=
    fun id visited =>
      (mem_ids_iff catalog id).mpr (first.chain.visited_declared id visited)
  have distinct := first.nodup.sublist (List.dropLast_sublist _)
  simpa [ids] using (List.subperm_of_subset distinct inside).length_le

end FirstChain

end Catalog

end NominalTypes
