import Mathlib.Data.List.Basic
import NominalTypes.Hierarchy.Walk
import Std.Data.TreeSet.Lemmas

namespace NominalTypes

/-! What a breadth-first walk finds when nodes are expanded without effects. -/

open Std (TreeSet)

section Newcomers

variable {α : Type} (idOf : α → TypeId)

theorem mem_insert_iff (seen : TreeSet TypeId) (id other : TypeId) :
    other ∈ seen.insert id ↔ other = id ∨ other ∈ seen := by
  rw [TreeSet.mem_insert, Std.compare_eq_iff_eq, eq_comm]

theorem newcomers_of_mem {seen : TreeSet TypeId} {candidate : α}
    (known : idOf candidate ∈ seen) (rest : List α) :
    newcomers idOf seen (candidate :: rest) = newcomers idOf seen rest := by
  simp [newcomers, TreeSet.contains_iff_mem, known]

theorem newcomers_of_not_mem {seen : TreeSet TypeId} {candidate : α}
    (new : idOf candidate ∉ seen) (rest : List α) :
    newcomers idOf seen (candidate :: rest) =
      (candidate :: (newcomers idOf (seen.insert (idOf candidate)) rest).1,
        (newcomers idOf (seen.insert (idOf candidate)) rest).2) := by
  simp [newcomers, TreeSet.contains_iff_mem, new]

theorem mem_of_mem_newcomers {seen : TreeSet TypeId}
    {candidates : List α} {node : α}
    (found : node ∈ (newcomers idOf seen candidates).1) :
    node ∈ candidates ∧ idOf node ∉ seen := by
  induction candidates generalizing seen with
  | nil => cases found
  | cons candidate rest ih =>
      by_cases known : idOf candidate ∈ seen
      · rw [newcomers_of_mem idOf known] at found
        obtain ⟨member, new⟩ := ih found
        exact ⟨List.mem_cons_of_mem _ member, new⟩
      · rw [newcomers_of_not_mem idOf known] at found
        rcases List.mem_cons.mp found with rfl | later
        · exact ⟨List.mem_cons_self, known⟩
        · obtain ⟨member, new⟩ := ih later
          rw [mem_insert_iff, not_or] at new
          exact ⟨List.mem_cons_of_mem _ member, new.2⟩

theorem mem_seen_newcomers_iff (seen : TreeSet TypeId) (candidates : List α)
    (id : TypeId) :
    id ∈ (newcomers idOf seen candidates).2 ↔
      id ∈ seen ∨ ∃ node ∈ (newcomers idOf seen candidates).1,
        idOf node = id := by
  induction candidates generalizing seen with
  | nil => simp [newcomers]
  | cons candidate rest ih =>
      by_cases known : idOf candidate ∈ seen
      · rw [newcomers_of_mem idOf known]
        exact ih seen
      · rw [newcomers_of_not_mem idOf known, ih, mem_insert_iff]
        simp only [List.mem_cons, exists_eq_or_imp, eq_comm (a := id), or_assoc,
          or_left_comm (a := idOf candidate = id)]

theorem mem_seen_of_mem_candidates {seen : TreeSet TypeId}
    {candidates : List α} {node : α} (member : node ∈ candidates) :
    idOf node ∈ (newcomers idOf seen candidates).2 := by
  induction candidates generalizing seen with
  | nil => cases member
  | cons candidate rest ih =>
      by_cases known : idOf candidate ∈ seen
      · rw [newcomers_of_mem idOf known]
        rcases List.mem_cons.mp member with rfl | later
        · exact (mem_seen_newcomers_iff idOf _ _ _).mpr (.inl known)
        · exact ih later
      · rw [newcomers_of_not_mem idOf known]
        rcases List.mem_cons.mp member with rfl | later
        · exact (mem_seen_newcomers_iff idOf _ _ _).mpr
            (.inl ((mem_insert_iff _ _ _).mpr (.inl rfl)))
        · exact ih later

theorem newcomers_sublist (seen : TreeSet TypeId) (candidates : List α) :
    (newcomers idOf seen candidates).1.Sublist candidates := by
  induction candidates generalizing seen with
  | nil => exact .slnil
  | cons candidate rest ih =>
      by_cases known : idOf candidate ∈ seen
      · rw [newcomers_of_mem idOf known]
        exact (ih seen).cons candidate
      · rw [newcomers_of_not_mem idOf known]
        exact (ih _).cons_cons candidate

/-- Of the candidates with one identity the first stays. -/
theorem newcomers_first {before : α → α → Prop} {seen : TreeSet TypeId}
    {candidates : List α} (sorted : candidates.Pairwise before) {node other : α}
    (stays : node ∈ (newcomers idOf seen candidates).1)
    (member : other ∈ candidates) (ids : idOf other = idOf node) :
    other = node ∨ before node other := by
  induction candidates generalizing seen with
  | nil => cases member
  | cons candidate rest ih =>
      obtain ⟨ahead, sorted⟩ := List.pairwise_cons.mp sorted
      have new := (mem_of_mem_newcomers idOf stays).2
      by_cases known : idOf candidate ∈ seen
      · rw [newcomers_of_mem idOf known] at stays
        rcases List.mem_cons.mp member with rfl | member
        · exact absurd (ids ▸ known) new
        · exact ih sorted stays member
      · rw [newcomers_of_not_mem idOf known] at stays
        rcases List.mem_cons.mp stays with rfl | later
        · rcases List.mem_cons.mp member with rfl | member
          · exact .inl rfl
          · exact .inr (ahead other member)
        · rcases List.mem_cons.mp member with rfl | member
          · have newer := (mem_of_mem_newcomers idOf later).2
            exact absurd ((mem_insert_iff seen _ _).mpr (.inl ids.symm)) newer
          · exact ih sorted later member

/-- The images of the newcomers are the newcomers among the images, if
identities are renamed one to one. -/
theorem newcomers_map {β : Type} (idOf' : β → TypeId) (image : α → β)
    {σ : TypeId → TypeId} (injective : Function.Injective σ)
    {candidates : List α}
    (ids : ∀ node ∈ candidates, idOf' (image node) = σ (idOf node))
    {seen seen' : TreeSet TypeId} (same : ∀ id, σ id ∈ seen' ↔ id ∈ seen) :
    (newcomers idOf' seen' (candidates.map image)).1 =
        (newcomers idOf seen candidates).1.map image ∧
      ∀ id, σ id ∈ (newcomers idOf' seen' (candidates.map image)).2 ↔
        id ∈ (newcomers idOf seen candidates).2 := by
  induction candidates generalizing seen seen' with
  | nil => exact ⟨rfl, same⟩
  | cons candidate rest ih =>
      have first : idOf' (image candidate) = σ (idOf candidate) :=
        ids _ List.mem_cons_self
      have later := fun node member => ids node (List.mem_cons_of_mem _ member)
      by_cases known : idOf candidate ∈ seen
      · have knownToo : idOf' (image candidate) ∈ seen' :=
          first ▸ (same _).mpr known
        rw [List.map_cons, newcomers_of_mem idOf' knownToo,
          newcomers_of_mem idOf known]
        exact ih later same
      · have newToo : idOf' (image candidate) ∉ seen' :=
          fun old => known ((same _).mp (first ▸ old))
        rw [List.map_cons, newcomers_of_not_mem idOf' newToo,
          newcomers_of_not_mem idOf known, first]
        have inserted : ∀ id, σ id ∈ seen'.insert (σ (idOf candidate)) ↔
            id ∈ seen.insert (idOf candidate) := by
          intro id
          rw [mem_insert_iff, mem_insert_iff, injective.eq_iff, same]
        obtain ⟨nodes, ids⟩ := ih later inserted
        exact ⟨by rw [nodes, List.map_cons], ids⟩

end Newcomers

/-! The walk itself. -/

section Walk

variable {α : Type} (idOf : α → TypeId) (expand : α → List α)

/-- The nodes beyond a level that a walk without effects finds. -/
def visits (levels : Nat) (seen : TreeSet TypeId) (level : List α) : List α :=
  Id.run (walk idOf (fun node => pure (expand node)) levels seen level)

theorem run_expandAll (nodes : List α) :
    Id.run (expandAll (fun node => pure (expand node)) nodes) =
      nodes.flatMap expand := by
  induction nodes with
  | nil => rfl
  | cons node rest ih =>
      rw [List.flatMap_cons, ← ih]
      rfl

@[simp] theorem visits_zero (seen : TreeSet TypeId) (level : List α) :
    visits idOf expand 0 seen level = [] := rfl

theorem visits_succ (levels : Nat) (seen : TreeSet TypeId) (level : List α) :
    visits idOf expand (levels + 1) seen level =
      if (newcomers idOf seen (level.flatMap expand)).1.isEmpty then []
      else
        (newcomers idOf seen (level.flatMap expand)).1 ++
          visits idOf expand levels
            (newcomers idOf seen (level.flatMap expand)).2
            (newcomers idOf seen (level.flatMap expand)).1 := by
  rw [← run_expandAll expand level]
  simp only [visits, walk, Id.run_bind]
  split <;> rfl

/-- Walks over nodes and over their images run side by side. -/
theorem visits_map {β : Type} (idOf' : β → TypeId) (expand' : β → List β)
    (image : α → β) {σ : TypeId → TypeId} (injective : Function.Injective σ)
    (invariant : α → Prop)
    (ids : ∀ node, invariant node → idOf' (image node) = σ (idOf node))
    (expands : ∀ node, invariant node →
      expand' (image node) = (expand node).map image) (passes :
      ∀ node, invariant node → ∀ next ∈ expand node, invariant next)
    (levels : Nat) {seen seen' : TreeSet TypeId}
    (same : ∀ id, σ id ∈ seen' ↔ id ∈ seen) (level : List α)
    (start : ∀ node ∈ level, invariant node) :
    visits idOf' expand' levels seen' (level.map image) =
      (visits idOf expand levels seen level).map image := by
  induction levels generalizing seen seen' level with
  | zero => rfl
  | succ levels ih =>
      have candidates : (level.map image).flatMap expand' =
          (level.flatMap expand).map image := by
        rw [List.flatMap_map, List.map_flatMap]
        exact List.flatMap_congr fun node member =>
          expands node (start node member)
      have passed : ∀ node ∈ level.flatMap expand, invariant node := by
        intro node expanded
        obtain ⟨below, member, expanded⟩ := List.mem_flatMap.mp expanded
        exact passes below (start below member) node expanded
      obtain ⟨nodes, after⟩ := newcomers_map idOf idOf' image injective
        (fun node member => ids node (passed node member)) same
      rw [visits_succ, visits_succ, candidates, nodes, List.isEmpty_map]
      split
      · rfl
      · rw [List.map_append, ih after _ ?_]
        intro node stays
        exact passed node (mem_of_mem_newcomers idOf stays).1

end Walk

end NominalTypes
