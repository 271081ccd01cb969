import NominalTypes.Proofs.Loading.Acceptance

namespace NominalTypes

/-! Loaded registries are among those that calls lead to, so everything that
holds of these holds of them. -/

/-- What is written in a catalog mentions no closed types. -/
theorem Expr.Denotes.allClosed {entries : List Entry} {params : List String}
    {expr : Expr} {term : Term} (denotes : expr.Denotes entries params term)
    (property : Ty → Prop) : term.AllClosed property := by
  induction expr generalizing term with
  | hole => cases denotes
  | named name args ih =>
      cases denotes with
      | @param _ index _ => exact .slot index
      | type _ _ each =>
          refine .apply fun term member => ?_
          obtain ⟨arg, standing, denoted⟩ :=
            exists_mem_of_forall₂ each.flip member
          exact ih arg standing denoted

namespace Registry

variable {registry after : Registry} {entries : List Entry}

/-- What calls do not change. -/
theorem unknownName_apply (registry : Registry) (change : Change) :
    (registry.apply change).catalog.unknownName =
      registry.catalog.unknownName := by
  cases change with
  | declare kind name params => rfl
  | setSuperclass owner parent =>
      cases outcome : registry.setSuperclass owner parent with
      | error _ => simp [apply, outcome]
      | ok linked =>
          obtain ⟨_, _, _, rfl⟩ :=
            (setSuperclass_eq_ok_iff registry owner parent linked).mp outcome
          simp only [apply, outcome]
          exact Catalog.unknownName_update _ owner _
  | addInterface owner parent =>
      cases outcome : registry.addInterface owner parent with
      | error _ => simp [apply, outcome]
      | ok linked =>
          obtain ⟨_, rfl⟩ :=
            (addInterface_eq_ok_iff registry owner parent linked).mp outcome
          simp only [apply, outcome]
          exact Catalog.unknownName_update _ owner _

theorem Reachable.unknownName (reachable : registry.Reachable) :
    registry.catalog.unknownName = Registry.empty.catalog.unknownName := by
  induction reachable with
  | empty => rfl
  | apply change _ _ ih => exact (unknownName_apply _ change).trans ih

theorem Reachable.link {link : Link} (reachable : registry.Reachable)
    (closed : link.parent.term.AllClosed (Ty.WellFormed registry.catalog))
    (linked : registry.link link = .ok after) : after.Reachable := by
  obtain ⟨owner, asSuperclass, parent⟩ := link
  cases asSuperclass with
  | true =>
      have accepted : registry.setSuperclass owner parent = .ok after := linked
      have next :=
        Reachable.apply (.setSuperclass owner parent) reachable closed
      rwa [Registry.apply, accepted] at next
  | false =>
      have accepted : registry.addInterface owner parent = .ok after := linked
      have next := Reachable.apply (.addInterface owner parent) reachable closed
      rwa [Registry.apply, accepted] at next

theorem Reachable.linkAll {links : List Link} (reachable : registry.Reachable)
    (closed : ∀ link ∈ links, ∀ catalog,
      link.parent.term.AllClosed (Ty.WellFormed catalog))
    (linked : registry.linkAll links = .ok after) : after.Reachable := by
  induction links generalizing registry with
  | nil =>
      obtain rfl := linkAll_nil_eq_ok_iff.mp linked
      exact reachable
  | cons first rest ih =>
      obtain ⟨closedFirst, closedRest⟩ := List.forall_mem_cons.mp closed
      obtain ⟨middle, linkedFirst, later⟩ := linkAll_cons_eq_ok_iff.mp linked
      exact ih (reachable.link (closedFirst registry.catalog) linkedFirst)
        closedRest later

theorem Reachable.declareEntries (reachable : registry.Reachable)
    (declared : registry.declareEntries entries = .ok after) :
    after.Reachable := by
  induction entries generalizing registry with
  | nil =>
      obtain rfl := Except.ok.inj declared
      exact reachable
  | cons entry rest ih =>
      obtain ⟨middle, first, later⟩ := declareEntries_cons_eq_ok_iff.mp declared
      refine ih ?_ later
      rw [declareEntry, check_bind_eq_ok_iff] at first
      simp only [bind, Except.bind, throw, throwThe, MonadExceptOf.throw, pure,
        Except.pure, refusing_eq_ok_iff, Except.ok.injEq] at first
      obtain ⟨_, _, rfl⟩ := first
      exact .apply (.declare entry.kind entry.name entry.params)
        reachable trivial

theorem reachable_of_ofEntries (loaded : ofEntries entries = .ok registry) :
    registry.Reachable := by
  obtain ⟨_, plain, declared, declarations, first, _, _, each, linked⟩ :=
    exists_of_ofEntries loaded
  refine (Reachable.empty.declareEntries first).linkAll
    (fun link member catalog => ?_) linked
  obtain ⟨entry, _, text, _, ⟨expr, _, denotes⟩, _⟩ :=
    exists_entry_of_mem_links plain each member
  exact denotes.allClosed _

theorem Holds.allClosed (holds : registry.Holds entries) (property : Ty → Prop)
    (id : TypeId) :
    ∀ parent ∈ registry.catalog.parents id, parent.term.AllClosed property := by
  intro parent member
  obtain ⟨entry, found⟩ :=
    holds.contains_iff.mp (Catalog.contains_of_hasParent ⟨parent, member, rfl⟩)
  obtain ⟨declaration, declared, described⟩ := holds.declaration id entry found
  have written : ∃ text, parent.WrittenAs entries entry.params text := by
    rw [Catalog.parents, Catalog.superclass, Catalog.interfaces,
      declared] at member
    rcases List.mem_append.mp member with member | member
    · obtain ⟨text, _, written⟩ :=
        exists_mem_of_forall₂ described.superclass.flip member
      exact ⟨text, written⟩
    · obtain ⟨text, _, written⟩ :=
        exists_mem_of_forall₂ described.interfaces.flip member
      exact ⟨text, written⟩
  obtain ⟨_, _, _, denotes⟩ := written
  exact denotes.allClosed property

end Registry

end NominalTypes
