import NominalTypes.Proofs.Registry.Soundness

namespace NominalTypes

/-! Parents that are linked one after the other.  Whether a registry accepts all
of them does not depend on their order: what counts is what they make of the
declarations in the end. -/

/-- A declaration without its parents. -/
def Declaration.rootless (declaration : Declaration) : Declaration :=
  { declaration with superclass := none, interfaces := [] }

/-- The catalogs declare the same under each identity, parents apart. -/
def Catalog.SameHeads (first second : Catalog) : Prop :=
  ∀ id, (second.declaration? id).map Declaration.rootless =
    (first.declaration? id).map Declaration.rootless

namespace Catalog.SameHeads

variable {first second : Catalog} (same : first.SameHeads second)

include same

theorem contains (id : TypeId) : second.contains id = first.contains id := by
  have heads := congrArg Option.isSome (same id)
  rwa [Option.isSome_map, Option.isSome_map] at heads

theorem kind (id : TypeId) : second.kind id = first.kind id := by
  have heads := congrArg (Option.map Declaration.kind) (same id)
  rw [Catalog.kind, Catalog.kind]
  cases left : first.declaration? id <;>
    cases right : second.declaration? id <;>
    simp_all [Declaration.rootless]

theorem arity (id : TypeId) : second.arity id = first.arity id := by
  have heads := congrArg (Option.map Declaration.arity) (same id)
  rw [Catalog.arity, Catalog.arity]
  cases left : first.declaration? id <;>
    cases right : second.declaration? id <;>
    simp_all [Declaration.rootless]

theorem term_wellFormed_iff {arity : Nat} (term : Term) :
    term.WellFormed second arity ↔ term.WellFormed first arity := by
  induction term with
  | slot index => rw [Term.wellFormed_slot_iff, Term.wellFormed_slot_iff]
  | closed ty => exact ⟨fun _ => .closed ty, fun _ => .closed ty⟩
  | apply id args ih =>
      rw [Term.wellFormed_apply_iff, Term.wellFormed_apply_iff,
        same.contains, same.arity]
      exact and_congr_right fun _ => and_congr_right fun _ => forall₂_congr ih

end Catalog.SameHeads

/-- A parent that a declared type is to have. -/
structure Link where
  owner : TypeId
  /-- Whether the parent is to be the superclass, and not one of
  the interfaces. -/
  asSuperclass : Bool
  parent : Parent

/-- The declaration of the owner with the parent. -/
def Link.join (link : Link) (declaration : Declaration) : Declaration :=
  if link.asSuperclass then { declaration with superclass := some link.parent }
  else { declaration with
    interfaces := declaration.interfaces ++ [link.parent] }

@[simp] theorem Link.rootless_join (link : Link) (declaration : Declaration) :
    (link.join declaration).rootless = declaration.rootless := by
  rw [join]
  split <;> rfl

namespace Registry

def link (registry : Registry) (link : Link) : Except LinkError Registry :=
  if link.asSuperclass then registry.setSuperclass link.owner link.parent
  else registry.addInterface link.owner link.parent

def linkAll (registry : Registry) (links : List Link) :
    Except LinkError Registry :=
  links.foldlM link registry

variable {registry middle after : Registry} {first : Link} {links : List Link}

theorem link_eq_ok_iff :
    registry.link first = .ok after ↔
      registry.catalog.checkParent first.owner first.parent = .ok () ∧
        (first.asSuperclass = true →
          registry.catalog.kind first.parent.id = .classType ∧
            registry.catalog.superclass first.owner = none) ∧
        after = registry.advance
          (registry.catalog.update first.owner first.join) := by
  obtain ⟨owner, asSuperclass, parent⟩ := first
  cases asSuperclass with
  | true =>
      rw [link, if_pos rfl, setSuperclass_eq_ok_iff]
      simp only [forall_const, and_assoc]
      rfl
  | false =>
      rw [link, if_neg Bool.false_ne_true, addInterface_eq_ok_iff]
      simp only [Bool.false_eq_true, false_imp_iff, true_and]
      rfl

section Step

variable (linked : registry.link first = .ok middle)

include linked

theorem names_link : middle.names = registry.names := by
  obtain ⟨_, _, rfl⟩ := link_eq_ok_iff.mp linked
  rfl

theorem declaration?_link (id : TypeId) :
    middle.catalog.declaration? id =
      if id = first.owner then (registry.catalog.declaration? id).map first.join
      else registry.catalog.declaration? id := by
  obtain ⟨_, _, rfl⟩ := link_eq_ok_iff.mp linked
  rw [advance, Catalog.declaration?_generation, Catalog.declaration?_update]

theorem sameHeads_link : registry.catalog.SameHeads middle.catalog := by
  intro id
  rw [declaration?_link linked]
  split
  · simp [Function.comp_def]
  · rfl

theorem linked_link :
    registry.catalog.Linked middle.catalog first.owner first.parent := by
  rw [link] at linked
  split at linked
  · exact linked_of_setSuperclass linked
  · exact linked_of_addInterface linked

theorem superclass_link (id : TypeId) :
    middle.catalog.superclass id =
      if id = first.owner ∧ first.asSuperclass = true then some first.parent
      else registry.catalog.superclass id := by
  obtain ⟨declaration, declared⟩ := Catalog.declaration?_of_contains
    ((registry.catalog.checkParent_eq_ok_iff _ _).mp (link_eq_ok_iff.mp linked).1).1
  rw [Catalog.superclass, Catalog.superclass, declaration?_link linked]
  by_cases own : id = first.owner
  · subst own
    cases kind : first.asSuperclass <;> simp [declared, Link.join, kind]
  · simp [own]

end Step

/-- A declared parent of the registry, or one of the links. -/
def EdgeWith (registry : Registry) (links : List Link)
    (id ancestor : TypeId) : Prop :=
  registry.catalog.HasParent id ancestor ∨
    ∃ link ∈ links, link.owner = id ∧ link.parent.id = ancestor

theorem edgeWith_link (linked : registry.link first = .ok middle)
    (id ancestor : TypeId) :
    middle.EdgeWith links id ancestor ↔
      registry.EdgeWith (first :: links) id ancestor := by
  have edges : middle.catalog.HasParent id ancestor ↔
      registry.catalog.HasParent id ancestor ∨ first.owner = id ∧
          first.parent.id = ancestor := by
    simp only [Catalog.HasParent, (linked_link linked).mem_parents_iff]
    constructor
    · rintro ⟨parent, old | ⟨rfl, rfl⟩, rfl⟩
      · exact .inl ⟨parent, old, rfl⟩
      · exact .inr ⟨rfl, rfl⟩
    · rintro (⟨parent, old, rfl⟩ | ⟨rfl, rfl⟩)
      · exact ⟨parent, .inl old, rfl⟩
      · exact ⟨first.parent, .inr ⟨rfl, rfl⟩, rfl⟩
  simp only [EdgeWith, edges, List.mem_cons, exists_eq_or_imp, or_assoc]

theorem acyclic_link (linked : registry.link first = .ok middle)
    (acyclic : registry.catalog.Acyclic) : middle.catalog.Acyclic := by
  obtain ⟨_, _, separate⟩ := (registry.catalog.checkParent_eq_ok_iff _ _).mp
    (link_eq_ok_iff.mp linked).1
  refine acyclic.of_newEdge (fun id parent edge => ?_) separate
  have added : registry.EdgeWith [first] id parent :=
    (edgeWith_link linked id parent).mp (.inl edge)
  rcases added with old | ⟨link, member, rfl, rfl⟩
  · exact .inl old
  · obtain rfl := List.mem_singleton.mp member
    exact .inr ⟨rfl, rfl⟩

/-- All the links together leave the registry sound: each parent fits its
owner, superclasses are classes and at most one for each type, and no type
comes above itself. -/
structure Admits (registry : Registry) (links : List Link) : Prop where
  declared : ∀ link ∈ links, registry.catalog.contains link.owner = true
  fits : ∀ link ∈ links,
    link.parent.term.WellFormed registry.catalog
      (registry.catalog.arity link.owner)
  isClass : ∀ link ∈ links, link.asSuperclass = true →
    registry.catalog.kind link.parent.id = .classType
  free : ∀ link ∈ links, link.asSuperclass = true →
    registry.catalog.superclass link.owner = none
  once : links.Pairwise fun first second => first.asSuperclass = true →
    second.asSuperclass = true → first.owner ≠ second.owner
  acyclic : ∀ id, ¬ Relation.TransGen (registry.EdgeWith links) id id

theorem Admits.exists_link (admits : registry.Admits (first :: links)) :
    ∃ middle, registry.link first = .ok middle ∧ middle.Admits links := by
  have separate :
      ¬ registry.catalog.DerivesFrom first.parent.id first.owner := by
    intro below
    have edges : ∀ id ancestor, registry.catalog.HasParent id ancestor →
        registry.EdgeWith (first :: links) id ancestor :=
          fun _ _ edge => .inl edge
    refine admits.acyclic first.owner
      (Relation.TransGen.head' ?_ (Relation.ReflTransGen.mono edges _ _ below))
    exact .inr ⟨first, List.mem_cons_self, rfl, rfl⟩
  have checked :
      registry.catalog.checkParent first.owner first.parent = .ok () :=
    (registry.catalog.checkParent_eq_ok_iff _ _).mpr
      ⟨admits.declared first List.mem_cons_self,
        admits.fits first List.mem_cons_self, separate⟩
  have linked := link_eq_ok_iff.mpr ⟨checked, fun superclass =>
    ⟨admits.isClass first List.mem_cons_self superclass,
      admits.free first List.mem_cons_self superclass⟩, rfl⟩
  have same := sameHeads_link linked
  obtain ⟨apart, once⟩ := List.pairwise_cons.mp admits.once
  refine ⟨_, linked, ?_, ?_, ?_, ?_, once, ?_⟩
  · intro link member
    rw [same.contains]
    exact admits.declared link (List.mem_cons_of_mem _ member)
  · intro link member
    rw [same.term_wellFormed_iff, same.arity]
    exact admits.fits link (List.mem_cons_of_mem _ member)
  · intro link member superclass
    rw [same.kind]
    exact admits.isClass link (List.mem_cons_of_mem _ member) superclass
  · intro link member superclass
    rw [superclass_link linked, if_neg]
    · exact admits.free link (List.mem_cons_of_mem _ member) superclass
    · rintro ⟨own, firstToo⟩
      exact apart link member firstToo superclass own.symm
  · intro id cycle
    exact admits.acyclic id
      (Relation.TransGen.mono
        (fun _ _ edge => (edgeWith_link linked _ _).mp edge) _ _ cycle)

theorem Admits.of_link (linked : registry.link first = .ok middle)
    (admits : middle.Admits links) : registry.Admits (first :: links) := by
  obtain ⟨checked, allowed, _⟩ := link_eq_ok_iff.mp linked
  obtain ⟨declared, fits, _⟩ :=
    (registry.catalog.checkParent_eq_ok_iff _ _).mp checked
  have same := sameHeads_link linked
  have free : ∀ link ∈ links, link.asSuperclass = true →
      registry.catalog.superclass link.owner = none ∧
        (first.asSuperclass = true → first.owner ≠ link.owner) := by
    intro link member superclass
    have later := admits.free link member superclass
    rw [superclass_link linked] at later
    split at later
    · cases later
    · rename_i other
      exact ⟨later, fun firstToo own => other ⟨own.symm, firstToo⟩⟩
  refine ⟨?_, ?_, ?_, ?_, ?_, ?_⟩
  · refine List.forall_mem_cons.mpr ⟨declared, fun link member => ?_⟩
    rw [← same.contains]
    exact admits.declared link member
  · refine List.forall_mem_cons.mpr ⟨fits, fun link member => ?_⟩
    rw [← same.term_wellFormed_iff, ← same.arity]
    exact admits.fits link member
  · refine List.forall_mem_cons.mpr
      ⟨fun superclass => (allowed superclass).1, ?_⟩
    intro link member superclass
    rw [← same.kind]
    exact admits.isClass link member superclass
  · exact List.forall_mem_cons.mpr ⟨fun superclass => (allowed superclass).2,
      fun link member superclass => (free link member superclass).1⟩
  · exact List.pairwise_cons.mpr ⟨fun link member firstToo superclass =>
      (free link member superclass).2 firstToo, admits.once⟩
  · intro id cycle
    exact admits.acyclic id
      (Relation.TransGen.mono
        (fun _ _ edge => (edgeWith_link linked _ _).mpr edge) _ _ cycle)

/-- The parents are all accepted, one after the other, exactly if the registry
admits them together. -/
theorem exists_linkAll_iff (acyclic : registry.catalog.Acyclic) :
    (∃ after, registry.linkAll links = .ok after) ↔ registry.Admits links := by
  induction links generalizing registry with
  | nil =>
      refine iff_of_true ⟨registry, rfl⟩ ⟨nofun, nofun, nofun, nofun, .nil,
        fun id cycle => ?_⟩
      have declared : ∀ id ancestor, registry.EdgeWith [] id ancestor →
          registry.catalog.HasParent id ancestor := by
        rintro _ _ (edge | ⟨_, member, _⟩)
        · exact edge
        · cases member
      exact acyclic id (Relation.TransGen.mono declared _ _ cycle)
  | cons first rest ih =>
      constructor
      · rintro ⟨after, linked⟩
        rw [linkAll, List.foldlM_cons, bind_eq_ok_iff] at linked
        obtain ⟨middle, linked, later⟩ := linked
        exact .of_link linked
          ((ih (acyclic_link linked acyclic)).mp ⟨after, later⟩)
      · intro admits
        obtain ⟨middle, linked, remaining⟩ := admits.exists_link
        obtain ⟨after, later⟩ :=
          (ih (acyclic_link linked acyclic)).mpr remaining
        exact ⟨after, by rw [linkAll, List.foldlM_cons, linked]; exact later⟩

end Registry

end NominalTypes
